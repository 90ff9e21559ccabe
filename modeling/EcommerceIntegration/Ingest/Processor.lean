import EcommerceIntegration.Ingest.Handlers

/-!
# The event processor and its three barriers

A reservation in Redis, the primary key of `processed_events`, and the constraints of
the business tables. The second and the effect of the handler are one transaction.
-/

namespace EcommerceIntegration

set_option autoImplicit false

inductive Outcome
  | processed
  | duplicate
  | retry
  | rejected
  deriving DecidableEq

structure Result where
  outcome : Outcome
  detail : String := ""
  deriving DecidableEq

def Result.shouldAck (r : Result) : Bool := decide (r.outcome ≠ .retry)

namespace RedisDeduplicator

def dedupeKeyPrefix : String := "evt"
def claimWhenRedisUnavailable : Bool := true

def key (eventId : String) : String := dedupeKeyPrefix ++ ":" ++ eventId

def claim (eventId : String) : Session Bool :=
  tryCatch (perform (.request (.setNx (key eventId)))) fun _ => pure claimWhenRedisUnavailable

def release (eventId : String) : Session Unit :=
  tryCatch (do let _ ← perform (.request (.delete (key eventId)))) fun _ => pure ()

end RedisDeduplicator

namespace UnitOfWork

def commit : Session Unit := perform .commit

def rollback : Session Unit := perform .rollback

/-- `with UnitOfWork(...) as uow`: an exception rolls back, and closing the session
rolls back whatever is not committed. -/
def scope {α : Type} (body : Session α) : Session α := do
  let result ← tryCatch (do let a ← body; pure (Except.ok a)) fun e => do
    rollback
    pure (.error e)
  rollback
  match result with
  | .ok a => pure a
  | .error e => throw e

end UnitOfWork

def Constraint.text : Constraint → String
  | .pk _ | .pkProcessedEvents => "PRIMARY KEY"
  | .uqClientsClientUid => "uq_clients_client_uid"
  | .uxAddressUidCurrent => "ux_address_uid_current"
  | .fkAddressClient => "fk_address_client"
  | .uqOrdersOrderUid => "uq_orders_order_uid"
  | .fkOrdersClient => "fk_orders_client"
  | .fkOrdersShippingAddress => "fk_orders_shipping_address"
  | .fkOrdersBillingAddress => "fk_orders_billing_address"
  | .fkOrderItemsOrder => "fk_order_items_order"
  | .uxPaymentProviderTx => "ux_payment_provider_tx"
  | .fkPaymentOrder => "fk_payment_order"
  | .uxInvoiceOrder => "ux_invoice_order"
  | .uxInvoiceNumberSeries => "ux_invoice_number_series"
  | .fkInvoicesOrder => "fk_invoices_order"

def AppError.text : AppError → String
  | .dependencyNotReady message => message
  | .validation report => report
  | .keyError message => "'" ++ message ++ "'"
  | .attributeError message => message
  | .indexError message => message

/-- The text of the root cause. -/
def exnText : Exn → String
  | .integrity c => c.text
  | .fault message => message
  | .app e => e.text

/-- The characters at which `splitlines` ends a line. -/
def lineBoundaries : List Char :=
  ['\n', '\r', '\x0b', '\x0c', '\x1c', '\x1d', '\x1e', '\u0085', '\u2028', '\u2029']

/-- `str(root).splitlines()[0][:220]`; an empty text has no line at all. -/
def summarize (e : Exn) : Session String :=
  match (exnText e).toList with
  | [] => throw (.app (.indexError "list index out of range"))
  | text => pure (String.ofList ((text.takeWhile (· ∉ lineBoundaries)).take 220))

namespace EventProcessor

def discardedByRedis : String := "descartado pelo dedupe do Redis"
def alreadyInLedger : String := "ja registrado em processed_events"
def barredByConstraint : String := "barrado por constraint de negocio"

def claimInLedger (envelope : EventEnvelope) : Session Bool :=
  tryCatch
    (do
      ProcessedEventRepository.register envelope.eventId envelope.eventType
      pure true)
    fun e =>
      match e with
      | .integrity _ => do
        UnitOfWork.rollback
        pure false
      | e => throw e

/-- The handler and the commit, inside the transaction that holds the ledger row. -/
def applyHandler (handler : EventHandler) (envelope : EventEnvelope) : Session Result :=
  tryCatch
    (do
      handler envelope
      UnitOfWork.commit
      pure ⟨.processed, ""⟩)
    fun e =>
      match e with
      | .integrity _ => do
        UnitOfWork.rollback
        pure ⟨.duplicate, barredByConstraint⟩
      | e => throw e

def apply (registry : HandlerRegistry) (envelope : EventEnvelope) : Session Result := do
  let handler ← registry.get envelope.eventType
  UnitOfWork.scope do
    if ← claimInLedger envelope then
      applyHandler handler envelope
    else
      pure ⟨.duplicate, alreadyInLedger⟩

/-- The `except` clauses of `process`. -/
def failed (envelope : EventEnvelope) (e : Exn) : Session Result := do
  RedisDeduplicator.release envelope.eventId
  match e with
  | .app (.dependencyNotReady message) => pure ⟨.retry, message⟩
  | e =>
    let detail ← summarize e
    pure ⟨.retry, detail⟩

def process (registry : HandlerRegistry) (envelope : EventEnvelope) : Session Result := do
  if registry.supports envelope.eventType then
    if ← RedisDeduplicator.claim envelope.eventId then
      tryCatch (apply registry envelope) (failed envelope)
    else
      pure ⟨.duplicate, discardedByRedis⟩
  else
    pure ⟨.rejected, "tipo desconhecido: " ++ envelope.eventType.value⟩

end EventProcessor

end EcommerceIntegration
