import EcommerceIntegration.Ingest.Executions

/-!
# Complete executions of the payment handler

The handler reads the order, records the payment, and when the event approves an
order that it has read as PENDING it updates the order and fills the outbox.
-/

namespace EcommerceIntegration

set_option autoImplicit false

open Transaction

/-- The row that a new provider transaction gets. -/
def newPayment (orderId : Nat) (data : PaymentUpdatedData) : Payment where
  paymentId := 0
  orderId := orderId
  provider := data.provider
  providerTxId := data.providerTxId
  method := data.method
  status := data.status
  amount := data.amount
  approvedAt := if data.status = .approved then some data.occurredAt.replaceTzinfoNone else none

/-- The columns that change on the row of a known transaction. -/
def paymentUpdate (data : PaymentUpdatedData) (p : Payment) :
    Option PaymentStatus × Option Time :=
  (changed p.status data.status,
    if decide (data.status = .approved) && p.approvedAt.isNone then
      some data.occurredAt.replaceTzinfoNone
    else none)

def recordUpdate (data : PaymentUpdatedData) (p : Payment) : List Change :=
  let (s, t) := paymentUpdate data p
  if s.isSome || t.isSome then [.executed (.updatePayment p.paymentId s t)] else []

def storedOrder (d : Database) (orderUid : String) : Option Order :=
  d.orders.find? (·.orderUid == orderUid)

def storedPayment (d : Database) (data : PaymentUpdatedData) : Option Payment :=
  d.payment.find? fun p => p.provider == data.provider && p.providerTxId == data.providerTxId

section Payment
variable {R : Rely store EventEnvelope}

/-- From `h` on, with the writes `ws` pending, the payment is recorded by `record`
at the history `h'`. -/
inductive Recorded (R : Rely store EventEnvelope) (orderId : Nat) (data : PaymentUpdatedData)
    (h : History) (ws : List Change) (h' : History) : List Change → Prop
  | created {h₁ h₂ id} (read : R.allows h h₁) (inserted : R.allows h₁ h₂) (later : R.allows h₂ h')
      (absent : storedPayment (engine.view h₁ ws) data = none)
      (new : NewId keyLaws h₂ ws (.payment (newPayment orderId data)) id)
      (allowed : (engine.view h₂ ws).violated (.inserted (.payment (newPayment orderId data)) id) =
        none) :
    Recorded R orderId data h ws h' [.inserted (.payment (newPayment orderId data)) id]
  | updated {h₁ p} (read : R.allows h h₁) (later : R.allows h₁ h')
      (found : storedPayment (engine.view h₁ ws) data = some p) :
    Recorded R orderId data h ws h' (recordUpdate data p)

/-- The message `m` for the order `o` is built from what is visible at `h` with `ws`
pending. -/
structure Notifies (R : Rely store EventEnvelope) (o : Order) (h : History) (ws : List Change)
    (h' : History) (m : OutboxMessage) : Prop where
  eventType : m.eventType = PaymentUpdatedHandler.orderApprovedEvent
  aggregate : m.aggregateId = o.orderUid
  payment : ∃ h₁, R.allows h h₁ ∧ R.allows h₁ h' ∧ m.payload.payment =
    (((engine.view h₁ ws).payment.filter (·.orderId == o.orderId)).argmax Payment.paymentId).map
      paymentSection

variable {i : EventEnvelope} {h h' : History} {ws ws' : List Change}

theorem recordPayment_runs {o : Order} {data : PaymentUpdatedData} {u : Unit}
    (hr : Runs keyLaws R
      (PaymentUpdatedHandler.recordPayment o data data.occurredAt.replaceTzinfoNone) h ws h' ws'
      (.value u)) :
    ∃ record, ws' = ws ++ record ∧ Recorded R o.orderId data h ws h' record := by
  simp only [PaymentUpdatedHandler.recordPayment, PaymentRepository.upsert,
    PaymentRepository.getByProviderTransaction, Program.bind_eq, Program.andThen_assoc] at hr
  obtain ⟨h₁, hle₁, _, hr⟩ := runs_select hr
  split at hr
  · rename_i habsent
    simp only [Program.andThen_assoc] at hr
    obtain ⟨h₂, id, hle₂, hnew, ⟨hok, hr⟩ | ⟨_, _, he, _⟩⟩ := runs_insert hr
    · obtain ⟨hle₃, rfl, _⟩ := hr
      refine ⟨_, rfl, ?_⟩
      have hrow : newPayment o.orderId data = ⟨0, o.orderId, data.provider, data.providerTxId,
          data.method, data.status, data.amount,
          if decide (data.status = .approved) = true then
            some data.occurredAt.replaceTzinfoNone else none⟩ := by
        simp [newPayment]
      rw [← hrow] at hnew hok ⊢
      exact .created hle₁ hle₂ hle₃ habsent hnew hok
    · cases he
  · rename_i p hfound
    simp only [Program.andThen_assoc] at hr
    obtain ⟨h₂, hle₂, hr⟩ := runs_flush (fun _ => rfl) hr
    obtain ⟨hle₃, rfl, _⟩ := hr
    exact ⟨recordUpdate data p, rfl, .updated hle₁ (R.trans hle₂ hle₃) hfound⟩

theorem enqueueErpNotification_runs {o : Order} {u : Unit}
    (hr : Runs keyLaws R (PaymentUpdatedHandler.enqueueErpNotification o) h ws h' ws'
      (.value u)) :
    ∃ m id, ws' = ws ++ [.inserted (.outbox m) id] ∧ Notifies R o h ws h' m := by
  simp only [PaymentUpdatedHandler.enqueueErpNotification, PaymentRepository.latestForOrder,
    OutboxRepository.enqueue, Program.bind_eq] at hr
  obtain ⟨h₁, hle₁, _, hr⟩ := runs_select hr
  have hlater := hr.later
  obtain ⟨h₂, client, _, _, hr⟩ := runs_related hr
  obtain ⟨h₃, shipping, _, _, hr⟩ := runs_related hr
  obtain ⟨h₄, billing, _, _, hr⟩ := runs_related hr
  obtain ⟨h₅, _, _, hr⟩ := runs_select hr
  simp only [Program.andThen_assoc] at hr
  obtain ⟨t, hr⟩ := runs_utcnow hr
  obtain ⟨h₆, id, _, _, ⟨_, hr⟩ | ⟨_, _, he, _⟩⟩ := runs_insert hr
  · obtain ⟨_, rfl, _⟩ := hr
    exact ⟨_, id, rfl, rfl, rfl, h₁, hle₁, hlater, rfl⟩
  · cases he

/-- What the handler writes after it has recorded the payment. -/
inductive Approval (R : Rely store EventEnvelope) (o : Order) (status : PaymentStatus)
    (h : History) (ws : List Change) (h' : History) : List Change → Prop
  | none (notNow : status = .approved → o.status ≠ .pending) : Approval R o status h ws h' []
  | now {t m id h₁} (approves : status = .approved) (pending : o.status = .pending)
      (update : R.allows h h₁) (later : R.allows h₁ h')
      (notifies : Notifies R (o.set .approved t) h₁
        (ws ++ [.executed (.updateOrder o.orderId .approved t)]) h' m) :
    Approval R o status h ws h'
      [.executed (.updateOrder o.orderId .approved t), .inserted (.outbox m) id]

theorem paymentHandler_runs {u : Unit}
    (hr : Runs keyLaws R (PaymentUpdatedHandler.handle i) h ws h' ws' (.value u)) :
    ∃ (data : PaymentUpdatedData) (o : Order) (h₁ h₂ : History) (record approval : List Change),
      i.data.paymentUpdated = .ok data ∧
      R.allows h h₁ ∧ R.allows h₁ h₂ ∧ R.allows h₂ h' ∧
      storedOrder (engine.view h₁ ws) data.orderUid = some o ∧
      Recorded R o.orderId data h₁ ws h₂ record ∧
      Approval R o data.status h₂ (ws ++ record) h' approval ∧
      ws' = ws ++ record ++ approval := by
  simp only [PaymentUpdatedHandler.handle, Program.bind_eq] at hr
  obtain ⟨data, hdata, hr⟩ := runs_validate hr
  obtain ⟨h₁, o, hle₁, _, ho, hr⟩ := runs_requireOrder hr
  rcases hr.andThen with ⟨h₂, ws₂, _, hrec, hr⟩ | ⟨_, _, he, _⟩
  · have hle₂ := hrec.later
    have hle₃ := hr.later
    obtain ⟨record, rfl, hrecorded⟩ := recordPayment_runs hrec
    refine ⟨data, o, h₁, h₂, record, ?_⟩
    split at hr
    · rename_i happroved
      simp only [OrderRepository.transition, OrderRepository.transitionIsAllowed,
        approved_mem_allowed] at hr
      split at hr
      · rename_i hpending
        simp only [Program.bind_eq, Program.andThen_assoc] at hr
        obtain ⟨h₃, hle₄, hr⟩ := runs_execute (fun _ => rfl) hr
        have hle₅ := hr.later
        obtain ⟨m, id, rfl, hnotifies⟩ := enqueueErpNotification_runs hr
        refine ⟨[_, .inserted (.outbox m) id], hdata, hle₁, hle₂, hle₃, ho, hrecorded,
          .now happroved (by simpa using hpending) hle₄ hle₅ hnotifies, by simp⟩
      · rename_i hpending
        obtain ⟨_, rfl, _⟩ := hr
        exact ⟨[], hdata, hle₁, hle₂, hle₃, ho, hrecorded,
          .none fun _ => by simpa using hpending, by simp⟩
    · rename_i hother
      obtain ⟨_, rfl, _⟩ := hr
      exact ⟨[], hdata, hle₁, hle₂, hle₃, ho, hrecorded, .none fun h => absurd h hother, by simp⟩
  · cases he

end Payment

end EcommerceIntegration
