import EcommerceIntegration.Db.Repositories

/-!
# Handlers of the four event types

A handler runs in the transaction that registered the event. It reads, flushes its
writes one after the other and lets every exception through.
-/

namespace EcommerceIntegration

set_option autoImplicit false

/-- `model_validate`. -/
def validate {α : Type} : Except String α → Session α
  | .ok data => pure data
  | .error report => throw (.app (.validation report))

def requireDependency {α : Type} (message : String) : Option α → Session α
  | some a => pure a
  | none => throw (.app (.dependencyNotReady message))

namespace ClientUpsertedHandler

def handle (envelope : EventEnvelope) : Session Unit := do
  let data ← validate envelope.data.clientUpserted
  let client ← ClientRepository.upsert data.clientUid data.fullName data.document data.email
  let _ ← AddressRepository.upsertVersion client.clientId data.address

end ClientUpsertedHandler

namespace OrderCreatedHandler

def requireCurrentAddress (addressUid : String) : Session Address := do
  let address ← AddressRepository.getCurrentVersion addressUid
  requireDependency ("endereco " ++ addressUid ++ " ausente") address

/-- An empty text is as good as none. -/
def resolveBillingAddress (data : OrderCreatedData) (shipping : Address) : Session Address :=
  match data.billingAddressUid with
  | none => pure shipping
  | some uid =>
    if uid = "" || uid = data.shippingAddressUid then pure shipping
    else requireCurrentAddress uid

def handle (envelope : EventEnvelope) : Session Unit := do
  let data ← validate envelope.data.orderCreated
  if ← OrderRepository.exists data.orderUid then return ()
  let client ← requireDependency ("cliente " ++ data.clientUid ++ " ainda nao ingerido")
    (← ClientRepository.getByUid data.clientUid)
  let shipping ← requireCurrentAddress data.shippingAddressUid
  let billing ← resolveBillingAddress data shipping
  let _ ← OrderRepository.create data.orderUid client.clientId shipping.addressId
    billing.addressId data.currency data.totalAmount data.placedAt.replaceTzinfoNone
    envelope.eventId data.items

end OrderCreatedHandler

/-- The order of an event that comes after it. -/
def requireOrder (orderUid : String) : Session Order := do
  requireDependency ("pedido " ++ orderUid ++ " ainda nao ingerido")
    (← OrderRepository.getByUid orderUid)

namespace PaymentUpdatedHandler

def orderApprovedEvent : String := "order.approved"
def orderAggregate : String := "order"

def recordPayment (order : Order) (data : PaymentUpdatedData) (occurredAt : Time) :
    Session Unit := do
  let _ ← PaymentRepository.upsert order.orderId data.provider data.providerTxId data.method
    data.status data.amount occurredAt (decide (data.status = .approved))

/-- A row that a relationship leads to; the attribute of None raises. -/
def related {α : Type} (query : Database → Option α) : Session α := do
  match ← select query with
  | some row => return row
  | none => throw (.app (.attributeError "'NoneType' object has no attribute"))

def enqueueErpNotification (order : Order) : Session Unit := do
  let payment ← PaymentRepository.latestForOrder order.orderId
  let client ← related fun d => d.clients.find? (·.clientId == order.clientId)
  let shipping ← related fun d => d.address.find? (·.addressId == order.shippingAddressId)
  let billing ← related fun d => d.address.find? (·.addressId == order.billingAddressId)
  let items ← select fun d => d.orderItems.filter (·.orderId == order.orderId)
  let _ ← OutboxRepository.enqueue orderAggregate order.orderUid orderApprovedEvent
    (buildOrderPayload order client shipping billing items payment)

def handle (envelope : EventEnvelope) : Session Unit := do
  let data ← validate envelope.data.paymentUpdated
  let order ← requireOrder data.orderUid
  let occurredAt := data.occurredAt.replaceTzinfoNone
  recordPayment order data occurredAt
  if data.status = .approved then
    match ← OrderRepository.transition order .approved occurredAt with
    | some approved => enqueueErpNotification approved
    | none => pure ()

end PaymentUpdatedHandler

namespace InvoiceIssuedHandler

def handle (envelope : EventEnvelope) : Session Unit := do
  let data ← validate envelope.data.invoiceIssued
  let order ← requireOrder data.orderUid
  if ← InvoiceRepository.existsForOrder order.orderId then return ()
  let issuedAt := data.issuedAt.replaceTzinfoNone
  let _ ← InvoiceRepository.create order.orderId data.invoiceNumber data.series data.accessKey
    issuedAt data.totalAmount
  let _ ← OrderRepository.transition order .invoiced issuedAt

end InvoiceIssuedHandler

abbrev EventHandler := EventEnvelope → Session Unit

abbrev HandlerRegistry := List (EventType × EventHandler)

namespace HandlerRegistry

/-- The last handler given for a type is the one in the dictionary. -/
def find (registry : HandlerRegistry) (eventType : EventType) : Option EventHandler :=
  registry.reverse.lookup eventType

def get (registry : HandlerRegistry) (eventType : EventType) : Session EventHandler :=
  match registry.find eventType with
  | some handler => pure handler
  | none => throw (.app (.keyError ("sem handler registrado para " ++ eventType.value)))

def supports (registry : HandlerRegistry) (eventType : EventType) : Bool :=
  (registry.find eventType).isSome

end HandlerRegistry

def buildRegistry : HandlerRegistry :=
  [(.clientUpserted, ClientUpsertedHandler.handle),
    (.orderCreated, OrderCreatedHandler.handle),
    (.paymentUpdated, PaymentUpdatedHandler.handle),
    (.invoiceIssued, InvoiceIssuedHandler.handle)]

end EcommerceIntegration
