import EcommerceIntegration.Db.Database
import Mathlib.Data.List.MinMax

/-!
# Repositories

A session of the ORM as a program over the database. The objects that a query loads
are values; a flush writes the columns that differ from the loaded ones.
-/

namespace EcommerceIntegration

set_option autoImplicit false

open Transaction

def perform (o : Op store) : Session o.Res := Program.perform o

def select {α : Type} (query : Database → α) : Session α := do
  return query (← perform .select)

def insert (row : NewRow) : Session Nat := perform (.insert row)

def execute (stmt : Stmt) : Session Unit := perform (.execute stmt)

/-- `utcnow()` and `SYSUTCDATETIME()`. -/
def utcnow : Session Time := perform .now

/-- A flush writes an object only when one of its columns has changed. -/
def flush (dirty : Bool) (stmt : Stmt) : Session Unit :=
  if dirty then execute stmt else pure ()

def maxNumeric : Nat := 10 ^ 19
def maxInteger : Nat := 2 ^ 31

/-- The driver refuses a parameter that the column type cannot hold. -/
def requireFits (fits : Bool) : Session Unit :=
  if fits then pure () else throw (.fault "Numeric value out of range")

namespace ClientRepository

def getByUid (clientUid : String) : Session (Option Client) :=
  select fun d => d.clients.find? (·.clientUid == clientUid)

def insert (clientUid fullName document email : String) : Session Client := do
  let updatedAt ← utcnow
  let client : Client := ⟨0, clientUid, fullName, document, email, updatedAt⟩
  let clientId ← EcommerceIntegration.insert (.client client)
  return { client with clientId }

def upsert (clientUid fullName document email : String) : Session Client := do
  match ← getByUid clientUid with
  | none => insert clientUid fullName document email
  | some client =>
    let now ← utcnow
    let n := changed client.fullName fullName
    let doc := changed client.document document
    let e := changed client.email email
    let t := changed client.updatedAt now
    flush (n.isSome || doc.isSome || e.isSome || t.isSome)
      (.updateClient client.clientId n doc e t)
    return client.set n doc e t

end ClientRepository

namespace AddressRepository

def getCurrentVersion (addressUid : String) : Session (Option Address) :=
  select fun d => d.address.find? fun a => a.addressUid == addressUid && a.isCurrent

def differsFrom (address : Address) (payload : AddressPayload) : Bool :=
  address.fields != payload.fields

def closeVersion (address : Address) (closedAt : Time) : Session Unit :=
  execute (.closeAddress address.addressId closedAt)

def openVersion (clientId : Nat) (payload : AddressPayload) (openedAt : Time) :
    Session Address := do
  let address : Address :=
    ⟨0, payload.addressUid, clientId, payload.fields, openedAt, none, true⟩
  let addressId ← insert (.address address)
  return { address with addressId }

def upsertVersion (clientId : Nat) (payload : AddressPayload) : Session Address := do
  match ← getCurrentVersion payload.addressUid with
  | none => openVersion clientId payload (← utcnow)
  | some current =>
    if differsFrom current payload then
      let changedAt ← utcnow
      closeVersion current changedAt
      openVersion clientId payload changedAt
    else
      return current

end AddressRepository

namespace OrderRepository

def getByUid (orderUid : String) : Session (Option Order) :=
  select fun d => d.orders.find? (·.orderUid == orderUid)

def «exists» (orderUid : String) : Session Bool :=
  select fun d => d.orders.any (·.orderUid == orderUid)

def newItem (orderId : Nat) (item : OrderItemPayload) : OrderItem where
  orderItemId := 0
  orderId := orderId
  sku := item.sku
  description := item.description
  quantity := item.quantity
  unitPrice := item.unitPrice
  lineTotal := item.lineTotal

def addItems (orderId : Nat) : List OrderItemPayload → Session Unit
  | [] => pure ()
  | item :: items => do
    requireFits (item.quantity < maxInteger && item.lineTotal < maxNumeric)
    let _ ← insert (.orderItem (newItem orderId item))
    addItems orderId items

def create (orderUid : String) (clientId shippingAddressId billingAddressId : Nat)
    (currency : String) (totalAmount : Nat) (placedAt : Time) (sourceEventId : String)
    (items : List OrderItemPayload) : Session Order := do
  let order : Order :=
    ⟨0, orderUid, clientId, shippingAddressId, billingAddressId, .pending, currency, totalAmount,
      placedAt, none, sourceEventId⟩
  requireFits (order.totalAmount < maxNumeric)
  let orderId ← insert (.order order)
  addItems orderId items
  return { order with orderId }

def transitionIsAllowed (current target : OrderStatus) : Bool :=
  decide (target ∈ allowedOrderTransitions current)

/-- `none` where the source returns False, the changed order where it returns True. -/
def transition (order : Order) (newStatus : OrderStatus) (closedAt : Time) :
    Session (Option Order) := do
  if transitionIsAllowed order.status newStatus then
    let t := if order.closedAt = some closedAt then none else some closedAt
    execute (.updateOrder order.orderId newStatus t)
    return some (order.set newStatus t)
  else
    return none

end OrderRepository

namespace PaymentRepository

def getByProviderTransaction (provider providerTxId : String) : Session (Option Payment) :=
  select fun d => d.payment.find? fun p => p.provider == provider && p.providerTxId == providerTxId

/-- The payment and whether it was created. -/
def upsert (orderId : Nat) (provider providerTxId : String) (method : PaymentMethod)
    (status : PaymentStatus) (amount : Nat) (occurredAt : Time) (approved : Bool) :
    Session (Payment × Bool) := do
  match ← getByProviderTransaction provider providerTxId with
  | none =>
    let payment : Payment :=
      ⟨0, orderId, provider, providerTxId, method, status, amount,
        if approved then some occurredAt else none⟩
    let paymentId ← insert (.payment payment)
    return ({ payment with paymentId }, true)
  | some payment =>
    let s := changed payment.status status
    let t := if approved && payment.approvedAt.isNone then some occurredAt else none
    flush (s.isSome || t.isSome) (.updatePayment payment.paymentId s t)
    return (payment.set s t, false)

/-- ORDER BY payment_id DESC LIMIT 1. -/
def latestForOrder (orderId : Nat) : Session (Option Payment) :=
  select fun d => (d.payment.filter (·.orderId == orderId)).argmax Payment.paymentId

end PaymentRepository

namespace InvoiceRepository

def existsForOrder (orderId : Nat) : Session Bool :=
  select fun d => d.invoices.any (·.orderId == orderId)

def create (orderId : Nat) (invoiceNumber series accessKey : String) (issuedAt : Time)
    (totalAmount : Nat) : Session Invoice := do
  let invoice : Invoice := ⟨0, orderId, invoiceNumber, series, accessKey, issuedAt, totalAmount⟩
  let invoiceId ← insert (.invoice invoice)
  return { invoice with invoiceId }

end InvoiceRepository

namespace ProcessedEventRepository

def register (eventId : String) (eventType : EventType) : Session Unit :=
  execute (.registerEvent ⟨eventId, eventType⟩)

end ProcessedEventRepository

namespace OutboxRepository

def enqueue (aggregateType aggregateId eventType : String) (payload : OrderPayload) :
    Session OutboxMessage := do
  let nextAttemptAt ← utcnow
  let message : OutboxMessage :=
    ⟨0, aggregateType, aggregateId, eventType, payload, .pending, 0, nextAttemptAt,
      none, none, none, none⟩
  let outboxId ← insert (.outbox message)
  return { message with outboxId }

end OutboxRepository

end EcommerceIntegration
