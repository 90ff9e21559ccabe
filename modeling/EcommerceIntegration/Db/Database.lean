import EcommerceIntegration.Library.Locking
import EcommerceIntegration.Domain.OrderPayload

/-!
# The operational database and the reservations in Redis

Rows are appended and never deleted. The CHECK constraints of the schema hold by the
types of the columns, the other constraints are checked when a row is inserted. Text is
stored as it is and compared character by character, without the code page of a VARCHAR
and without a collation: a key stands for every text that its column takes for it. Times
are stored to the microsecond, without the rounding of a DATETIME, and the check of a
foreign key takes no shared lock.
-/

namespace EcommerceIntegration

set_option autoImplicit false

structure OutboxMessage where
  outboxId : Nat
  aggregateType : String
  aggregateId : String
  eventType : String
  payload : OrderPayload
  status : OutboxStatus
  attempts : Nat
  nextAttemptAt : Time
  lockedBy : Option String
  lockedAt : Option Time
  lastError : Option String
  sentAt : Option Time
  deriving DecidableEq

structure Database where
  clients : List Client := []
  address : List Address := []
  orders : List Order := []
  orderItems : List OrderItem := []
  payment : List Payment := []
  invoices : List Invoice := []
  processedEvents : List ProcessedEvent := []
  outbox : List OutboxMessage := []
  deriving DecidableEq

/-- A row to be inserted, whose identity column is still to be set. -/
inductive NewRow
  | client (row : Client)
  | address (row : Address)
  | order (row : Order)
  | orderItem (row : OrderItem)
  | payment (row : Payment)
  | invoice (row : Invoice)
  | outbox (row : OutboxMessage)
  deriving DecidableEq

def NewRow.table : NewRow → TableName
  | client _ => .clients
  | address _ => .address
  | order _ => .orders
  | orderItem _ => .orderItems
  | payment _ => .payment
  | invoice _ => .invoices
  | outbox _ => .outbox

/-- Statements that use no identity value. An UPDATE goes by the primary key and
sets the columns whose value differs from the one that was loaded. -/
inductive Stmt
  | registerEvent (row : ProcessedEvent)
  | updateClient (id : Nat) (fullName document email : Option String) (updatedAt : Option Time)
  | closeAddress (id : Nat) (validTo : Time)
  | updateOrder (id : Nat) (status : OrderStatus) (closedAt : Option Time)
  | updatePayment (id : Nat) (status : Option PaymentStatus) (approvedAt : Option Time)
  deriving DecidableEq

/-- The new value of a column, when it is not the loaded one. -/
def changed {α : Type} [DecidableEq α] (loaded new : α) : Option α :=
  if new = loaded then none else some new

@[simp] theorem changed_getD {α : Type} [DecidableEq α] (loaded new : α) :
    (changed loaded new).getD loaded = new := by
  unfold changed
  split
  · simp_all
  · rfl

/-- A dirty column gets the new value, whatever is stored meanwhile. -/
theorem changed_getD_of_isSome {α : Type} [DecidableEq α] {loaded new : α}
    (h : (changed loaded new).isSome = true) (stored : α) :
    (changed loaded new).getD stored = new := by
  unfold changed at h ⊢
  split at h
  · cases h
  · rename_i hne
    rw [if_neg hne, Option.getD_some]

inductive Lock
  | row (table : TableName) (id : Nat)
  | clientUid (uid : String)
  | currentAddress (uid : String)
  | orderUid (uid : String)
  | providerTx (provider tx : String)
  | invoiceOrder (orderId : Nat)
  | invoiceNumber (number series : String)
  | event (id : String)
  deriving DecidableEq

inductive Constraint
  | pk (table : TableName)
  | pkProcessedEvents
  | uqClientsClientUid
  | uxAddressUidCurrent
  | fkAddressClient
  | uqOrdersOrderUid
  | fkOrdersClient
  | fkOrdersShippingAddress
  | fkOrdersBillingAddress
  | fkOrderItemsOrder
  | uxPaymentProviderTx
  | fkPaymentOrder
  | uxInvoiceOrder
  | uxInvoiceNumberSeries
  | fkInvoicesOrder
  deriving DecidableEq

/-- The exceptions of the application code. -/
inductive AppError
  | dependencyNotReady (message : String)
  | validation (report : String)
  | keyError (message : String)
  | attributeError (message : String)
  | indexError (message : String)
  deriving DecidableEq

inductive RedisRequest
  /-- SET key "1" NX EX ttl: answers whether the key was set -/
  | setNx (key : String)
  | delete (key : String)
  deriving DecidableEq

/-- The database and the keys that Redis holds. -/
abbrev store : Transaction.Signature where
  Db := Database
  Row := NewRow
  Stmt := Stmt
  Table := TableName
  Lock := Lock
  Constraint := Constraint
  Error := AppError
  Request := RedisRequest
  Remote := List String

abbrev Change := Transaction.Change store
abbrev Session := Transaction.Session store
abbrev Exn := Transaction.Exn store

namespace Database

def insert (d : Database) (id : Nat) : NewRow → Database
  | .client r => { d with clients := d.clients ++ [{ r with clientId := id }] }
  | .address r => { d with address := d.address ++ [{ r with addressId := id }] }
  | .order r => { d with orders := d.orders ++ [{ r with orderId := id }] }
  | .orderItem r => { d with orderItems := d.orderItems ++ [{ r with orderItemId := id }] }
  | .payment r => { d with payment := d.payment ++ [{ r with paymentId := id }] }
  | .invoice r => { d with invoices := d.invoices ++ [{ r with invoiceId := id }] }
  | .outbox r => { d with outbox := d.outbox ++ [{ r with outboxId := id }] }

end Database

def Client.set (fullName document email : Option String) (updatedAt : Option Time)
    (c : Client) : Client :=
  { c with
    fullName := fullName.getD c.fullName
    document := document.getD c.document
    email := email.getD c.email
    updatedAt := updatedAt.getD c.updatedAt }

def Address.close (validTo : Time) (a : Address) : Address :=
  { a with validTo := some validTo, isCurrent := false }

def Order.set (status : OrderStatus) (closedAt : Option Time) (o : Order) : Order :=
  { o with status := status, closedAt := closedAt.or o.closedAt }

def Payment.set (status : Option PaymentStatus) (approvedAt : Option Time) (p : Payment) : Payment :=
  { p with status := status.getD p.status, approvedAt := approvedAt.or p.approvedAt }

/-- UPDATE ... WHERE. -/
def updateWhere {α : Type} (matching : α → Bool) (set : α → α) (rows : List α) : List α :=
  rows.map fun a => if matching a then set a else a

namespace Database

def execute (d : Database) : Stmt → Database
  | .registerEvent r => { d with processedEvents := d.processedEvents ++ [r] }
  | .updateClient id n doc e t =>
    { d with clients := updateWhere (·.clientId == id) (Client.set n doc e t) d.clients }
  | .closeAddress id t =>
    { d with address := updateWhere (·.addressId == id) (Address.close t) d.address }
  | .updateOrder id s t =>
    { d with orders := updateWhere (·.orderId == id) (Order.set s t) d.orders }
  | .updatePayment id s t =>
    { d with payment := updateWhere (·.paymentId == id) (Payment.set s t) d.payment }

def apply (d : Database) : Change → Database
  | .inserted row id => d.insert id row
  | .executed stmt => d.execute stmt

/-- The first of the constraints that is violated, in the order they are checked. -/
def firstViolated (checks : List (Bool × Constraint)) : Option Constraint :=
  (checks.find? Prod.fst).map Prod.snd

/-- For each constraint on the table of the row, whether the row violates it. -/
def checks (d : Database) (id : Nat) : NewRow → List (Bool × Constraint)
  | .client r =>
    [(d.clients.any (·.clientId == id), .pk .clients),
      (d.clients.any (·.clientUid == r.clientUid), .uqClientsClientUid)]
  | .address r =>
    [(d.address.any (·.addressId == id), .pk .address),
      (r.isCurrent && d.address.any fun a => a.addressUid == r.addressUid && a.isCurrent,
        .uxAddressUidCurrent),
      (!d.clients.any (·.clientId == r.clientId), .fkAddressClient)]
  | .order r =>
    [(d.orders.any (·.orderId == id), .pk .orders),
      (d.orders.any (·.orderUid == r.orderUid), .uqOrdersOrderUid),
      (!d.clients.any (·.clientId == r.clientId), .fkOrdersClient),
      (!d.address.any (·.addressId == r.shippingAddressId), .fkOrdersShippingAddress),
      (!d.address.any (·.addressId == r.billingAddressId), .fkOrdersBillingAddress)]
  | .orderItem r =>
    [(d.orderItems.any (·.orderItemId == id), .pk .orderItems),
      (!d.orders.any (·.orderId == r.orderId), .fkOrderItemsOrder)]
  | .payment r =>
    [(d.payment.any (·.paymentId == id), .pk .payment),
      (d.payment.any fun p => p.provider == r.provider && p.providerTxId == r.providerTxId,
        .uxPaymentProviderTx),
      (!d.orders.any (·.orderId == r.orderId), .fkPaymentOrder)]
  | .invoice r =>
    [(d.invoices.any (·.invoiceId == id), .pk .invoices),
      (d.invoices.any (·.orderId == r.orderId), .uxInvoiceOrder),
      (d.invoices.any fun i => i.invoiceNumber == r.invoiceNumber && i.series == r.series,
        .uxInvoiceNumberSeries),
      (!d.orders.any (·.orderId == r.orderId), .fkInvoicesOrder)]
  | .outbox _ => [(d.outbox.any (·.outboxId == id), .pk .outbox)]

def violated (d : Database) : Change → Option Constraint
  | .inserted row id => firstViolated (d.checks id row)
  | .executed (.registerEvent r) =>
    firstViolated [(d.processedEvents.any (·.eventId == r.eventId), .pkProcessedEvents)]
  | .executed _ => none

end Database

/-- The unique keys that the row brings and that no later statement changes. -/
def NewRow.keys (id : Nat) : NewRow → List Lock
  | .client r => [.row .clients id, .clientUid r.clientUid]
  | .address _ => [.row .address id]
  | .order r => [.row .orders id, .orderUid r.orderUid]
  | .orderItem _ => [.row .orderItems id]
  | .payment r => [.row .payment id, .providerTx r.provider r.providerTxId]
  | .invoice r =>
    [.row .invoices id, .invoiceOrder r.orderId, .invoiceNumber r.invoiceNumber r.series]
  | .outbox _ => [.row .outbox id]

/-- A row is locked by its primary key, an inserted row by its other unique keys too. -/
def locks : Change → List Lock
  | .inserted (.address r) id =>
    [.row .address id] ++ if r.isCurrent then [.currentAddress r.addressUid] else []
  | .inserted row id => row.keys id
  | .executed (.registerEvent r) => [.event r.eventId]
  | .executed (.updateClient id ..) => [.row .clients id]
  | .executed (.closeAddress id _) => [.row .address id]
  | .executed (.updateOrder id ..) => [.row .orders id]
  | .executed (.updatePayment id ..) => [.row .payment id]

def redis (reserved : List String) : RedisRequest → List String × Bool
  | .setNx key => if key ∈ reserved then (reserved, false) else (reserved ++ [key], true)
  | .delete key => (reserved.filter (· != key), decide (key ∈ reserved))

def engine : Transaction.Engine store where
  empty := {}
  table := NewRow.table
  apply := Database.apply
  violated := Database.violated
  locks := locks
  perform := redis

end EcommerceIntegration
