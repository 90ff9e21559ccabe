import EcommerceIntegration.Domain.Enums
import EcommerceIntegration.Library.Decimal

/-!
# Events and their validated data

The data types carry the bounds that the models declare, so a value of one of them
is a payload that validation accepts. Amounts count ten-thousandths, the scale of
`Money` and of the Numeric(19,4) columns.
-/

namespace EcommerceIntegration

set_option autoImplicit false

/-- A string field with `min_length` and `max_length`. -/
abbrev Text (lo hi : Nat) := {s : String // lo ≤ s.length ∧ s.length ≤ hi}

/-- `max_digits=19, decimal_places=4, ge=0`. Validation counts the digits of a number that has
been rounded to 28 of them, so it accepts some longer numbers too; they are received items
only. -/
abbrev Money := {amount : Nat // amount < 10 ^ 19}

/-- Wall-clock time in microseconds from 1970 on. -/
abbrev Time := Int

/-- `datetime.max`. -/
def datetimeMax : Time := 253402300799999999

/-- A timestamp as received: with an UTC offset, or naive. -/
structure DateTime where
  wall : Time
  offset : Option Int
  deriving DecidableEq

/-- `.replace(tzinfo=None)`: the offset is dropped, the wall-clock time stays. -/
def DateTime.replaceTzinfoNone (d : DateTime) : Time := d.wall

structure AddressFields where
  street : String
  number : String
  complement : Option String
  district : String
  city : String
  state : String
  zipCode : String
  deriving DecidableEq

structure AddressPayload where
  addressUid : Text 1 64
  street : Text 0 160
  number : Text 0 20
  complement : Option (Text 0 80)
  district : Text 0 80
  city : Text 0 80
  state : Text 2 2
  zipCode : Text 8 8
  deriving DecidableEq

def AddressPayload.fields (a : AddressPayload) : AddressFields where
  street := a.street
  number := a.number
  complement := a.complement.map Subtype.val
  district := a.district
  city := a.city
  state := a.state
  zipCode := a.zipCode

structure ClientUpsertedData where
  clientUid : Text 1 64
  fullName : Text 0 160
  document : Text 11 14
  email : Text 0 160
  address : AddressPayload
  deriving DecidableEq

structure OrderItemPayload where
  sku : Text 0 40
  description : Text 0 200
  quantity : Nat
  quantity_pos : 0 < quantity
  unitPrice : Money
  deriving DecidableEq

structure OrderCreatedData where
  orderUid : Text 1 64
  clientUid : Text 1 64
  shippingAddressUid : Text 1 64
  billingAddressUid : Option String
  currency : Text 3 3
  placedAt : DateTime
  items : List OrderItemPayload
  items_nonempty : items ≠ []
  deriving DecidableEq

/-! ## Decimal arithmetic in the default context -/

def decimalPrecision : Nat := 28

/-- How many digits the number has beyond the precision of the context. -/
def excessDigits : Nat → Nat → Nat
  | 0, _ => 0
  | fuel + 1, n =>
    if n < 10 ^ decimalPrecision then 0 else excessDigits fuel (n / 10) + 1

/-- The result of an operation, rounded to 28 significant digits. -/
def decimalRound (n : Nat) : Nat :=
  let unit := 10 ^ excessDigits n n
  Decimal.roundHalfEven (n / unit) (n % unit) unit * unit

def OrderItemPayload.lineTotal (i : OrderItemPayload) : Nat :=
  decimalRound (i.unitPrice * i.quantity)

def OrderCreatedData.totalAmount (d : OrderCreatedData) : Nat :=
  d.items.foldl (fun acc i => decimalRound (acc + i.lineTotal)) 0

structure PaymentUpdatedData where
  orderUid : Text 1 64
  provider : Text 0 40
  providerTxId : Text 0 80
  method : PaymentMethod
  status : PaymentStatus
  amount : Money
  occurredAt : DateTime
  deriving DecidableEq

structure InvoiceIssuedData where
  orderUid : Text 1 64
  invoiceNumber : Text 0 40
  series : Text 0 10
  accessKey : Text 0 44
  issuedAt : DateTime
  totalAmount : Money
  deriving DecidableEq

/-- The `data` of an envelope: what `model_validate` of each model makes of it, the
validated data or the text of the validation error. -/
structure EventData where
  clientUpserted : Except String ClientUpsertedData
  orderCreated : Except String OrderCreatedData
  paymentUpdated : Except String PaymentUpdatedData
  invoiceIssued : Except String InvoiceIssuedData

structure EventEnvelope where
  eventId : Text 8 64
  eventType : EventType
  occurredAt : DateTime
  partner : Text 1 40
  data : EventData

end EcommerceIntegration
