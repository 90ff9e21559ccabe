import EcommerceIntegration.Db.Models

/-!
# The document sent to the ERP

The document is kept as a value; its JSON text is read back by the dispatcher.
-/

namespace EcommerceIntegration

set_option autoImplicit false

structure OrderSection where
  orderUid : String
  status : OrderStatus
  currency : String
  totalAmount : Nat
  placedAt : Time
  closedAt : Option Time
  deriving DecidableEq

structure CustomerSection where
  clientUid : String
  fullName : String
  document : String
  email : String
  deriving DecidableEq

structure AddressSection where
  addressUid : String
  versionId : Nat
  fields : AddressFields
  deriving DecidableEq

structure ItemSection where
  sku : String
  description : String
  quantity : Nat
  unitPrice : Nat
  lineTotal : Nat
  deriving DecidableEq

structure PaymentSection where
  provider : String
  providerTxId : String
  method : PaymentMethod
  status : PaymentStatus
  amount : Nat
  approvedAt : Option Time
  deriving DecidableEq

structure OrderPayload where
  order : OrderSection
  customer : CustomerSection
  shippingAddress : AddressSection
  billingAddress : AddressSection
  items : List ItemSection
  payment : Option PaymentSection
  deriving DecidableEq

def orderSection (o : Order) : OrderSection where
  orderUid := o.orderUid
  status := o.status
  currency := o.currency
  totalAmount := o.totalAmount
  placedAt := o.placedAt
  closedAt := o.closedAt

def customerSection (c : Client) : CustomerSection where
  clientUid := c.clientUid
  fullName := c.fullName
  document := c.document
  email := c.email

def addressSection (a : Address) : AddressSection where
  addressUid := a.addressUid
  versionId := a.addressId
  fields := a.fields

def itemSection (i : OrderItem) : ItemSection where
  sku := i.sku
  description := i.description
  quantity := i.quantity
  unitPrice := i.unitPrice
  lineTotal := i.lineTotal

def paymentSection (p : Payment) : PaymentSection where
  provider := p.provider
  providerTxId := p.providerTxId
  method := p.method
  status := p.status
  amount := p.amount
  approvedAt := p.approvedAt

/-- The rows that the relationships of the order lead to are arguments. -/
def buildOrderPayload (order : Order) (client : Client) (shipping billing : Address)
    (items : List OrderItem) (payment : Option Payment) : OrderPayload where
  order := orderSection order
  customer := customerSection client
  shippingAddress := addressSection shipping
  billingAddress := addressSection billing
  items := items.map itemSection
  payment := payment.map paymentSection

end EcommerceIntegration
