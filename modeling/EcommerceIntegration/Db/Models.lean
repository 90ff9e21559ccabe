import EcommerceIntegration.Domain.Events

/-!
# Rows of the operational tables

Columns that no modelled function reads or writes (`created_at`, `authorized_at`,
the constant `status` of an invoice and of a processed event, `attempt_count`,
`payload_hash`) are left out.
-/

namespace EcommerceIntegration

set_option autoImplicit false

inductive TableName
  | clients
  | address
  | orders
  | orderItems
  | payment
  | invoices
  | outbox
  deriving DecidableEq

structure Client where
  clientId : Nat
  clientUid : String
  fullName : String
  document : String
  email : String
  updatedAt : Time
  deriving DecidableEq

/-- One version of an address (SCD type 2). -/
structure Address where
  addressId : Nat
  addressUid : String
  clientId : Nat
  fields : AddressFields
  validFrom : Time
  validTo : Option Time
  isCurrent : Bool
  deriving DecidableEq

structure Order where
  orderId : Nat
  orderUid : String
  clientId : Nat
  shippingAddressId : Nat
  billingAddressId : Nat
  status : OrderStatus
  currency : String
  totalAmount : Nat
  placedAt : Time
  closedAt : Option Time
  sourceEventId : String
  deriving DecidableEq

structure OrderItem where
  orderItemId : Nat
  orderId : Nat
  sku : String
  description : String
  quantity : Nat
  unitPrice : Nat
  lineTotal : Nat
  deriving DecidableEq

structure Payment where
  paymentId : Nat
  orderId : Nat
  provider : String
  providerTxId : String
  method : PaymentMethod
  status : PaymentStatus
  amount : Nat
  approvedAt : Option Time
  deriving DecidableEq

structure Invoice where
  invoiceId : Nat
  orderId : Nat
  invoiceNumber : String
  series : String
  accessKey : String
  issuedAt : Time
  totalAmount : Nat
  deriving DecidableEq

structure ProcessedEvent where
  eventId : String
  eventType : EventType
  deriving DecidableEq

end EcommerceIntegration
