import Mathlib.Data.List.Basic

/-! # Enumerations of the domain and the order status machine -/

namespace EcommerceIntegration

set_option autoImplicit false

inductive EventType
  | clientUpserted
  | orderCreated
  | paymentUpdated
  | invoiceIssued
  deriving DecidableEq

def EventType.value : EventType → String
  | clientUpserted => "client.upserted"
  | orderCreated => "order.created"
  | paymentUpdated => "payment.updated"
  | invoiceIssued => "invoice.issued"

inductive OrderStatus
  | pending
  | approved
  | invoiced
  | cancelled
  deriving DecidableEq

def allowedOrderTransitions : OrderStatus → List OrderStatus
  | .pending => [.approved, .cancelled]
  | .approved => [.invoiced, .cancelled]
  | .invoiced => []
  | .cancelled => []

theorem approved_mem_allowed {s : OrderStatus} :
    .approved ∈ allowedOrderTransitions s ↔ s = .pending := by
  cases s <;> simp [allowedOrderTransitions]

theorem invoiced_mem_allowed {s : OrderStatus} :
    .invoiced ∈ allowedOrderTransitions s ↔ s = .approved := by
  cases s <;> simp [allowedOrderTransitions]

inductive PaymentMethod
  | pix
  | creditCard
  | boleto
  deriving DecidableEq

inductive PaymentStatus
  | pending
  | authorized
  | approved
  | refused
  | refunded
  deriving DecidableEq

inductive OutboxStatus
  | pending
  | inFlight
  | sent
  | dlq
  deriving DecidableEq

end EcommerceIntegration
