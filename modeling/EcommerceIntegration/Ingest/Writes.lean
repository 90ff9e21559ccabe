import EcommerceIntegration.Library.Execution
import EcommerceIntegration.Db.Keys
import EcommerceIntegration.Ingest.Processor

/-!
# What each handler may write

The handlers are straight sessions. No handler registers an event, and only the
handler of payments approves orders and fills the outbox.
-/

namespace EcommerceIntegration

set_option autoImplicit false

open Transaction

def ClientWrite : Change → Prop
  | .inserted (.client _) _ => True
  | .inserted (.address _) _ => True
  | .executed (.updateClient ..) => True
  | .executed (.closeAddress ..) => True
  | _ => False

def OrderWrite : Change → Prop
  | .inserted (.order o) _ => o.status = .pending
  | .inserted (.orderItem _) _ => True
  | _ => False

def PaymentWrite : Change → Prop
  | .inserted (.payment _) _ => True
  | .executed (.updatePayment ..) => True
  | .executed (.updateOrder _ status _) => status = .approved
  | .inserted (.outbox m) _ => m.eventType = PaymentUpdatedHandler.orderApprovedEvent
  | _ => False

def InvoiceWrite : Change → Prop
  | .inserted (.invoice _) _ => True
  | .executed (.updateOrder _ status _) => status = .invoiced
  | _ => False

def HandlerWrite : EventType → Change → Prop
  | .clientUpserted => ClientWrite
  | .orderCreated => OrderWrite
  | .paymentUpdated => PaymentWrite
  | .invoiceIssued => InvoiceWrite

/-- No write is one of two handlers. -/
theorem HandlerWrite.type_unique {t t' : EventType} {c : Change} (h : HandlerWrite t c)
    (h' : HandlerWrite t' c) : t = t' := by
  cases c with
  | inserted row id =>
    cases row <;> cases t <;> first
      | exact h.elim
      | cases t' <;> first | rfl | exact h'.elim
  | executed stmt =>
    cases stmt with
    | updateOrder id status closedAt =>
      cases t <;> cases t' <;> first
        | rfl
        | exact h.elim
        | exact h'.elim
        | cases h.symm.trans h'
    | registerEvent | updateClient | closeAddress | updatePayment =>
      cases t <;> first
        | exact h.elim
        | cases t' <;> first | rfl | exact h'.elim

def handlerOf : EventType → EventHandler
  | .clientUpserted => ClientUpsertedHandler.handle
  | .orderCreated => OrderCreatedHandler.handle
  | .paymentUpdated => PaymentUpdatedHandler.handle
  | .invoiceIssued => InvoiceIssuedHandler.handle

/-- The registry has a handler for every type. -/
@[simp] theorem find_buildRegistry (t : EventType) : buildRegistry.find t = some (handlerOf t) := by
  cases t <;> rfl

section Straight
variable {W : Change → Prop} {α : Type}

theorem select_straight (query : Database → α) : Straight W (select query) := by
  refine Straight.andThen (Straight.perform ?_) fun _ => trivial
  trivial

theorem insert_straight {row : NewRow} (h : ∀ id, W (.inserted row id)) :
    Straight W (insert row) :=
  Straight.perform h

theorem execute_straight {stmt : Stmt} (h : W (.executed stmt)) : Straight W (execute stmt) :=
  Straight.perform h

theorem flush_straight {dirty : Bool} {stmt : Stmt} (h : W (.executed stmt)) :
    Straight W (flush dirty stmt) := by
  unfold flush
  split
  · exact execute_straight h
  · trivial

theorem utcnow_straight : Straight W utcnow := Straight.perform trivial

theorem validate_straight (data : Except String α) : Straight W (validate data) := by
  cases data with
  | ok data => trivial
  | error report => exact fun c hc => by cases hc

/-- What follows a validation runs on valid data. -/
theorem validated_straight {β : Type} {data : Except String α} {f : α → Session β}
    (hf : ∀ a, data = .ok a → Straight W (f a)) : Straight W ((validate data).andThen f) := by
  cases data with
  | ok a => exact hf a rfl
  | error report => exact fun c hc => by cases hc

theorem requireDependency_straight (message : String) (o : Option α) :
    Straight W (requireDependency message o) := by
  cases o with
  | none => exact fun c hc => by cases hc
  | some a => trivial

/-- What follows the check of the values runs on values that fit. -/
theorem fitting_straight {β : Type} {fits : Bool} {f : Unit → Session β}
    (hf : fits = true → Straight W (f ())) : Straight W ((requireFits fits).andThen f) := by
  cases fits with
  | true => exact hf rfl
  | false => exact fun c hc => by cases hc

theorem requireOrder_straight (uid : String) : Straight W (requireOrder uid) :=
  (select_straight _).andThen fun _ => requireDependency_straight _ _

end Straight

theorem clientUpsert_straight {W : Change → Prop} (hinsert : ∀ r id, W (.inserted (.client r) id))
    (hupdate : ∀ id n doc e t, W (.executed (.updateClient id n doc e t)))
    (uid name document email : String) :
    Straight W (ClientRepository.upsert uid name document email) := by
  refine (select_straight _).andThen fun found => ?_
  cases found with
  | none =>
    exact utcnow_straight.andThen fun t =>
      (insert_straight (hinsert _)).andThen fun _ => trivial
  | some client =>
    exact utcnow_straight.andThen fun now =>
      (flush_straight (hupdate ..)).andThen fun _ => trivial

theorem openVersion_straight (clientId : Nat) (payload : AddressPayload) (t : Time) :
    Straight ClientWrite (AddressRepository.openVersion clientId payload t) :=
  (insert_straight fun _ => trivial).andThen fun _ => trivial

theorem upsertVersion_straight (clientId : Nat) (payload : AddressPayload) :
    Straight ClientWrite (AddressRepository.upsertVersion clientId payload) := by
  refine (select_straight _).andThen fun found => ?_
  cases found with
  | none => exact utcnow_straight.andThen fun t => openVersion_straight clientId payload t
  | some current =>
    dsimp only
    split
    · exact utcnow_straight.andThen fun t =>
        (execute_straight (by trivial)).andThen fun _ => openVersion_straight clientId payload t
    · trivial

theorem clientHandler_straight (i : EventEnvelope) :
    Straight ClientWrite (ClientUpsertedHandler.handle i) :=
  (validate_straight _).andThen fun _ =>
    (clientUpsert_straight (fun _ _ => trivial) (fun _ _ _ _ _ => trivial) ..).andThen fun _ =>
      (upsertVersion_straight _ _).andThen fun _ => trivial

theorem requireCurrentAddress_straight {W : Change → Prop} (uid : String) :
    Straight W (OrderCreatedHandler.requireCurrentAddress uid) :=
  (select_straight _).andThen fun _ => requireDependency_straight _ _

theorem resolveBillingAddress_straight {W : Change → Prop} (data : OrderCreatedData)
    (shipping : Address) :
    Straight W (OrderCreatedHandler.resolveBillingAddress data shipping) := by
  unfold OrderCreatedHandler.resolveBillingAddress
  split
  · trivial
  · split
    · trivial
    · exact requireCurrentAddress_straight _

theorem addItems_straight {W : Change → Prop}
    (hitem : ∀ item : OrderItemPayload, item.quantity < maxInteger → item.lineTotal < maxNumeric →
      ∀ orderId id, W (.inserted (.orderItem (OrderRepository.newItem orderId item)) id))
    (orderId : Nat) (items : List OrderItemPayload) :
    Straight W (OrderRepository.addItems orderId items) := by
  induction items with
  | nil => trivial
  | cons item items ih =>
    refine fitting_straight fun hfits => ?_
    obtain ⟨hquantity, hline⟩ := Bool.and_eq_true_iff.mp hfits
    exact (insert_straight (hitem item (of_decide_eq_true hquantity) (of_decide_eq_true hline)
      orderId)).andThen fun _ => ih

theorem orderHandler_straight {W : Change → Prop} (i : EventEnvelope)
    (horder : ∀ data, i.data.orderCreated = .ok data → data.totalAmount < maxNumeric →
      ∀ clientId shippingId billingId id,
        W (.inserted (.order ⟨0, data.orderUid, clientId, shippingId, billingId, .pending,
          data.currency, data.totalAmount, data.placedAt.replaceTzinfoNone, none, i.eventId⟩) id))
    (hitem : ∀ item : OrderItemPayload, item.quantity < maxInteger → item.lineTotal < maxNumeric →
      ∀ orderId id, W (.inserted (.orderItem (OrderRepository.newItem orderId item)) id)) :
    Straight W (OrderCreatedHandler.handle i) := by
  refine validated_straight fun data hdata => (select_straight _).andThen fun found => ?_
  split
  · trivial
  · refine (select_straight _).andThen fun client =>
      (requireDependency_straight _ _).andThen fun _ =>
        (requireCurrentAddress_straight _).andThen fun shipping =>
          (resolveBillingAddress_straight _ _).andThen fun billing => Straight.andThen ?_ ?_
    · exact fitting_straight fun hfits =>
        (insert_straight (horder data hdata (of_decide_eq_true hfits) _ _ _)).andThen fun _ =>
          (addItems_straight hitem _ _).andThen fun _ => trivial
    · exact fun _ => trivial

theorem transition_straight {W : Change → Prop} (order : Order) (status : OrderStatus) (t : Time)
    (hsame : W (.executed (.updateOrder order.orderId status none)))
    (hclosed : W (.executed (.updateOrder order.orderId status (some t)))) :
    Straight W (OrderRepository.transition order status t) := by
  unfold OrderRepository.transition
  split
  · refine (execute_straight ?_).andThen fun _ => trivial
    split
    · exact hsame
    · exact hclosed
  · trivial

theorem invoiceHandler_straight {W : Change → Prop} (i : EventEnvelope)
    (hinvoice : ∀ data, i.data.invoiceIssued = .ok data → ∀ orderId id,
      W (.inserted (.invoice ⟨0, orderId, data.invoiceNumber, data.series, data.accessKey,
        data.issuedAt.replaceTzinfoNone, data.totalAmount⟩) id))
    (hsame : ∀ orderId, W (.executed (.updateOrder orderId .invoiced none)))
    (hclosed : ∀ data, i.data.invoiceIssued = .ok data → ∀ orderId,
      W (.executed (.updateOrder orderId .invoiced (some data.issuedAt.replaceTzinfoNone)))) :
    Straight W (InvoiceIssuedHandler.handle i) := by
  refine validated_straight fun data hdata => (requireOrder_straight _).andThen fun order =>
    (select_straight _).andThen fun found => ?_
  split
  · trivial
  · refine Straight.andThen ?_ fun _ =>
      (transition_straight _ _ _ (hsame _) (hclosed data hdata _)).andThen fun _ => trivial
    exact (insert_straight (hinvoice data hdata _)).andThen fun _ => trivial

theorem recordPayment_straight {W : Change → Prop} (order : Order) (data : PaymentUpdatedData)
    (t : Time)
    (hinsert : ∀ id, W (.inserted (.payment ⟨0, order.orderId, data.provider, data.providerTxId,
      data.method, data.status, data.amount,
      if decide (data.status = .approved) then some t else none⟩) id))
    (hupdate : ∀ id s, W (.executed (.updatePayment id s none)) ∧
      W (.executed (.updatePayment id s (some t)))) :
    Straight W (PaymentUpdatedHandler.recordPayment order data t) := by
  refine Straight.andThen ((select_straight _).andThen fun found => ?_) fun _ => trivial
  cases found with
  | none => exact (insert_straight hinsert).andThen fun _ => trivial
  | some payment =>
    refine (flush_straight ?_).andThen fun _ => trivial
    split
    · exact (hupdate _ _).2
    · exact (hupdate _ _).1

theorem related_straight {α : Type} {W : Change → Prop} (query : Database → Option α) :
    Straight W (PaymentUpdatedHandler.related query) := by
  refine (select_straight _).andThen fun found => ?_
  cases found with
  | none => exact fun c hc => by cases hc
  | some row => trivial

theorem enqueueErpNotification_straight {W : Change → Prop} (order : Order)
    (hmessage : ∀ m id, m.eventType = PaymentUpdatedHandler.orderApprovedEvent →
      W (.inserted (.outbox m) id)) :
    Straight W (PaymentUpdatedHandler.enqueueErpNotification order) := by
  refine (select_straight _).andThen fun payment => (related_straight _).andThen fun client =>
    (related_straight _).andThen fun shipping => (related_straight _).andThen fun billing =>
      (select_straight _).andThen fun items => Straight.andThen ?_ fun _ => trivial
  exact utcnow_straight.andThen fun t =>
    (insert_straight fun _ => hmessage _ _ rfl).andThen fun _ => trivial

theorem paymentHandler_straight {W : Change → Prop} (i : EventEnvelope)
    (hinsert : ∀ data, i.data.paymentUpdated = .ok data → ∀ orderId id,
      W (.inserted (.payment ⟨0, orderId, data.provider, data.providerTxId, data.method,
        data.status, data.amount, if decide (data.status = .approved) then
          some data.occurredAt.replaceTzinfoNone else none⟩) id))
    (hupdate : ∀ data, i.data.paymentUpdated = .ok data → ∀ id s,
      W (.executed (.updatePayment id s none)) ∧
      W (.executed (.updatePayment id s (some data.occurredAt.replaceTzinfoNone))))
    (happrove : ∀ data, i.data.paymentUpdated = .ok data → ∀ orderId,
      W (.executed (.updateOrder orderId .approved none)) ∧
      W (.executed (.updateOrder orderId .approved (some data.occurredAt.replaceTzinfoNone))))
    (hmessage : ∀ m id, m.eventType = PaymentUpdatedHandler.orderApprovedEvent →
      W (.inserted (.outbox m) id)) :
    Straight W (PaymentUpdatedHandler.handle i) := by
  refine validated_straight fun data hdata => (requireOrder_straight _).andThen fun order =>
    (recordPayment_straight _ _ _ (hinsert data hdata _) (hupdate data hdata)).andThen fun _ => ?_
  split
  · obtain ⟨hsame, hclosed⟩ := happrove data hdata order.orderId
    refine (transition_straight _ _ _ hsame hclosed).andThen fun moved => ?_
    cases moved with
    | none => trivial
    | some approved => exact enqueueErpNotification_straight approved hmessage
  · trivial

theorem handler_straight (t : EventType) (i : EventEnvelope) :
    Straight (HandlerWrite t) (handlerOf t i) := by
  cases t with
  | clientUpserted => exact clientHandler_straight i
  | orderCreated =>
    exact orderHandler_straight i (fun _ _ _ _ _ _ _ => rfl) fun _ _ _ _ _ => trivial
  | paymentUpdated =>
    exact paymentHandler_straight i (fun _ _ _ _ => trivial) (fun _ _ _ _ => ⟨trivial, trivial⟩)
      (fun _ _ _ => ⟨rfl, rfl⟩) fun _ _ h => h
  | invoiceIssued =>
    exact invoiceHandler_straight i (fun _ _ _ _ => trivial) (fun _ => rfl) fun _ _ _ => rfl

end EcommerceIntegration
