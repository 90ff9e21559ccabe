import EcommerceIntegration.Dispatch.Pipeline
import EcommerceIntegration.Ingest.Ownership
import EcommerceIntegration.Ingest.Payload

/-!
# The documents in the outbox

A document is drawn up from what one session reads while others commit. All that it has
of the order, of its versions and of its items stays as it was read, so the document goes
on describing the order.
-/

namespace EcommerceIntegration

set_option autoImplicit false

open Transaction

/-- The document has the order's own columns, the versions that it refers to and its items. -/
structure Describes (d : Database) (document : OrderPayload) (o : Order) : Prop where
  orderUid : document.order.orderUid = o.orderUid
  status : document.order.status = .approved
  closed : document.order.closedAt.isSome = true
  currency : document.order.currency = o.currency
  totalAmount : document.order.totalAmount = o.totalAmount
  placedAt : document.order.placedAt = o.placedAt
  customer : ∃ client, clientById d o.clientId = some client ∧
    document.customer.clientUid = client.clientUid
  shipping : ∃ a, addressById d o.shippingAddressId = some a ∧
    document.shippingAddress = addressSection a
  billing : ∃ a, addressById d o.billingAddressId = some a ∧
    document.billingAddress = addressSection a
  items : document.items = (itemsOf d o.orderId).map itemSection

/-! ## Drawing up a document -/

/-- The message `m` for the order `o`, drawn up between `h` and `h'` with `ws` pending. -/
structure Drawn (o : Order) (h : History) (ws : List Change) (h' : History) (m : OutboxMessage) :
    Prop where
  isNew : m.isNew = true
  eventType : m.eventType = PaymentUpdatedHandler.orderApprovedEvent
  aggregateId : m.aggregateId = o.orderUid
  payload : ∃ h₁ h₂ h₃ h₄ client shipping billing payment,
    (h₁ <+: h' ∧ h₂ <+: h' ∧ h₃ <+: h' ∧ h <+: h₄ ∧ h₄ <+: h') ∧
    clientById (engine.view h₁ ws) o.clientId = some client ∧
    addressById (engine.view h₂ ws) o.shippingAddressId = some shipping ∧
    addressById (engine.view h₃ ws) o.billingAddressId = some billing ∧
    m.payload = buildOrderPayload o client shipping billing
      (itemsOf (engine.view h₄ ws) o.orderId) payment

section Runs
variable {R : Rely store EventEnvelope} {i : EventEnvelope} {h h' : History} {ws ws' : List Change}

theorem enqueueErpNotification_drawn {o : Order} {u : Unit}
    (hr : Runs keyLaws R (PaymentUpdatedHandler.enqueueErpNotification o) h ws h' ws'
      (.value u)) :
    ∃ m id, ws' = ws ++ [.inserted (.outbox m) id] ∧ Drawn o h ws h' m := by
  simp only [PaymentUpdatedHandler.enqueueErpNotification, PaymentRepository.latestForOrder,
    OutboxRepository.enqueue, Program.bind_eq] at hr
  obtain ⟨h₀, hle₀, _, hr⟩ := runs_select hr
  obtain ⟨h₁, client, hle₁, hclient, hr⟩ := runs_related hr
  have hlater₁ := hr.later
  obtain ⟨h₂, shipping, hle₂, hshipping, hr⟩ := runs_related hr
  have hlater₂ := hr.later
  obtain ⟨h₃, billing, hle₃, hbilling, hr⟩ := runs_related hr
  have hlater₃ := hr.later
  obtain ⟨h₄, hle₄, _, hr⟩ := runs_select hr
  have hlater₄ := hr.later
  have hle : R.allows h h₄ :=
    R.trans hle₀ (R.trans hle₁ (R.trans hle₂ (R.trans hle₃ hle₄)))
  simp only [Program.andThen_assoc] at hr
  obtain ⟨t, hr⟩ := runs_utcnow hr
  obtain ⟨h₅, id, _, _, ⟨_, hr⟩ | ⟨_, _, he, _⟩⟩ := runs_insert hr
  · obtain ⟨_, rfl, _⟩ := hr
    refine ⟨_, id, rfl, rfl, rfl, rfl, h₁, h₂, h₃, h₄, client, shipping, billing, _, ?_, hclient,
      hshipping, hbilling, rfl⟩
    exact ⟨R.prefix_of hlater₁, R.prefix_of hlater₂, R.prefix_of hlater₃, R.prefix_of hle,
      R.prefix_of hlater₄⟩
  · cases he

theorem Recorded.no_message {orderId : Nat} {data : PaymentUpdatedData} {record : List Change}
    (hrecorded : Recorded R orderId data h ws h' record) (m : OutboxMessage) (id : Nat) :
    .inserted (.outbox m) id ∉ record := by
  intro hmem
  have hnew := List.filterMap_eq_nil_iff.mp hrecorded.silent.2 _ hmem
  simp at hnew

/-- A message of the payment handler is drawn up for the order that it has approved. -/
theorem paymentHandler_drawn {u : Unit} {m : OutboxMessage} {id : Nat}
    (hr : Runs keyLaws R (PaymentUpdatedHandler.handle i) h ws h' ws' (.value u))
    (hws : ∀ m id, .inserted (.outbox m) id ∉ ws) (hm : .inserted (.outbox m) id ∈ ws') :
    ∃ (h₁ h₂ : History) (pending : List Change) (o : Order) (t : Option Time),
      h₁ <+: h₂ ∧ h₂ <+: h' ∧ pending ⊆ ws' ∧ o ∈ (engine.view h₁ ws).orders ∧
      (t.or o.closedAt).isSome = true ∧ Drawn (o.set .approved t) h₂ pending h' m := by
  simp only [PaymentUpdatedHandler.handle, Program.bind_eq] at hr
  obtain ⟨data, hdata, hr⟩ := runs_validate hr
  obtain ⟨h₁, o, hle₁, _, ho, hr⟩ := runs_requireOrder hr
  rcases hr.andThen with ⟨h₂, ws₂, _, hrec, hr⟩ | ⟨_, _, he, _⟩
  · have hle₂ := hrec.later
    obtain ⟨record, rfl, hrecorded⟩ := recordPayment_runs hrec
    have hnone : ∀ m id, .inserted (.outbox m) id ∉ ws ++ record := by
      intro m id hmem
      rcases List.mem_append.mp hmem with hmem | hmem
      · exact hws m id hmem
      · exact hrecorded.no_message m id hmem
    split at hr
    · simp only [OrderRepository.transition, OrderRepository.transitionIsAllowed,
        approved_mem_allowed] at hr
      split at hr
      · simp only [Program.bind_eq, Program.andThen_assoc] at hr
        obtain ⟨h₃, hle₃, hr⟩ := runs_execute (fun _ => rfl) hr
        have hle₄ := hr.later
        obtain ⟨m', id', rfl, hdrawn⟩ := enqueueErpNotification_drawn hr
        rcases List.mem_append.mp hm with hm | hm
        · rcases List.mem_append.mp hm with hm | hm
          · exact absurd hm (hnone m id)
          · cases List.mem_singleton.mp hm
        · cases List.mem_singleton.mp hm
          refine ⟨h₁, h₃, _, o, _, R.prefix_of (R.trans hle₂ hle₃), R.prefix_of hle₄,
            List.subset_append_left _ _, List.mem_of_find?_eq_some ho, ?_, hdrawn⟩
          split <;> simp_all
      · obtain ⟨_, rfl, _⟩ := hr
        exact absurd hm (hnone m id)
    · obtain ⟨_, rfl, _⟩ := hr
      exact absurd hm (hnone m id)
  · cases he

end Runs

theorem mem_newMessages {ws : List Change} {m : OutboxMessage} (h : m ∈ newMessages ws) :
    ∃ m₀ id, .inserted (.outbox m₀) id ∈ ws ∧ m = { m₀ with outboxId := id } := by
  obtain ⟨c, hc, heq⟩ := List.mem_filterMap.mp h
  split at heq
  · cases heq
    exact ⟨_, _, hc, rfl⟩
  · cases heq

/-! ## What the pending writes leave alone -/

/-- The rows that the sections of a document are read from, but for the order. -/
def sources (d : Database) : List Client × List Address × List OrderItem :=
  (d.clients, d.address, d.orderItems)

theorem spares_sources {c : Change} (hc : HandlerWrite .paymentUpdated c) :
    engine.Spares sources c := by
  intro d
  cases c with
  | inserted row id =>
    cases row with
    | client | address | order | orderItem | invoice => exact hc.elim
    | payment | outbox => rfl
  | executed stmt =>
    cases stmt with
    | registerEvent | updateClient | closeAddress => exact hc.elim
    | updateOrder | updatePayment => rfl

section Complete
variable {i : EventEnvelope} {h : History} {ws pending : List Change}

theorem CompleteEffect.sources_view (hc : CompleteEffect others i h ws)
    (ht : i.eventType = .paymentUpdated) (hpending : pending ⊆ ws) (h₁ : History) :
    sources (engine.view h₁ pending) = sources (engine.state h₁) := by
  refine Engine.replay_spares (fun c hmem => ?_) _
  refine hc.spares (fun _ => rfl) (fun c hwrite => ?_) c (hpending hmem)
  exact spares_sources (ht ▸ hwrite)

/-- Only the payment handler writes messages. -/
theorem CompleteEffect.type_of_message (hc : CompleteEffect others i h ws) {m : OutboxMessage}
    {id : Nat} (hm : .inserted (.outbox m) id ∈ ws) : i.eventType = .paymentUpdated := by
  have hwrite := hc.handlerWrite hm (by simp [ledgerRow])
  cases ht : i.eventType with
  | paymentUpdated => rfl
  | clientUpserted | orderCreated | invoiceIssued =>
    rw [ht] at hwrite
    exact hwrite.elim

/-- What a session has read for a document, without its own writes. -/
theorem CompleteEffect.drawn (hc : CompleteEffect others i h ws) {m : OutboxMessage} {id : Nat}
    (hm : .inserted (.outbox m) id ∈ ws) :
    ∃ (h₀ : History) (o₀ o : Order), h₀ <+: h ∧ o₀ ∈ (engine.state h₀).orders ∧
      o.fixed = o₀.fixed ∧ o.status = .approved ∧ o.closedAt.isSome = true ∧ Drawn o h₀ [] h m := by
  have htype := hc.type_of_message hm
  have hruns := hc
  obtain ⟨_, _, hr⟩ := hruns
  rw [htype] at hr
  obtain ⟨h₀, h₁, pending, o, t, hle₀, hle₁, hpending, ho, hclosed, hdrawn⟩ :=
    paymentHandler_drawn hr (by simp [ledgerRow]) hm
  refine ⟨h₀, o, o.set .approved t, hle₀.trans hle₁, ho, rfl, rfl, hclosed, hdrawn.isNew,
    hdrawn.eventType, hdrawn.aggregateId, ?_⟩
  obtain ⟨k₁, k₂, k₃, k₄, client, shipping, billing, payment, ⟨hk₁, hk₂, hk₃, hle, hk₄⟩, hclient,
    hshipping, hbilling, hpayload⟩ := hdrawn.payload
  have same : ∀ k : History, (engine.view k pending).clients = (engine.state k).clients ∧
      (engine.view k pending).address = (engine.state k).address ∧
      (engine.view k pending).orderItems = (engine.state k).orderItems := by
    intro k
    simpa [sources] using hc.sources_view htype hpending k
  refine ⟨k₁, k₂, k₃, k₄, client, shipping, billing, payment,
    ⟨hk₁, hk₂, hk₃, hle₀.trans hle, hk₄⟩, ?_, ?_, ?_, ?_⟩
  · rw [clientById, (same k₁).1] at hclient
    exact hclient
  · rw [addressById, (same k₂).2.1] at hshipping
    exact hshipping
  · rw [addressById, (same k₃).2.1] at hbilling
    exact hbilling
  · rw [itemsOf, (same k₄).2.2] at hpayload
    exact hpayload

end Complete

/-! ## A document and the database -/

section Later
variable {h h' : History}

theorem clientById_stays (hh : Consistent h') (hle : h <+: h') {id : Nat} {c : Client}
    (hc : clientById (engine.state h) id = some c) :
    ∃ c', clientById (engine.state h') id = some c' ∧ c'.clientUid = c.clientUid := by
  have hmem := List.mem_of_find?_eq_some hc
  obtain rfl : c.clientId = id := by simpa using List.find?_some hc
  obtain ⟨c', hc', heq⟩ := List.mem_map.mp (clientNames_grow.state hle (List.mem_map_of_mem hmem))
  obtain ⟨hid, huid⟩ := Prod.mk.inj heq
  refine ⟨c', find?_eq_some_of_unique hc' (by simpa using hid) fun b hb hbid => ?_, huid⟩
  exact client_unique_id hh.keys hb hc' ((beq_iff_eq.mp hbid).trans hid.symm)

theorem sectionById_stays (hh : Consistent h') (hle : h <+: h') {id : Nat} {a : Address}
    (ha : addressById (engine.state h) id = some a) :
    ∃ a', addressById (engine.state h') id = some a' ∧ addressSection a = addressSection a' := by
  obtain ⟨a', ha', hfixed⟩ := addressById_stays hh hle (List.mem_of_find?_eq_some ha)
  obtain rfl : a.addressId = id := by simpa using List.find?_some ha
  exact ⟨a', ha', (addressSection_of_fixed hfixed).symm⟩

/-- A document describes its order at all later times. -/
theorem Drawn.describes {o o₀ o' : Order} {h₀ : History} {m : OutboxMessage}
    (hd : Drawn o h₀ [] h m) (ho : o₀ ∈ (engine.state h₀).orders) (hfixed₀ : o.fixed = o₀.fixed)
    (hstatus : o.status = .approved) (hclosed : o.closedAt.isSome = true) (hle : h <+: h')
    (hh : Consistent h') (hfixed : o'.fixed = o.fixed) :
    Describes (engine.state h') m.payload o' := by
  obtain ⟨k₁, k₂, k₃, k₄, client, shipping, billing, payment, ⟨hk₁, hk₂, hk₃, hle₀, hk₄⟩, hclient,
    hshipping, hbilling, hpayload⟩ := hd.payload
  obtain ⟨hclientId, hshippingId, hbillingId, hcurrency, htotal, hplaced⟩ :=
    Order.columns_of_fixed hfixed
  have hid : o'.orderId = o.orderId := Order.id_of_fixed hfixed
  have hid₀ : o.orderId = o₀.orderId := Order.id_of_fixed hfixed₀
  obtain ⟨c', hc', huid⟩ := clientById_stays hh (hk₁.trans hle) hclient
  obtain ⟨a', ha', hsection⟩ := sectionById_stays hh (hk₂.trans hle) hshipping
  obtain ⟨b', hb', hsection'⟩ := sectionById_stays hh (hk₃.trans hle) hbilling
  have hitems : itemsOf (engine.state h') o.orderId = itemsOf (engine.state k₄) o.orderId := by
    rw [hid₀]
    exact itemsOf_stays (hk₄.trans hle) hh (mem_ids_later hle₀ (List.mem_map_of_mem ho))
  rw [hpayload]
  exact {
    orderUid := (Order.uid_of_fixed hfixed).symm
    status := hstatus
    closed := hclosed
    currency := hcurrency.symm
    totalAmount := htotal.symm
    placedAt := hplaced.symm
    customer := ⟨c', hclientId ▸ hc', huid.symm⟩
    shipping := ⟨a', hshippingId ▸ ha', hsection⟩
    billing := ⟨b', hbillingId ▸ hb', hsection'⟩
    items := by rw [hid, hitems]; rfl }

/-- Every message in the outbox is about an order that is APPROVED or INVOICED, and its
document describes that order. -/
theorem message_describes (hh : Consistent h) {m : OutboxMessage}
    (hm : m ∈ (engine.state h).outbox) :
    ∃ o ∈ (engine.state h).orders, (o.status = .approved ∨ o.status = .invoiced) ∧
      m.aggregateId = o.orderUid ∧ Describes (engine.state h) m.payload o := by
  obtain ⟨h₁, c, hpre, hnew⟩ := commit_of_outbox hm
  obtain ⟨m₀, id, hins, rfl⟩ := mem_newMessages hnew
  obtain ⟨h₀, o₀, o, hle₀, ho₀, hfixed₀, hstatus, hclosed, hdrawn⟩ :=
    (hh.of_prefix hpre).effect.drawn hins
  have hle : h₁ <+: h := (List.prefix_append _ _).trans hpre
  obtain ⟨o', ho', hfixed⟩ := order_stays (hle₀.trans hle) ho₀
  have hsame : o'.fixed = o.fixed := hfixed.trans hfixed₀.symm
  have huid : m₀.aggregateId = o'.orderUid :=
    hdrawn.aggregateId.trans (Order.uid_of_fixed hsame).symm
  refine ⟨o', ho', ?_, huid, hdrawn.describes ho₀ hfixed₀ hstatus hclosed hle hh hsame⟩
  have hnotified : 1 ≤ notifications (engine.state h) o'.orderUid := by
    refine List.countP_pos_iff.mpr ⟨_, hm, ?_⟩
    simp [OutboxMessage.notifies, hdrawn.eventType, huid]
  obtain ⟨o₂, ho₂, huid₂, hclosed₂⟩ := closed_of_notified hh hnotified
  obtain rfl := order_unique hh.keys ho₂ ho' huid₂
  have hnot := not_cancelled hh o₂ ho₂
  cases hs : o₂.status <;> simp_all

end Later

end EcommerceIntegration
