import EcommerceIntegration.Ingest.Lockstep
import EcommerceIntegration.Ingest.Delivery
import EcommerceIntegration.Ingest.OwnPayment

/-!
# What an event does to the rows that another event looks up

An event writes rows of its own keys. The rows that another event looks up, by keys that
are all different, stay as they are, unless they are found through a row: the document of
an order shows its client and its payments.
-/

namespace EcommerceIntegration

set_option autoImplicit false

open Transaction

inductive BusinessKey
  | client (uid : String)
  | address (uid : String)
  | order (uid : String)
  | transaction (provider tx : String)
  | invoice (number series : String)
  deriving DecidableEq

/-- The keys that the data of the event name. -/
def businessKeys (i : EventEnvelope) : List BusinessKey :=
  match i.eventType with
  | .clientUpserted =>
    match i.data.clientUpserted with
    | .ok data => [.client data.clientUid, .address data.address.addressUid]
    | .error _ => []
  | .orderCreated =>
    match i.data.orderCreated with
    | .ok data =>
      [.order data.orderUid, .client data.clientUid, .address data.shippingAddressUid] ++
        data.billingAddressUid.toList.map .address
    | .error _ => []
  | .paymentUpdated =>
    match i.data.paymentUpdated with
    | .ok data => [.order data.orderUid, .transaction data.provider data.providerTxId]
    | .error _ => []
  | .invoiceIssued =>
    match i.data.invoiceIssued with
    | .ok data => [.order data.orderUid, .invoice data.invoiceNumber data.series]
    | .error _ => []

/-- The change updates what the document of the order shows: the name, the document or the
email of its client, or a payment on it. -/
def UpdatesDocument (d : Database) (o : Order) : Change → Prop
  | .executed (.updateClient id fullName document email _) =>
    id = o.clientId ∧ (fullName, document, email) ≠ (none, none, none)
  | .executed (.updatePayment id ..) => ∃ p ∈ d.payment, p.paymentId = id ∧ p.orderId = o.orderId
  | _ => False

/-- `j` approves the pending order `o`, whose document goes to the ERP. -/
def ToBeApproved (d : Database) (j : EventEnvelope) (o : Order) : Prop :=
  j.eventType = .paymentUpdated ∧ o ∈ d.orders ∧ o.status = .pending ∧
    ∃ data, j.data.paymentUpdated = .ok data ∧ data.status = .approved ∧
      data.orderUid.1 = o.orderUid

/-- The writes `ws` update what the document of an order that `j` approves shows. -/
def Disturbs (d : Database) (ws : List Change) (j : EventEnvelope) : Prop :=
  ∃ o, ToBeApproved d j o ∧ ∃ c ∈ ws, UpdatesDocument d o c

/-- What the processor of `j` looks up on the database `d`. -/
def lookups (d : Database) (j : EventEnvelope) : Concern where
  clientUid uid := .client uid ∈ businessKeys j
  clientId id := ∃ o, ToBeApproved d j o ∧ o.clientId = id
  addressUid uid := .address uid ∈ businessKeys j
  orderUid uid := .order uid ∈ businessKeys j
  loaded uid := .order uid ∈ businessKeys j ∧ j.eventType ≠ .orderCreated
  orderId id := ∃ o ∈ d.orders, .order o.orderUid ∈ businessKeys j ∧ o.orderId = id
  notified uid := j.eventType = .paymentUpdated ∧ ∃ data, j.data.paymentUpdated = .ok data ∧
    data.status = .approved ∧ data.orderUid.1 = uid
  documentId id := ∃ o, ToBeApproved d j o ∧ o.orderId = id
  transaction provider tx := .transaction provider tx ∈ businessKeys j
  invoiceNumber number series := .invoice number series ∈ businessKeys j
  eventId id := id = j.eventId.1
  key k := k = RedisDeduplicator.key j.eventId

theorem lookups_includes (d : Database) (j : EventEnvelope) : (lookups d j).Includes j where
  event := rfl
  key := rfl
  client htype data hdata := by simp [lookups, businessKeys, htype, hdata]
  order htype data hdata := by
    simp only [lookups, businessKeys, htype, hdata]
    refine ⟨by simp, by simp, by simp, fun uid hbilling => by simp [hbilling], fun h => ?_,
      fun h => ?_⟩
    · exact absurd rfl h.2
    · cases h.1
  payment htype data hdata := by
    refine ⟨?_, ⟨?_, by simp [htype]⟩, fun happroved => ⟨htype, data, hdata, happroved, rfl⟩, ?_⟩ <;>
      simp [lookups, businessKeys, htype, hdata]
  invoice htype data hdata := by
    refine ⟨?_, ⟨?_, by simp [htype]⟩, ?_⟩ <;> simp [lookups, businessKeys, htype, hdata]

/-- The order that is approved is named by the event. -/
theorem ToBeApproved.named {d : Database} {j : EventEnvelope} {o : Order}
    (h : ToBeApproved d j o) : .order o.orderUid ∈ businessKeys j := by
  obtain ⟨htype, _, _, data, hdata, _, huid⟩ := h
  simp [businessKeys, htype, hdata, huid]

/-! ## Writes on the side -/

/-- The change concerns no row that is looked up, but for the columns of a client that a
document does not show. -/
def Aside (ρ : Link) (C : Concern) (d : Database) : Change → Prop
  | .inserted row id => (∀ a, ¬ ρ row.table a id) ∧
    match row with
    | .client r => ¬ C.client { r with clientId := id } ∧ ¬ C.clientId id
    | .address r => ¬ C.address r
    | .order r => ¬ C.order r
    | .orderItem r => ¬ C.item r
    | .payment r => ¬ C.payment r
    | .invoice r => ¬ C.invoice r
    | .outbox _ => True
  | .executed (.registerEvent r) => ¬ C.event r
  | .executed (.updateClient id n doc e t) => ∀ c ∈ d.clients, c.clientId = id →
    ¬ C.client c ∧ (C.customer c → customerSection (c.set n doc e t) = customerSection c)
  | .executed (.closeAddress id _) => ∀ a ∈ d.address, a.addressId = id → ¬ C.address a
  | .executed (.updateOrder id ..) => ∀ o ∈ d.orders, o.orderId = id → ¬ C.order o
  | .executed (.updatePayment id ..) => ∀ p ∈ d.payment, p.paymentId = id → ¬ C.payment p

section Aside
variable {ρ : Link} {C : Concern} {d d' : Database}

theorem ids_insert_aside (hids : ∀ t a b, ρ t a b → (a ∈ d.ids t ↔ b ∈ d'.ids t)) {row : NewRow}
    {id : Nat} (hid : ∀ a, ¬ ρ row.table a id) (t : TableName) (a b : Nat) (hab : ρ t a b) :
    a ∈ d.ids t ↔ b ∈ (d'.insert id row).ids t := by
  rw [Database.ids_insert, List.mem_append, ← hids t a b hab]
  refine ⟨.inl, fun h => h.resolve_right fun hmem => ?_⟩
  split at hmem
  · rename_i ht
    subst ht
    exact hid a (List.mem_singleton.mp hmem ▸ hab)
  · cases hmem

/-- An UPDATE of rows that are of no concern. -/
theorem woven_updateWhere_aside {α : Type} {R : α → α → Prop} {P P' : α → Prop} {l l' : List α}
    {matching : α → Bool} {set : α → α} (h : Woven R P P' l l')
    (haside : ∀ a, ∀ b ∈ l', R a b → matching b = true → P a ∧ P' (set b))
    (hP' : ∀ b, P' b → P' (set b)) : Woven R P P' l (updateWhere matching set l') := by
  refine h.map_right (fun a b hb hab => ?_) fun b hb => ?_
  · split
    · rename_i hmatching
      exact .inr (haside a b hb hab hmatching)
    · exact .inl hab
  · split
    · exact hP' b hb
    · exact hb

theorem Agree.aside (hC : C.Respects ρ) (h : Agree ρ C d d') {c : Change}
    (hc : Aside ρ C d' c) : Agree ρ C d (d'.apply c) := by
  cases c with
  | inserted row id =>
    obtain ⟨hid, hrow⟩ := hc
    have hids := ids_insert_aside h.ids hid
    cases row with
    | client r =>
      exact { h with
        clients := h.clients.concat_right hrow.1
        customers := h.customers.concat_right hrow.2
        ids := hids }
    | address r =>
      exact { h with
        address := h.address.concat_right hrow
        versions := h.versions.concat_right hid
        ids := hids }
    | order r => exact { h with orders := h.orders.concat_right hrow, ids := hids }
    | orderItem r => exact { h with orderItems := h.orderItems.concat_right hrow, ids := hids }
    | payment r => exact { h with payment := h.payment.concat_right hrow, ids := hids }
    | invoice r => exact { h with invoices := h.invoices.concat_right hrow, ids := hids }
    | outbox r => exact { h with ids := hids }
  | executed stmt =>
    have hids : ∀ t a b, ρ t a b → (a ∈ d.ids t ↔ b ∈ (d'.execute stmt).ids t) := by
      intro t a b hab
      rw [Database.ids_execute]
      exact h.ids t a b hab
    cases stmt with
    | registerEvent r =>
      exact { h with processedEvents := h.processedEvents.concat_right hc, ids := hids }
    | updateClient id n doc e t =>
      refine { h with
        clients := woven_updateWhere_aside h.clients (fun a b hb hab hid => ?_) fun b hb => hb
        customers := h.customers.map_right (fun a b hb hab => ?_) fun b hb => ?_
        ids := hids }
      · have hnot := (hc b hb (by simpa using hid)).1
        refine ⟨fun ha => hnot ?_, hnot⟩
        unfold Concern.client at ha ⊢
        rw [hab.columns.2]
        exact ha
      · split
        · rename_i hid
          by_cases hshown : C.customer b
          · exact .inl ⟨hab.1, ((hc b hb (by simpa using hid)).2 hshown).trans hab.2⟩
          · exact .inr ⟨fun ha => hshown ((hC.clientId hab.1).mp ha), hshown⟩
        · exact .inl hab
      · split
        · exact hb
        · exact hb
    | closeAddress id t =>
      refine { h with
        address := woven_updateWhere_aside h.address (fun a b hb hab hid => ?_) fun b hb => hb
        versions := h.versions.map_right (fun a b _ hab => .inl ?_) fun b hb => ?_
        ids := hids }
      · have hnot := hc b hb (by simpa using hid)
        refine ⟨fun ha => hnot ?_, hnot⟩
        unfold Concern.address at ha ⊢
        rw [hab.columns.2.2.1]
        exact ha
      · split
        · exact hab
        · exact hab
      · split
        · exact hb
        · exact hb
    | updateOrder id s t =>
      refine { h with
        orders := woven_updateWhere_aside h.orders (fun a b hb hab hid => ?_) fun b hb => hb
        ids := hids }
      have hnot := hc b hb (by simpa using hid)
      refine ⟨fun ha => hnot ?_, hnot⟩
      unfold Concern.order at ha ⊢
      rw [hab.columns.2.2.2.2.1]
      exact ha
    | updatePayment id s t =>
      refine { h with
        payment := woven_updateWhere_aside h.payment (fun a b hb hab hid => ?_) fun b hb => hb
        ids := hids }
      have hnot := hc b hb (by simpa using hid)
      refine ⟨fun ha => hnot ?_, hnot⟩
      obtain ⟨_, horder, hprovider, htx⟩ := hab.columns
      unfold Concern.payment at ha ⊢
      rw [hprovider, htx, ← hC.documentId horder]
      exact ha

theorem Agree.replay_aside (hC : C.Respects ρ) (h : Agree ρ C d d') {ws : List Change}
    (hws : ∀ us c vs, ws = us ++ c :: vs → Aside ρ C (engine.replay d' us) c) :
    Agree ρ C d (engine.replay d' ws) := by
  induction ws generalizing d' with
  | nil => exact h
  | cons c ws ih =>
    refine ih (h.aside hC (hws [] c ws rfl)) fun us c' vs heq => ?_
    exact hws (c :: us) c' vs (by rw [heq]; rfl)

end Aside

/-! ## Rows that were read are still the same -/

section Same
variable {h h₁ : History} {us : List Change}

theorem named_client (hkeys : (engine.view h us).keys.Nodup) {id : Nat} {uid : String}
    (hname : (id, uid) ∈ clientNames (engine.view h us)) {c : Client}
    (hc : c ∈ (engine.view h us).clients) (hid : c.clientId = id) : c.clientUid = uid := by
  obtain ⟨c', hc', heq⟩ := List.mem_map.mp hname
  obtain ⟨rfl, rfl⟩ := Prod.mk.inj heq
  rw [client_unique_id hkeys hc hc' hid]

theorem same_address (hle : h₁ <+: h) (hkeys : (engine.view h us).keys.Nodup) {a b : Address}
    (ha : a ∈ (engine.state h₁).address) (hb : b ∈ (engine.view h us).address)
    (hid : b.addressId = a.addressId) : b.fixed = a.fixed := by
  obtain ⟨a', ha', hfixed⟩ := List.mem_map.mp
    (addresses_grow.replay _ us (addresses_grow.state hle (List.mem_map_of_mem ha)))
  rw [address_unique_id hkeys hb ha' (hid.trans (Address.columns_of_fixed hfixed).1.symm), hfixed]

theorem same_order (hle : h₁ <+: h) (hkeys : (engine.view h us).keys.Nodup) {o x : Order}
    (ho : o ∈ (engine.state h₁).orders) (hx : x ∈ (engine.view h us).orders)
    (hid : x.orderId = o.orderId) : x.fixed = o.fixed := by
  obtain ⟨o', ho', hfixed⟩ := List.mem_map.mp
    (orders_grow.replay _ us (orders_grow.state hle (List.mem_map_of_mem ho)))
  rw [order_unique_id hkeys hx ho' (hid.trans (Order.id_of_fixed hfixed).symm), hfixed]

theorem same_payment (hle : h₁ <+: h) (hkeys : (engine.view h us).keys.Nodup) {p x : Payment}
    (hp : p ∈ (engine.state h₁).payment) (hx : x ∈ (engine.view h us).payment)
    (hid : x.paymentId = p.paymentId) : x.fixed = p.fixed := by
  obtain ⟨p', hp', hfixed⟩ := List.mem_map.mp
    (payments_grow.replay _ us (payments_grow.state hle (List.mem_map_of_mem hp)))
  rw [payment_unique_id hkeys hx hp' (hid.trans (Payment.id_of_fixed hfixed).symm), hfixed]

end Same

/-! ## What one event writes -/

/-- The ids differ, the keys differ, and the writes `ws` of the one update nothing that a
document of the other shows. -/
structure Apart (d : Database) (ws : List Change) (i j : EventEnvelope) : Prop where
  ids : i.eventId.1 ≠ j.eventId.1
  keys : (businessKeys i).Disjoint (businessKeys j)
  undisturbed : ¬ Disturbs d ws j

/-- Stored orders correspond to themselves, and the new rows to none. -/
structure Fresh (ρ : Link) (h : History) (ws : List Change) : Prop where
  orders : ∀ o ∈ (engine.state h).orders,
    ρ .orders o.orderId o.orderId ∧ ρ .clients o.clientId o.clientId
  inserted : ∀ row id, .inserted row id ∈ ws → ∀ a, ¬ ρ row.table a id

section Writes
variable {ρ : Link} {i j : EventEnvelope} {h : History} {us ws : List Change}
  (hapart : Apart (engine.state h) ws i j) (hfresh : Fresh ρ h ws)
  (hkeys : (engine.view h us).keys.Nodup)
include hapart

theorem Apart.event_aside (d : Database) :
    Aside ρ (lookups (engine.state h) j) d (ledgerRow i) :=
  hapart.ids

include hfresh hkeys

theorem Apart.client_aside {data : ClientUpsertedData} (htype : i.eventType = .clientUpserted)
    (hdata : i.data.clientUpserted = .ok data) {h₀ h' : History} (hle : h' <+: h) {c : Change}
    (hc : c ∈ ws) {new : List Change}
    (hwritten : ClientWritten others data h₀ [ledgerRow i] h' new) (hnew : c ∈ new) :
    Aside ρ (lookups (engine.state h) j) (engine.view h us) c := by
  have huid : .client data.clientUid ∉ businessKeys j :=
    fun hj => hapart.keys (by simp [businessKeys, htype, hdata]) hj
  cases hwritten with
  | @created h₁ t id _ _ _ =>
    obtain rfl := List.mem_singleton.mp hnew
    have hid := hfresh.inserted _ id hc
    refine ⟨hid, huid, ?_⟩
    rintro ⟨o, ho, rfl⟩
    exact hid _ (hfresh.orders o ho.2.1).2
  | @updated h₁ t x read later found =>
    have hname : (x.clientId, data.clientUid.1) ∈ clientNames (engine.state h) :=
      clientNames_grow.state (later.trans hle) (clientNames_of_find (d := engine.state h₁) found)
    unfold clientRecord at hnew
    split at hnew
    · obtain rfl := List.mem_singleton.mp hnew
      intro y hy hid
      have hyuid := named_client hkeys (clientNames_grow.replay _ us hname) hy hid
      refine ⟨fun hmem => huid (hyuid ▸ hmem), ?_⟩
      rintro ⟨o, ho, hclient⟩
      by_contra hshown
      refine hapart.undisturbed ⟨o, ho, _, hc, hid.symm.trans hclient.symm, fun hclean => hshown ?_⟩
      simp only [Prod.mk.injEq] at hclean
      rw [hclean.1, hclean.2.1, hclean.2.2]
      rfl
    · cases hnew

theorem Apart.address_aside {data : ClientUpsertedData} (htype : i.eventType = .clientUpserted)
    (hdata : i.data.clientUpserted = .ok data) {clientId : Nat} {h' : History}
    {client : List Change} {c : Change} (hc : c ∈ ws)
    (hclient : ∀ h₁ : History, (engine.view h₁ (ledgerRow i :: client)).address = (engine.state h₁).address)
    {new : List Change}
    (hwritten : Versioned others clientId data.address h' (ledgerRow i :: client) h new)
    (hnew : c ∈ new) : Aside ρ (lookups (engine.state h) j) (engine.view h us) c := by
  have huid : .address data.address.addressUid ∉ businessKeys j :=
    fun hj => hapart.keys (by simp [businessKeys, htype, hdata]) hj
  cases hwritten with
  | kept => cases hnew
  | @opened h₁ t id _ _ _ =>
    obtain rfl := List.mem_singleton.mp hnew
    exact ⟨hfresh.inserted _ id hc, huid⟩
  | @replaced h₁ h₂ h₃ v t id read clock inserted later found _ _ _ =>
    simp only [List.mem_cons, List.not_mem_nil, or_false] at hnew
    rcases hnew with rfl | rfl
    · intro a ha hid hmem
      have hv : v ∈ (engine.state h₁).address := hclient h₁ ▸ List.mem_of_find?_eq_some found
      have hle : h₁ <+: h := clock.trans (inserted.trans later)
      have hfixed := same_address hle hkeys hv ha hid
      have hvuid : v.addressUid = data.address.addressUid.1 := by
        have hfind := List.find?_some found
        simp only [Bool.and_eq_true, beq_iff_eq] at hfind
        exact hfind.1
      refine huid ?_
      rw [← hvuid, ← (Address.columns_of_fixed hfixed).2.1]
      exact hmem
    · exact ⟨hfresh.inserted _ id hc, huid⟩

omit hkeys in
theorem Apart.order_aside {data : OrderCreatedData} (htype : i.eventType = .orderCreated)
    (hdata : i.data.orderCreated = .ok data) {h' : History} {c : Change} (hc : c ∈ ws)
    {new : List Change} (hnews : new ⊆ ws)
    (hplaced : OrderPlaced others i data h' [ledgerRow i] h new) (hnew : c ∈ new) :
    Aside ρ (lookups (engine.state h) j) (engine.view h us) c := by
  have huid : .order data.orderUid ∉ businessKeys j :=
    fun hj => hapart.keys (by simp [businessKeys, htype, hdata]) hj
  cases hplaced with
  | known => cases hnew
  | @created h₁ h₂ h₃ client shipping billing id items _ _ _ _ _ _ _ hrows =>
    have hid := hfresh.inserted _ id (hnews List.mem_cons_self)
    rcases List.mem_cons.mp hnew with rfl | hitem
    · exact ⟨hid, huid⟩
    · obtain ⟨item, itemId, rfl⟩ := mem_itemRows hrows hitem
      refine ⟨hfresh.inserted _ itemId hc, ?_⟩
      rintro ⟨o, ho, hoid⟩
      obtain rfl : o.orderId = id := hoid
      exact hid _ (hfresh.orders o ho.2.1).1

variable (us) in
omit hfresh hkeys in
/-- The order that an event is about is not the one that `j` is about. -/
theorem Apart.other_order {orderUid : String} (hnamed : .order orderUid ∈ businessKeys i)
    {h₁ : History} (hle : h₁ <+: h) {o : Order}
    (ho : storedOrder (engine.view h₁ [ledgerRow i]) orderUid = some o)
    (hkeys : (engine.view h us).keys.Nodup) {x : Order} (hx : x ∈ (engine.view h us).orders)
    (hid : x.orderId = o.orderId) : .order x.orderUid ∉ businessKeys j := by
  have hmem : o ∈ (engine.state h₁).orders := List.mem_of_find?_eq_some ho
  have huid : o.orderUid = orderUid := by simpa using List.find?_some ho
  rw [Order.uid_of_fixed (same_order hle hkeys hmem hx hid), huid]
  exact fun hj => hapart.keys hnamed hj

theorem Apart.payment_aside {data : PaymentUpdatedData} (htype : i.eventType = .paymentUpdated)
    (hdata : i.data.paymentUpdated = .ok data) (hstate : (engine.state h).keys.Nodup)
    {h₁ h₂ : History} (hle : h₁ <+: h₂) (hle₂ : h₂ <+: h) {o : Order}
    (ho : storedOrder (engine.view h₁ [ledgerRow i]) data.orderUid = some o) {c : Change}
    (hc : c ∈ ws) {record approval pending : List Change}
    (hrecord : Recorded others o.orderId data h₁ [ledgerRow i] h₂ record)
    (happroval : Approval others o data.status h₂ pending h approval)
    (hnew : c ∈ record ∨ c ∈ approval) :
    Aside ρ (lookups (engine.state h) j) (engine.view h us) c := by
  have hnamed : .order data.orderUid ∈ businessKeys i := by simp [businessKeys, htype, hdata]
  have htx : .transaction data.provider data.providerTxId ∉ businessKeys j :=
    fun hj => hapart.keys (by simp [businessKeys, htype, hdata]) hj
  rcases hnew with hnew | hnew
  · cases hrecord with
    | @created g₁ g₂ id _ _ _ _ _ _ =>
      obtain rfl := List.mem_singleton.mp hnew
      refine ⟨hfresh.inserted _ id hc, fun hmem => ?_⟩
      rcases hmem with hmem | ⟨x, hx, hid⟩
      · exact htx hmem
      · exact hapart.other_order [] hnamed (hle.trans hle₂) ho hstate hx.2.1 hid hx.named
    | @updated g₁ p read later found =>
      unfold recordUpdate at hnew
      dsimp only at hnew
      split at hnew
      · obtain rfl := List.mem_singleton.mp hnew
        intro y hy hid hmem
        have hp : p ∈ (engine.state g₁).payment := List.mem_of_find?_eq_some found
        have hsame : p.SameTransaction data := by
          simpa [Payment.SameTransaction] using List.find?_some found
        have hg : g₁ <+: h := later.trans hle₂
        have hfixed := same_payment hg hkeys hp hy hid
        rcases hmem with hmem | ⟨x, hx, hxid⟩
        · obtain ⟨hprovider, hproviderTx⟩ := (Payment.sameTransaction_of_fixed hfixed).mpr hsame
          refine htx ?_
          rw [← hprovider, ← hproviderTx]
          exact hmem
        · obtain ⟨p', hp', hfixed'⟩ := payment_stays hg hp
          refine hapart.undisturbed ⟨x, hx, _, hc, p', hp', Payment.id_of_fixed hfixed', ?_⟩
          rw [hxid, Payment.orderId_of_fixed hfixed, Payment.orderId_of_fixed hfixed']
      · cases hnew
  · cases happroval with
    | none => cases hnew
    | @now t m id g₁ _ _ _ _ _ =>
      simp only [List.mem_cons, List.not_mem_nil, or_false] at hnew
      rcases hnew with rfl | rfl
      · exact fun x hx hid => hapart.other_order us hnamed (hle.trans hle₂) ho hkeys hx hid
      · exact ⟨hfresh.inserted _ id hc, trivial⟩

theorem Apart.invoice_aside {data : InvoiceIssuedData} (htype : i.eventType = .invoiceIssued)
    (hdata : i.data.invoiceIssued = .ok data) (hstate : (engine.state h).keys.Nodup)
    {h₁ : History} (hle : h₁ <+: h) {o : Order}
    (ho : storedOrder (engine.view h₁ [ledgerRow i]) data.orderUid = some o) {c : Change}
    (hc : c ∈ ws) {new : List Change}
    (hwritten : InvoiceWritten others o data h₁ [ledgerRow i] h new) (hnew : c ∈ new) :
    Aside ρ (lookups (engine.state h) j) (engine.view h us) c := by
  have hnamed : .order data.orderUid ∈ businessKeys i := by simp [businessKeys, htype, hdata]
  have hrow : ¬ (lookups (engine.state h) j).invoice (newInvoice o.orderId data) := by
    rintro (hmem | ⟨x, hx, hxkey, hid⟩)
    · exact hapart.keys (by simp [businessKeys, htype, hdata, newInvoice]) hmem
    · exact hapart.other_order [] hnamed hle ho hstate hx hid hxkey
  cases hwritten with
  | known => cases hnew
  | @issued g₁ id _ _ _ _ =>
    obtain rfl := List.mem_singleton.mp hnew
    exact ⟨hfresh.inserted _ id hc, hrow⟩
  | @closes g₁ id t _ _ _ _ =>
    simp only [List.mem_cons, List.not_mem_nil, or_false] at hnew
    rcases hnew with rfl | rfl
    · exact ⟨hfresh.inserted _ id hc, hrow⟩
    · exact fun x hx hid => hapart.other_order us hnamed hle ho hkeys hx hid

end Writes

/-- Client writes leave the addresses alone. -/
theorem clientWritten_address {data : ClientUpsertedData} {h h' : History} {ws new : List Change}
    (hwritten : ClientWritten others data h ws h' new) (d : Database) :
    (engine.replay d new).address = d.address := by
  cases hwritten with
  | created => rfl
  | updated =>
    unfold clientRecord
    split <;> rfl

/-- Every write of an event concerns no row that the other event looks up. -/
theorem CompleteEffect.aside {ρ : Link} {i j : EventEnvelope} {h : History} {us ws : List Change}
    (hc : CompleteEffect others i h ws) (hapart : Apart (engine.state h) ws i j)
    (hfresh : Fresh ρ h ws) (hstate : (engine.state h).keys.Nodup)
    (hkeys : (engine.view h us).keys.Nodup) {c : Change} (hmem : c ∈ ws) :
    Aside ρ (lookups (engine.state h) j) (engine.view h us) c := by
  obtain ⟨h₀, _, hruns⟩ := hc
  cases htype : i.eventType with
  | clientUpserted =>
    rw [htype] at hruns
    obtain ⟨data, clientId, h₁, client, address, hdata, hclient, haddress, _, hle, rfl⟩ :=
      clientHandler_runs hruns
    have hmem' := hmem
    simp only [List.mem_append, List.mem_singleton] at hmem'
    rcases hmem' with (rfl | hnew) | hnew
    · exact hapart.event_aside _
    · exact hapart.client_aside hfresh hkeys htype hdata hle hmem hclient hnew
    · refine hapart.address_aside hfresh hkeys htype hdata hmem (fun g => ?_) haddress hnew
      exact clientWritten_address hclient _
  | orderCreated =>
    rw [htype] at hruns
    obtain ⟨data, new, hdata, -, hplaced, rfl⟩ := orderHandler_runs hruns
    rcases List.mem_append.mp hmem with hledger | hnew
    · rw [List.mem_singleton.mp hledger]
      exact hapart.event_aside _
    · exact hapart.order_aside hfresh htype hdata hmem (List.subset_append_right _ _) hplaced hnew
  | paymentUpdated =>
    rw [htype] at hruns
    obtain ⟨data, o, h₁, h₂, record, approval, hdata, _, hle₁, hle₂, ho, hrecord, happroval, rfl⟩ :=
      paymentHandler_runs hruns
    have hmem' := hmem
    simp only [List.mem_append, List.mem_singleton] at hmem'
    rcases hmem' with (rfl | hnew) | hnew
    · exact hapart.event_aside _
    · exact hapart.payment_aside hfresh hkeys htype hdata hstate hle₁ hle₂ ho hmem hrecord happroval
        (.inl hnew)
    · exact hapart.payment_aside hfresh hkeys htype hdata hstate hle₁ hle₂ ho hmem hrecord happroval
        (.inr hnew)
  | invoiceIssued =>
    rw [htype] at hruns
    obtain ⟨data, o, h₁, new, hdata, _, hle, ho, hwritten, rfl⟩ := invoiceHandler_runs hruns
    rcases List.mem_append.mp hmem with hledger | hnew
    · rw [List.mem_singleton.mp hledger]
      exact hapart.event_aside _
    · exact hapart.invoice_aside hfresh hkeys htype hdata hstate hle ho hmem hwritten hnew

end EcommerceIntegration
