import EcommerceIntegration.Ingest.AddressHistory
import EcommerceIntegration.Ingest.Placement

/-!
# The delivery data of an order

The versions that an order refers to stay, closed or not, and its items are written by the
transaction that writes the order, so the address and item sections of its document are the
same at all times.
-/

namespace EcommerceIntegration

set_option autoImplicit false

open Transaction

def clientById (d : Database) (id : Nat) : Option Client := d.clients.find? (·.clientId == id)

def addressById (d : Database) (id : Nat) : Option Address := d.address.find? (·.addressId == id)

def itemsOf (d : Database) (orderId : Nat) : List OrderItem :=
  d.orderItems.filter (·.orderId == orderId)

/-- `build_order_payload` for an order whose relationships are loaded from the database. -/
def documentOf (d : Database) (o : Order) (payment : Option Payment) : Option OrderPayload := do
  let client ← clientById d o.clientId
  let shipping ← addressById d o.shippingAddressId
  let billing ← addressById d o.billingAddressId
  return buildOrderPayload o client shipping billing (itemsOf d o.orderId) payment

/-! ## Rows by their id -/

theorem find?_eq_some_of_unique {α : Type} {rows : List α} {p : α → Bool} {a : α} (ha : a ∈ rows)
    (hp : p a = true) (hunique : ∀ b ∈ rows, p b = true → b = a) : rows.find? p = some a := by
  have hsome : (rows.find? p).isSome = true := List.find?_isSome.mpr ⟨a, ha, hp⟩
  obtain ⟨b, hb⟩ := Option.isSome_iff_exists.mp hsome
  rw [hb, hunique b (List.mem_of_find?_eq_some hb) (List.find?_some hb)]

theorem addressById_eq_some {d : Database} (hd : d.keys.Nodup) {a : Address} (ha : a ∈ d.address) :
    addressById d a.addressId = some a := by
  refine find?_eq_some_of_unique ha (beq_self_eq_true _) fun b hb hid => ?_
  exact address_unique_id hd hb ha (beq_iff_eq.mp hid)

theorem clientById_isSome {d : Database} {id : Nat} (hid : id ∈ d.ids .clients) :
    ∃ c, clientById d id = some c := by
  obtain ⟨c, hc, rfl⟩ := List.mem_map.mp hid
  exact Option.isSome_iff_exists.mp (List.find?_isSome.mpr ⟨c, hc, beq_self_eq_true _⟩)

section Later
variable {h h' : History}

theorem mem_ids_later (hle : h <+: h') {t : TableName} {id : Nat}
    (hid : id ∈ (engine.state h).ids t) : id ∈ (engine.state h').ids t :=
  mem_keys_row.mp (keyLaws.mem_keys_state hle (mem_keys_row.mpr hid))

/-- A version stays with its id and its fields. -/
theorem address_stays (hle : h <+: h') {a : Address} (ha : a ∈ (engine.state h).address) :
    ∃ a' ∈ (engine.state h').address, a'.fixed = a.fixed :=
  List.mem_map.mp (addresses_grow.state hle (List.mem_map_of_mem ha))

theorem addressById_stays (hh : Consistent h') (hle : h <+: h') {a : Address}
    (ha : a ∈ (engine.state h).address) :
    ∃ a', addressById (engine.state h') a.addressId = some a' ∧ a'.fixed = a.fixed := by
  obtain ⟨a', ha', hfixed⟩ := address_stays hle ha
  have hid : a'.addressId = a.addressId := (Address.columns_of_fixed hfixed).1
  exact ⟨a', hid ▸ addressById_eq_some hh.keys ha', hfixed⟩

/-- The sections of two rows of one version. -/
theorem addressSection_of_fixed {a b : Address} (h : a.fixed = b.fixed) :
    addressSection a = addressSection b := by
  obtain ⟨hid, huid, _, hfields, _⟩ := Address.columns_of_fixed h
  simp only [addressSection, hid, huid, hfields]

end Later

/-! ## The items -/

/-- What a commit inserts has keys that were not there. -/
theorem Consistent.new_key {h : History} {k : IngestCommit} (hh : Consistent (h ++ [k]))
    {c : Change} (hc : c ∈ k.writes) {key : Lock} (hkey : key ∈ newKeys c) :
    key ∉ (engine.state h).keys := by
  have hkeys := hh.keys
  rw [Engine.state_concat] at hkeys
  have hnodup := (keyLaws.keys_replay _ _).nodup_iff.mp hkeys
  intro hold
  exact (List.nodup_append'.mp hnodup).2.2 hold (List.mem_flatMap.mpr ⟨c, hc, hkey⟩)

/-- Items are written with their order. -/
theorem CompleteEffect.inserted_item {R : Rely store EventEnvelope} {i : EventEnvelope}
    {h : History} {ws : List Change} (hc : CompleteEffect R i h ws) {r : OrderItem} {id : Nat}
    (hr : .inserted (.orderItem r) id ∈ ws) : ∃ o, .inserted (.order o) r.orderId ∈ ws := by
  have htype : i.eventType = .orderCreated := hc.type_of_write hr trivial
  obtain ⟨h₀, _, hruns⟩ := hc
  rw [htype] at hruns
  obtain ⟨data, new, -, -, hplaced, rfl⟩ := orderHandler_runs hruns
  rcases List.mem_append.mp hr with hr | hr
  · cases List.mem_singleton.mp hr
  · cases hplaced with
    | known => cases hr
    | created _ _ _ _ _ _ _ items_written =>
      rcases List.mem_cons.mp hr with hr | hr
      · cases hr
      · obtain ⟨item, id', heq⟩ := mem_itemRows items_written hr
        cases heq
        exact ⟨_, List.mem_append_right _ List.mem_cons_self⟩

theorem itemsOf_concat {h : History} {k : IngestCommit} (hh : Consistent (h ++ [k])) {orderId : Nat}
    (ho : orderId ∈ (engine.state h).ids .orders) :
    itemsOf (engine.state (h ++ [k])) orderId = itemsOf (engine.state h) orderId := by
  rw [Engine.state_concat]
  have hspares : ∀ c ∈ k.writes, engine.Spares (fun d : Database => itemsOf d orderId) c := by
    intro c hc d
    cases c with
    | inserted row id =>
      cases row with
      | orderItem r =>
        -- its order is a new one
        obtain ⟨o, hinserted⟩ := hh.effect.inserted_item hc
        have hother : r.orderId ≠ orderId := by
          rintro rfl
          exact hh.new_key hinserted (by simp [newKeys, NewRow.keys]) (mem_keys_row.mpr ho)
        simp only [itemsOf, engine, Database.apply, Database.insert, List.filter_append]
        simp [hother]
      | client | address | order | payment | invoice | outbox => rfl
    | executed stmt => cases stmt <;> rfl
  exact Engine.replay_spares hspares _

theorem itemsOf_stays {h h' : History} (hle : h <+: h') (hh : Consistent h') {orderId : Nat}
    (ho : orderId ∈ (engine.state h).ids .orders) :
    itemsOf (engine.state h') orderId = itemsOf (engine.state h) orderId := by
  obtain ⟨later, rfl⟩ := hle
  induction later using List.reverseRecOn with
  | nil => rw [List.append_nil]
  | append_singleton later k ih =>
    rw [← List.append_assoc] at hh ⊢
    rw [itemsOf_concat hh (mem_ids_later (List.prefix_append _ _) ho)]
    exact ih (hh.of_prefix (List.prefix_append _ _))

/-! ## The order -/

/-- The rows that an order refers to are there. -/
theorem references_stored {h : History} (hh : Consistent h) {o : Order}
    (ho : o ∈ (engine.state h).orders) :
    o.clientId ∈ (engine.state h).ids .clients ∧
      (∃ a ∈ (engine.state h).address, a.addressId = o.shippingAddressId) ∧
      ∃ a ∈ (engine.state h).address, a.addressId = o.billingAddressId := by
  obtain ⟨h₀, k, data, client, shipping, billing, hpre, hplaced, hfixed⟩ := order_origin hh ho
  obtain ⟨hclient, hshipping, hbilling, _⟩ := newOrder_columns hfixed
  have hle : h₀ <+: h := (List.prefix_append _ _).trans hpre
  have stays : ∀ h₁ uid a, h₁ <+: h₀ → currentVersion (engine.state h₁) uid = some a →
      ∃ a' ∈ (engine.state h).address, a'.addressId = a.addressId := by
    intro h₁ uid a hle₁ hcurrent
    obtain ⟨a', ha', hsame⟩ := address_stays (hle₁.trans hle) (List.mem_of_find?_eq_some hcurrent)
    exact ⟨a', ha', (Address.columns_of_fixed hsame).1⟩
  obtain ⟨h₁, hle₁, hfound⟩ := hplaced.client_found
  obtain ⟨h₂, hle₂, hcurrent⟩ := hplaced.shipping_current
  obtain ⟨h₃, hle₃, hcurrent'⟩ := hplaced.billing_current
  rw [hclient, hshipping, hbilling]
  refine ⟨mem_ids_later (hle₁.trans hle) ?_, stays h₂ _ _ hle₂ hcurrent,
    stays h₃ _ _ hle₃ hcurrent'⟩
  exact List.mem_map_of_mem (List.mem_of_find?_eq_some hfound)

/-- The order `o'` of `d'` has the delivery data that `o` had in `d`. -/
structure SameDelivery (d d' : Database) (o o' : Order) : Prop where
  orderUid : o'.orderUid = o.orderUid
  clientId : o'.clientId = o.clientId
  shippingAddressId : o'.shippingAddressId = o.shippingAddressId
  billingAddressId : o'.billingAddressId = o.billingAddressId
  currency : o'.currency = o.currency
  totalAmount : o'.totalAmount = o.totalAmount
  placedAt : o'.placedAt = o.placedAt
  items : itemsOf d' o'.orderId = itemsOf d o.orderId
  shipping_fields : ∃ fields,
    (addressById d o.shippingAddressId).map Address.fields = some fields ∧
      (addressById d' o'.shippingAddressId).map Address.fields = some fields
  billing_fields : ∃ fields,
    (addressById d o.billingAddressId).map Address.fields = some fields ∧
      (addressById d' o'.billingAddressId).map Address.fields = some fields
  /-- with whatever payments the two documents are built -/
  document : ∀ payment payment', ∃ m m', documentOf d o payment = some m ∧
    documentOf d' o' payment' = some m' ∧ m'.shippingAddress = m.shippingAddress ∧
      m'.billingAddress = m.billingAddress ∧ m'.items = m.items

theorem sameDelivery_of_prefix {h h' : History} (hle : h <+: h') (hh : Consistent h') {o o' : Order}
    (ho : o ∈ (engine.state h).orders) (hfixed : o'.fixed = o.fixed) :
    SameDelivery (engine.state h) (engine.state h') o o' := by
  have hid : o'.orderId = o.orderId := Order.id_of_fixed hfixed
  obtain ⟨hclient, hshipping, hbilling, hcurrency, htotal, hplaced⟩ :=
    Order.columns_of_fixed hfixed
  have hh₀ := hh.of_prefix hle
  obtain ⟨hclients, ⟨a, ha, haid⟩, b, hb, hbid⟩ := references_stored hh₀ ho
  obtain ⟨client, hclientRow⟩ := clientById_isSome hclients
  obtain ⟨client', hclientRow'⟩ := clientById_isSome (mem_ids_later hle hclients)
  have ha₀ := addressById_eq_some hh₀.keys ha
  have hb₀ := addressById_eq_some hh₀.keys hb
  obtain ⟨a', ha', hasame⟩ := addressById_stays hh hle ha
  obtain ⟨b', hb', hbsame⟩ := addressById_stays hh hle hb
  have hitems : itemsOf (engine.state h') o.orderId = itemsOf (engine.state h) o.orderId :=
    itemsOf_stays hle hh (List.mem_map_of_mem ho)
  rw [haid] at ha₀ ha'
  rw [hbid] at hb₀ hb'
  have hitems' : itemsOf (engine.state h') o'.orderId = itemsOf (engine.state h) o.orderId := by
    rw [hid, hitems]
  refine ⟨Order.uid_of_fixed hfixed, hclient, hshipping, hbilling, hcurrency, htotal, hplaced,
    hitems', ?_, ?_, ?_⟩
  · refine ⟨a.fields, by rw [ha₀, Option.map_some], ?_⟩
    rw [hshipping, ha', Option.map_some, (Address.columns_of_fixed hasame).2.2.2.1]
  · refine ⟨b.fields, by rw [hb₀, Option.map_some], ?_⟩
    rw [hbilling, hb', Option.map_some, (Address.columns_of_fixed hbsame).2.2.2.1]
  · intro payment payment'
    refine ⟨buildOrderPayload o client a b (itemsOf (engine.state h) o.orderId) payment,
      buildOrderPayload o' client' a' b' (itemsOf (engine.state h') o'.orderId) payment',
      ?_, ?_, addressSection_of_fixed hasame, addressSection_of_fixed hbsame, ?_⟩
    · simp [documentOf, hclientRow, ha₀, hb₀]
    · simp [documentOf, hclient, hshipping, hbilling, hclientRow', ha', hb']
    · simp only [buildOrderPayload, hitems']

theorem IngestReachable.run {s t : IngestState} (hs : IngestReachable s) {ls : List IngestLabel}
    (hrun : ingestRun s ls = some t) : IngestReachable t := by
  obtain ⟨clock, reserved, hs⟩ := hs
  exact ⟨clock, reserved, hs.trans_run hrun⟩

/-- Whatever is processed after it, an order keeps the delivery data it was created with. -/
theorem delivery_kept {s t : IngestState} (hs : IngestReachable s) {ls : List IngestLabel}
    (hrun : ingestRun s ls = some t) {o : Order} (ho : o ∈ (committed s).orders) :
    (∃ o' ∈ (committed t).orders, o'.orderId = o.orderId) ∧
      ∀ o' ∈ (committed t).orders, o'.orderId = o.orderId →
        SameDelivery (committed s) (committed t) o o' := by
  have hle : s.shared.history <+: t.shared.history := run_history hrun
  have hh : Consistent t.shared.history := (hs.run hrun).consistent
  obtain ⟨o₁, ho₁, hfixed⟩ := order_stays hle ho
  have hid : o₁.orderId = o.orderId := Order.id_of_fixed hfixed
  refine ⟨⟨o₁, ho₁, hid⟩, fun o' ho' hid' => ?_⟩
  obtain rfl : o' = o₁ := order_unique_id hh.keys ho' ho₁ (hid'.trans hid.symm)
  exact sameDelivery_of_prefix hle hh ho hfixed

namespace Sample

def catalogState : IngestState := (after catalog).get (by decide +kernel)

/-- The client moves after both orders have been placed. -/
def movedState : IngestState :=
  (ingestRun catalogState (attempt 3 moved1 10)).get (by decide +kernel)

end Sample

theorem delivery_kept_moved : ∃ o ∈ (committed Sample.catalogState).orders,
    (∃ o' ∈ (committed Sample.movedState).orders, o'.orderId = o.orderId) ∧
      ∀ o' ∈ (committed Sample.movedState).orders, o'.orderId = o.orderId →
        SameDelivery (committed Sample.catalogState) (committed Sample.movedState) o o' := by
  have hrow : 0 < (committed Sample.catalogState).orders.length := by decide +kernel
  refine ⟨(committed Sample.catalogState).orders.get ⟨0, hrow⟩, List.get_mem _ _, ?_⟩
  exact delivery_kept (Sample.after_reachable (by decide +kernel)) (Option.some_get _).symm
    (List.get_mem _ _)

end EcommerceIntegration
