import EcommerceIntegration.Ingest.Capacity
import EcommerceIntegration.Ingest.Delivery
import EcommerceIntegration.Ingest.Replay

/-!
# The totals of an order

An order and its items are written by one transaction, with values that fit their columns.
Up to that size the arithmetic of the source is exact, so the total is the sum of the lines
in every state, however the prices were written.
-/

namespace EcommerceIntegration

set_option autoImplicit false

open Transaction

section Rows
variable {α β γ : Type} {R : α → β → Prop} {as : List α} {bs : List β}

theorem map_eq_of_forall₂ {f : α → γ} {g : β → γ} (hR : ∀ a b, R a b → f a = g b)
    (h : List.Forall₂ R as bs) : as.map f = bs.map g := by
  induction h with
  | nil => rfl
  | cons hab _ ih => simp only [List.map_cons, hR _ _ hab, ih]

theorem exists_of_forall₂ (h : List.Forall₂ R as bs) {b : β} (hb : b ∈ bs) : ∃ a ∈ as, R a b := by
  induction h with
  | nil => cases hb
  | cons hab _ ih =>
    rcases List.mem_cons.mp hb with rfl | hb
    · exact ⟨_, List.mem_cons_self, hab⟩
    · obtain ⟨a, ha, hab⟩ := ih hb
      exact ⟨a, List.mem_cons_of_mem _ ha, hab⟩

end Rows

/-! ## What is written fits -/

/-- The values of the row fit its columns. -/
def Fitting : Change → Prop
  | .inserted (.order r) _ => r.totalAmount < maxNumeric
  | .inserted (.orderItem r) _ => r.quantity < maxInteger ∧ r.lineTotal < maxNumeric
  | _ => True

theorem fitting_of_write {t : EventType} (ht : t ≠ .orderCreated) {c : Change}
    (hc : HandlerWrite t c) : Fitting c := by
  cases c with
  | executed stmt => trivial
  | inserted row id =>
    cases row with
    | order r => cases t <;> first | exact absurd rfl ht | exact hc.elim
    | orderItem r => cases t <;> first | exact absurd rfl ht | exact hc.elim
    | client | address | payment | invoice | outbox => trivial

theorem handler_fitting (t : EventType) (i : EventEnvelope) : Straight Fitting (handlerOf t i) := by
  by_cases ht : t = .orderCreated
  · subst ht
    apply orderHandler_straight
    · exact fun data _ htotal clientId shippingId billingId id => htotal
    · exact fun item hquantity hline orderId id => ⟨hquantity, hline⟩
  · exact (handler_straight t i).mono fun c hc => fitting_of_write ht hc

theorem CompleteEffect.fitting {R : Rely store EventEnvelope} {i : EventEnvelope} {h : History}
    {ws : List Change} (hc : CompleteEffect R i h ws) : ∀ c ∈ ws, Fitting c := by
  obtain ⟨h₀, _, hr⟩ := hc
  obtain ⟨new, rfl, hnew⟩ := hr.writes (handler_fitting i.eventType i)
  intro c hc
  rcases List.mem_cons.mp hc with rfl | hc
  · trivial
  · exact hnew c hc

/-- Only an order that fits its columns is committed. -/
theorem Placed.fitsColumns {R : Rely store EventEnvelope} {i : EventEnvelope} {h : History}
    {data : OrderCreatedData} {client : Client} {shipping billing : Address} {id : Nat}
    {ws : List Change} (hplaced : Placed R i h data client shipping billing id ws)
    (hfitting : ∀ c ∈ ws, Fitting c) : data.FitsColumns := by
  obtain ⟨items, hrows, rfl⟩ := hplaced.writes
  have hitem : ∀ item ∈ data.items, item.quantity < maxInteger ∧ item.lineTotal < maxNumeric := by
    intro item hi
    obtain ⟨c, hc, id', rfl⟩ := exists_of_forall₂ hrows.flip hi
    exact hfitting _ (List.mem_cons_of_mem _ (List.mem_cons_of_mem _ hc))
  have htotal : data.totalAmount < maxNumeric :=
    hfitting _ (List.mem_cons_of_mem _ List.mem_cons_self)
  exact ⟨fun i hi => (hitem i hi).1, fun i _ => i.unitPrice.property, fun i hi => (hitem i hi).2,
    htotal⟩

/-! ## The rows of the items -/

/-- The row of the item, with whatever key it got. -/
def ItemRow (orderId : Nat) (item : OrderItemPayload) (r : OrderItem) : Prop :=
  ∃ id, r = { OrderRepository.newItem orderId item with orderItemId := id }

theorem itemsOf_rows {orderId : Nat} {items : List OrderItemPayload} {ws : List Change}
    (hrows : ItemRows orderId items ws) (d : Database) :
    ∃ rows, itemsOf (engine.replay d ws) orderId = itemsOf d orderId ++ rows ∧
      List.Forall₂ (ItemRow orderId) items rows := by
  induction hrows generalizing d with
  | nil => exact ⟨[], (List.append_nil _).symm, .nil⟩
  | @cons item c items ws hitem hrest ih =>
    obtain ⟨id, rfl⟩ := hitem
    obtain ⟨rows, heq, hrows⟩ :=
      ih (engine.apply d (.inserted (.orderItem (OrderRepository.newItem orderId item)) id))
    refine ⟨{ OrderRepository.newItem orderId item with orderItemId := id } :: rows, ?_,
      .cons ⟨id, rfl⟩ hrows⟩
    rw [Engine.replay_cons, heq]
    simp [itemsOf, engine, Database.apply, Database.insert, OrderRepository.newItem]

theorem item_gain (d : Database) (c : Change) :
    (engine.apply d c).orderItems.map OrderItem.orderId ⊆
      d.orderItems.map OrderItem.orderId ++
        match c with
        | .inserted (.orderItem r) _ => [r.orderId]
        | _ => [] := by
  intro id hid
  cases c with
  | inserted row k =>
    cases row with
    | orderItem r =>
      simp only [engine, Database.apply, Database.insert, List.map_append] at hid
      exact hid
    | client | address | order | payment | invoice | outbox => exact List.mem_append_left _ hid
  | executed stmt => cases stmt <;> exact List.mem_append_left _ hid

section Totals
variable {h : History}

/-- An item belongs to an order that is stored. -/
theorem order_of_item (hh : Consistent h) {r : OrderItem} (hr : r ∈ (engine.state h).orderItems) :
    r.orderId ∈ (engine.state h).ids .orders := by
  obtain ⟨h₀, k, hpre, c, hc, hgained⟩ := engine.origin
    (fun d : Database => d.orderItems.map OrderItem.orderId) _ rfl item_gain
    (List.mem_map_of_mem hr)
  split at hgained
  · rename_i r' id
    obtain ⟨o, ho⟩ := (hh.of_prefix hpre).effect.inserted_item hc
    rw [List.mem_singleton.mp hgained]
    obtain ⟨o', ho', hfixed⟩ := order_of_inserted (d := engine.state h₀) ho
    rw [← Engine.state_concat] at ho'
    have hid : o'.orderId = r'.orderId := Order.id_of_fixed hfixed
    exact hid ▸ mem_ids_later hpre (List.mem_map_of_mem ho')
  · cases hgained

/-- The items of an order are those of the event that placed it. -/
theorem itemsOf_placed (hh : Consistent h) {h₀ : History} {k : IngestCommit}
    (hpre : h₀ ++ [k] <+: h) {data : OrderCreatedData} {client : Client} {shipping billing : Address}
    {id : Nat} (hplaced : Placed others k.input h₀ data client shipping billing id k.writes) :
    List.Forall₂ (ItemRow id) data.items (itemsOf (engine.state h) id) := by
  obtain ⟨items, hrows, hwrites⟩ := hplaced.writes
  have hinserted : .inserted (.order (newOrder k.input data client shipping billing)) id ∈ k.writes := by
    rw [hwrites]
    exact List.mem_cons_of_mem _ List.mem_cons_self
  have hnew : id ∉ (engine.state h₀).ids .orders := fun hold =>
    (hh.of_prefix hpre).new_key hinserted (by simp [newKeys, NewRow.keys]) (mem_keys_row.mpr hold)
  have hbefore : itemsOf (engine.state h₀) id = [] := by
    refine List.filter_eq_nil_iff.mpr fun r hr heq => hnew ?_
    have hh₀ := hh.of_prefix ((List.prefix_append h₀ [k]).trans hpre)
    exact beq_iff_eq.mp heq ▸ order_of_item hh₀ hr
  obtain ⟨o, ho, hfixed⟩ := order_of_inserted (d := engine.state h₀) hinserted
  rw [← Engine.state_concat] at ho
  have hid : id ∈ (engine.state (h₀ ++ [k])).ids .orders := by
    have hrow : o.orderId = id := Order.id_of_fixed hfixed
    exact hrow ▸ List.mem_map_of_mem ho
  rw [itemsOf_stays hpre hh hid, Engine.state_concat, hwrites]
  obtain ⟨rows, heq, hforall⟩ := itemsOf_rows hrows (engine.replay (engine.state h₀)
    [ledgerRow k.input, .inserted (.order (newOrder k.input data client shipping billing)) id])
  rw [← Engine.replay_append] at heq
  have hunchanged : itemsOf (engine.replay (engine.state h₀) [ledgerRow k.input,
      .inserted (.order (newOrder k.input data client shipping billing)) id]) id = [] := hbefore
  rw [hunchanged, List.nil_append] at heq
  exact heq ▸ hforall

end Totals

/-! ## The totals -/

/-- The amounts that the order `o` and its items hold in `d` are those of `data`. -/
structure HoldsAmounts (d : Database) (o : Order) (data : OrderCreatedData) : Prop where
  fits : data.FitsColumns
  items : List.Forall₂ (fun item r => r.sku = item.sku.val ∧ r.quantity = item.quantity ∧
    r.unitPrice = item.unitPrice.val) data.items (itemsOf d o.orderId)
  line : ∀ r ∈ itemsOf d o.orderId, r.lineTotal = r.quantity * r.unitPrice
  total : o.totalAmount = ((itemsOf d o.orderId).map OrderItem.lineTotal).sum
  /-- as `total_amount` sums them up -/
  written_total : ∀ ws : List WrittenItem, ws.map WrittenItem.item = data.items →
    (writtenTotal ws).value = (⟨o.totalAmount, -4⟩ : Decimal).value
  /-- as `_add_items` computes them -/
  written_line : ∀ ws : List WrittenItem, ws.map WrittenItem.item = data.items →
    List.Forall₂ (fun w r => ∃ d, w.lineTotal = some d ∧
      d.value = (⟨r.lineTotal, -4⟩ : Decimal).value) ws (itemsOf d o.orderId)

theorem holdsAmounts_of_rows {d : Database} {o : Order} {data : OrderCreatedData}
    (hfits : data.FitsColumns) (htotal : o.totalAmount = data.totalAmount)
    (hrows : List.Forall₂ (ItemRow o.orderId) data.items (itemsOf d o.orderId)) :
    HoldsAmounts d o data := by
  have hlines : data.items.map OrderItemPayload.lineTotal =
      (itemsOf d o.orderId).map OrderItem.lineTotal := by
    refine map_eq_of_forall₂ ?_ hrows
    rintro item r ⟨id, rfl⟩
    rfl
  refine ⟨hfits, ?_, ?_, ?_, fun ws hws => ?_, fun ws hws => ?_⟩
  · refine hrows.imp ?_
    rintro item r ⟨id, rfl⟩
    exact ⟨rfl, rfl, rfl⟩
  · intro r hr
    obtain ⟨item, hi, id, rfl⟩ := exists_of_forall₂ hrows hr
    exact (lineTotal_eq (hfits.lineTotal item hi)).trans (Nat.mul_comm _ _)
  · obtain ⟨hlt, heq⟩ := Decimal.foldl_roundTo (by decide) maxNumeric_le
      (data.items.map OrderItemPayload.lineTotal)
    have hfold := hfits.totalAmount
    rw [totalAmount_eq_foldl] at hfold
    rw [htotal, totalAmount_eq_foldl, heq (hlt.mp hfold), hlines]
  · rw [value_writtenTotal hws, htotal]
  · rw [← hws, List.forall₂_map_left_iff] at hrows
    refine hrows.imp ?_
    rintro w r ⟨id, rfl⟩
    exact ⟨w.amount, w.lineTotal_eq, w.value_amount⟩

/-- Every committed order holds the exact amounts of the event that placed it, and keeps them
in every later state. -/
theorem totals_agree {s : IngestState} (hs : IngestReachable s) {o : Order}
    (ho : o ∈ (committed s).orders) :
    ∃ k ∈ s.shared.history, ∃ data, k.input.eventType = .orderCreated ∧
      k.input.data.orderCreated = .ok data ∧ k.input.eventId.val = o.sourceEventId ∧
      HoldsAmounts (committed s) o data ∧
      ∀ ls t, ingestRun s ls = some t →
        ∃ o' ∈ (committed t).orders, o'.orderId = o.orderId ∧ HoldsAmounts (committed t) o' data := by
  have hh : Consistent s.shared.history := hs.consistent
  obtain ⟨h₀, k, data, client, shipping, billing, hpre, hplaced, hfixed⟩ := order_origin hh ho
  have hfits := hplaced.fitsColumns (hh.of_prefix hpre).effect.fitting
  have htotal : ∀ o' : Order, o'.fixed = o.fixed → o'.totalAmount = data.totalAmount :=
    fun o' h => (Order.columns_of_fixed (h.trans hfixed)).2.2.2.2.1
  refine ⟨k, hpre.subset (by simp), data, hplaced.type, hplaced.event,
    (Order.source_of_fixed hfixed).symm, ?_, fun ls t hrun => ?_⟩
  · exact holdsAmounts_of_rows hfits (htotal o rfl) (itemsOf_placed hh hpre hplaced)
  · have hle : s.shared.history <+: t.shared.history := run_history hrun
    obtain ⟨o', ho', hsame⟩ := order_stays hle ho
    have hid : o'.orderId = o.orderId := Order.id_of_fixed hsame
    refine ⟨o', ho', hid, holdsAmounts_of_rows hfits (htotal o' hsame) ?_⟩
    rw [hid]
    exact itemsOf_placed (hs.run hrun).consistent (hpre.trans hle) hplaced

theorem totals_agree_catalog : ∃ o ∈ (committed Sample.catalogState).orders,
    ∃ k ∈ Sample.catalogState.shared.history, ∃ data, k.input.eventType = .orderCreated ∧
      k.input.data.orderCreated = .ok data ∧ k.input.eventId.val = o.sourceEventId ∧
      HoldsAmounts (committed Sample.catalogState) o data ∧
      ∀ ls t, ingestRun Sample.catalogState ls = some t →
        ∃ o' ∈ (committed t).orders, o'.orderId = o.orderId ∧
          HoldsAmounts (committed t) o' data := by
  have hrow : 0 < (committed Sample.catalogState).orders.length := by decide +kernel
  refine ⟨(committed Sample.catalogState).orders.get ⟨0, hrow⟩, List.get_mem _ _, ?_⟩
  exact totals_agree (Sample.after_reachable (by decide +kernel)) (List.get_mem _ _)

end EcommerceIntegration
