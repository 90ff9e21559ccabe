import EcommerceIntegration.Db.Database

/-!
# The triggers of a closed order

Any client of the database may run statements on the tables `orders` and `order_items`.
The constraints of the schema only refuse more of them. The triggers compare text with the
collation of its column: `collate` maps a text to its sort key.
-/

namespace EcommerceIntegration

set_option autoImplicit false

structure Tables where
  orders : List Order
  orderItems : List OrderItem
  pkOrders : (orders.map (·.orderId)).Nodup

/-- UPDATE and DELETE with their WHERE and SET clauses, and the rows of an INSERT. -/
inductive TableStatement
  | updateOrders (matching : Order → Bool) (set : Order → Order)
  | deleteOrders (matching : Order → Bool)
  | insertItems (rows : List OrderItem)
  | updateItems (matching : OrderItem → Bool) (set : OrderItem → OrderItem)
  | deleteItems (matching : OrderItem → Bool)

def closedStatuses : List OrderStatus := [.approved, .invoiced, .cancelled]

/-- An identity column cannot be updated. -/
def Order.assign (set : Order → Order) (o : Order) : Order :=
  { set o with orderId := o.orderId }

def OrderItem.assign (set : OrderItem → OrderItem) (i : OrderItem) : OrderItem :=
  { set i with orderItemId := i.orderItemId }

/-- The two texts are not equal in the collation. -/
def textDiffers (collate : String → String) (a b : String) : Bool :=
  collate a != collate b

namespace OrdersTrigger

def differs (collate : String → String) (i d : Order) : Bool :=
  i.totalAmount != d.totalAmount || i.clientId != d.clientId ||
    i.shippingAddressId != d.shippingAddressId || i.billingAddressId != d.billingAddressId ||
    textDiffers collate i.orderUid d.orderUid || textDiffers collate i.currency d.currency ||
    i.placedAt != d.placedAt

/-- The LEFT JOIN goes by the primary key, so it finds one row at most. -/
def throws (collate : String → String) (deleted inserted : List Order) : Bool :=
  deleted.any fun d => closedStatuses.contains d.status &&
    match inserted.find? (·.orderId == d.orderId) with
    | none => true
    | some i => differs collate i d

end OrdersTrigger

def ItemsTrigger.throws (orders : List Order) (deleted inserted : List OrderItem) : Bool :=
  orders.any fun o => closedStatuses.contains o.status &&
    ((inserted ++ deleted).map (·.orderId)).contains o.orderId

theorem orderId_updateWhere (matching : Order → Bool) (set : Order → Order)
    (rows : List Order) :
    (updateWhere matching (Order.assign set) rows).map (·.orderId) = rows.map (·.orderId) := by
  rw [updateWhere, List.map_map]
  refine List.map_congr_left fun o _ => ?_
  simp only [Function.comp_apply]
  split <;> rfl

namespace Tables

def itemsOf (d : Tables) (orderId : Nat) : List OrderItem :=
  d.orderItems.filter (·.orderId == orderId)

/-- The tables after the statement, or `none` where a trigger throws: the transaction
is then rolled back. -/
def execute (collate : String → String) (d : Tables) : TableStatement → Option Tables
  | .updateOrders matching set =>
    let deleted := d.orders.filter matching
    if OrdersTrigger.throws collate deleted (deleted.map (Order.assign set)) then none
    else some
      { d with
        orders := updateWhere matching (Order.assign set) d.orders
        pkOrders := orderId_updateWhere matching set d.orders ▸ d.pkOrders }
  | .deleteOrders matching =>
    if OrdersTrigger.throws collate (d.orders.filter matching) [] then none
    else some
      { d with
        orders := d.orders.filter fun o => !matching o
        pkOrders := d.pkOrders.sublist (List.filter_sublist.map _) }
  | .insertItems rows =>
    if ItemsTrigger.throws d.orders [] rows then none
    else some { d with orderItems := d.orderItems ++ rows }
  | .updateItems matching set =>
    let deleted := d.orderItems.filter matching
    if ItemsTrigger.throws d.orders deleted (deleted.map (OrderItem.assign set)) then none
    else some { d with orderItems := updateWhere matching (OrderItem.assign set) d.orderItems }
  | .deleteItems matching =>
    if ItemsTrigger.throws d.orders (d.orderItems.filter matching) [] then none
    else some { d with orderItems := d.orderItems.filter fun i => !matching i }

def run (collate : String → String) (d : Tables) (ls : List TableStatement) : Option Tables :=
  Transition.run (execute collate) d ls

/-- The columns that the trigger compares. -/
def guarded (o : Order) : Nat × Nat × Nat × Nat × String × String × Time :=
  (o.totalAmount, o.clientId, o.shippingAddressId, o.billingAddressId, o.orderUid, o.currency,
    o.placedAt)

/-- Every order that is closed in `d` is in `d'` with the same columns and items. -/
def Kept (d d' : Tables) : Prop :=
  ∀ o ∈ d.orders, o.status ∈ closedStatuses →
    ∃ o' ∈ d'.orders, o'.orderId = o.orderId ∧ guarded o' = guarded o ∧
      d'.itemsOf o.orderId = d.itemsOf o.orderId

/-- What a closed order is at one moment of the run, it is at every later one. -/
def Immutable (collate : String → String) (d : Tables) (ls : List TableStatement) : Prop :=
  ∀ ks ms s t, ks ++ ms <+: ls → run collate d ks = some s → run collate s ms = some t →
    s.Kept t

/-- An UPDATE of `orders` leaves a closed order closed, and does not write a text that
the collation takes for the old one. -/
def KeepsClosed (collate : String → String) (d : Tables) : TableStatement → Prop
  | .updateOrders matching set =>
    ∀ o ∈ d.orders, matching o → o.status ∈ closedStatuses →
      (set o).status ∈ closedStatuses ∧
      (collate (set o).orderUid = collate o.orderUid → (set o).orderUid = o.orderUid) ∧
      (collate (set o).currency = collate o.currency → (set o).currency = o.currency)
  | _ => True

/-- UPDATE orders SET total_amount = amount WHERE ... -/
def setTotal (matching : Order → Bool) (amount : Nat) : TableStatement :=
  .updateOrders matching fun o => { o with totalAmount := amount }

section Passes
variable {collate : String → String} {d : Tables}

theorem order_unique {o o' : Order} (ho : o ∈ d.orders) (ho' : o' ∈ d.orders)
    (heq : o.orderId = o'.orderId) : o = o' :=
  List.inj_on_of_nodup_map d.pkOrders ho ho' heq

theorem guarded_of_not_differs {i o : Order} (h : OrdersTrigger.differs collate i o = false)
    (huid : collate i.orderUid = collate o.orderUid → i.orderUid = o.orderUid)
    (hcurrency : collate i.currency = collate o.currency → i.currency = o.currency) :
    guarded i = guarded o := by
  simp only [OrdersTrigger.differs, textDiffers, Bool.or_eq_false_iff, bne_eq_false_iff_eq] at h
  obtain ⟨⟨⟨⟨⟨⟨htotal, hclient⟩, hshipping⟩, hbilling⟩, hu⟩, hc⟩, hplaced⟩ := h
  simp only [guarded, htotal, hclient, hshipping, hbilling, huid hu, hcurrency hc, hplaced]

/-- The row after the statement of a closed order, when the trigger is silent. -/
theorem joined_of_passes {deleted inserted : List Order}
    (h : ¬OrdersTrigger.throws collate deleted inserted = true) {o : Order} (ho : o ∈ deleted)
    (hclosed : o.status ∈ closedStatuses) :
    ∃ i ∈ inserted, i.orderId = o.orderId ∧ OrdersTrigger.differs collate i o = false := by
  have hrow := fun hthrows => h (List.any_eq_true.mpr ⟨o, ho, hthrows⟩)
  rw [List.contains_iff_mem.mpr hclosed, Bool.true_and] at hrow
  cases hfind : inserted.find? (·.orderId == o.orderId) with
  | none => simp [hfind] at hrow
  | some i =>
    rw [hfind] at hrow
    exact ⟨i, List.mem_of_find?_eq_some hfind, by simpa using List.find?_some hfind,
      by simpa using hrow⟩

theorem ne_of_passes {deleted inserted : List OrderItem}
    (h : ¬ItemsTrigger.throws d.orders deleted inserted = true) {o : Order} (ho : o ∈ d.orders)
    (hclosed : o.status ∈ closedStatuses) {i : OrderItem} (hi : i ∈ inserted ∨ i ∈ deleted) :
    i.orderId ≠ o.orderId := by
  intro heq
  refine h (List.any_eq_true.mpr ⟨o, ho, ?_⟩)
  rw [List.contains_iff_mem.mpr hclosed, Bool.true_and, List.contains_iff_mem]
  exact List.mem_map.mpr ⟨i, List.mem_append.mpr hi, heq⟩

/-- An UPDATE that neither takes an item from the order nor gives it one. -/
theorem itemsOf_updateWhere {matching : OrderItem → Bool} {set : OrderItem → OrderItem}
    {orderId : Nat} {rows : List OrderItem}
    (h : ∀ i ∈ rows, matching i = true → i.orderId ≠ orderId ∧ (set i).orderId ≠ orderId) :
    (updateWhere matching set rows).filter (·.orderId == orderId) =
      rows.filter (·.orderId == orderId) := by
  induction rows with
  | nil => rfl
  | cons i rows ih =>
    have ih := ih fun j hj => h j (List.mem_cons_of_mem _ hj)
    simp only [updateWhere, List.map_cons] at ih ⊢
    by_cases hmatch : matching i = true
    · obtain ⟨hold, hnew⟩ := h i List.mem_cons_self hmatch
      simp only [hmatch, if_true, List.filter_cons, beq_eq_false_iff_ne.mpr hold,
        beq_eq_false_iff_ne.mpr hnew, Bool.false_eq_true, if_false, ih]
    · simp only [hmatch, Bool.false_eq_true, if_false, List.filter_cons, ih]

/-- A step that keeps what is closed, and keeps it closed. -/
def KeptClosed (d d' : Tables) : Prop :=
  ∀ o ∈ d.orders, o.status ∈ closedStatuses →
    ∃ o' ∈ d'.orders, o'.status ∈ closedStatuses ∧ o'.orderId = o.orderId ∧
      guarded o' = guarded o ∧ d'.itemsOf o.orderId = d.itemsOf o.orderId

theorem KeptClosed.refl (d : Tables) : d.KeptClosed d :=
  fun o ho hclosed => ⟨o, ho, hclosed, rfl, rfl, rfl⟩

theorem KeptClosed.trans {d d' d'' : Tables} (h : d.KeptClosed d') (h' : d'.KeptClosed d'') :
    d.KeptClosed d'' := by
  intro o ho hclosed
  obtain ⟨o', ho', hclosed', hid, hguarded, hitems⟩ := h o ho hclosed
  obtain ⟨o'', ho'', hclosed'', hid', hguarded', hitems'⟩ := h' o' ho' hclosed'
  exact ⟨o'', ho'', hclosed'', hid'.trans hid, hguarded'.trans hguarded,
    (hid ▸ hitems').trans hitems⟩

theorem KeptClosed.kept {d d' : Tables} (h : d.KeptClosed d') : d.Kept d' := by
  intro o ho hclosed
  obtain ⟨o', ho', _, hkept⟩ := h o ho hclosed
  exact ⟨o', ho', hkept⟩

/-- A statement on `order_items` changes the items of no closed order. -/
theorem keptClosed_of_items {items : List OrderItem}
    (h : ∀ o ∈ d.orders, o.status ∈ closedStatuses →
      items.filter (·.orderId == o.orderId) = d.itemsOf o.orderId) :
    d.KeptClosed { d with orderItems := items } :=
  fun o ho hclosed => ⟨o, ho, hclosed, rfl, rfl, h o ho hclosed⟩

theorem keptClosed_execute {d' : Tables} {l : TableStatement} (hkeeps : d.KeepsClosed collate l)
    (h : d.execute collate l = some d') : d.KeptClosed d' := by
  cases l with
  | updateOrders matching set =>
    obtain ⟨hpass, ⟨⟩⟩ := Option.ite_none_left_eq_some.mp h
    intro o ho hclosed
    by_cases hmatch : matching o = true
    · have hdeleted := List.mem_filter.mpr ⟨ho, hmatch⟩
      obtain ⟨i, hi, hid, hdiffers⟩ := joined_of_passes hpass hdeleted hclosed
      obtain ⟨o', ho', rfl⟩ := List.mem_map.mp hi
      obtain rfl := order_unique (List.mem_filter.mp ho').1 ho hid
      obtain ⟨hstays, huid, hcurrency⟩ := hkeeps o' ho hmatch hclosed
      refine ⟨o'.assign set, ?_, hstays, rfl, guarded_of_not_differs hdiffers huid hcurrency, rfl⟩
      exact List.mem_map.mpr ⟨o', ho, if_pos hmatch⟩
    · exact ⟨o, List.mem_map.mpr ⟨o, ho, if_neg hmatch⟩, hclosed, rfl, rfl, rfl⟩
  | deleteOrders matching =>
    obtain ⟨hpass, ⟨⟩⟩ := Option.ite_none_left_eq_some.mp h
    intro o ho hclosed
    have hmatch : matching o = false := by
      by_contra hmatch
      have hdeleted := List.mem_filter.mpr ⟨ho, (Bool.not_eq_false _).mp hmatch⟩
      obtain ⟨i, hi, _⟩ := joined_of_passes hpass hdeleted hclosed
      exact absurd hi List.not_mem_nil
    exact ⟨o, List.mem_filter.mpr ⟨ho, by simp [hmatch]⟩, hclosed, rfl, rfl, rfl⟩
  | insertItems rows =>
    obtain ⟨hpass, ⟨⟩⟩ := Option.ite_none_left_eq_some.mp h
    refine keptClosed_of_items fun o ho hclosed => ?_
    have hnone : rows.filter (·.orderId == o.orderId) = [] := by
      refine List.filter_eq_nil_iff.mpr fun i hi => ?_
      simpa using ne_of_passes hpass ho hclosed (.inl hi)
    rw [List.filter_append, hnone, List.append_nil, itemsOf]
  | updateItems matching set =>
    obtain ⟨hpass, ⟨⟩⟩ := Option.ite_none_left_eq_some.mp h
    refine keptClosed_of_items fun o ho hclosed => itemsOf_updateWhere fun i hi hmatch => ?_
    have hdeleted := List.mem_filter.mpr ⟨hi, hmatch⟩
    exact ⟨ne_of_passes hpass ho hclosed (.inr hdeleted),
      ne_of_passes hpass ho hclosed (.inl (List.mem_map_of_mem hdeleted))⟩
  | deleteItems matching =>
    obtain ⟨hpass, ⟨⟩⟩ := Option.ite_none_left_eq_some.mp h
    refine keptClosed_of_items fun o ho hclosed => ?_
    rw [List.filter_filter, itemsOf]
    refine List.filter_congr fun i hi => ?_
    by_cases hmatch : matching i = true
    · have := ne_of_passes hpass ho hclosed (.inr (List.mem_filter.mpr ⟨hi, hmatch⟩))
      simp [hmatch, this]
    · simp [hmatch]

/-- The total of an open order may be set. -/
theorem execute_setTotal {o : Order} (ho : o ∈ d.orders) (hopen : o.status ∉ closedStatuses)
    (amount : Nat) :
    ∃ d', d.execute collate (setTotal (·.orderId == o.orderId) amount) = some d' ∧
      ∀ o' ∈ d'.orders, o'.orderId = o.orderId → o'.totalAmount = amount := by
  refine ⟨_, if_neg fun hthrows => ?_, fun o' ho' hid => ?_⟩
  · obtain ⟨d', hd', hrow⟩ := List.any_eq_true.mp hthrows
    obtain ⟨hmem, hid⟩ := List.mem_filter.mp hd'
    obtain rfl := order_unique hmem ho (beq_iff_eq.mp hid)
    have hclosed := List.contains_iff_mem.mp (Bool.and_eq_true_iff.mp hrow).1
    exact hopen hclosed
  · obtain ⟨old, hold, rfl⟩ := List.mem_map.mp ho'
    by_cases hmatch : (old.orderId == o.orderId) = true
    · simp only [hmatch, if_true, Order.assign]
    · simp only [hmatch, Bool.false_eq_true, if_false] at hid
      exact absurd (beq_iff_eq.mpr hid) hmatch

theorem keepsClosed_setTotal (d : Tables) (matching : Order → Bool) (amount : Nat) :
    d.KeepsClosed collate (setTotal matching amount) :=
  fun _ _ _ hclosed => ⟨hclosed, fun _ => rfl, fun _ => rfl⟩

end Passes

section Runs
variable {collate : String → String} {d : Tables} {ls : List TableStatement}

theorem immutable_of_along (h : Transition.Along (execute collate) (KeepsClosed collate) d ls) :
    Immutable collate d ls := by
  rintro ks ms s t ⟨rest, rfl⟩ hs ht
  rw [List.append_assoc] at h
  have hlater := (Transition.along_append ((Transition.along_append h).2 s hs)).1
  exact KeptClosed.kept (Transition.run_relates_along KeptClosed.refl KeptClosed.trans
    (fun _ _ _ => keptClosed_execute) hlater ht)

theorem Immutable.after {ks : List TableStatement} {s : Tables}
    (h : Immutable collate d (ks ++ ls)) (hs : run collate d ks = some s) :
    Immutable collate s ls := by
  intro ks' ms s' t hprefix hs' ht
  refine h (ks ++ ks') ms s' t ?_ (Transition.run_append_eq_some.mpr ⟨s, hs, hs'⟩) ht
  rw [List.append_assoc]
  exact (List.prefix_append_right_inj ks).mpr hprefix

/-- An UPDATE that reopens a closed order is let through, and then the total of the order
can be changed; one that rewrites its texts changes them at once. -/
theorem keepsClosed_of_immutable {s t : Tables} {l : TableStatement}
    (hstep : s.execute collate l = some t)
    (h : ∀ matching amount, Immutable collate s [l, setTotal matching amount]) :
    s.KeepsClosed collate l := by
  cases l with
  | deleteOrders | insertItems | updateItems | deleteItems => trivial
  | updateOrders matching set =>
    obtain ⟨_, heq⟩ := Option.ite_none_left_eq_some.mp hstep
    have horders : updateWhere matching (Order.assign set) s.orders = t.orders := by
      cases heq
      rfl
    intro o ho hmatch hclosed
    have hnew : o.assign set ∈ t.orders := horders ▸ List.mem_map.mpr ⟨o, ho, if_pos hmatch⟩
    have hkept := h (fun _ => false) 0 [] [.updateOrders matching set] s t ⟨[_], rfl⟩ rfl
      (Transition.run_cons_eq_some.mpr ⟨t, hstep, rfl⟩)
    obtain ⟨o', ho', hid, hguarded, _⟩ := hkept o ho hclosed
    obtain rfl := order_unique ho' hnew hid
    refine ⟨?_, fun _ => congrArg (·.2.2.2.2.1) hguarded,
      fun _ => congrArg (·.2.2.2.2.2.1) hguarded⟩
    by_contra hopen
    obtain ⟨u, hu, htotal⟩ := execute_setTotal hnew hopen (o.totalAmount + 1)
    have hkept := h _ _ [] _ s u List.prefix_rfl rfl
      (Transition.run_cons_eq_some.mpr ⟨t, hstep, Transition.run_cons_eq_some.mpr ⟨u, hu, rfl⟩⟩)
    obtain ⟨o', ho', hid, hguarded, _⟩ := hkept o ho hclosed
    have hsame : o'.totalAmount = o.totalAmount := congrArg (·.1) hguarded
    have := htotal o' ho' hid
    omega

end Runs

/-- The beginnings of a run, also when an UPDATE of total amounts follows, change no closed
order if and only if no UPDATE of the run reopens one. -/
theorem closedOrder_immutable_iff {collate : String → String} {d t : Tables}
    {ls : List TableStatement} (hrun : run collate d ls = some t) :
    Transition.Along (execute collate) (KeepsClosed collate) d ls ↔
      ∀ ks matching amount, ks <+: ls →
        Immutable collate d (ks ++ [setTotal matching amount]) := by
  constructor
  · rintro h ks matching amount ⟨rest, rfl⟩
    refine immutable_of_along (Transition.along_append_iff.mpr ⟨(Transition.along_append h).1, ?_⟩)
    exact fun s _ => ⟨keepsClosed_setTotal s matching amount, fun _ _ => trivial⟩
  · intro h
    refine Transition.along_iff.mpr fun ks l ms s heq hs => ?_
    subst heq
    obtain ⟨s', hs', hrest⟩ := Transition.run_append_eq_some.mp hrun
    obtain rfl := Option.some.inj (hs.symm.trans hs')
    obtain ⟨u, hu, _⟩ := Transition.run_cons_eq_some.mp hrest
    refine keepsClosed_of_immutable hu fun matching amount => Immutable.after ?_ hs
    have hbeginning : ks ++ [l] <+: ks ++ l :: ms := ⟨ms, by simp⟩
    simpa using h (ks ++ [l]) matching amount hbeginning

namespace Sample

def order : Order where
  orderId := 1
  orderUid := "ORD-1"
  clientId := 1
  shippingAddressId := 1
  billingAddressId := 1
  status := .pending
  currency := "BRL"
  totalAmount := 44990
  placedAt := 0
  closedAt := none
  sourceEventId := "EVT-1"

def tables : Tables where
  orders := [order]
  orderItems := [⟨1, 1, "SKU-1", "Camiseta", 1, 44990, 44990⟩]
  pkOrders := by decide

def setStatus (status : OrderStatus) : TableStatement :=
  .updateOrders (·.orderId == 1) fun o => { o with status := status }

/-- The tables at the end of a run that is not blocked. -/
def after (ls : List TableStatement) (h : (run id tables ls).isSome) : Tables :=
  (run id tables ls).get h

end Sample

theorem closedOrder_immutable_invoiced :
    Transition.Along (execute id) (KeepsClosed id) Sample.tables
        [Sample.setStatus .approved, Sample.setStatus .invoiced] ↔
      ∀ ks matching amount, ks <+: [Sample.setStatus .approved, Sample.setStatus .invoiced] →
        Immutable id Sample.tables (ks ++ [setTotal matching amount]) :=
  closedOrder_immutable_iff (Option.some_get (by decide : (run id Sample.tables
    [Sample.setStatus .approved, Sample.setStatus .invoiced]).isSome)).symm

/-- The order is approved, goes back to PENDING, and gets another total. -/
theorem closedOrder_reopened :
    ¬∀ (collate : String → String) (d t : Tables) (ls : List TableStatement),
      run collate d ls = some t → Immutable collate d ls := by
  intro h
  have hclose : run id Sample.tables [Sample.setStatus .approved] =
      some (Sample.after [Sample.setStatus .approved] (by decide)) := (Option.some_get _).symm
  have hreopen : run id (Sample.after [Sample.setStatus .approved] (by decide))
      [Sample.setStatus .pending, setTotal (fun _ => true) 1] = some (Sample.after
        [Sample.setStatus .approved, Sample.setStatus .pending, setTotal (fun _ => true) 1]
        (by decide)) := rfl
  have hkept := h id Sample.tables _ _ (Transition.run_append_eq_some.mpr ⟨_, hclose, hreopen⟩)
    _ _ _ _ List.prefix_rfl hclose hreopen
  obtain ⟨o', ho', _, hguarded, _⟩ :=
    hkept { Sample.order with status := .approved } (by decide) (by decide)
  obtain rfl := List.mem_singleton.mp ho'
  exact absurd hguarded (by decide)

end Tables

end EcommerceIntegration
