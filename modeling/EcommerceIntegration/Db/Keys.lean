import EcommerceIntegration.Db.Database
import Mathlib.Data.List.Pairwise

/-!
# Unique keys of the operational database

All unique keys but the one of the current address versions belong to a row from its
insertion on. No UPDATE changes them.
-/

namespace EcommerceIntegration

set_option autoImplicit false

def Client.keys (c : Client) : List Lock := [.row .clients c.clientId, .clientUid c.clientUid]

def Address.keys (a : Address) : List Lock := [.row .address a.addressId]

def Order.keys (o : Order) : List Lock := [.row .orders o.orderId, .orderUid o.orderUid]

def OrderItem.keys (i : OrderItem) : List Lock := [.row .orderItems i.orderItemId]

def Payment.keys (p : Payment) : List Lock :=
  [.row .payment p.paymentId, .providerTx p.provider p.providerTxId]

def Invoice.keys (i : Invoice) : List Lock :=
  [.row .invoices i.invoiceId, .invoiceOrder i.orderId, .invoiceNumber i.invoiceNumber i.series]

def ProcessedEvent.keys (e : ProcessedEvent) : List Lock := [.event e.eventId]

def OutboxMessage.keys (m : OutboxMessage) : List Lock := [.row .outbox m.outboxId]

namespace Database

def keys (d : Database) : List Lock :=
  d.clients.flatMap Client.keys ++ d.address.flatMap Address.keys ++
  d.orders.flatMap Order.keys ++ d.orderItems.flatMap OrderItem.keys ++
  d.payment.flatMap Payment.keys ++ d.invoices.flatMap Invoice.keys ++
  d.processedEvents.flatMap ProcessedEvent.keys ++ d.outbox.flatMap OutboxMessage.keys

def ids (d : Database) : TableName → List Nat
  | .clients => d.clients.map Client.clientId
  | .address => d.address.map Address.addressId
  | .orders => d.orders.map Order.orderId
  | .orderItems => d.orderItems.map OrderItem.orderItemId
  | .payment => d.payment.map Payment.paymentId
  | .invoices => d.invoices.map Invoice.invoiceId
  | .outbox => d.outbox.map OutboxMessage.outboxId

end Database

/-- The unique keys that a change brings. -/
def newKeys : Change → List Lock
  | .inserted row id => row.keys id
  | .executed (.registerEvent r) => [.event r.eventId]
  | .executed _ => []

section UpdateWhere
variable {α β : Type} {matching : α → Bool} {set : α → α}

theorem mem_updateWhere {rows : List α} {b : α} :
    b ∈ updateWhere matching set rows ↔
      ∃ a ∈ rows, (matching a = true ∧ b = set a) ∨ (matching a = false ∧ b = a) := by
  simp only [updateWhere, List.mem_map]
  refine exists_congr fun a => and_congr_right fun _ => ?_
  cases matching a <;> simp [eq_comm]

/-- A column that is not set keeps its values. -/
theorem map_updateWhere {column : α → β} (h : ∀ a, column (set a) = column a) (rows : List α) :
    (updateWhere matching set rows).map column = rows.map column := by
  rw [updateWhere, List.map_map]
  refine List.map_congr_left fun a _ => ?_
  simp only [Function.comp_apply]
  split
  · exact h a
  · rfl

theorem flatMap_updateWhere {columns : α → List β} (h : ∀ a, columns (set a) = columns a)
    (rows : List α) : (updateWhere matching set rows).flatMap columns = rows.flatMap columns := by
  rw [List.flatMap, map_updateWhere h, ← List.flatMap]

/-- Rows that no UPDATE meets stay as they are. -/
theorem updateWhere_eq_self {rows : List α} (h : ∀ a ∈ rows, matching a = false) :
    updateWhere matching set rows = rows := by
  rw [updateWhere]
  conv_rhs => rw [← List.map_id rows]
  refine List.map_congr_left fun a ha => ?_
  rw [h a ha]
  rfl

/-- A selection by a column that is not set. -/
theorem filter_updateWhere {p : α → Bool} (h : ∀ a, p (set a) = p a) (rows : List α) :
    (updateWhere matching set rows).filter p = updateWhere matching set (rows.filter p) := by
  rw [updateWhere, updateWhere, List.filter_map]
  congr 1
  refine List.filter_congr fun a _ => ?_
  simp only [Function.comp_apply]
  split
  · exact h a
  · rfl

theorem find?_updateWhere {p : α → Bool} (h : ∀ a, p (set a) = p a) (rows : List α) :
    (updateWhere matching set rows).find? p =
      (rows.find? p).map fun a => if matching a then set a else a := by
  have hp : p ∘ (fun a => if matching a then set a else a) = p := by
    funext a
    simp only [Function.comp_apply]
    split
    · exact h a
    · rfl
  rw [updateWhere, List.find?_map, hp]

end UpdateWhere

@[simp] theorem Client.keys_set (n doc e : Option String) (t : Option Time) (c : Client) :
    (c.set n doc e t).keys = c.keys := rfl

@[simp] theorem Address.keys_close (t : Time) (a : Address) : (a.close t).keys = a.keys := rfl

@[simp] theorem Order.keys_set (s : OrderStatus) (t : Option Time) (o : Order) :
    (o.set s t).keys = o.keys := rfl

@[simp] theorem Payment.keys_set (s : Option PaymentStatus) (t : Option Time) (p : Payment) :
    (p.set s t).keys = p.keys := rfl

theorem Database.keys_execute (d : Database) (s : Stmt) :
    (d.execute s).keys.Perm (d.keys ++ newKeys (.executed s)) := by
  cases s with
  | registerEvent r =>
    simp only [keys, execute, newKeys, List.flatMap_append, List.flatMap_singleton,
      List.perm_iff_count, List.count_append, ProcessedEvent.keys]
    intro a
    omega
  | updateClient id n doc e t =>
    simp only [keys, execute, newKeys, List.append_nil,
      flatMap_updateWhere (Client.keys_set n doc e t), List.Perm.refl]
  | closeAddress id t =>
    simp only [keys, execute, newKeys, List.append_nil,
      flatMap_updateWhere (Address.keys_close t), List.Perm.refl]
  | updateOrder id s t =>
    simp only [keys, execute, newKeys, List.append_nil,
      flatMap_updateWhere (Order.keys_set s t), List.Perm.refl]
  | updatePayment id s t =>
    simp only [keys, execute, newKeys, List.append_nil,
      flatMap_updateWhere (Payment.keys_set s t), List.Perm.refl]

theorem Database.keys_insert (d : Database) (id : Nat) (row : NewRow) :
    (d.insert id row).keys.Perm (d.keys ++ row.keys id) := by
  cases row <;>
  · simp only [keys, insert, NewRow.keys, List.flatMap_append, List.flatMap_singleton,
      List.perm_iff_count, List.count_append, Client.keys, Address.keys, Order.keys,
      OrderItem.keys, Payment.keys, Invoice.keys, OutboxMessage.keys]
    intro a
    omega

theorem mem_keys_row {d : Database} {t : TableName} {id : Nat} :
    .row t id ∈ d.keys ↔ id ∈ d.ids t := by
  cases t <;>
    simp [Database.keys, Database.ids, Client.keys, Address.keys, Order.keys, OrderItem.keys,
      Payment.keys, Invoice.keys, ProcessedEvent.keys, OutboxMessage.keys, eq_comm]

@[simp] theorem mem_keys_clientUid {d : Database} {uid : String} :
    .clientUid uid ∈ d.keys ↔ ∃ c ∈ d.clients, c.clientUid = uid := by
  simp [Database.keys, Client.keys, Address.keys, Order.keys, OrderItem.keys,
    Payment.keys, Invoice.keys, ProcessedEvent.keys, OutboxMessage.keys, eq_comm]

@[simp] theorem mem_keys_orderUid {d : Database} {uid : String} :
    .orderUid uid ∈ d.keys ↔ ∃ o ∈ d.orders, o.orderUid = uid := by
  simp [Database.keys, Client.keys, Address.keys, Order.keys, OrderItem.keys,
    Payment.keys, Invoice.keys, ProcessedEvent.keys, OutboxMessage.keys, eq_comm]

@[simp] theorem mem_keys_providerTx {d : Database} {provider tx : String} :
    .providerTx provider tx ∈ d.keys ↔
      ∃ p ∈ d.payment, p.provider = provider ∧ p.providerTxId = tx := by
  simp [Database.keys, Client.keys, Address.keys, Order.keys, OrderItem.keys,
    Payment.keys, Invoice.keys, ProcessedEvent.keys, OutboxMessage.keys, eq_comm]

@[simp] theorem mem_keys_invoiceOrder {d : Database} {id : Nat} :
    .invoiceOrder id ∈ d.keys ↔ ∃ i ∈ d.invoices, i.orderId = id := by
  simp [Database.keys, Client.keys, Address.keys, Order.keys, OrderItem.keys,
    Payment.keys, Invoice.keys, ProcessedEvent.keys, OutboxMessage.keys, eq_comm]

@[simp] theorem mem_keys_invoiceNumber {d : Database} {number series : String} :
    .invoiceNumber number series ∈ d.keys ↔
      ∃ i ∈ d.invoices, i.invoiceNumber = number ∧ i.series = series := by
  simp [Database.keys, Client.keys, Address.keys, Order.keys, OrderItem.keys,
    Payment.keys, Invoice.keys, ProcessedEvent.keys, OutboxMessage.keys, eq_comm]

@[simp] theorem mem_keys_event {d : Database} {id : String} :
    .event id ∈ d.keys ↔ ∃ e ∈ d.processedEvents, e.eventId = id := by
  simp [Database.keys, Client.keys, Address.keys, Order.keys, OrderItem.keys,
    Payment.keys, Invoice.keys, ProcessedEvent.keys, OutboxMessage.keys, eq_comm]

theorem disjoint_of_nodup_flatMap {α β : Type} {l : List α} {f : α → List β}
    (h : (l.flatMap f).Nodup) {a b : α} (ha : a ∈ l) (hb : b ∈ l) {x : β} (hxa : x ∈ f a)
    (hxb : x ∈ f b) : a = b := by
  by_contra hne
  have hsymm : Std.Symm (Function.onFun List.Disjoint f) := ⟨fun _ _ hd => hd.symm⟩
  exact (List.nodup_flatMap.mp h).2.forall ha hb hne hxa hxb

/-- Rows of which each has a key. -/
theorem nodup_of_nodup_flatMap {α β : Type} {l : List α} {f : α → List β}
    (h : (l.flatMap f).Nodup) (hf : ∀ a ∈ l, f a ≠ []) : l.Nodup := by
  refine (List.nodup_flatMap.mp h).2.imp_of_mem fun {a b} ha _ hdisjoint heq => ?_
  obtain ⟨x, hx⟩ := List.exists_mem_of_ne_nil _ (hf a ha)
  exact hdisjoint hx (heq ▸ hx)

theorem countP_eq_one {α : Type} {l : List α} {P : α → Bool} (hl : l.Nodup) {a : α} (ha : a ∈ l)
    (hPa : P a = true) (hunique : ∀ b ∈ l, P b = true → b = a) : l.countP P = 1 := by
  obtain ⟨us, vs, rfl⟩ := List.append_of_mem ha
  have hnot := List.nodup_middle.mp hl
  have hmem : a ∉ us ++ vs := (List.nodup_cons.mp hnot).1
  have hus : us.countP P = 0 := by
    refine List.countP_eq_zero.mpr fun b hb hPb => hmem ?_
    rw [← hunique b (List.mem_append_left _ hb) hPb]
    exact List.mem_append_left _ hb
  have hvs : vs.countP P = 0 := by
    refine List.countP_eq_zero.mpr fun b hb hPb => hmem ?_
    rw [← hunique b (List.mem_append_right _ (List.mem_cons_of_mem a hb)) hPb]
    exact List.mem_append_right _ hb
  rw [List.countP_append, List.countP_cons, hus, hvs, if_pos hPa]

theorem payment_keys_nodup {d : Database} (hd : d.keys.Nodup) :
    (d.payment.flatMap Payment.keys).Nodup := by
  simp only [Database.keys, List.nodup_append] at hd
  exact hd.1.1.1.2.1

theorem order_keys_nodup {d : Database} (hd : d.keys.Nodup) :
    (d.orders.flatMap Order.keys).Nodup := by
  simp only [Database.keys, List.nodup_append] at hd
  exact hd.1.1.1.1.1.2.1

theorem address_keys_nodup {d : Database} (hd : d.keys.Nodup) :
    (d.address.flatMap Address.keys).Nodup := by
  simp only [Database.keys, List.nodup_append] at hd
  exact hd.1.1.1.1.1.1.2.1

theorem address_unique_id {d : Database} (hd : d.keys.Nodup) {a b : Address} (ha : a ∈ d.address)
    (hb : b ∈ d.address) (hid : a.addressId = b.addressId) : a = b :=
  disjoint_of_nodup_flatMap (address_keys_nodup hd) ha hb (x := .row .address a.addressId)
    (by simp [Address.keys]) (by simp [Address.keys, hid])

theorem client_keys_nodup {d : Database} (hd : d.keys.Nodup) :
    (d.clients.flatMap Client.keys).Nodup := by
  simp only [Database.keys, List.nodup_append] at hd
  exact hd.1.1.1.1.1.1.1

theorem client_unique_id {d : Database} (hd : d.keys.Nodup) {c c' : Client} (hc : c ∈ d.clients)
    (hc' : c' ∈ d.clients) (hid : c.clientId = c'.clientId) : c = c' :=
  disjoint_of_nodup_flatMap (client_keys_nodup hd) hc hc' (x := .row .clients c.clientId)
    (by simp [Client.keys]) (by simp [Client.keys, hid])

theorem client_unique {d : Database} (hd : d.keys.Nodup) {c c' : Client} (hc : c ∈ d.clients)
    (hc' : c' ∈ d.clients) (huid : c.clientUid = c'.clientUid) : c = c' :=
  disjoint_of_nodup_flatMap (client_keys_nodup hd) hc hc' (x := .clientUid c.clientUid)
    (by simp [Client.keys]) (by simp [Client.keys, huid])

/-- A provider transaction is on one row, an order uid on one order. -/
theorem payment_unique {d : Database} (hd : d.keys.Nodup) {p q : Payment} (hp : p ∈ d.payment)
    (hq : q ∈ d.payment) (hprovider : p.provider = q.provider)
    (htx : p.providerTxId = q.providerTxId) : p = q :=
  disjoint_of_nodup_flatMap (payment_keys_nodup hd) hp hq
    (x := .providerTx p.provider p.providerTxId) (by simp [Payment.keys])
    (by simp [Payment.keys, hprovider, htx])

theorem payment_unique_id {d : Database} (hd : d.keys.Nodup) {p q : Payment} (hp : p ∈ d.payment)
    (hq : q ∈ d.payment) (hid : p.paymentId = q.paymentId) : p = q :=
  disjoint_of_nodup_flatMap (payment_keys_nodup hd) hp hq (x := .row .payment p.paymentId)
    (by simp [Payment.keys]) (by simp [Payment.keys, hid])

theorem order_unique {d : Database} (hd : d.keys.Nodup) {o o' : Order} (ho : o ∈ d.orders)
    (ho' : o' ∈ d.orders) (huid : o.orderUid = o'.orderUid) : o = o' :=
  disjoint_of_nodup_flatMap (order_keys_nodup hd) ho ho' (x := .orderUid o.orderUid)
    (by simp [Order.keys]) (by simp [Order.keys, huid])

theorem order_unique_id {d : Database} (hd : d.keys.Nodup) {o o' : Order} (ho : o ∈ d.orders)
    (ho' : o' ∈ d.orders) (hid : o.orderId = o'.orderId) : o = o' :=
  disjoint_of_nodup_flatMap (order_keys_nodup hd) ho ho' (x := .row .orders o.orderId)
    (by simp [Order.keys]) (by simp [Order.keys, hid])

theorem invoice_keys_nodup {d : Database} (hd : d.keys.Nodup) :
    (d.invoices.flatMap Invoice.keys).Nodup := by
  simp only [Database.keys, List.nodup_append] at hd
  exact hd.1.1.2.1

/-- An order has one invoice at most. -/
theorem invoice_unique {d : Database} (hd : d.keys.Nodup) {v w : Invoice} (hv : v ∈ d.invoices)
    (hw : w ∈ d.invoices) (horder : v.orderId = w.orderId) : v = w :=
  disjoint_of_nodup_flatMap (invoice_keys_nodup hd) hv hw (x := .invoiceOrder v.orderId)
    (by simp [Invoice.keys]) (by simp [Invoice.keys, horder])

theorem firstViolated_eq_none {checks : List (Bool × Constraint)} :
    Database.firstViolated checks = none ↔ ∀ c ∈ checks, c.1 = false := by
  simp [Database.firstViolated]

theorem firstViolated_eq_some {checks : List (Bool × Constraint)} {k : Constraint}
    (h : Database.firstViolated checks = some k) : (true, k) ∈ checks := by
  obtain ⟨⟨b, k'⟩, hfind, rfl⟩ := Option.map_eq_some_iff.mp h
  have hb : b = true := by simpa using List.find?_some hfind
  exact hb ▸ List.mem_of_find?_eq_some hfind

/-- What the constraints let through brings no key twice. -/
theorem newKeys_not_mem {d : Database} {c : Change} (h : d.violated c = none) {k : Lock}
    (hk : k ∈ newKeys c) : k ∉ d.keys := by
  cases c with
  | inserted row id =>
    have hnone := firstViolated_eq_none.mp h
    cases row with
    | client r =>
      simp only [newKeys, NewRow.keys, List.mem_cons, List.not_mem_nil, or_false] at hk
      rcases hk with rfl | rfl <;> simp_all [Database.checks, mem_keys_row, Database.ids]
    | address r =>
      simp only [newKeys, NewRow.keys, List.mem_cons, List.not_mem_nil, or_false] at hk
      subst hk
      simp_all [Database.checks, mem_keys_row, Database.ids]
    | order r =>
      simp only [newKeys, NewRow.keys, List.mem_cons, List.not_mem_nil, or_false] at hk
      rcases hk with rfl | rfl <;> simp_all [Database.checks, mem_keys_row, Database.ids]
    | orderItem r =>
      simp only [newKeys, NewRow.keys, List.mem_cons, List.not_mem_nil, or_false] at hk
      subst hk
      simp_all [Database.checks, mem_keys_row, Database.ids]
    | payment r =>
      simp only [newKeys, NewRow.keys, List.mem_cons, List.not_mem_nil, or_false] at hk
      rcases hk with rfl | rfl <;> simp_all [Database.checks, mem_keys_row, Database.ids]
    | invoice r =>
      simp only [newKeys, NewRow.keys, List.mem_cons, List.not_mem_nil, or_false] at hk
      rcases hk with rfl | rfl | rfl <;> simp_all [Database.checks, mem_keys_row, Database.ids]
    | outbox r =>
      simp only [newKeys, NewRow.keys, List.mem_cons, List.not_mem_nil, or_false] at hk
      subst hk
      simp_all [Database.checks, mem_keys_row, Database.ids]
  | executed s =>
    cases s with
    | registerEvent r =>
      have hnone := firstViolated_eq_none.mp h
      simp_all [newKeys]
    | updateClient | closeAddress | updateOrder | updatePayment => simp [newKeys] at hk

theorem Database.ids_insert (d : Database) (id : Nat) (row : NewRow) (t : TableName) :
    (d.insert id row).ids t = d.ids t ++ if row.table = t then [id] else [] := by
  cases row <;> cases t <;> simp [ids, insert, NewRow.table]

@[simp] theorem Database.ids_execute (d : Database) (s : Stmt) (t : TableName) :
    (d.execute s).ids t = d.ids t := by
  cases s <;> cases t <;> first
    | rfl
    | refine map_updateWhere (fun a => ?_) _; rfl

def keyLaws : Transaction.KeyLaws engine where
  keys := Database.keys
  newKeys := newKeys
  ids := Database.ids
  keys_empty := rfl
  keys_apply d c := by
    cases c with
    | inserted row id => exact d.keys_insert id row
    | executed s => exact d.keys_execute s
  newKeys_locks c := by
    cases c with
    | inserted row id => cases row <;> simp [newKeys, engine, locks, NewRow.keys]
    | executed s => cases s <;> simp [newKeys, engine, locks]
  newKeys_nodup c := by
    cases c with
    | inserted row id => cases row <;> simp [newKeys, NewRow.keys]
    | executed s => cases s <;> simp [newKeys]
  newKeys_free d c h k hk := newKeys_not_mem h hk
  ids_empty t := by cases t <;> rfl
  ids_apply d c t j hj := by
    cases c with
    | inserted row id =>
      simp only [engine, Database.apply, Database.ids_insert, List.mem_append] at hj
      rcases hj with hj | hj
      · exact .inl hj
      · split at hj
        · rename_i ht
          exact .inr ⟨row, by rw [List.mem_singleton.mp hj], ht⟩
        · cases hj
    | executed s => exact .inl (by simpa [engine, Database.apply] using hj)

/-- The columns of a version that no statement sets. -/
def Address.fixed (a : Address) : Address := { a with validTo := none, isCurrent := false }

@[simp] theorem Address.fixed_close (t : Time) (a : Address) : (a.close t).fixed = a.fixed := rfl

theorem Address.columns_of_fixed {a b : Address} (h : a.fixed = b.fixed) :
    a.addressId = b.addressId ∧ a.addressUid = b.addressUid ∧ a.clientId = b.clientId ∧
      a.fields = b.fields ∧ a.validFrom = b.validFrom := by
  simpa [Address.fixed] using h

theorem addresses_grow : engine.Grows fun d => d.address.map Address.fixed := by
  intro d c a ha
  cases c with
  | inserted row id =>
    cases row with
    | address r =>
      simp only [engine, Database.apply, Database.insert, List.map_append]
      exact List.mem_append_left _ ha
    | client | order | orderItem | payment | invoice | outbox => exact ha
  | executed stmt =>
    cases stmt with
    | closeAddress id t =>
      simp only [engine, Database.apply, Database.execute]
      rw [map_updateWhere (Address.fixed_close t)]
      exact ha
    | registerEvent | updateClient | updateOrder | updatePayment => exact ha

/-- The columns of an order that no statement sets. -/
def Order.fixed (o : Order) : Order := { o with status := .pending, closedAt := none }

@[simp] theorem Order.fixed_set (s : OrderStatus) (t : Option Time) (o : Order) :
    (o.set s t).fixed = o.fixed := rfl

theorem Order.id_of_fixed {o o' : Order} (h : o.fixed = o'.fixed) : o.orderId = o'.orderId := by
  simpa [Order.fixed] using congrArg Order.orderId h

theorem Order.uid_of_fixed {o o' : Order} (h : o.fixed = o'.fixed) : o.orderUid = o'.orderUid := by
  simpa [Order.fixed] using congrArg Order.orderUid h

theorem Order.source_of_fixed {o o' : Order} (h : o.fixed = o'.fixed) :
    o.sourceEventId = o'.sourceEventId := by
  simpa [Order.fixed] using congrArg Order.sourceEventId h

/-- The columns that an order is delivered by. -/
theorem Order.columns_of_fixed {o o' : Order} (h : o.fixed = o'.fixed) :
    o.clientId = o'.clientId ∧ o.shippingAddressId = o'.shippingAddressId ∧
      o.billingAddressId = o'.billingAddressId ∧ o.currency = o'.currency ∧
      o.totalAmount = o'.totalAmount ∧ o.placedAt = o'.placedAt := by
  simp only [Order.fixed, Order.mk.injEq] at h
  obtain ⟨_, _, hclient, hshipping, hbilling, _, hcurrency, htotal, hplaced, _⟩ := h
  exact ⟨hclient, hshipping, hbilling, hcurrency, htotal, hplaced⟩

theorem orders_grow : engine.Grows fun d => d.orders.map Order.fixed := by
  intro d c o ho
  cases c with
  | inserted row id =>
    cases row with
    | order r =>
      simp only [engine, Database.apply, Database.insert, List.map_append]
      exact List.mem_append_left _ ho
    | client | address | orderItem | payment | invoice | outbox => exact ho
  | executed stmt =>
    cases stmt with
    | updateOrder id s t =>
      simp only [engine, Database.apply, Database.execute]
      rw [map_updateWhere (Order.fixed_set s t)]
      exact ho
    | registerEvent | updateClient | closeAddress | updatePayment => exact ho

/-- An order stays, and keeps its uid. -/
theorem order_stays {I : Type} {h h' : List (Transaction.Commit store I)} (hle : h <+: h')
    {o : Order} (ho : o ∈ (engine.state h).orders) :
    ∃ o' ∈ (engine.state h').orders, o'.fixed = o.fixed :=
  List.mem_map.mp (orders_grow.state hle (List.mem_map_of_mem ho))

end EcommerceIntegration
