import EcommerceIntegration.Db.Keys
import EcommerceIntegration.Library.Coupling
import EcommerceIntegration.Library.Woven

/-!
# Databases that correspond

Two databases correspond up to the identity values of their rows, on the rows that are
of concern. No statement tells such databases apart as long as its own data are of
concern.
-/

namespace EcommerceIntegration

set_option autoImplicit false

open Transaction

/-- Which identity values correspond. -/
abbrev Link := TableName → Nat → Nat → Prop

structure Link.Ordered (ρ : Link) : Prop where
  lt_iff : ∀ {t a a' b b'}, ρ t a b → ρ t a' b' → (a < a' ↔ b < b')

theorem Link.Ordered.eq_iff {ρ : Link} (hρ : ρ.Ordered) {t : TableName} {a a' b b' : Nat}
    (h : ρ t a b) (h' : ρ t a' b') : a = a' ↔ b = b' := by
  have hlt := hρ.lt_iff h h'
  have hgt := hρ.lt_iff h' h
  omega

/-! ## Corresponding rows -/

section Rows
variable (ρ : Link)

def Client.Linked (c c' : Client) : Prop :=
  ∃ id, ρ .clients c.clientId id ∧ c' = { c with clientId := id }

def Address.Linked (a a' : Address) : Prop :=
  ∃ id client, ρ .address a.addressId id ∧ ρ .clients a.clientId client ∧
    a' = { a with addressId := id, clientId := client }

/-- What the document of an order says of a client. -/
def Client.SameCustomer (c c' : Client) : Prop :=
  ρ .clients c.clientId c'.clientId ∧ customerSection c' = customerSection c

/-- What the document of an order says of an address. -/
def Address.SameVersion (a a' : Address) : Prop :=
  ρ .address a.addressId a'.addressId ∧ a'.addressUid = a.addressUid ∧ a'.fields = a.fields

def Order.Linked (o o' : Order) : Prop :=
  ∃ id client shipping billing, ρ .orders o.orderId id ∧ ρ .clients o.clientId client ∧
    ρ .address o.shippingAddressId shipping ∧ ρ .address o.billingAddressId billing ∧
    o' = { o with
      orderId := id, clientId := client, shippingAddressId := shipping,
      billingAddressId := billing }

def OrderItem.Linked (i i' : OrderItem) : Prop :=
  ∃ id order, ρ .orderItems i.orderItemId id ∧ ρ .orders i.orderId order ∧
    i' = { i with orderItemId := id, orderId := order }

def Payment.Linked (p p' : Payment) : Prop :=
  ∃ id order, ρ .payment p.paymentId id ∧ ρ .orders p.orderId order ∧
    p' = { p with paymentId := id, orderId := order }

def Invoice.Linked (v v' : Invoice) : Prop :=
  ∃ id order, ρ .invoices v.invoiceId id ∧ ρ .orders v.orderId order ∧
    v' = { v with invoiceId := id, orderId := order }

def OrderPayload.withVersions (shipping billing : Nat) (d : OrderPayload) : OrderPayload :=
  { d with
    shippingAddress := { d.shippingAddress with versionId := shipping }
    billingAddress := { d.billingAddress with versionId := billing } }

def OutboxMessage.Linked (m m' : OutboxMessage) : Prop :=
  ∃ id shipping billing, ρ .outbox m.outboxId id ∧
    ρ .address m.payload.shippingAddress.versionId shipping ∧
    ρ .address m.payload.billingAddress.versionId billing ∧
    m' = { m with outboxId := id, payload := m.payload.withVersions shipping billing }

/-- Corresponding changes insert corresponding rows, or set the same columns to the same
values in rows that correspond. -/
inductive LinkedChange : Change → Change → Prop
  | client {r r' a b} :
    Client.Linked ρ { r with clientId := a } { r' with clientId := b } →
    LinkedChange (.inserted (.client r) a) (.inserted (.client r') b)
  | address {r r' a b} :
    Address.Linked ρ { r with addressId := a } { r' with addressId := b } →
    LinkedChange (.inserted (.address r) a) (.inserted (.address r') b)
  | order {r r' a b} :
    Order.Linked ρ { r with orderId := a } { r' with orderId := b } →
    LinkedChange (.inserted (.order r) a) (.inserted (.order r') b)
  | orderItem {r r' a b} :
    OrderItem.Linked ρ { r with orderItemId := a } { r' with orderItemId := b } →
    LinkedChange (.inserted (.orderItem r) a) (.inserted (.orderItem r') b)
  | payment {r r' a b} :
    Payment.Linked ρ { r with paymentId := a } { r' with paymentId := b } →
    LinkedChange (.inserted (.payment r) a) (.inserted (.payment r') b)
  | invoice {r r' a b} :
    Invoice.Linked ρ { r with invoiceId := a } { r' with invoiceId := b } →
    LinkedChange (.inserted (.invoice r) a) (.inserted (.invoice r') b)
  | outbox {r r' a b} :
    OutboxMessage.Linked ρ { r with outboxId := a } { r' with outboxId := b } →
    LinkedChange (.inserted (.outbox r) a) (.inserted (.outbox r') b)
  | registerEvent (r) :
    LinkedChange (.executed (.registerEvent r)) (.executed (.registerEvent r))
  | updateClient {a b} (n doc e t) : ρ .clients a b →
    LinkedChange (.executed (.updateClient a n doc e t)) (.executed (.updateClient b n doc e t))
  | closeAddress {a b} (t) : ρ .address a b →
    LinkedChange (.executed (.closeAddress a t)) (.executed (.closeAddress b t))
  | updateOrder {a b} (s t) : ρ .orders a b →
    LinkedChange (.executed (.updateOrder a s t)) (.executed (.updateOrder b s t))
  | updatePayment {a b} (s t) : ρ .payment a b →
    LinkedChange (.executed (.updatePayment a s t)) (.executed (.updatePayment b s t))

def LinkedLock : Lock → Lock → Prop
  | .row t a, l => ∃ b, ρ t a b ∧ l = .row t b
  | .invoiceOrder a, l => ∃ b, ρ .orders a b ∧ l = .invoiceOrder b
  | .clientUid uid, l => l = .clientUid uid
  | .currentAddress uid, l => l = .currentAddress uid
  | .orderUid uid, l => l = .orderUid uid
  | .providerTx provider tx, l => l = .providerTx provider tx
  | .invoiceNumber number series, l => l = .invoiceNumber number series
  | .event id, l => l = .event id

end Rows

/-! ## What is of concern -/

/-- The keys by which rows are looked up. -/
structure Concern where
  clientUid : String → Prop
  clientId : Nat → Prop
  addressUid : String → Prop
  orderUid : String → Prop
  /-- orders whose identity values are looked up, and orders whose document is built -/
  loaded : String → Prop
  orderId : Nat → Prop
  notified : String → Prop
  documentId : Nat → Prop
  transaction : String → String → Prop
  invoiceNumber : String → String → Prop
  eventId : String → Prop
  /-- keys of Redis -/
  key : String → Prop

namespace Concern

variable (C : Concern)

def client (c : Client) : Prop := C.clientUid c.clientUid

def customer (c : Client) : Prop := C.clientId c.clientId

def address (a : Address) : Prop := C.addressUid a.addressUid

def order (o : Order) : Prop := C.orderUid o.orderUid

def item (i : OrderItem) : Prop := C.documentId i.orderId

def payment (p : Payment) : Prop :=
  C.transaction p.provider p.providerTxId ∨ C.documentId p.orderId

def invoice (v : Invoice) : Prop :=
  C.invoiceNumber v.invoiceNumber v.series ∨ C.orderId v.orderId

def event (e : ProcessedEvent) : Prop := C.eventId e.eventId

/-- The unique keys of an inserted row are of concern. -/
def Covers : Change → Prop
  | .inserted (.client r) _ => C.clientUid r.clientUid
  | .inserted (.address r) _ => C.addressUid r.addressUid
  | .inserted (.order r) id =>
    C.orderUid r.orderUid ∧ (C.loaded r.orderUid → C.orderId id) ∧
      (C.notified r.orderUid → C.documentId id ∧ C.clientId r.clientId)
  | .inserted (.payment r) _ => C.transaction r.provider r.providerTxId
  | .inserted (.invoice r) _ => C.invoiceNumber r.invoiceNumber r.series ∧ C.orderId r.orderId
  | .executed (.registerEvent r) => C.eventId r.eventId
  | .executed (.updateOrder _ s _) => s ≠ .pending
  | _ => True

/-- Identity values that correspond are both of concern or neither is. -/
structure Respects (ρ : Link) : Prop where
  clientId : ∀ {a b}, ρ .clients a b → (C.clientId a ↔ C.clientId b)
  orderId : ∀ {a b}, ρ .orders a b → (C.orderId a ↔ C.orderId b)
  documentId : ∀ {a b}, ρ .orders a b → (C.documentId a ↔ C.documentId b)

end Concern

structure Agree (ρ : Link) (C : Concern) (d d' : Database) : Prop where
  clients : Woven (Client.Linked ρ) (fun c => ¬ C.client c) (fun c => ¬ C.client c)
    d.clients d'.clients
  customers : Woven (Client.SameCustomer ρ) (fun c => ¬ C.customer c) (fun c => ¬ C.customer c)
    d.clients d'.clients
  address : Woven (Address.Linked ρ) (fun a => ¬ C.address a) (fun a => ¬ C.address a)
    d.address d'.address
  versions : Woven (Address.SameVersion ρ) (fun _ => False)
    (fun a => ∀ id, ¬ ρ .address id a.addressId) d.address d'.address
  orders : Woven (Order.Linked ρ) (fun o => ¬ C.order o) (fun o => ¬ C.order o)
    d.orders d'.orders
  orderItems : Woven (OrderItem.Linked ρ) (fun i => ¬ C.item i) (fun i => ¬ C.item i)
    d.orderItems d'.orderItems
  payment : Woven (Payment.Linked ρ) (fun p => ¬ C.payment p) (fun p => ¬ C.payment p)
    d.payment d'.payment
  invoices : Woven (Invoice.Linked ρ) (fun v => ¬ C.invoice v) (fun v => ¬ C.invoice v)
    d.invoices d'.invoices
  processedEvents : Woven Eq (fun e => ¬ C.event e) (fun e => ¬ C.event e)
    d.processedEvents d'.processedEvents
  ids : ∀ t a b, ρ t a b → (a ∈ d.ids t ↔ b ∈ d'.ids t)
  loaded : ∀ o ∈ d.orders, C.loaded o.orderUid → C.orderId o.orderId
  notified : ∀ o ∈ d.orders, C.notified o.orderUid → o.status = .pending →
    C.documentId o.orderId ∧ C.clientId o.clientId

/-- Two runs on corresponding databases. -/
def coupling (ρ : Link) (C : Concern) : Coupling engine where
  db := Agree ρ C
  change c c' := LinkedChange ρ c c' ∧ C.Covers c
  id := ρ
  lock := LinkedLock ρ
  request x := ∃ key, C.key key ∧ (x = .setNx key ∨ x = .delete key)
  remote reserved reserved' := ∀ key, C.key key → (key ∈ reserved ↔ key ∈ reserved')

/-! ## Changes keep the correspondence -/

section Linked
variable {ρ : Link}

theorem Client.Linked.columns {c c' : Client} (h : Client.Linked ρ c c') :
    ρ .clients c.clientId c'.clientId ∧ c'.clientUid = c.clientUid := by
  obtain ⟨id, hid, rfl⟩ := h
  exact ⟨hid, rfl⟩

theorem Client.Linked.customer {c c' : Client} (h : Client.Linked ρ c c') :
    Client.SameCustomer ρ c c' := by
  obtain ⟨id, hid, rfl⟩ := h
  exact ⟨hid, rfl⟩

/-- An UPDATE sets the same columns of both rows. -/
theorem Client.SameCustomer.set {c c' : Client} (h : Client.SameCustomer ρ c c')
    (n doc e : Option String) (t : Option Time) :
    Client.SameCustomer ρ (c.set n doc e t) (c'.set n doc e t) := by
  obtain ⟨hid, hcustomer⟩ := h
  refine ⟨hid, ?_⟩
  simp only [customerSection, CustomerSection.mk.injEq] at hcustomer
  simp [customerSection, Client.set, hcustomer]

theorem Address.Linked.columns {a a' : Address} (h : Address.Linked ρ a a') :
    ρ .address a.addressId a'.addressId ∧ ρ .clients a.clientId a'.clientId ∧
      a'.addressUid = a.addressUid ∧ a'.isCurrent = a.isCurrent := by
  obtain ⟨id, client, hid, hclient, rfl⟩ := h
  exact ⟨hid, hclient, rfl, rfl⟩

theorem Address.Linked.version {a a' : Address} (h : Address.Linked ρ a a') :
    Address.SameVersion ρ a a' := by
  obtain ⟨id, client, hid, _, rfl⟩ := h
  exact ⟨hid, rfl, rfl⟩

theorem Order.Linked.columns {o o' : Order} (h : Order.Linked ρ o o') :
    ρ .orders o.orderId o'.orderId ∧ ρ .clients o.clientId o'.clientId ∧
      ρ .address o.shippingAddressId o'.shippingAddressId ∧
      ρ .address o.billingAddressId o'.billingAddressId ∧ o'.orderUid = o.orderUid ∧
      o'.status = o.status := by
  obtain ⟨id, client, shipping, billing, hid, hclient, hshipping, hbilling, rfl⟩ := h
  exact ⟨hid, hclient, hshipping, hbilling, rfl, rfl⟩

theorem OrderItem.Linked.columns {i i' : OrderItem} (h : OrderItem.Linked ρ i i') :
    ρ .orderItems i.orderItemId i'.orderItemId ∧ ρ .orders i.orderId i'.orderId := by
  obtain ⟨id, order, hid, horder, rfl⟩ := h
  exact ⟨hid, horder⟩

theorem Payment.Linked.columns {p p' : Payment} (h : Payment.Linked ρ p p') :
    ρ .payment p.paymentId p'.paymentId ∧ ρ .orders p.orderId p'.orderId ∧
      p'.provider = p.provider ∧ p'.providerTxId = p.providerTxId := by
  obtain ⟨id, order, hid, horder, rfl⟩ := h
  exact ⟨hid, horder, rfl, rfl⟩

theorem Invoice.Linked.columns {v v' : Invoice} (h : Invoice.Linked ρ v v') :
    ρ .invoices v.invoiceId v'.invoiceId ∧ ρ .orders v.orderId v'.orderId ∧
      v'.invoiceNumber = v.invoiceNumber ∧ v'.series = v.series := by
  obtain ⟨id, order, hid, horder, rfl⟩ := h
  exact ⟨hid, horder, rfl, rfl⟩

theorem OutboxMessage.Linked.columns {m m' : OutboxMessage} (h : OutboxMessage.Linked ρ m m') :
    ρ .outbox m.outboxId m'.outboxId := by
  obtain ⟨id, shipping, billing, hid, _, _, rfl⟩ := h
  exact hid

end Linked

/-- An UPDATE of a row and of the one that corresponds to it. -/
theorem woven_updateWhere {α : Type} {R : α → α → Prop} {P P' : α → Prop} {l l' : List α}
    {matching matching' : α → Bool} {set : α → α}
    (hmatching : ∀ a a', R a a' → matching a = matching' a')
    (hset : ∀ a a', R a a' → R (set a) (set a')) (hP : ∀ a, P a → P (set a))
    (hP' : ∀ a, P' a → P' (set a)) (h : Woven R P P' l l') :
    Woven R P P' (updateWhere matching set l) (updateWhere matching' set l') := by
  refine Woven.map (fun a a' ha => ?_) (fun a ha => ?_) (fun a ha => ?_) h
  · rw [← hmatching a a' ha]
    split
    · exact hset a a' ha
    · exact ha
  · split
    · exact hP a ha
    · exact ha
  · split
    · exact hP' a ha
    · exact ha

section Apply
variable {ρ : Link} {C : Concern} {d d' : Database}

theorem ids_insert_iff (hρ : ρ.Ordered) (hids : ∀ t a b, ρ t a b → (a ∈ d.ids t ↔ b ∈ d'.ids t))
    {row row' : NewRow} {id id' : Nat} (htable : row.table = row'.table)
    (hid : ρ row.table id id') (t : TableName) (a b : Nat) (hab : ρ t a b) :
    a ∈ (d.insert id row).ids t ↔ b ∈ (d'.insert id' row').ids t := by
  rw [Database.ids_insert, Database.ids_insert, List.mem_append, List.mem_append, ← htable,
    hids t a b hab]
  by_cases ht : row.table = t
  · subst ht
    simp [hρ.eq_iff hab hid]
  · simp [ht]

theorem ids_execute_iff (hids : ∀ t a b, ρ t a b → (a ∈ d.ids t ↔ b ∈ d'.ids t)) (s s' : Stmt)
    (t : TableName) (a b : Nat) (hab : ρ t a b) :
    a ∈ (d.execute s).ids t ↔ b ∈ (d'.execute s').ids t := by
  rw [Database.ids_execute, Database.ids_execute]
  exact hids t a b hab

theorem Link.Ordered.beq {t : TableName} {a b x y : Nat} (hρ : ρ.Ordered) (h : ρ t x y)
    (hab : ρ t a b) : (x == a) = (y == b) := by
  rw [Bool.eq_iff_iff, beq_iff_eq, beq_iff_eq]
  exact hρ.eq_iff h hab

theorem Agree.apply (hρ : ρ.Ordered) (h : Agree ρ C d d') {c c' : Change}
    (hc : LinkedChange ρ c c') (hcovers : C.Covers c) : Agree ρ C (d.apply c) (d'.apply c') := by
  cases hc with
  | client hr =>
    exact { h with
      clients := h.clients.concat hr
      customers := h.customers.concat hr.customer
      ids := ids_insert_iff hρ h.ids rfl hr.columns.1 }
  | address hr =>
    exact { h with
      address := h.address.concat hr
      versions := h.versions.concat hr.version
      ids := ids_insert_iff hρ h.ids rfl hr.columns.1 }
  | order hr =>
    refine { h with
      orders := h.orders.concat hr
      ids := ids_insert_iff hρ h.ids rfl hr.columns.1
      loaded := fun o ho hl => ?_
      notified := fun o ho hn hpending => ?_ }
    · rcases List.mem_append.mp ho with ho | ho
      · exact h.loaded o ho hl
      · rw [List.mem_singleton.mp ho] at hl ⊢
        exact hcovers.2.1 hl
    · rcases List.mem_append.mp ho with ho | ho
      · exact h.notified o ho hn hpending
      · rw [List.mem_singleton.mp ho] at hn ⊢
        exact hcovers.2.2 hn
  | orderItem hr =>
    exact { h with
      orderItems := h.orderItems.concat hr
      ids := ids_insert_iff hρ h.ids rfl hr.columns.1 }
  | payment hr =>
    exact { h with
      payment := h.payment.concat hr
      ids := ids_insert_iff hρ h.ids rfl hr.columns.1 }
  | invoice hr =>
    exact { h with
      invoices := h.invoices.concat hr
      ids := ids_insert_iff hρ h.ids rfl hr.columns.1 }
  | outbox hr => exact { h with ids := ids_insert_iff hρ h.ids rfl hr.columns }
  | registerEvent r =>
    exact { h with
      processedEvents := h.processedEvents.concat rfl
      ids := ids_execute_iff h.ids _ _ }
  | updateClient n doc e t hab =>
    refine { h with
      clients := woven_updateWhere (fun c c' hc => hρ.beq hc.columns.1 hab) ?_ (fun c hc => hc)
        (fun c hc => hc) h.clients
      customers := woven_updateWhere (fun c c' hc => hρ.beq hc.1 hab)
        (fun c c' hc => hc.set n doc e t) (fun c hc => hc) (fun c hc => hc) h.customers
      ids := ids_execute_iff h.ids _ _ }
    rintro c c' ⟨id, hid, rfl⟩
    exact ⟨id, hid, rfl⟩
  | closeAddress t hab =>
    refine { h with
      address := woven_updateWhere (fun a a' ha => hρ.beq ha.columns.1 hab) ?_ (fun a ha => ha)
        (fun a ha => ha) h.address
      versions := woven_updateWhere (fun a a' ha => hρ.beq ha.1 hab) (fun a a' ha => ha)
        (fun a ha => ha) (fun a ha => ha) h.versions
      ids := ids_execute_iff h.ids _ _ }
    rintro a a' ⟨id, client, hid, hclient, rfl⟩
    exact ⟨id, client, hid, hclient, rfl⟩
  | updateOrder s t hab =>
    refine { h with
      orders := woven_updateWhere (fun o o' ho => hρ.beq ho.columns.1 hab) ?_ (fun o ho => ho)
        (fun o ho => ho) h.orders
      ids := ids_execute_iff h.ids _ _
      loaded := fun o ho hl => ?_
      notified := fun o ho hn hpending => ?_ }
    · rintro o o' ⟨id, client, shipping, billing, hid, hclient, hshipping, hbilling, rfl⟩
      exact ⟨id, client, shipping, billing, hid, hclient, hshipping, hbilling, rfl⟩
    · obtain ⟨o', ho', ⟨_, rfl⟩ | ⟨_, rfl⟩⟩ := mem_updateWhere.mp ho
      · exact h.loaded o' ho' hl
      · exact h.loaded o ho' hl
    · obtain ⟨o', ho', ⟨_, rfl⟩ | ⟨_, rfl⟩⟩ := mem_updateWhere.mp ho
      · exact absurd hpending hcovers
      · exact h.notified o ho' hn hpending
  | updatePayment s t hab =>
    refine { h with
      payment := woven_updateWhere (fun p p' hp => hρ.beq hp.columns.1 hab) ?_ (fun p hp => hp)
        (fun p hp => hp) h.payment
      ids := ids_execute_iff h.ids _ _ }
    rintro p p' ⟨id, order, hid, horder, rfl⟩
    exact ⟨id, order, hid, horder, rfl⟩

theorem any_column {α : Type} {column : α → Nat} {l l' : List α} {a b : Nat}
    (h : a ∈ l.map column ↔ b ∈ l'.map column) :
    l.any (column · == a) = l'.any (column · == b) := by
  rw [Bool.eq_iff_iff]
  simpa [List.mem_map] using h

theorem beq_of_concern {K : String → Prop} {x y : String} (hy : K y) (hx : ¬ K x) :
    (x == y) = false := by
  rw [beq_eq_false_iff_ne]
  rintro rfl
  exact hx hy

theorem and_beq_of_concern {K : String → String → Prop} {x y x' y' : String} (hy : K y y')
    (hx : ¬ K x x') : (x == y && x' == y') = false := by
  rw [Bool.and_eq_false_iff, beq_eq_false_iff_ne, beq_eq_false_iff_ne]
  by_contra hnot
  rw [not_or, not_not, not_not] at hnot
  obtain ⟨rfl, rfl⟩ := hnot
  exact hx hy

namespace Agree
variable (h : Agree ρ C d d')
include h

theorem any_client {uid : String} (huid : C.clientUid uid) :
    d.clients.any (·.clientUid == uid) = d'.clients.any (·.clientUid == uid) := by
  refine h.clients.any (fun c c' hc => by rw [hc.columns.2]) (fun c hc => ?_) fun c hc => ?_
  · exact beq_of_concern huid hc
  · exact beq_of_concern huid hc

theorem any_current {uid : String} (huid : C.addressUid uid) :
    (d.address.any fun a => a.addressUid == uid && a.isCurrent) =
      d'.address.any fun a => a.addressUid == uid && a.isCurrent := by
  refine h.address.any (fun a a' ha => ?_) (fun a ha => ?_) fun a ha => ?_
  · rw [ha.columns.2.2.1, ha.columns.2.2.2]
  · rw [beq_of_concern huid ha, Bool.false_and]
  · rw [beq_of_concern huid ha, Bool.false_and]

theorem any_order {uid : String} (huid : C.orderUid uid) :
    d.orders.any (·.orderUid == uid) = d'.orders.any (·.orderUid == uid) :=
  h.orders.any (fun o o' ho => by rw [ho.columns.2.2.2.2.1]) (fun _ ho => beq_of_concern huid ho)
    fun _ ho => beq_of_concern huid ho

theorem any_transaction {provider tx : String} (htx : C.transaction provider tx) :
    (d.payment.any fun p => p.provider == provider && p.providerTxId == tx) =
      d'.payment.any fun p => p.provider == provider && p.providerTxId == tx := by
  refine h.payment.any (fun p p' hp => ?_) (fun p hp => ?_) fun p hp => ?_
  · rw [hp.columns.2.2.1, hp.columns.2.2.2]
  · exact and_beq_of_concern htx fun hmem => hp (.inl hmem)
  · exact and_beq_of_concern htx fun hmem => hp (.inl hmem)

theorem any_invoiceNumber {number series : String} (hnumber : C.invoiceNumber number series) :
    (d.invoices.any fun v => v.invoiceNumber == number && v.series == series) =
      d'.invoices.any fun v => v.invoiceNumber == number && v.series == series := by
  refine h.invoices.any (fun v v' hv => ?_) (fun v hv => ?_) fun v hv => ?_
  · rw [hv.columns.2.2.1, hv.columns.2.2.2]
  · exact and_beq_of_concern hnumber fun hmem => hv (.inl hmem)
  · exact and_beq_of_concern hnumber fun hmem => hv (.inl hmem)

theorem any_invoiceOrder (hρ : ρ.Ordered) (hC : C.Respects ρ) {a b : Nat} (hab : ρ .orders a b)
    (ha : C.orderId a) :
    d.invoices.any (·.orderId == a) = d'.invoices.any (·.orderId == b) := by
  refine h.invoices.any (fun v v' hv => ?_) (fun v hv => ?_) fun v hv => ?_
  · exact hρ.beq hv.columns.2.1 hab
  · rw [beq_eq_false_iff_ne]
    rintro rfl
    exact hv (.inr ha)
  · rw [beq_eq_false_iff_ne]
    rintro rfl
    exact hv (.inr ((hC.orderId hab).mp ha))

theorem any_event {id : String} (hid : C.eventId id) :
    d.processedEvents.any (·.eventId == id) = d'.processedEvents.any (·.eventId == id) :=
  h.processedEvents.any (fun e e' he => by rw [he]) (fun _ he => beq_of_concern hid he)
    fun _ he => beq_of_concern hid he

end Agree

/-- The constraints refuse corresponding changes alike. -/
theorem Agree.violated (hρ : ρ.Ordered) (hC : C.Respects ρ) (h : Agree ρ C d d') {c c' : Change}
    (hc : LinkedChange ρ c c') (hcovers : C.Covers c) : d.violated c = d'.violated c' := by
  cases hc with
  | @client r r' a b hr =>
    obtain ⟨hid, huid⟩ := hr.columns
    have hpk : d.clients.any (·.clientId == a) = d'.clients.any (·.clientId == b) :=
      any_column (h.ids .clients a b hid)
    simp only [Database.violated, Database.checks]
    rw [hpk, h.any_client hcovers, ← huid]
  | @address r r' a b hr =>
    obtain ⟨hid, hclient, huid, hcurrent⟩ := hr.columns
    have hpk : d.address.any (·.addressId == a) = d'.address.any (·.addressId == b) :=
      any_column (h.ids .address a b hid)
    have hfk : d.clients.any (·.clientId == r.clientId) =
        d'.clients.any (·.clientId == r'.clientId) := any_column (h.ids .clients _ _ hclient)
    simp only [Database.violated, Database.checks]
    rw [hpk, hfk, h.any_current hcovers, ← huid, ← hcurrent]
  | @order r r' a b hr =>
    obtain ⟨hid, hclient, hshipping, hbilling, huid, _⟩ := hr.columns
    have hpk : d.orders.any (·.orderId == a) = d'.orders.any (·.orderId == b) :=
      any_column (h.ids .orders a b hid)
    have hfk : d.clients.any (·.clientId == r.clientId) =
        d'.clients.any (·.clientId == r'.clientId) := any_column (h.ids .clients _ _ hclient)
    have hfk₁ : d.address.any (·.addressId == r.shippingAddressId) =
        d'.address.any (·.addressId == r'.shippingAddressId) :=
      any_column (h.ids .address _ _ hshipping)
    have hfk₂ : d.address.any (·.addressId == r.billingAddressId) =
        d'.address.any (·.addressId == r'.billingAddressId) :=
      any_column (h.ids .address _ _ hbilling)
    simp only [Database.violated, Database.checks]
    rw [hpk, hfk, hfk₁, hfk₂, h.any_order hcovers.1, ← huid]
  | @orderItem r r' a b hr =>
    obtain ⟨hid, horder⟩ := hr.columns
    have hpk : d.orderItems.any (·.orderItemId == a) = d'.orderItems.any (·.orderItemId == b) :=
      any_column (h.ids .orderItems a b hid)
    have hfk : d.orders.any (·.orderId == r.orderId) = d'.orders.any (·.orderId == r'.orderId) :=
      any_column (h.ids .orders _ _ horder)
    simp only [Database.violated, Database.checks]
    rw [hpk, hfk]
  | @payment r r' a b hr =>
    obtain ⟨hid, horder, hprovider, htx⟩ := hr.columns
    have hpk : d.payment.any (·.paymentId == a) = d'.payment.any (·.paymentId == b) :=
      any_column (h.ids .payment a b hid)
    have hfk : d.orders.any (·.orderId == r.orderId) = d'.orders.any (·.orderId == r'.orderId) :=
      any_column (h.ids .orders _ _ horder)
    simp only [Database.violated, Database.checks]
    rw [hpk, hfk, h.any_transaction hcovers, ← hprovider, ← htx]
  | @invoice r r' a b hr =>
    obtain ⟨hid, horder, hnumber, hseries⟩ := hr.columns
    have hpk : d.invoices.any (·.invoiceId == a) = d'.invoices.any (·.invoiceId == b) :=
      any_column (h.ids .invoices a b hid)
    have hfk : d.orders.any (·.orderId == r.orderId) = d'.orders.any (·.orderId == r'.orderId) :=
      any_column (h.ids .orders _ _ horder)
    have hone : d.invoices.any (·.orderId == r.orderId) =
        d'.invoices.any (·.orderId == r'.orderId) := h.any_invoiceOrder hρ hC horder hcovers.2
    simp only [Database.violated, Database.checks]
    rw [hpk, hfk, hone, h.any_invoiceNumber hcovers.1, ← hnumber, ← hseries]
  | @outbox r r' a b hr =>
    have hpk : d.outbox.any (·.outboxId == a) = d'.outbox.any (·.outboxId == b) :=
      any_column (h.ids .outbox a b hr.columns)
    simp only [Database.violated, Database.checks]
    rw [hpk]
  | registerEvent r =>
    simp only [Database.violated]
    rw [h.any_event hcovers]
  | updateClient | closeAddress | updateOrder | updatePayment => rfl

theorem linkedLock_unique (hρ : ρ.Ordered) {a a' b b' : Lock} (h : LinkedLock ρ a a')
    (h' : LinkedLock ρ b b') : a = b ↔ a' = b' := by
  cases a with
  | row t x =>
    obtain ⟨y, hy, rfl⟩ := h
    cases b with
    | row t' x' =>
      obtain ⟨y', hy', rfl⟩ := h'
      by_cases ht : t = t'
      · subst ht
        simp [hρ.eq_iff hy hy']
      · simp [ht]
    | invoiceOrder x' =>
      obtain ⟨y', _, rfl⟩ := h'
      simp
    | clientUid | currentAddress | orderUid | providerTx | invoiceNumber | event =>
      obtain rfl := h'
      simp
  | invoiceOrder x =>
    obtain ⟨y, hy, rfl⟩ := h
    cases b with
    | invoiceOrder x' =>
      obtain ⟨y', hy', rfl⟩ := h'
      simp [hρ.eq_iff hy hy']
    | row t' x' =>
      obtain ⟨y', _, rfl⟩ := h'
      simp
    | clientUid | currentAddress | orderUid | providerTx | invoiceNumber | event =>
      obtain rfl := h'
      simp
  | clientUid | currentAddress | orderUid | providerTx | invoiceNumber | event =>
    obtain rfl := h
    cases b with
    | row | invoiceOrder =>
      obtain ⟨y', _, rfl⟩ := h'
      simp
    | clientUid | currentAddress | orderUid | providerTx | invoiceNumber | event =>
      obtain rfl := h'
      exact Iff.rfl

theorem linkedLock_locks {c c' : Change} (hc : LinkedChange ρ c c') :
    List.Forall₂ (LinkedLock ρ) (locks c) (locks c') := by
  cases hc with
  | client hr => exact .cons ⟨_, hr.columns.1, rfl⟩ (.cons (congrArg Lock.clientUid hr.columns.2) .nil)
  | @address r r' a b hr =>
    have huid : r'.addressUid = r.addressUid := hr.columns.2.2.1
    have hcurrent : r'.isCurrent = r.isCurrent := hr.columns.2.2.2
    simp only [locks, hcurrent, huid]
    refine .cons ⟨_, hr.columns.1, rfl⟩ ?_
    split
    · exact .cons rfl .nil
    · exact .nil
  | order hr =>
    obtain ⟨hid, _, _, _, huid, _⟩ := hr.columns
    exact .cons ⟨_, hid, rfl⟩ (.cons (congrArg Lock.orderUid huid) .nil)
  | orderItem hr => exact .cons ⟨_, hr.columns.1, rfl⟩ .nil
  | payment hr =>
    obtain ⟨hid, _, hprovider, htx⟩ := hr.columns
    exact .cons ⟨_, hid, rfl⟩ (.cons (congrArg₂ Lock.providerTx hprovider htx) .nil)
  | invoice hr =>
    obtain ⟨hid, horder, hnumber, hseries⟩ := hr.columns
    exact .cons ⟨_, hid, rfl⟩
      (.cons ⟨_, horder, rfl⟩ (.cons (congrArg₂ Lock.invoiceNumber hnumber hseries) .nil))
  | outbox hr => exact .cons ⟨_, hr.columns, rfl⟩ .nil
  | registerEvent r => exact .cons rfl .nil
  | updateClient _ _ _ _ hab | closeAddress _ hab | updateOrder _ _ hab | updatePayment _ _ hab =>
    exact .cons ⟨_, hab, rfl⟩ .nil

theorem redis_linked {C : Concern} {r r' : List String} {x : RedisRequest}
    (hr : ∀ key, C.key key → (key ∈ r ↔ key ∈ r'))
    (hx : ∃ key, C.key key ∧ (x = .setNx key ∨ x = .delete key)) :
    (redis r x).2 = (redis r' x).2 ∧ ∀ key, C.key key → (key ∈ (redis r x).1 ↔ key ∈ (redis r' x).1) := by
  obtain ⟨key, hkey, rfl | rfl⟩ := hx
  · by_cases hmem : key ∈ r
    · simpa [redis, hmem, (hr key hkey).mp hmem] using hr
    · have hnot := mt (hr key hkey).mpr hmem
      simp only [redis, if_neg hmem, if_neg hnot, List.mem_append, true_and]
      exact fun k hk => or_congr_left (hr k hk)
  · simp only [redis, decide_eq_decide.mpr (hr key hkey), List.mem_filter, true_and]
    exact fun k hk => and_congr_left' (hr k hk)

/-- The database treats corresponding changes alike. -/
theorem coupling_steps (hρ : ρ.Ordered) (hC : C.Respects ρ) : (coupling ρ C).Steps where
  apply h hc := h.apply hρ hc.1 hc.2
  locks hc := linkedLock_locks hc.1
  violated h hc := h.violated hρ hC hc.1 hc.2
  lock_unique := linkedLock_unique hρ
  perform hr hx := redis_linked hr hx

end Apply

end EcommerceIntegration
