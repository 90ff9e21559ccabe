import EcommerceIntegration.Db.Correspondence
import EcommerceIntegration.Ingest.System

/-!
# The processor on corresponding databases

Of the database the processor of an event sees the rows that the keys of the event lead
to. On two databases that correspond on these rows it goes on alike.
-/

namespace EcommerceIntegration

set_option autoImplicit false

open Transaction Coupling

section Operations
variable {ρ : Link} {C : Concern} {α β : Type}

theorem related_select {Q : α → β → Prop} {query : Database → α} {query' : Database → β}
    (h : ∀ d d', Agree ρ C d d' → Q (query d) (query' d')) :
    (coupling ρ C).Related Q (select query) (select query') := by
  have hperform : (coupling ρ C).Related (Agree ρ C) (perform .select) (perform .select) :=
    Related.perform ⟨fun _ _ hd => hd, fun _ => rfl⟩
  exact hperform.andThen h

theorem related_insert {row row' : NewRow} (htable : row.table = row'.table)
    (h : ∀ a b, ρ row.table a b →
      LinkedChange ρ (.inserted row a) (.inserted row' b) ∧ C.Covers (.inserted row a)) :
    (coupling ρ C).Related (ρ row.table) (insert row) (insert row') :=
  Related.perform ⟨htable, fun a b hab => ⟨h a b hab, hab⟩, fun _ => rfl⟩

theorem related_execute {stmt stmt' : Stmt} (h : LinkedChange ρ (.executed stmt) (.executed stmt'))
    (hcovers : C.Covers (.executed stmt)) :
    (coupling ρ C).Related Eq (execute stmt) (execute stmt') := by
  refine Related.perform ⟨⟨h, hcovers⟩, fun r => ?_⟩
  cases r <;> rfl

theorem related_flush {dirty : Bool} {stmt stmt' : Stmt}
    (h : LinkedChange ρ (.executed stmt) (.executed stmt')) (hcovers : C.Covers (.executed stmt)) :
    (coupling ρ C).Related Eq (flush dirty stmt) (flush dirty stmt') := by
  unfold flush
  split
  · exact related_execute h hcovers
  · rfl

theorem related_utcnow : (coupling ρ C).Related Eq utcnow utcnow := by
  refine Related.perform fun r => ?_
  cases r <;> rfl

theorem related_requireFits (fits : Bool) :
    (coupling ρ C).Related Eq (requireFits fits) (requireFits fits) := by
  unfold requireFits
  split <;> rfl

theorem related_validate (data : Except String α) :
    (coupling ρ C).Related (fun a b => a = b ∧ data = .ok a) (validate data) (validate data) := by
  cases data with
  | ok data => exact ⟨rfl, rfl⟩
  | error report => rfl

theorem related_requireDependency {Q : α → β → Prop} (message : String) {o : Option α}
    {o' : Option β} (h : Option.Rel Q o o') :
    (coupling ρ C).Related Q (requireDependency message o) (requireDependency message o') := by
  cases h with
  | none => rfl
  | some hab => exact hab

end Operations

/-! ## Clients and addresses -/

section Clients
variable {ρ : Link} {C : Concern}

theorem related_getByUid {uid : String} (huid : C.clientUid uid) :
    (coupling ρ C).Related (Option.Rel (Client.Linked ρ)) (ClientRepository.getByUid uid)
      (ClientRepository.getByUid uid) := by
  refine related_select fun d d' h => ?_
  refine h.clients.find? (fun c c' hc => by rw [hc.columns.2]) (fun c hc => ?_) fun c hc => ?_
  · exact beq_of_concern huid hc
  · exact beq_of_concern huid hc

theorem related_upsert {uid : String} (huid : C.clientUid uid) (name document email : String) :
    (coupling ρ C).Related (Client.Linked ρ) (ClientRepository.upsert uid name document email)
      (ClientRepository.upsert uid name document email) := by
  refine (related_getByUid huid).andThen fun found found' hfound => ?_
  cases hfound with
  | none =>
    refine related_utcnow.andThen fun t _ ht => ?_
    subst ht
    refine Related.andThen (related_insert rfl fun a b hab => ⟨.client ⟨b, hab, rfl⟩, huid⟩) ?_
    exact fun a b hab => ⟨b, hab, rfl⟩
  | @some c c' hc =>
    obtain ⟨id, hid, rfl⟩ := hc
    refine related_utcnow.andThen fun t _ ht => ?_
    subst ht
    refine (related_flush (.updateClient _ _ _ _ hid) trivial).andThen fun _ _ _ => ?_
    exact ⟨id, hid, rfl⟩

theorem related_currentVersion {uid : String} (huid : C.addressUid uid) :
    (coupling ρ C).Related (Option.Rel (Address.Linked ρ))
      (AddressRepository.getCurrentVersion uid) (AddressRepository.getCurrentVersion uid) := by
  refine related_select fun d d' h => ?_
  refine h.address.find? (fun a a' ha => ?_) (fun a ha => ?_) fun a ha => ?_
  · rw [ha.columns.2.2.1, ha.columns.2.2.2]
  · rw [beq_of_concern huid ha, Bool.false_and]
  · rw [beq_of_concern huid ha, Bool.false_and]

theorem related_openVersion {payload : AddressPayload} (huid : C.addressUid payload.addressUid)
    {client client' : Nat} (hclient : ρ .clients client client') (t : Time) :
    (coupling ρ C).Related (Address.Linked ρ) (AddressRepository.openVersion client payload t)
      (AddressRepository.openVersion client' payload t) := by
  refine Related.andThen (related_insert rfl fun a b hab => ⟨.address ?_, huid⟩) fun a b hab => ?_
  · exact ⟨b, client', hab, hclient, rfl⟩
  · exact ⟨b, client', hab, hclient, rfl⟩

theorem related_upsertVersion {payload : AddressPayload} (huid : C.addressUid payload.addressUid)
    {client client' : Nat} (hclient : ρ .clients client client') :
    (coupling ρ C).Related (Address.Linked ρ) (AddressRepository.upsertVersion client payload)
      (AddressRepository.upsertVersion client' payload) := by
  refine (related_currentVersion huid).andThen fun found found' hfound => ?_
  cases hfound with
  | none =>
    refine related_utcnow.andThen fun t _ ht => ?_
    subst ht
    exact related_openVersion huid hclient t
  | @some v v' hv =>
    have hdiffers : AddressRepository.differsFrom v' payload =
        AddressRepository.differsFrom v payload := by
      obtain ⟨id, client, _, _, rfl⟩ := hv
      rfl
    dsimp only
    rw [hdiffers]
    split
    · refine related_utcnow.andThen fun t _ ht => ?_
      subst ht
      refine (related_execute (.closeAddress t hv.columns.1) trivial).andThen fun _ _ _ => ?_
      exact related_openVersion huid hclient t
    · exact hv

end Clients

/-! ## Orders -/

section Orders
variable {ρ : Link} {C : Concern}

theorem related_exists {uid : String} (huid : C.orderUid uid) :
    (coupling ρ C).Related Eq (OrderRepository.exists uid) (OrderRepository.exists uid) :=
  related_select fun _ _ h => h.any_order huid

theorem related_requireCurrentAddress {uid : String} (huid : C.addressUid uid) :
    (coupling ρ C).Related (Address.Linked ρ) (OrderCreatedHandler.requireCurrentAddress uid)
      (OrderCreatedHandler.requireCurrentAddress uid) :=
  (related_currentVersion huid).andThen fun _ _ hfound => related_requireDependency _ hfound

theorem related_resolveBillingAddress {data : OrderCreatedData}
    (huid : ∀ uid, data.billingAddressUid = some uid → C.addressUid uid) {a a' : Address}
    (ha : Address.Linked ρ a a') :
    (coupling ρ C).Related (Address.Linked ρ) (OrderCreatedHandler.resolveBillingAddress data a)
      (OrderCreatedHandler.resolveBillingAddress data a') := by
  unfold OrderCreatedHandler.resolveBillingAddress
  split
  · exact ha
  · rename_i uid hbilling
    split
    · exact ha
    · exact related_requireCurrentAddress (huid uid hbilling)

theorem related_addItems {order order' : Nat} (horder : ρ .orders order order')
    (items : List OrderItemPayload) :
    (coupling ρ C).Related Eq (OrderRepository.addItems order items)
      (OrderRepository.addItems order' items) := by
  induction items with
  | nil => rfl
  | cons item items ih =>
    refine (related_requireFits _).andThen fun _ _ _ => ?_
    refine Related.andThen (related_insert rfl fun a b hab => ⟨.orderItem ?_, trivial⟩) fun _ _ _ => ih
    exact ⟨b, order', hab, horder, rfl⟩

/-- The order of an event, and what is of concern about it. -/
theorem related_requireOrder {uid : String} (huid : C.orderUid uid) (hloaded : C.loaded uid) :
    (coupling ρ C).Related
      (fun o o' => Order.Linked ρ o o' ∧ C.orderId o.orderId ∧
        (C.notified uid → o.status = .pending → C.documentId o.orderId ∧ C.clientId o.clientId))
      (requireOrder uid) (requireOrder uid) := by
  refine Related.andThen (related_select fun d d' h => ?_) fun o o' ho =>
    related_requireDependency _ ho
  refine Option.rel_with (h.orders.find? (fun o o' ho => ?_) (fun o ho => ?_) fun o ho => ?_)
    fun o ho => ?_
  · rw [ho.columns.2.2.2.2.1]
  · exact beq_of_concern huid ho
  · exact beq_of_concern huid ho
  · have hfound : o.orderUid = uid := by simpa using List.find?_some ho
    have hmem := List.mem_of_find?_eq_some ho
    exact ⟨h.loaded o hmem (hfound ▸ hloaded), fun hn => h.notified o hmem (hfound ▸ hn)⟩

theorem linked_set {o o' : Order} (ho : Order.Linked ρ o o') (s : OrderStatus) (t : Option Time) :
    Order.Linked ρ (o.set s t) (o'.set s t) := by
  obtain ⟨id, client, shipping, billing, hid, hclient, hshipping, hbilling, rfl⟩ := ho
  exact ⟨id, client, shipping, billing, hid, hclient, hshipping, hbilling, rfl⟩

theorem related_transition {o o' : Order} (ho : Order.Linked ρ o o') {status : OrderStatus}
    (hstatus : status ≠ .pending) (t : Time) :
    (coupling ρ C).Related
      (Option.Rel fun r r' => Order.Linked ρ r r' ∧ r.orderId = o.orderId ∧
        r.clientId = o.clientId ∧ OrderRepository.transitionIsAllowed o.status status = true)
      (OrderRepository.transition o status t) (OrderRepository.transition o' status t) := by
  have hclosed : o'.closedAt = o.closedAt := by
    obtain ⟨id, client, shipping, billing, _, _, _, _, rfl⟩ := ho
    rfl
  unfold OrderRepository.transition
  rw [ho.columns.2.2.2.2.2, hclosed]
  split
  · rename_i hallowed
    refine (related_execute (.updateOrder _ _ ho.columns.1) hstatus).andThen fun _ _ _ => ?_
    exact .some ⟨linked_set ho _ _, rfl, rfl, hallowed⟩
  · exact .none

end Orders

/-! ## Payments and invoices -/

section Payments
variable {ρ : Link} {C : Concern}

theorem related_recordPayment {o o' : Order} (ho : Order.Linked ρ o o') {data : PaymentUpdatedData}
    (htx : C.transaction data.provider data.providerTxId) (t : Time) :
    (coupling ρ C).Related Eq (PaymentUpdatedHandler.recordPayment o data t)
      (PaymentUpdatedHandler.recordPayment o' data t) := by
  have hfind : (coupling ρ C).Related (Option.Rel (Payment.Linked ρ))
      (PaymentRepository.getByProviderTransaction data.provider data.providerTxId)
      (PaymentRepository.getByProviderTransaction data.provider data.providerTxId) := by
    refine related_select fun d d' h => ?_
    refine h.payment.find? (fun p p' hp => ?_) (fun p hp => ?_) fun p hp => ?_
    · rw [hp.columns.2.2.1, hp.columns.2.2.2]
    · exact and_beq_of_concern htx fun hmem => hp (.inl hmem)
    · exact and_beq_of_concern htx fun hmem => hp (.inl hmem)
  refine Related.andThen (Q := fun _ _ => True) (hfind.andThen fun found found' hfound => ?_)
    fun _ _ _ => rfl
  cases hfound with
  | none =>
    refine Related.andThen (related_insert rfl fun a b hab => ⟨.payment ?_, htx⟩) fun _ _ _ => trivial
    exact ⟨b, o'.orderId, hab, ho.columns.1, rfl⟩
  | @some p p' hp =>
    obtain ⟨id, order, hid, _, rfl⟩ := hp
    exact (related_flush (.updatePayment _ _ hid) trivial).andThen fun _ _ _ => trivial

theorem related_latestForOrder (hρ : ρ.Ordered) (hC : C.Respects ρ) {order order' : Nat}
    (horder : ρ .orders order order') (hconcern : C.documentId order) :
    (coupling ρ C).Related (Option.Rel (Payment.Linked ρ)) (PaymentRepository.latestForOrder order)
      (PaymentRepository.latestForOrder order') := by
  refine related_select fun d d' h => ?_
  refine List.Forall₂.argmax ?_ (h.payment.filter (fun p p' hp => ?_) (fun p hp => ?_) fun p hp => ?_)
  · exact fun p p' r r' hp hr => hρ.lt_iff hp.columns.1 hr.columns.1
  · exact hρ.beq hp.columns.2.1 horder
  · rw [beq_eq_false_iff_ne]
    rintro rfl
    exact hp (.inr hconcern)
  · rw [beq_eq_false_iff_ne]
    rintro rfl
    exact hp (.inr ((hC.documentId horder).mp hconcern))

theorem related_related {α β : Type} {Q : α → β → Prop} {query : Database → Option α}
    {query' : Database → Option β}
    (h : ∀ d d', Agree ρ C d d' → Option.Rel Q (query d) (query' d')) :
    (coupling ρ C).Related Q (PaymentUpdatedHandler.related query)
      (PaymentUpdatedHandler.related query') := by
  refine (related_select h).andThen fun found found' hfound => ?_
  cases hfound with
  | none => rfl
  | some hab => exact hab

theorem Agree.find_version (hρ : ρ.Ordered) {d d' : Database} (h : Agree ρ C d d') {a b : Nat}
    (hab : ρ .address a b) :
    Option.Rel (Address.SameVersion ρ) (d.address.find? (·.addressId == a))
      (d'.address.find? (·.addressId == b)) := by
  refine h.versions.find? (fun v v' hv => hρ.beq hv.1 hab) (fun v hv => hv.elim) fun v hv => ?_
  rw [beq_eq_false_iff_ne]
  rintro rfl
  exact hv a hab

theorem Agree.find_client (hρ : ρ.Ordered) (hC : C.Respects ρ) {d d' : Database}
    (h : Agree ρ C d d') {a b : Nat} (hab : ρ .clients a b) (ha : C.clientId a) :
    Option.Rel (Client.SameCustomer ρ) (d.clients.find? (·.clientId == a))
      (d'.clients.find? (·.clientId == b)) := by
  refine h.customers.find? (fun c c' hc => hρ.beq hc.1 hab) (fun c hc => ?_) fun c hc => ?_
  · rw [beq_eq_false_iff_ne]
    rintro rfl
    exact hc ha
  · rw [beq_eq_false_iff_ne]
    rintro rfl
    exact hc ((hC.clientId hab).mp ha)

theorem Agree.filter_items (hρ : ρ.Ordered) (hC : C.Respects ρ) {d d' : Database}
    (h : Agree ρ C d d') {a b : Nat} (hab : ρ .orders a b) (ha : C.documentId a) :
    List.Forall₂ (OrderItem.Linked ρ) (d.orderItems.filter (·.orderId == a))
      (d'.orderItems.filter (·.orderId == b)) := by
  refine h.orderItems.filter (fun i i' hi => hρ.beq hi.columns.2 hab) (fun i hi => ?_) fun i hi => ?_
  · rw [beq_eq_false_iff_ne]
    rintro rfl
    exact hi ha
  · rw [beq_eq_false_iff_ne]
    rintro rfl
    exact hi ((hC.documentId hab).mp ha)

/-- Corresponding rows make the same document, but for the ids of the versions. -/
theorem linked_document {o o' : Order} {c c' : Client} {s s' b b' : Address}
    {items items' : List OrderItem} {p p' : Option Payment} (ho : Order.Linked ρ o o')
    (hc : Client.SameCustomer ρ c c') (hs : Address.SameVersion ρ s s') (hb : Address.SameVersion ρ b b')
    (hitems : List.Forall₂ (OrderItem.Linked ρ) items items')
    (hp : Option.Rel (Payment.Linked ρ) p p') :
    buildOrderPayload o' c' s' b' items' p' =
      (buildOrderPayload o c s b items p).withVersions s'.addressId b'.addressId := by
  obtain ⟨_, _, _, _, _, _, _, _, rfl⟩ := ho
  obtain ⟨_, hsuid, hsfields⟩ := hs
  obtain ⟨_, hbuid, hbfields⟩ := hb
  have hmap : items'.map itemSection = items.map itemSection := by
    induction hitems with
    | nil => rfl
    | cons hi _ ih =>
      obtain ⟨_, _, _, _, rfl⟩ := hi
      rw [List.map_cons, List.map_cons, ih]
      rfl
  have hpayment : p'.map paymentSection = p.map paymentSection := by
    cases hp with
    | none => rfl
    | some hp =>
      obtain ⟨_, _, _, _, rfl⟩ := hp
      rfl
  simp only [buildOrderPayload, OrderPayload.withVersions, addressSection, hc.2, hmap, hpayment,
    hsuid, hsfields, hbuid, hbfields]
  rfl

theorem related_enqueueErpNotification (hρ : ρ.Ordered) (hC : C.Respects ρ) {o o' : Order}
    (ho : Order.Linked ρ o o') (horder : C.documentId o.orderId)
    (hclient : C.clientId o.clientId) :
    (coupling ρ C).Related Eq (PaymentUpdatedHandler.enqueueErpNotification o)
      (PaymentUpdatedHandler.enqueueErpNotification o') := by
  obtain ⟨hid, hclientId, hshipping, hbilling, huid, _⟩ := ho.columns
  refine (related_latestForOrder hρ hC hid horder).andThen fun p p' hp => ?_
  refine (related_related fun _ _ h => h.find_client hρ hC hclientId hclient).andThen
    fun c c' hc => ?_
  refine (related_related fun _ _ h => h.find_version hρ hshipping).andThen fun s s' hs => ?_
  refine (related_related fun _ _ h => h.find_version hρ hbilling).andThen fun b b' hb => ?_
  refine (related_select fun _ _ h => h.filter_items hρ hC hid horder).andThen
    fun items items' hitems => ?_
  rw [linked_document ho hc hs hb hitems hp, huid]
  refine Related.andThen (Q := fun _ _ => True) ?_ fun _ _ _ => rfl
  refine related_utcnow.andThen fun t _ ht => ?_
  subst ht
  refine Related.andThen (related_insert rfl fun x y hxy => ⟨.outbox ?_, trivial⟩) fun _ _ _ => trivial
  exact ⟨y, s'.addressId, b'.addressId, hxy, hs.1, hb.1, rfl⟩

end Payments

/-! ## The processor -/

/-- Everything that the processor of the event looks up is of concern. -/
structure Concern.Includes (C : Concern) (i : EventEnvelope) : Prop where
  event : C.eventId i.eventId
  key : C.key (RedisDeduplicator.key i.eventId)
  client : i.eventType = .clientUpserted → ∀ data, i.data.clientUpserted = .ok data →
    C.clientUid data.clientUid ∧ C.addressUid data.address.addressUid
  order : i.eventType = .orderCreated → ∀ data, i.data.orderCreated = .ok data →
    C.orderUid data.orderUid ∧ C.clientUid data.clientUid ∧ C.addressUid data.shippingAddressUid ∧
    (∀ uid, data.billingAddressUid = some uid → C.addressUid uid) ∧
    (C.loaded data.orderUid → ∀ id, C.orderId id) ∧
    (C.notified data.orderUid → ∀ id client, C.documentId id ∧ C.clientId client)
  payment : i.eventType = .paymentUpdated → ∀ data, i.data.paymentUpdated = .ok data →
    C.orderUid data.orderUid ∧ C.loaded data.orderUid ∧
    (data.status = .approved → C.notified data.orderUid) ∧
    C.transaction data.provider data.providerTxId
  invoice : i.eventType = .invoiceIssued → ∀ data, i.data.invoiceIssued = .ok data →
    C.orderUid data.orderUid ∧ C.loaded data.orderUid ∧
    C.invoiceNumber data.invoiceNumber data.series

section Handlers
variable {ρ : Link} {C : Concern} {i : EventEnvelope}

theorem related_clientHandler (hi : C.Includes i) (htype : i.eventType = .clientUpserted) :
    (coupling ρ C).Related Eq (ClientUpsertedHandler.handle i) (ClientUpsertedHandler.handle i) := by
  refine (related_validate _).andThen fun data _ hdata => ?_
  obtain ⟨rfl, hdata⟩ := hdata
  obtain ⟨hclient, haddress⟩ := hi.client htype data hdata
  refine (related_upsert hclient _ _ _).andThen fun c c' hc => ?_
  exact (related_upsertVersion haddress hc.columns.1).andThen fun _ _ _ => rfl

theorem related_orderHandler (hi : C.Includes i) (htype : i.eventType = .orderCreated) :
    (coupling ρ C).Related Eq (OrderCreatedHandler.handle i) (OrderCreatedHandler.handle i) := by
  refine (related_validate _).andThen fun data _ hdata => ?_
  obtain ⟨rfl, hdata⟩ := hdata
  obtain ⟨horder, hclient, hshipping, hbilling, hloaded, hnotified⟩ := hi.order htype data hdata
  refine (related_exists horder).andThen fun found _ hfound => ?_
  subst hfound
  split
  · rfl
  · refine (related_getByUid hclient).andThen fun o o' ho => ?_
    refine (related_requireDependency _ ho).andThen fun c c' hc => ?_
    refine (related_requireCurrentAddress hshipping).andThen fun s s' hs => ?_
    refine (related_resolveBillingAddress hbilling hs).andThen fun b b' hb => ?_
    refine Related.andThen (Q := fun _ _ => True) ?_ fun _ _ _ => rfl
    refine (related_requireFits _).andThen fun _ _ _ => ?_
    refine Related.andThen (related_insert rfl fun x y hxy => ⟨.order ?_, horder,
      fun hl => hloaded hl _, fun hn => hnotified hn _ _⟩) fun x y hxy => ?_
    · exact ⟨y, c'.clientId, s'.addressId, b'.addressId, hxy, hc.columns.1, hs.columns.1,
        hb.columns.1, rfl⟩
    · exact (related_addItems hxy _).andThen fun _ _ _ => trivial

theorem related_paymentHandler (hρ : ρ.Ordered) (hC : C.Respects ρ) (hi : C.Includes i)
    (htype : i.eventType = .paymentUpdated) :
    (coupling ρ C).Related Eq (PaymentUpdatedHandler.handle i) (PaymentUpdatedHandler.handle i) := by
  refine (related_validate _).andThen fun data _ hdata => ?_
  obtain ⟨rfl, hdata⟩ := hdata
  obtain ⟨horder, hloaded, hnotified, htx⟩ := hi.payment htype data hdata
  refine (related_requireOrder horder hloaded).andThen fun o o' ho => ?_
  obtain ⟨hlinked, _, hdocument⟩ := ho
  refine (related_recordPayment hlinked htx _).andThen fun _ _ _ => ?_
  split
  · rename_i happroved
    refine (related_transition hlinked (by decide) _).andThen fun moved moved' hmoved => ?_
    cases hmoved with
    | none => rfl
    | some hset =>
      obtain ⟨hset, hsetId, hsetClient, hallowed⟩ := hset
      have hpending : o.status = .pending :=
        approved_mem_allowed.mp (by simpa [OrderRepository.transitionIsAllowed] using hallowed)
      obtain ⟨hid, hclient⟩ := hdocument (hnotified happroved) hpending
      refine related_enqueueErpNotification hρ hC hset ?_ ?_
      · rw [hsetId]
        exact hid
      · rw [hsetClient]
        exact hclient
  · rfl

theorem related_invoiceHandler (hρ : ρ.Ordered) (hC : C.Respects ρ) (hi : C.Includes i)
    (htype : i.eventType = .invoiceIssued) :
    (coupling ρ C).Related Eq (InvoiceIssuedHandler.handle i) (InvoiceIssuedHandler.handle i) := by
  refine (related_validate _).andThen fun data _ hdata => ?_
  obtain ⟨rfl, hdata⟩ := hdata
  obtain ⟨horder, hloaded, hnumber⟩ := hi.invoice htype data hdata
  refine (related_requireOrder horder hloaded).andThen fun o o' ho => ?_
  obtain ⟨hlinked, hid, _⟩ := ho
  refine Related.andThen (Q := Eq) (related_select fun _ _ h =>
    h.any_invoiceOrder hρ hC hlinked.columns.1 hid) fun found _ hfound => ?_
  subst hfound
  split
  · rfl
  · refine Related.andThen (Q := fun _ _ => True) ?_ fun _ _ _ =>
      (related_transition hlinked (by decide) _).andThen fun _ _ _ => rfl
    refine Related.andThen (related_insert rfl fun a b hab => ⟨.invoice ?_, hnumber, hid⟩)
      fun _ _ _ => trivial
    exact ⟨b, o'.orderId, hab, hlinked.columns.1, rfl⟩

theorem related_handler (hρ : ρ.Ordered) (hC : C.Respects ρ) (hi : C.Includes i) :
    (coupling ρ C).Related Eq (handlerOf i.eventType i) (handlerOf i.eventType i) := by
  cases htype : i.eventType with
  | clientUpserted => exact related_clientHandler hi htype
  | orderCreated => exact related_orderHandler hi htype
  | paymentUpdated => exact related_paymentHandler hρ hC hi htype
  | invoiceIssued => exact related_invoiceHandler hρ hC hi htype

theorem related_rollback : (coupling ρ C).Related Eq UnitOfWork.rollback UnitOfWork.rollback := by
  refine Related.perform fun r => ?_
  cases r <;> rfl

theorem related_commit : (coupling ρ C).Related Eq UnitOfWork.commit UnitOfWork.commit := by
  refine Related.perform fun r => ?_
  cases r <;> rfl

theorem related_scope {α : Type} {body : Session α} (hbody : (coupling ρ C).Related Eq body body) :
    (coupling ρ C).Related Eq (UnitOfWork.scope body) (UnitOfWork.scope body) := by
  refine Related.andThen (Q := Eq) (Related.handle ?_ fun e => ?_) fun result _ hresult => ?_
  · refine hbody.andThen fun a _ ha => ?_
    subst ha
    rfl
  · exact related_rollback.andThen fun _ _ _ => rfl
  · subst hresult
    refine related_rollback.andThen fun _ _ _ => ?_
    cases result <;> rfl

theorem related_claimInLedger (hi : C.Includes i) :
    (coupling ρ C).Related Eq (EventProcessor.claimInLedger i) (EventProcessor.claimInLedger i) := by
  refine Related.handle ?_ fun e => ?_
  · exact (related_execute (.registerEvent ⟨i.eventId, i.eventType⟩) hi.event).andThen fun _ _ _ => rfl
  · cases e with
    | integrity c => exact related_rollback.andThen fun _ _ _ => rfl
    | fault | app => rfl

theorem related_applyHandler (hρ : ρ.Ordered) (hC : C.Respects ρ) (hi : C.Includes i) :
    (coupling ρ C).Related Eq (EventProcessor.applyHandler (handlerOf i.eventType) i)
      (EventProcessor.applyHandler (handlerOf i.eventType) i) := by
  refine Related.handle ((related_handler hρ hC hi).andThen fun _ _ _ => ?_) fun e => ?_
  · exact related_commit.andThen fun _ _ _ => rfl
  · cases e with
    | integrity c => exact related_rollback.andThen fun _ _ _ => rfl
    | fault | app => rfl

theorem related_apply (hρ : ρ.Ordered) (hC : C.Respects ρ) (hi : C.Includes i) :
    (coupling ρ C).Related Eq (EventProcessor.apply buildRegistry i)
      (EventProcessor.apply buildRegistry i) := by
  have hget : buildRegistry.get i.eventType = .done (handlerOf i.eventType) := by
    simp [HandlerRegistry.get]
  simp only [EventProcessor.apply, hget, Program.bind_eq, Program.done_andThen]
  refine related_scope ((related_claimInLedger hi).andThen fun claimed _ hclaimed => ?_)
  subst hclaimed
  split
  · exact related_applyHandler hρ hC hi
  · rfl

theorem related_request {x : RedisRequest}
    (hx : ∃ key, C.key key ∧ (x = .setNx key ∨ x = .delete key)) :
    (coupling ρ C).Related Eq (perform (.request x)) (perform (.request x)) := by
  refine Related.perform ⟨rfl, hx, fun r => ?_⟩
  cases r <;> rfl

theorem related_failed (hi : C.Includes i) (e : Exn) :
    (coupling ρ C).Related Eq (EventProcessor.failed i e) (EventProcessor.failed i e) := by
  have hsummary : (coupling ρ C).Related Eq
      ((summarize e).andThen fun detail => (pure ⟨.retry, detail⟩ : Session Result))
      ((summarize e).andThen fun detail => (pure ⟨.retry, detail⟩ : Session Result)) := by
    unfold summarize
    split <;> rfl
  refine Related.andThen (Q := Eq) (Related.handle ?_ fun _ => rfl) fun _ _ _ => ?_
  · exact (related_request ⟨_, hi.key, .inr rfl⟩).andThen fun _ _ _ => rfl
  · split
    · rfl
    · exact hsummary

/-- On corresponding databases an event is processed alike. -/
theorem related_process (hρ : ρ.Ordered) (hC : C.Respects ρ) (hi : C.Includes i) :
    (coupling ρ C).Related Eq (ingest i) (ingest i) := by
  have hsupports : buildRegistry.supports i.eventType = true := by
    simp [HandlerRegistry.supports]
  simp only [ingest, EventProcessor.process, hsupports, if_true]
  refine Related.andThen (Q := Eq) (Related.handle ?_ fun _ => rfl) fun claimed _ hclaimed => ?_
  · exact related_request ⟨_, hi.key, .inl rfl⟩
  · subst hclaimed
    split
    · exact Related.handle (related_apply hρ hC hi) fun e => related_failed hi e
    · rfl

end Handlers

end EcommerceIntegration
