import EcommerceIntegration.Ingest.OrderRuns

/-!
# What a refused write says about the committed state

Identity values are new and the rows that a handler has read stay, so the constraints
that can refuse a handler are the unique keys of the business tables. Each of them is
matched with the row that another transaction has stored meanwhile.
-/

namespace EcommerceIntegration

set_option autoImplicit false

open Transaction

/-! ## The constraints, table by table -/

theorem violated_client {d : Database} {r : Client} {id : Nat} {k : Constraint}
    (h : d.violated (.inserted (.client r) id) = some k) :
    id ∈ d.ids .clients ∨
      (k = .uqClientsClientUid ∧ ∃ c ∈ d.clients, c.clientUid = r.clientUid) := by
  have hk := firstViolated_eq_some h
  simp only [Database.checks, List.mem_cons, Prod.mk.injEq, List.not_mem_nil, or_false] at hk
  rcases hk with ⟨hb, rfl⟩ | ⟨hb, rfl⟩
  · exact .inl (by simpa [Database.ids] using hb.symm)
  · exact .inr ⟨rfl, by simpa using hb.symm⟩

theorem violated_address {d : Database} {r : Address} {id : Nat} {k : Constraint}
    (h : d.violated (.inserted (.address r) id) = some k) :
    id ∈ d.ids .address ∨
      (k = .uxAddressUidCurrent ∧ ∃ a ∈ d.address, a.addressUid = r.addressUid ∧ a.isCurrent) ∨
      r.clientId ∉ d.ids .clients := by
  have hk := firstViolated_eq_some h
  simp only [Database.checks, List.mem_cons, Prod.mk.injEq, List.not_mem_nil, or_false] at hk
  rcases hk with ⟨hb, rfl⟩ | ⟨hb, rfl⟩ | ⟨hb, rfl⟩
  · exact .inl (by simpa [Database.ids] using hb.symm)
  · have hany := (Bool.and_eq_true_iff.mp hb.symm).2
    exact .inr (.inl ⟨rfl, by simpa using hany⟩)
  · exact .inr (.inr (by simpa [Database.ids] using hb.symm))

theorem violated_order {d : Database} {r : Order} {id : Nat} {k : Constraint}
    (h : d.violated (.inserted (.order r) id) = some k) :
    id ∈ d.ids .orders ∨
      (k = .uqOrdersOrderUid ∧ ∃ o ∈ d.orders, o.orderUid = r.orderUid) ∨
      r.clientId ∉ d.ids .clients ∨ r.shippingAddressId ∉ d.ids .address ∨
      r.billingAddressId ∉ d.ids .address := by
  have hk := firstViolated_eq_some h
  simp only [Database.checks, List.mem_cons, Prod.mk.injEq, List.not_mem_nil, or_false] at hk
  rcases hk with ⟨hb, _⟩ | ⟨hb, hk⟩ | ⟨hb, _⟩ | ⟨hb, _⟩ | ⟨hb, _⟩
  · exact .inl (by simpa [Database.ids] using hb.symm)
  · exact .inr (.inl ⟨hk, by simpa using hb.symm⟩)
  · exact .inr (.inr (.inl (by simpa [Database.ids] using hb.symm)))
  · exact .inr (.inr (.inr (.inl (by simpa [Database.ids] using hb.symm))))
  · exact .inr (.inr (.inr (.inr (by simpa [Database.ids] using hb.symm))))

theorem violated_orderItem {d : Database} {r : OrderItem} {id : Nat} {k : Constraint}
    (h : d.violated (.inserted (.orderItem r) id) = some k) :
    id ∈ d.ids .orderItems ∨ r.orderId ∉ d.ids .orders := by
  have hk := firstViolated_eq_some h
  simp only [Database.checks, List.mem_cons, Prod.mk.injEq, List.not_mem_nil, or_false] at hk
  rcases hk with ⟨hb, _⟩ | ⟨hb, _⟩
  · exact .inl (by simpa [Database.ids] using hb.symm)
  · exact .inr (by simpa [Database.ids] using hb.symm)

theorem violated_payment {d : Database} {r : Payment} {id : Nat} {k : Constraint}
    (h : d.violated (.inserted (.payment r) id) = some k) :
    id ∈ d.ids .payment ∨
      (k = .uxPaymentProviderTx ∧
        ∃ p ∈ d.payment, p.provider = r.provider ∧ p.providerTxId = r.providerTxId) ∨
      r.orderId ∉ d.ids .orders := by
  have hk := firstViolated_eq_some h
  simp only [Database.checks, List.mem_cons, Prod.mk.injEq, List.not_mem_nil, or_false] at hk
  rcases hk with ⟨hb, _⟩ | ⟨hb, hk⟩ | ⟨hb, _⟩
  · exact .inl (by simpa [Database.ids] using hb.symm)
  · exact .inr (.inl ⟨hk, by simpa using hb.symm⟩)
  · exact .inr (.inr (by simpa [Database.ids] using hb.symm))

/-- The order of the invoice is checked before its number. -/
theorem violated_invoice {d : Database} {r : Invoice} {id : Nat} {k : Constraint}
    (h : d.violated (.inserted (.invoice r) id) = some k) :
    id ∈ d.ids .invoices ∨ r.orderId ∉ d.ids .orders ∨
      ((k = .uxInvoiceOrder ↔ ∃ v ∈ d.invoices, v.orderId = r.orderId) ∧
        (k = .uxInvoiceOrder ∨ (k = .uxInvoiceNumberSeries ∧
          ∃ v ∈ d.invoices, v.invoiceNumber = r.invoiceNumber ∧ v.series = r.series))) := by
  by_cases hid : id ∈ d.ids .invoices
  · exact .inl hid
  by_cases horder : ∃ v ∈ d.invoices, v.orderId = r.orderId
  · have hk : k = .uxInvoiceOrder := by
      have hany : (d.invoices.any fun v => v.orderId == r.orderId) = true := by simpa using horder
      have hpk : (d.invoices.any fun v => v.invoiceId == id) = false := by
        simpa [Database.ids] using hid
      simpa [Database.violated, Database.firstViolated, Database.checks, hany, hpk] using h.symm
    exact .inr (.inr ⟨iff_of_true hk horder, .inl hk⟩)
  · have hk := firstViolated_eq_some h
    simp only [Database.checks, List.mem_cons, Prod.mk.injEq, List.not_mem_nil, or_false] at hk
    rcases hk with ⟨hb, rfl⟩ | ⟨hb, rfl⟩ | ⟨hb, rfl⟩ | ⟨hb, rfl⟩
    · exact .inl (by simpa [Database.ids] using hb.symm)
    · exact absurd (by simpa using hb.symm) horder
    · exact .inr (.inr ⟨iff_of_false (by simp) horder, .inr ⟨rfl, by simpa using hb.symm⟩⟩)
    · exact .inr (.inl (by simpa [Database.ids] using hb.symm))

theorem violated_outbox {d : Database} {r : OutboxMessage} {id : Nat} {k : Constraint}
    (h : d.violated (.inserted (.outbox r) id) = some k) : id ∈ d.ids .outbox := by
  have hk := firstViolated_eq_some h
  simp only [Database.checks, List.mem_cons, Prod.mk.injEq, List.not_mem_nil, or_false] at hk
  simpa [Database.ids] using hk.1.symm

/-! ## The handlers -/

section Handlers
variable {R : Rely store EventEnvelope} {i : EventEnvelope} {h h' : History}
  {ws ws' : List Change} {c : Change} {k : Constraint}

theorem mem_ids_of_find {α : Type} {rows : List α} {column : α → Nat} {p : α → Bool} {a : α}
    (h : rows.find? p = some a) : column a ∈ rows.map column :=
  List.mem_map_of_mem (List.mem_of_find?_eq_some h)

theorem addItems_refused {orderId : Nat} {items : List OrderItemPayload} {f : Unit → Session Unit}
    (hf : ∀ h ws, ¬ Runs keyLaws R (f ()) h ws h' ws' (.refused c k))
    (horder : orderId ∈ (engine.view h ws).ids .orders) :
    ¬ Runs keyLaws R ((OrderRepository.addItems orderId items).andThen f) h ws h' ws'
      (.refused c k) := by
  induction items generalizing h ws with
  | nil => exact hf h ws
  | cons item items ih =>
    intro hr
    simp only [OrderRepository.addItems, Program.bind_eq, Program.andThen_assoc] at hr
    obtain ⟨_, hr⟩ := runs_requireFits hr
    obtain ⟨h₁, id, hle, hnew, ⟨_, hr⟩ | ⟨k', hviol, he, _, _⟩⟩ := runs_insert hr
    · exact ih (mem_ids_view (R.prefix_of hle) (List.prefix_append _ _) horder) hr
    · rcases violated_orderItem hviol with hpk | hfk
      · exact newId_not_mem hnew hpk
      · exact hfk (mem_ids_view (R.prefix_of hle) (List.prefix_refl _) horder)

theorem orderHandler_refused
    (hr : Runs keyLaws R (OrderCreatedHandler.handle i) h ws h' ws' (.refused c k)) :
    ws' = ws ∧ k = .uqOrdersOrderUid ∧ ∃ data, i.data.orderCreated = .ok data ∧
      ∃ o ∈ (engine.view h' ws).orders, o.orderUid = data.orderUid := by
  simp only [OrderCreatedHandler.handle, OrderRepository.exists, ClientRepository.getByUid,
    OrderRepository.create, Program.bind_eq] at hr
  obtain ⟨data, hdata, hr⟩ := runs_validate hr
  obtain ⟨h₁, _, _, hr⟩ := runs_select hr
  split at hr
  · cases hr.2.2
  obtain ⟨h₂, _, _, hr⟩ := runs_select hr
  obtain ⟨client, hclient, hr⟩ := runs_requireDependency hr
  obtain ⟨h₃, shipping, hle₃, hshipping, hr⟩ := requireCurrentAddress_runs hr
  obtain ⟨h₄, billing, hle₄, hbilling, hr⟩ := resolveBillingAddress_runs hshipping hr
  simp only [Program.andThen_assoc] at hr
  obtain ⟨_, hr⟩ := runs_requireFits hr
  obtain ⟨h₅, id, hle₅, hnew, ⟨_, hr⟩ | ⟨k', hviol, he, rfl, rfl⟩⟩ := runs_insert hr
  · refine absurd hr (addItems_refused (fun h ws hr => by cases hr.2.2) ?_)
    simp [engine, Database.apply, Database.ids_insert, NewRow.table]
  · cases he
    have h45 := R.prefix_of hle₅
    have h35 := R.prefix_of (R.trans hle₄ hle₅)
    have h25 := R.prefix_of (R.trans hle₃ (R.trans hle₄ hle₅))
    rcases violated_order hviol with hpk | ⟨hk, huq⟩ | hfk | hfk | hfk
    · exact absurd hpk (newId_not_mem hnew)
    · exact ⟨rfl, hk, data, hdata, huq⟩
    · have hid : client.clientId ∈ (engine.view h₂ ws').ids .clients := mem_ids_of_find hclient
      exact absurd (mem_ids_view h25 (List.prefix_refl _) hid) hfk
    · have hid : shipping.addressId ∈ (engine.view h₃ ws').ids .address :=
        mem_ids_of_find hshipping
      exact absurd (mem_ids_view h35 (List.prefix_refl _) hid) hfk
    · have hid : billing.addressId ∈ (engine.view h₄ ws').ids .address :=
        mem_ids_of_find hbilling
      exact absurd (mem_ids_view h45 (List.prefix_refl _) hid) hfk

theorem invoiceHandler_refused
    (hr : Runs keyLaws R (InvoiceIssuedHandler.handle i) h ws h' ws' (.refused c k)) :
    ws' = ws ∧ ∃ (data : InvoiceIssuedData) (o : Order) (h₁ : History),
      i.data.invoiceIssued = .ok data ∧ o.orderUid = data.orderUid ∧ R.allows h₁ h' ∧
      o ∈ (engine.view h₁ ws).orders ∧
      (k = .uxInvoiceOrder ↔ ∃ v ∈ (engine.view h' ws).invoices, v.orderId = o.orderId) ∧
      (k = .uxInvoiceOrder ∨ (k = .uxInvoiceNumberSeries ∧ ∃ v ∈ (engine.view h' ws).invoices,
        v.invoiceNumber = data.invoiceNumber ∧ v.series = data.series)) := by
  simp only [InvoiceIssuedHandler.handle, InvoiceRepository.existsForOrder,
    InvoiceRepository.create, Program.bind_eq] at hr
  obtain ⟨data, hdata, hr⟩ := runs_validate hr
  obtain ⟨h₁, o, _, _, ho, hr⟩ := runs_requireOrder hr
  obtain ⟨h₂, hle₂, _, hr⟩ := runs_select hr
  split at hr
  · cases hr.2.2
  simp only [Program.andThen_assoc] at hr
  obtain ⟨h₃, id, hle₃, hnew, ⟨_, hr⟩ | ⟨k', hviol, he, rfl, rfl⟩⟩ := runs_insert hr
  · -- the order that was read is updated by its key
    simp only [OrderRepository.transition, Program.pure_eq, Program.done_andThen] at hr
    split at hr
    · simp only [Program.bind_eq, Program.andThen_assoc] at hr
      obtain ⟨h₄, _, hr⟩ := runs_execute (fun _ => rfl) hr
      cases hr.2.2
    · cases hr.2.2
  · cases he
    have hle := R.trans hle₂ hle₃
    refine ⟨rfl, data, o, h₁, hdata, by simpa using List.find?_some ho, hle,
      List.mem_of_find?_eq_some ho, ?_⟩
    rcases violated_invoice hviol with hpk | hfk | hiff
    · exact absurd hpk (newId_not_mem hnew)
    · have hid : o.orderId ∈ (engine.view h₁ ws').ids .orders := mem_ids_of_find ho
      exact absurd (mem_ids_view (R.prefix_of hle) (List.prefix_refl _) hid) hfk
    · exact hiff

theorem recordPayment_refused {order : Order} {data : PaymentUpdatedData} {t : Time}
    (horder : order.orderId ∈ (engine.view h ws).ids .orders)
    (hr : Runs keyLaws R (PaymentUpdatedHandler.recordPayment order data t) h ws h' ws'
      (.refused c k)) :
    ws' = ws ∧ k = .uxPaymentProviderTx ∧ ∃ p ∈ (engine.view h' ws).payment,
      p.provider = data.provider ∧ p.providerTxId = data.providerTxId := by
  simp only [PaymentUpdatedHandler.recordPayment, PaymentRepository.upsert,
    PaymentRepository.getByProviderTransaction, Program.bind_eq, Program.andThen_assoc] at hr
  obtain ⟨h₁, hle₁, _, hr⟩ := runs_select hr
  split at hr
  · simp only [Program.andThen_assoc] at hr
    obtain ⟨h₂, id, hle₂, hnew, ⟨_, hr⟩ | ⟨k', hviol, he, rfl, rfl⟩⟩ := runs_insert hr
    · cases hr.2.2
    · cases he
      refine ⟨rfl, ?_⟩
      rcases violated_payment hviol with hpk | huq | hfk
      · exact absurd hpk (newId_not_mem hnew)
      · exact huq
      · exact absurd (mem_ids_view (R.prefix_of (R.trans hle₁ hle₂)) (List.prefix_refl _) horder) hfk
  · simp only [Program.andThen_assoc] at hr
    obtain ⟨h₂, _, hr⟩ := runs_flush (fun _ => rfl) hr
    cases hr.2.2

theorem enqueueErpNotification_not_refused {order : Order} :
    ¬ Runs keyLaws R (PaymentUpdatedHandler.enqueueErpNotification order) h ws h' ws'
      (.refused c k) := by
  intro hr
  simp only [PaymentUpdatedHandler.enqueueErpNotification, PaymentRepository.latestForOrder,
    OutboxRepository.enqueue, Program.bind_eq] at hr
  obtain ⟨h₁, _, _, hr⟩ := runs_select hr
  obtain ⟨h₂, _, _, _, hr⟩ := runs_related hr
  obtain ⟨h₃, _, _, _, hr⟩ := runs_related hr
  obtain ⟨h₄, _, _, _, hr⟩ := runs_related hr
  obtain ⟨h₅, _, _, hr⟩ := runs_select hr
  simp only [Program.andThen_assoc] at hr
  obtain ⟨t, hr⟩ := runs_utcnow hr
  obtain ⟨h₆, id, _, hnew, ⟨_, hr⟩ | ⟨k', hviol, _, rfl, rfl⟩⟩ := runs_insert hr
  · cases hr.2.2
  · exact newId_not_mem hnew (violated_outbox hviol)

theorem paymentHandler_refused
    (hr : Runs keyLaws R (PaymentUpdatedHandler.handle i) h ws h' ws' (.refused c k)) :
    ws' = ws ∧ k = .uxPaymentProviderTx ∧ ∃ data, i.data.paymentUpdated = .ok data ∧
      ∃ p ∈ (engine.view h' ws).payment,
        p.provider = data.provider ∧ p.providerTxId = data.providerTxId := by
  simp only [PaymentUpdatedHandler.handle, Program.bind_eq] at hr
  obtain ⟨data, hdata, hr⟩ := runs_validate hr
  obtain ⟨h₁, o, _, _, ho, hr⟩ := runs_requireOrder hr
  rcases hr.andThen with ⟨h₂, ws₂, _, _, hr⟩ | ⟨c', k', he, hr⟩
  · split at hr
    · simp only [OrderRepository.transition] at hr
      split at hr
      · simp only [Program.bind_eq, Program.andThen_assoc] at hr
        obtain ⟨h₃, _, hr⟩ := runs_execute (fun _ => rfl) hr
        exact absurd hr enqueueErpNotification_not_refused
      · cases hr.2.2
    · cases hr.2.2
  · cases he
    obtain ⟨hws, hk, hp⟩ := recordPayment_refused (mem_ids_of_find ho) hr
    exact ⟨hws, hk, data, hdata, hp⟩

def NoNewAddress : Change → Prop
  | .inserted (.address _) _ => False
  | _ => True

/-- Without an insertion a current version was current before. -/
theorem current_of_replay {d : Database} {new : List Change} (hnew : ∀ c ∈ new, NoNewAddress c)
    {a : Address} (ha : a ∈ (engine.replay d new).address) (hcur : a.isCurrent = true) :
    a ∈ d.address := by
  refine noNewCurrent_replay (fun c hc => ?_) d a ha hcur rfl
  have hc := hnew c hc
  cases c with
  | inserted row id =>
    cases row with
    | address r => exact hc.elim
    | client | order | orderItem | payment | invoice | outbox => simp [locks, NewRow.keys]
  | executed stmt => cases stmt <;> simp [locks]

theorem ClientWritten.noNewAddress {data : ClientUpsertedData} {new : List Change}
    (hw : ClientWritten R data h ws h' new) : ∀ c ∈ new, NoNewAddress c := by
  intro c hc
  cases hw with
  | created =>
    obtain rfl := List.mem_singleton.mp hc
    trivial
  | updated =>
    unfold clientRecord at hc
    split at hc
    · obtain rfl := List.mem_singleton.mp hc
      trivial
    · cases hc

theorem mem_ids_of_name {d : Database} {id : Nat} {uid : String}
    (h : (id, uid) ∈ clientNames d) : id ∈ d.ids .clients := by
  obtain ⟨client, hclient, heq⟩ := List.mem_map.mp h
  exact List.mem_map.mpr ⟨client, hclient, congrArg Prod.fst heq⟩

theorem clientUpsert_refused {uid name document email : String}
    (hr : Runs keyLaws R (ClientRepository.upsert uid name document email) h ws h' ws'
      (.refused c k)) :
    ws' = ws ∧ k = .uqClientsClientUid ∧ ∃ c ∈ (engine.view h' ws).clients, c.clientUid = uid := by
  simp only [ClientRepository.upsert, ClientRepository.getByUid, ClientRepository.insert,
    Program.bind_eq] at hr
  obtain ⟨h₁, _, _, hr⟩ := runs_select hr
  split at hr
  · obtain ⟨t, hr⟩ := runs_utcnow hr
    obtain ⟨h₂, id, _, hnew, ⟨_, hr⟩ | ⟨k', hviol, he, rfl, rfl⟩⟩ := runs_insert hr
    · cases hr.2.2
    · cases he
      rcases violated_client hviol with hpk | huq
      · exact absurd hpk (newId_not_mem hnew)
      · exact ⟨rfl, huq⟩
  · obtain ⟨t, hr⟩ := runs_utcnow hr
    obtain ⟨h₂, _, hr⟩ := runs_flush (fun _ => rfl) hr
    cases hr.2.2

theorem openVersion_refused {clientId : Nat} {payload : AddressPayload} {t : Time}
    (hclient : clientId ∈ (engine.view h ws).ids .clients)
    (hr : Runs keyLaws R (AddressRepository.openVersion clientId payload t) h ws h' ws'
      (.refused c k)) :
    ws' = ws ∧ k = .uxAddressUidCurrent ∧
      ∃ a ∈ (engine.view h' ws).address, a.addressUid = payload.addressUid ∧ a.isCurrent := by
  simp only [AddressRepository.openVersion, Program.bind_eq] at hr
  obtain ⟨h₂, id, hle, hnew, ⟨_, hr⟩ | ⟨k', hviol, he, rfl, rfl⟩⟩ := runs_insert hr
  · cases hr.2.2
  · cases he
    rcases violated_address hviol with hpk | hux | hfk
    · exact absurd hpk (newId_not_mem hnew)
    · exact ⟨rfl, hux⟩
    · exact absurd (mem_ids_view (R.prefix_of hle) (List.prefix_refl _) hclient) hfk

theorem upsertVersion_refused {clientId : Nat} {payload : AddressPayload}
    (hclient : clientId ∈ (engine.view h ws).ids .clients)
    (hr : Runs keyLaws R (AddressRepository.upsertVersion clientId payload) h ws h' ws'
      (.refused c k)) :
    (∃ new, ws' = ws ++ new ∧ ∀ c ∈ new, NoNewAddress c) ∧ k = .uxAddressUidCurrent ∧
      ∃ a ∈ (engine.view h' ws').address, a.addressUid = payload.addressUid ∧ a.isCurrent := by
  simp only [AddressRepository.upsertVersion, AddressRepository.getCurrentVersion,
    AddressRepository.closeVersion, Program.bind_eq] at hr
  obtain ⟨h₁, hle₁, _, hr⟩ := runs_select hr
  have hclient := mem_ids_view (R.prefix_of hle₁) (List.prefix_refl _) hclient
  split at hr
  · obtain ⟨t, hr⟩ := runs_utcnow hr
    obtain ⟨rfl, hux⟩ := openVersion_refused hclient hr
    exact ⟨⟨[], by simp, by simp⟩, hux⟩
  · split at hr
    · obtain ⟨t, hr⟩ := runs_utcnow hr
      obtain ⟨h₂, hle₂, hr⟩ := runs_execute (fun _ => rfl) hr
      obtain ⟨rfl, hux⟩ := openVersion_refused
        (mem_ids_view (R.prefix_of hle₂) (List.prefix_append _ _) hclient) hr
      exact ⟨⟨_, rfl, by simp [NoNewAddress]⟩, hux⟩
    · cases hr.2.2

/-- Either the client came into being meanwhile or a version of the address did. -/
theorem clientHandler_refused
    (hr : Runs keyLaws R (ClientUpsertedHandler.handle i) h ws h' ws' (.refused c k)) :
    ∃ data, i.data.clientUpserted = .ok data ∧
      ((k = .uqClientsClientUid ∧
          ∃ c ∈ (engine.view h' ws).clients, c.clientUid = data.clientUid) ∨
        (k = .uxAddressUidCurrent ∧ ∃ a ∈ (engine.view h' ws).address,
          a.addressUid = data.address.addressUid ∧ a.isCurrent)) := by
  simp only [ClientUpsertedHandler.handle, Program.bind_eq] at hr
  obtain ⟨data, hdata, hr⟩ := runs_validate hr
  refine ⟨data, hdata, ?_⟩
  rcases hr.andThen with ⟨h₁, ws₁, client, hvalue, hr⟩ | ⟨c', k', he, hr⟩
  · obtain ⟨new₁, rfl, hwritten, hname⟩ := clientUpsert_runs hvalue
    have hclient := mem_ids_of_name hname
    rcases hr.andThen with ⟨h₂, ws₂, a, _, hr⟩ | ⟨c', k', he, hr⟩
    · cases hr.2.2
    · cases he
      obtain ⟨⟨new₂, rfl, hnew₂⟩, hk, a, ha, huid, hcur⟩ := upsertVersion_refused hclient hr
      refine .inr ⟨hk, a, ?_, huid, hcur⟩
      rw [List.append_assoc, Engine.view, Engine.replay_append] at ha
      refine current_of_replay (fun c hc => ?_) ha hcur
      rcases List.mem_append.mp hc with hc | hc
      · exact hwritten.noNewAddress c hc
      · exact hnew₂ c hc
  · cases he
    obtain ⟨_, huq⟩ := clientUpsert_refused hr
    exact .inl huq

end Handlers

/-- The unique keys of the business tables. -/
def Constraint.business : Constraint → Bool
  | .uqClientsClientUid | .uxAddressUidCurrent | .uqOrdersOrderUid | .uxPaymentProviderTx
  | .uxInvoiceOrder | .uxInvoiceNumberSeries => true
  | _ => false

/-- Nothing else can refuse a handler. -/
theorem HandlerRefused.business {R : Rely store EventEnvelope} {i : EventEnvelope} {h : History}
    {ws : List Change} {c : Change} {k : Constraint} (h : HandlerRefused R i h ws c k) :
    k.business = true := by
  obtain ⟨h₀, hr⟩ := h
  cases ht : i.eventType with
  | clientUpserted =>
    rw [ht] at hr
    obtain ⟨_, _, ⟨rfl, _⟩ | ⟨rfl, _⟩⟩ := clientHandler_refused hr
    · rfl
    · rfl
  | orderCreated =>
    rw [ht] at hr
    obtain ⟨_, rfl, _⟩ := orderHandler_refused hr
    rfl
  | paymentUpdated =>
    rw [ht] at hr
    obtain ⟨_, rfl, _⟩ := paymentHandler_refused hr
    rfl
  | invoiceIssued =>
    rw [ht] at hr
    obtain ⟨_, _, _, _, _, _, _, _, _, rfl | ⟨rfl, _⟩⟩ := invoiceHandler_refused hr
    · rfl
    · rfl

/-- The row of the provider transaction that the event is about. -/
def Payment.SameTransaction (data : PaymentUpdatedData) (p : Payment) : Prop :=
  p.provider = data.provider ∧ p.providerTxId = data.providerTxId

/-! ## The refused attempt -/

/-- From `s` to `t` the constraint `k` refuses a write of the handler that the attempt
`n` is running for the event `i`. -/
structure HandlerRefusal (s t : IngestState) (n : Nat) (i : EventEnvelope) (k : Constraint) :
    Prop where
  step : ∃ choice, step engine ingest s (.exec n choice) = some t
  refusal : ∃ a b c, s.active n = some a ∧ t.active n = some b ∧ a.input = i ∧
    a.progress.writes ≠ [] ∧ b.progress.refusals = a.progress.refusals ++ [(c, k)]

theorem HandlerRefusal.refused {s t : IngestState} {n : Nat} {i : EventEnvelope} {k : Constraint}
    (hs : IngestReachable s) (h : HandlerRefusal s t n i k) :
    ∃ ws c, HandlerRefused others i s.shared.history ws c k ∧ Met n i (c, k) t ∧
      HandlerWrite i.eventType c := by
  obtain ⟨⟨choice, hst⟩, a, b, c, ha, hb, rfl, hne, hnew⟩ := h
  have hsound := hs.sound
  obtain ⟨i, o, kont, p, r, p', sh, ha', hr, rfl⟩ := step_exec hst
  obtain rfl := Option.some.inj (ha.symm.trans ha')
  simp only [Function.update_self, Option.some.injEq] at hb
  subst hb
  have hnew : p'.refusals = p.refusals ++ [(c, k)] := hnew
  have hid : ∀ row, NewId keyLaws s.shared.history p.writes row
      (s.shared.identity (engine.table row)) := fun row j hj => hsound.wellFormed.view_ids ha hj
  rcases respond_refused hr hnew hid (hsound.wp ha) with ⟨hnil, _⟩ | hrefused
  · exact absurd hnil hne
  obtain ⟨h₀, hrun⟩ := hrefused
  refine ⟨p.writes, c, ⟨h₀, hrun⟩, ⟨hsound.wellFormed.active_lt n _ ha, fun a' ha' => ?_,
    fun ρ hρ hn => ?_⟩, hrun.refused (handler_straight i.eventType i)⟩
  · simp only [Function.update_self, Option.some.injEq] at ha'
    subst ha'
    exact ⟨rfl, by simp [hnew]⟩
  · have hnone := (hsound.wellFormed.returned ρ hρ).2.1
    simp [hn, ha] at hnone

/-- An attempt that has met such a refusal returns DUPLICATE, if it returns. -/
theorem barred_of_met {s : IngestState} (hs : IngestReachable s) {n : Nat} {i : EventEnvelope}
    {c : Change} {k : Constraint} (hmet : Met n i (c, k) s)
    {r : Returned store EventEnvelope Result} (hr : r ∈ s.returned) (hn : r.attempt = n)
    (hc : HandlerWrite i.eventType c) :
    r.result = .ok ⟨.duplicate, EventProcessor.barredByConstraint⟩ := by
  obtain ⟨rfl, hmem⟩ := hmet.returned r hr hn
  obtain ⟨h, _, hpost⟩ := hs.sound.returned r hr
  generalize r.progress = p at hmem hpost
  generalize r.result = ρ at hpost
  cases hpost with
  | barred => rfl
  | registered =>
    obtain ⟨rfl, _⟩ := Prod.mk.inj (List.mem_singleton.mp hmem)
    cases ht : r.input.eventType <;> rw [ht] at hc <;> exact hc.elim
  | discarded | processed | retried | raised => cases hmem

end EcommerceIntegration
