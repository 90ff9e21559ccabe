import EcommerceIntegration.Ingest.ClientRuns
import EcommerceIntegration.Ingest.PaymentRuns

/-!
# Complete executions of the handlers of orders and invoices

Both leave what is already there alone. An order comes with its items, an invoice closes
the order when the handler has read it as APPROVED.
-/

namespace EcommerceIntegration

set_option autoImplicit false

open Transaction

def newOrder (i : EventEnvelope) (data : OrderCreatedData) (client : Client)
    (shipping billing : Address) : Order where
  orderId := 0
  orderUid := data.orderUid
  clientId := client.clientId
  shippingAddressId := shipping.addressId
  billingAddressId := billing.addressId
  status := .pending
  currency := data.currency
  totalAmount := data.totalAmount
  placedAt := data.placedAt.replaceTzinfoNone
  closedAt := none
  sourceEventId := i.eventId

def newInvoice (orderId : Nat) (data : InvoiceIssuedData) : Invoice where
  invoiceId := 0
  orderId := orderId
  invoiceNumber := data.invoiceNumber
  series := data.series
  accessKey := data.accessKey
  issuedAt := data.issuedAt.replaceTzinfoNone
  totalAmount := data.totalAmount

def IsItem (c : Change) : Prop := ∃ r id, c = .inserted (.orderItem r) id

/-- From `h` on, with the writes `ws` pending, the order is written at the history `h'`. -/
inductive OrderWritten (R : Rely store EventEnvelope) (i : EventEnvelope)
    (data : OrderCreatedData) (h : History) (ws : List Change) (h' : History) :
    List Change → Prop
  | known {h₁} (read : R.allows h h₁) (later : R.allows h₁ h')
      (stored : ∃ o ∈ (engine.view h₁ ws).orders, o.orderUid = data.orderUid) :
    OrderWritten R i data h ws h' []
  | created {h₁ h₂ client shipping billing id items} (read : R.allows h h₁)
      (next : R.allows h₁ h₂) (later : R.allows h₂ h')
      (absent : ∀ o ∈ (engine.view h₁ ws).orders, o.orderUid ≠ data.orderUid)
      (found : clientOf (engine.view h₂ ws) data.clientUid = some client)
      (only : ∀ c ∈ items, IsItem c) :
    OrderWritten R i data h ws h'
      (.inserted (.order (newOrder i data client shipping billing)) id :: items)

/-- The address that the order is billed to; an empty text is as good as none. -/
def billingUid (data : OrderCreatedData) : String :=
  match data.billingAddressUid with
  | none => data.shippingAddressUid
  | some uid => if uid = "" then data.shippingAddressUid else uid

/-- The rows of the items, in the order of the payload. -/
def ItemRows (orderId : Nat) (items : List OrderItemPayload) (ws : List Change) : Prop :=
  List.Forall₂
    (fun item c => ∃ id, c = .inserted (.orderItem (OrderRepository.newItem orderId item)) id)
    items ws

/-- From `h` on, with the writes `ws` pending, the order is written at the history `h'` with
the versions that were current when they were read. -/
inductive OrderPlaced (R : Rely store EventEnvelope) (i : EventEnvelope)
    (data : OrderCreatedData) (h : History) (ws : List Change) (h' : History) :
    List Change → Prop
  | known : OrderPlaced R i data h ws h' []
  | created {h₁ h₂ h₃ client shipping billing id items} (first : R.allows h h₁)
      (client_found : clientOf (engine.view h₁ ws) data.clientUid = some client)
      (second : R.allows h₁ h₂)
      (shipping_current :
        currentVersion (engine.view h₂ ws) data.shippingAddressUid = some shipping)
      (third : R.allows h₂ h₃)
      (billing_current : currentVersion (engine.view h₃ ws) (billingUid data) = some billing)
      (later : R.allows h₃ h') (items_written : ItemRows id data.items items) :
    OrderPlaced R i data h ws h'
      (.inserted (.order (newOrder i data client shipping billing)) id :: items)

theorem mem_itemRows {orderId : Nat} {items : List OrderItemPayload} {ws : List Change}
    (hrows : ItemRows orderId items ws) {c : Change} (hc : c ∈ ws) :
    ∃ item id, c = .inserted (.orderItem (OrderRepository.newItem orderId item)) id := by
  induction hrows with
  | nil => cases hc
  | cons hitem _ ih =>
    rcases List.mem_cons.mp hc with rfl | hc
    · obtain ⟨id, rfl⟩ := hitem
      exact ⟨_, id, rfl⟩
    · exact ih hc

/-- From `h` on, with the writes `ws` pending, the invoice of the order `o` is written at
the history `h'`. -/
inductive InvoiceWritten (R : Rely store EventEnvelope) (o : Order) (data : InvoiceIssuedData)
    (h : History) (ws : List Change) (h' : History) : List Change → Prop
  | known {h₁} (read : R.allows h h₁) (later : R.allows h₁ h')
      (stored : ∃ v ∈ (engine.view h₁ ws).invoices, v.orderId = o.orderId) :
    InvoiceWritten R o data h ws h' []
  | issued {h₁ id} (read : R.allows h h₁) (later : R.allows h₁ h')
      (absent : ∀ v ∈ (engine.view h₁ ws).invoices, v.orderId ≠ o.orderId)
      (notNow : o.status ≠ .approved) :
    InvoiceWritten R o data h ws h' [.inserted (.invoice (newInvoice o.orderId data)) id]
  | closes {h₁ id t} (read : R.allows h h₁) (later : R.allows h₁ h')
      (absent : ∀ v ∈ (engine.view h₁ ws).invoices, v.orderId ≠ o.orderId)
      (approved : o.status = .approved) :
    InvoiceWritten R o data h ws h'
      [.inserted (.invoice (newInvoice o.orderId data)) id,
        .executed (.updateOrder o.orderId .invoiced t)]

section Runs
variable {R : Rely store EventEnvelope} {i : EventEnvelope} {h h' : History}
  {ws ws' : List Change}

theorem addItems_runs {orderId : Nat} {items : List OrderItemPayload} {u : Unit}
    (hr : Runs keyLaws R (OrderRepository.addItems orderId items) h ws h' ws' (.value u)) :
    ∃ new, ws' = ws ++ new ∧ ItemRows orderId items new := by
  induction items generalizing h ws with
  | nil => exact ⟨[], by simp [hr.2.1], .nil⟩
  | cons item items ih =>
    simp only [OrderRepository.addItems, Program.bind_eq] at hr
    obtain ⟨_, hr⟩ := runs_requireFits hr
    obtain ⟨h₁, id, _, _, ⟨_, hr⟩ | ⟨_, _, he, _⟩⟩ := runs_insert hr
    · obtain ⟨new, rfl, hnew⟩ := ih hr
      refine ⟨.inserted (.orderItem (OrderRepository.newItem orderId item)) id :: new, by simp, ?_⟩
      exact .cons ⟨id, rfl⟩ hnew
    · cases he

theorem requireCurrentAddress_runs {uid : String} {f : Address → Session Unit}
    {e : Ending store Unit}
    (hr : Runs keyLaws R ((OrderCreatedHandler.requireCurrentAddress uid).andThen f) h ws h' ws' e) :
    ∃ h₁ a, R.allows h h₁ ∧ currentVersion (engine.view h₁ ws) uid = some a ∧
      Runs keyLaws R (f a) h₁ ws h' ws' e := by
  simp only [OrderCreatedHandler.requireCurrentAddress, AddressRepository.getCurrentVersion,
    Program.bind_eq, Program.andThen_assoc] at hr
  obtain ⟨h₁, hle, _, hr⟩ := runs_select hr
  obtain ⟨a, ha, hr⟩ := runs_requireDependency hr
  exact ⟨h₁, a, hle, ha, hr⟩

/-- The billing address is the shipping address as it was read, or is read after it. -/
theorem resolveBillingAddress_runs {data : OrderCreatedData} {shipping : Address}
    {f : Address → Session Unit} {e : Ending store Unit}
    (hshipping : currentVersion (engine.view h ws) data.shippingAddressUid = some shipping)
    (hr : Runs keyLaws R ((OrderCreatedHandler.resolveBillingAddress data shipping).andThen f)
      h ws h' ws' e) :
    ∃ h₁ a, R.allows h h₁ ∧ currentVersion (engine.view h₁ ws) (billingUid data) = some a ∧
      Runs keyLaws R (f a) h₁ ws h' ws' e := by
  unfold OrderCreatedHandler.resolveBillingAddress at hr
  unfold billingUid
  cases hbilling : data.billingAddressUid with
  | none =>
    rw [hbilling] at hr
    exact ⟨h, shipping, R.refl h, hshipping, hr⟩
  | some uid =>
    rw [hbilling] at hr
    by_cases hempty : uid = ""
    · simp only [hempty, decide_true, Bool.true_or, if_true] at hr ⊢
      exact ⟨h, shipping, R.refl h, hshipping, hr⟩
    · simp only [hempty, decide_false, Bool.false_or, if_false, decide_eq_true_eq] at hr ⊢
      split at hr
      · rename_i hsame
        exact ⟨h, shipping, R.refl h, hsame ▸ hshipping, hr⟩
      · exact requireCurrentAddress_runs hr

theorem orderHandler_runs {u : Unit}
    (hr : Runs keyLaws R (OrderCreatedHandler.handle i) h ws h' ws' (.value u)) :
    ∃ (data : OrderCreatedData) (new : List Change), i.data.orderCreated = .ok data ∧
      OrderWritten R i data h ws h' new ∧ OrderPlaced R i data h ws h' new ∧ ws' = ws ++ new := by
  simp only [OrderCreatedHandler.handle, OrderRepository.exists, ClientRepository.getByUid,
    OrderRepository.create, Program.bind_eq] at hr
  obtain ⟨data, hdata, hr⟩ := runs_validate hr
  obtain ⟨h₁, hread, _, hr⟩ := runs_select hr
  split at hr
  · rename_i hstored
    obtain ⟨hle, rfl, _⟩ := hr
    refine ⟨data, [], hdata, .known hread hle ?_, .known, (List.append_nil _).symm⟩
    simpa using hstored
  · rename_i hstored
    have habsent : ∀ o ∈ (engine.view h₁ ws).orders, o.orderUid ≠ data.orderUid := by
      simpa using hstored
    obtain ⟨h₂, hread₂, _, hr⟩ := runs_select hr
    obtain ⟨client, hclient, hr⟩ := runs_requireDependency hr
    have hlater := hr.later
    obtain ⟨h₃, shipping, hsecond, hshipping, hr⟩ := requireCurrentAddress_runs hr
    obtain ⟨h₄, billing, hthird, hbilling, hr⟩ := resolveBillingAddress_runs hshipping hr
    simp only [Program.andThen_assoc] at hr
    obtain ⟨_, hr⟩ := runs_requireFits hr
    have hlast := hr.later
    obtain ⟨h₅, id, _, _, ⟨_, hr⟩ | ⟨_, _, he, _⟩⟩ := runs_insert hr
    · rcases hr.andThen with ⟨h₆, ws₆, _, hitems, hr⟩ | ⟨_, _, he, _⟩
      · obtain ⟨items, rfl, hrows⟩ := addItems_runs hitems
        obtain ⟨_, rfl, _⟩ := hr
        have honly : ∀ c ∈ items, IsItem c := by
          intro c hc
          obtain ⟨item, id', rfl⟩ := mem_itemRows hrows hc
          exact ⟨_, id', rfl⟩
        exact ⟨data, _, hdata, .created hread hread₂ hlater habsent hclient honly,
          .created (R.trans hread hread₂) hclient hsecond hshipping hthird hbilling hlast hrows,
          List.append_assoc _ _ _⟩
      · cases he
    · cases he

theorem invoiceHandler_runs {u : Unit}
    (hr : Runs keyLaws R (InvoiceIssuedHandler.handle i) h ws h' ws' (.value u)) :
    ∃ (data : InvoiceIssuedData) (o : Order) (h₁ : History) (new : List Change),
      i.data.invoiceIssued = .ok data ∧ R.allows h h₁ ∧ R.allows h₁ h' ∧
      storedOrder (engine.view h₁ ws) data.orderUid = some o ∧
      InvoiceWritten R o data h₁ ws h' new ∧ ws' = ws ++ new := by
  simp only [InvoiceIssuedHandler.handle, InvoiceRepository.existsForOrder,
    InvoiceRepository.create, Program.bind_eq] at hr
  obtain ⟨data, hdata, hr⟩ := runs_validate hr
  obtain ⟨h₁, o, hle₁, _, ho, hr⟩ := runs_requireOrder hr
  have hlater := hr.later
  obtain ⟨h₂, hread, _, hr⟩ := runs_select hr
  split at hr
  · rename_i hstored
    obtain ⟨hle, rfl, _⟩ := hr
    refine ⟨data, o, h₁, [], hdata, hle₁, hlater, ho, .known hread hle ?_,
      (List.append_nil _).symm⟩
    simpa using hstored
  · rename_i hstored
    have habsent : ∀ v ∈ (engine.view h₂ ws).invoices, v.orderId ≠ o.orderId := by
      simpa using hstored
    simp only [Program.andThen_assoc] at hr
    have hlater₂ := hr.later
    obtain ⟨h₃, id, _, _, ⟨_, hr⟩ | ⟨_, _, he, _⟩⟩ := runs_insert hr
    · simp only [OrderRepository.transition, OrderRepository.transitionIsAllowed,
        invoiced_mem_allowed, Program.pure_eq, Program.done_andThen] at hr
      split at hr
      · rename_i happroved
        simp only [Program.bind_eq, Program.andThen_assoc] at hr
        obtain ⟨h₄, _, hr⟩ := runs_execute (fun _ => rfl) hr
        obtain ⟨_, rfl, _⟩ := hr
        exact ⟨data, o, h₁, _, hdata, hle₁, hlater, ho,
          .closes hread hlater₂ habsent (by simpa using happroved), List.append_assoc _ _ _⟩
      · rename_i hother
        obtain ⟨_, rfl, _⟩ := hr
        exact ⟨data, o, h₁, _, hdata, hle₁, hlater, ho,
          .issued hread hlater₂ habsent (by simpa using hother), rfl⟩
    · cases he

end Runs

end EcommerceIntegration
