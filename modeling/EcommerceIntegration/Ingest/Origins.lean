import EcommerceIntegration.Ingest.Replay

/-!
# The events that rows come from

Every payment and every invoice was recorded for the order that its event names, and
every order that is INVOICED was closed by a transaction that issued its invoice.
-/

namespace EcommerceIntegration

set_option autoImplicit false

open Transaction

/-! ## What the handlers insert -/

section Effects
variable {i : EventEnvelope} {h : History} {ws : List Change}

theorem CompleteEffect.inserted_payment (hc : CompleteEffect others i h ws) {r : Payment} {id : Nat}
    (hr : .inserted (.payment r) id ∈ ws) :
    i.eventType = .paymentUpdated ∧ ∃ data o h₁, i.data.paymentUpdated = .ok data ∧ h₁ <+: h ∧
      o ∈ (engine.state h₁).orders ∧ o.orderUid = data.orderUid ∧
      r = newPayment o.orderId data := by
  have ht : i.eventType = .paymentUpdated := hc.type_of_write hr trivial
  obtain ⟨h₀, _, hruns⟩ := hc
  rw [ht] at hruns
  obtain ⟨data, o, h₁, h₂, record, approval, hdata, _, hle₂, hle₃, ho, hrecorded, happroval, rfl⟩ :=
    paymentHandler_runs hruns
  refine ⟨ht, data, o, h₁, hdata, hle₂.trans hle₃, List.mem_of_find?_eq_some ho,
    by simpa using List.find?_some ho, ?_⟩
  rcases List.mem_append.mp hr with hr | hr
  · rcases List.mem_append.mp hr with hr | hr
    · cases List.mem_singleton.mp hr
    · cases hrecorded with
      | created =>
        cases List.mem_singleton.mp hr
        rfl
      | updated =>
        rcases recordUpdate_cases data _ with heq | ⟨s, t, heq⟩
        · rw [heq] at hr
          cases hr
        · rw [heq] at hr
          cases List.mem_singleton.mp hr
  · cases happroval with
    | none => cases hr
    | now => simp at hr

theorem CompleteEffect.invoice_written (hc : CompleteEffect others i h ws)
    (ht : i.eventType = .invoiceIssued) :
    ∃ data o h₁ new, i.data.invoiceIssued = .ok data ∧ h₁ <+: h ∧
      o ∈ (engine.state h₁).orders ∧ o.orderUid = data.orderUid ∧
      InvoiceWritten others o data h₁ [ledgerRow i] h new ∧ ws = [ledgerRow i] ++ new := by
  obtain ⟨h₀, _, hruns⟩ := hc
  rw [ht] at hruns
  obtain ⟨data, o, h₁, new, hdata, _, hle, ho, hwritten, hws⟩ := invoiceHandler_runs hruns
  exact ⟨data, o, h₁, new, hdata, hle, List.mem_of_find?_eq_some ho,
    by simpa using List.find?_some ho, hwritten, hws⟩

theorem CompleteEffect.inserted_invoice (hc : CompleteEffect others i h ws) {r : Invoice} {id : Nat}
    (hr : .inserted (.invoice r) id ∈ ws) :
    i.eventType = .invoiceIssued ∧ ∃ data o h₁, i.data.invoiceIssued = .ok data ∧ h₁ <+: h ∧
      o ∈ (engine.state h₁).orders ∧ o.orderUid = data.orderUid ∧
      r = newInvoice o.orderId data := by
  have ht : i.eventType = .invoiceIssued := hc.type_of_write hr trivial
  obtain ⟨data, o, h₁, new, hdata, hle, ho, huid, hwritten, rfl⟩ := hc.invoice_written ht
  refine ⟨ht, data, o, h₁, hdata, hle, ho, huid, ?_⟩
  rcases List.mem_append.mp hr with hr | hr
  · cases List.mem_singleton.mp hr
  · cases hwritten with
    | known => cases hr
    | issued | closes =>
      simp only [List.mem_cons, List.not_mem_nil, or_false, reduceCtorEq] at hr
      cases hr
      rfl

/-- A transaction that closes an order issues its invoice. -/
theorem CompleteEffect.closes (hc : CompleteEffect others i h ws) {id : Nat} {t : Option Time}
    (hu : .executed (.updateOrder id .invoiced t) ∈ ws) :
    ∃ data id', .inserted (.invoice (newInvoice id data)) id' ∈ ws := by
  have ht : i.eventType = .invoiceIssued := hc.type_of_write hu rfl
  obtain ⟨data, o, h₁, new, _, _, _, _, hwritten, rfl⟩ := hc.invoice_written ht
  rcases List.mem_append.mp hu with hu | hu
  · cases List.mem_singleton.mp hu
  · cases hwritten with
    | known => cases hu
    | issued => simp at hu
    | closes =>
      simp only [List.mem_cons, List.not_mem_nil, or_false, reduceCtorEq, false_or] at hu
      cases hu
      exact ⟨data, _, List.mem_append_right _ List.mem_cons_self⟩

end Effects

/-! ## Where rows come from -/

def gainedPayments : Change → List Payment
  | .inserted (.payment r) id => [{ r with paymentId := id }.fixed]
  | _ => []

theorem payment_gain (d : Database) (c : Change) :
    (engine.apply d c).payment.map Payment.fixed ⊆
      d.payment.map Payment.fixed ++ gainedPayments c := by
  intro p hp
  cases c with
  | inserted row id =>
    cases row with
    | payment r =>
      simp only [engine, Database.apply, Database.insert, List.map_append] at hp
      exact hp
    | client | address | order | orderItem | invoice | outbox => exact List.mem_append_left _ hp
  | executed stmt =>
    cases stmt with
    | updatePayment id s t =>
      simp only [engine, Database.apply, Database.execute] at hp
      rw [map_updateWhere (Payment.fixed_set s t)] at hp
      exact List.mem_append_left _ hp
    | registerEvent | updateClient | closeAddress | updateOrder => exact List.mem_append_left _ hp

def gainedInvoices : Change → List Invoice
  | .inserted (.invoice r) id => [{ r with invoiceId := id }]
  | _ => []

theorem invoice_gain (d : Database) (c : Change) :
    (engine.apply d c).invoices ⊆ d.invoices ++ gainedInvoices c := by
  intro v hv
  cases c with
  | inserted row id =>
    cases row with
    | invoice r => exact hv
    | client | address | order | orderItem | payment | outbox => exact List.mem_append_left _ hv
  | executed stmt => cases stmt <;> exact List.mem_append_left _ hv

/-- The order gets the status INVOICED. -/
def gainedInvoiced : Change → List Nat
  | .inserted (.order r) id => if r.status = .invoiced then [id] else []
  | .executed (.updateOrder id .invoiced _) => [id]
  | _ => []

def invoicedOrders (d : Database) : List Nat :=
  (d.orders.filter (·.status == .invoiced)).map Order.orderId

theorem mem_invoicedOrders {d : Database} {id : Nat} :
    id ∈ invoicedOrders d ↔ ∃ o ∈ d.orders, o.orderId = id ∧ o.status = .invoiced := by
  simp only [invoicedOrders, List.mem_map, List.mem_filter, beq_iff_eq]
  exact ⟨fun ⟨o, ⟨ho, hs⟩, hid⟩ => ⟨o, ho, hid, hs⟩, fun ⟨o, ho, hid, hs⟩ => ⟨o, ⟨ho, hs⟩, hid⟩⟩

theorem invoiced_gain (d : Database) (c : Change) :
    invoicedOrders (engine.apply d c) ⊆ invoicedOrders d ++ gainedInvoiced c := by
  intro id hid
  cases c with
  | inserted row k =>
    cases row with
    | order r =>
      obtain ⟨o, ho, rfl, hs⟩ := mem_invoicedOrders.mp hid
      rcases List.mem_append.mp ho with ho | ho
      · exact List.mem_append_left _ (mem_invoicedOrders.mpr ⟨o, ho, rfl, hs⟩)
      · obtain rfl := List.mem_singleton.mp ho
        refine List.mem_append_right _ ?_
        simp only [gainedInvoiced]
        rw [if_pos hs]
        exact List.mem_singleton_self _
    | client | address | orderItem | payment | invoice | outbox => exact List.mem_append_left _ hid
  | executed stmt =>
    cases stmt with
    | updateOrder k s t =>
      obtain ⟨o, ho, rfl, hs⟩ := mem_invoicedOrders.mp hid
      obtain ⟨b, hb, ⟨hk, rfl⟩ | ⟨_, rfl⟩⟩ := mem_updateWhere.mp ho
      · obtain rfl : s = .invoiced := hs
        exact List.mem_append_right _ (List.mem_singleton.mpr (beq_iff_eq.mp hk))
      · exact List.mem_append_left _ (mem_invoicedOrders.mpr ⟨o, hb, rfl, hs⟩)
    | registerEvent | updateClient | closeAddress | updatePayment => exact List.mem_append_left _ hid

section Origins
variable {h : History}

/-- A payment is recorded for the order that its event names. -/
theorem payment_origin (hh : Consistent h) {p : Payment} (hp : p ∈ (engine.state h).payment) :
    ∃ k ∈ h, k.input.eventType = .paymentUpdated ∧ ∃ data, k.input.data.paymentUpdated = .ok data ∧
      p.SameTransaction data ∧
      ∃ o ∈ (engine.state h).orders, o.orderUid = data.orderUid ∧ o.orderId = p.orderId := by
  obtain ⟨h₀, k, hpre, c, hc, hgained⟩ := engine.origin (fun d => d.payment.map Payment.fixed)
    gainedPayments rfl payment_gain (List.mem_map_of_mem hp)
  unfold gainedPayments at hgained
  split at hgained
  · rename_i r id
    obtain ⟨ht, data, o, h₁, hdata, hle, ho, huid, rfl⟩ :=
      (hh.of_prefix hpre).effect.inserted_payment hc
    have hfixed := List.mem_singleton.mp hgained
    obtain ⟨o', ho', hfixed'⟩ :=
      order_stays (hle.trans ((List.prefix_append h₀ [k]).trans hpre)) ho
    refine ⟨k, hpre.subset (by simp), ht, data, hdata, ?_, o', ho',
      (Order.uid_of_fixed hfixed').trans huid, ?_⟩
    · exact (Payment.sameTransaction_of_fixed hfixed).mpr ⟨rfl, rfl⟩
    · exact (Order.id_of_fixed hfixed').trans (Payment.orderId_of_fixed hfixed).symm
  · cases hgained

/-- An invoice is issued for the order that its event names. -/
theorem invoice_origin (hh : Consistent h) {v : Invoice} (hv : v ∈ (engine.state h).invoices) :
    ∃ k ∈ h, k.input.eventType = .invoiceIssued ∧ ∃ data, k.input.data.invoiceIssued = .ok data ∧
      v.invoiceNumber = data.invoiceNumber ∧ v.series = data.series ∧
      ∃ o ∈ (engine.state h).orders, o.orderUid = data.orderUid ∧ o.orderId = v.orderId := by
  obtain ⟨h₀, k, hpre, c, hc, hgained⟩ := engine.origin (fun d => d.invoices) gainedInvoices rfl
    invoice_gain hv
  unfold gainedInvoices at hgained
  split at hgained
  · rename_i r id
    obtain ⟨ht, data, o, h₁, hdata, hle, ho, huid, rfl⟩ :=
      (hh.of_prefix hpre).effect.inserted_invoice hc
    obtain rfl := List.mem_singleton.mp hgained
    obtain ⟨o', ho', hfixed⟩ :=
      order_stays (hle.trans ((List.prefix_append h₀ [k]).trans hpre)) ho
    exact ⟨k, hpre.subset (by simp), ht, data, hdata, rfl, rfl, o', ho',
      (Order.uid_of_fixed hfixed).trans huid, Order.id_of_fixed hfixed⟩
  · cases hgained

/-- An INVOICED order was closed by a commit of the history. -/
theorem closed_origin (hh : Consistent h) {o : Order} (ho : o ∈ (engine.state h).orders)
    (hs : o.status = .invoiced) :
    ∃ h₀ k, h₀ ++ [k] <+: h ∧ ∃ t, .executed (.updateOrder o.orderId .invoiced t) ∈ k.writes := by
  obtain ⟨h₀, k, hpre, c, hc, hgained⟩ := engine.origin invoicedOrders gainedInvoiced rfl
    invoiced_gain (mem_invoicedOrders.mpr ⟨o, ho, rfl, hs⟩)
  refine ⟨h₀, k, hpre, ?_⟩
  unfold gainedInvoiced at hgained
  split at hgained
  · rename_i r id
    have hpending := (hh.of_prefix hpre).effect.inserted_order hc
    simp [hpending] at hgained
  · rename_i id t
    obtain rfl := List.mem_singleton.mp hgained
    exact ⟨t, hc⟩
  · cases hgained

theorem invoice_of_invoiced (hh : Consistent h) {o : Order} (ho : o ∈ (engine.state h).orders)
    (hs : o.status = .invoiced) : ∃ v ∈ (engine.state h).invoices, v.orderId = o.orderId := by
  obtain ⟨h₀, k, hpre, t, hu⟩ := closed_origin hh ho hs
  obtain ⟨data, id, hinserted⟩ := (hh.of_prefix hpre).effect.closes hu
  have hrow := invoice_of_inserted (d := engine.state h₀) hinserted
  rw [← Engine.state_concat] at hrow
  exact ⟨_, invoices_grow.state hpre hrow, rfl⟩

end Origins

end EcommerceIntegration
