import EcommerceIntegration.Ingest.LastWriter
import EcommerceIntegration.Ingest.OrderStatus
import EcommerceIntegration.Ingest.Origins
import EcommerceIntegration.Ingest.Reservations

/-!
# Deliveries of one order out of order

An invoice that comes before the approval is issued all the same. The order stays PENDING
then, and once it is APPROVED nothing is left that would close it.
-/

namespace EcommerceIntegration

set_option autoImplicit false

open Transaction

/-! ## An order that is INVOICED stays so -/

section Serial
variable {h h' : History} {k : IngestCommit}

/-- In a serial run the order that is approved is PENDING. -/
theorem SerialHistory.approves_pending (hs : SerialHistory (h ++ [k])) {o : Order}
    (ho : o ∈ (engine.state h).orders) {t : Option Time}
    (hu : .executed (.updateOrder o.orderId .approved t) ∈ k.writes) : o.status = .pending := by
  have hkeys := (hs.of_prefix (List.prefix_append h [k])).consistent.keys
  obtain ⟨data, o', m, hid, ha⟩ := hs.approving (approves_of_mem hu)
  obtain ⟨ho', hpending⟩ := ha.stored
  rwa [order_unique_id hkeys ho' ho hid] at hpending

theorem invoiced_later (hle : h <+: h') (hs : SerialHistory h') {o : Order}
    (ho : o ∈ (engine.state h).orders) (hinvoiced : o.status = .invoiced) :
    ∃ o' ∈ (engine.state h').orders, o'.fixed = o.fixed ∧ o'.status = .invoiced := by
  obtain ⟨later, rfl⟩ := hle
  induction later using List.reverseRecOn with
  | nil => exact ⟨o, by simpa using ho, rfl, hinvoiced⟩
  | append_singleton later k ih =>
    rw [← List.append_assoc] at hs ⊢
    obtain ⟨o', ho', hfixed, hstatus⟩ := ih (hs.of_prefix (List.prefix_append _ _))
    rw [Engine.state_concat]
    have hset : ∀ status t, .executed (.updateOrder o'.orderId status t) ∈ k.writes →
        status = .invoiced := by
      intro status t hu
      rcases hs.consistent.effect.update_status hu with rfl | rfl
      · have hpending := hs.approves_pending ho' hu
        rw [hstatus] at hpending
        cases hpending
      · rfl
    obtain ⟨o'', ho'', hfixed', hstatus'⟩ := status_replay_of hset ho' hstatus
    exact ⟨o'', ho'', hfixed'.trans hfixed, hstatus'⟩

/-- What a serial transaction does for an invoice. -/
theorem SerialHistory.invoice_written (hs : SerialHistory (h ++ [k]))
    (ht : k.input.eventType = .invoiceIssued) :
    ∃ data o new, k.input.data.invoiceIssued = .ok data ∧ o ∈ (engine.state h).orders ∧
      o.orderUid = data.orderUid ∧ InvoiceWritten alone o data h [ledgerRow k.input] h new ∧
      k.writes = [ledgerRow k.input] ++ new := by
  obtain ⟨h₀, _, hr⟩ : CompleteEffect alone k.input h k.writes := hs.kept h k (List.prefix_refl _)
  rw [ht] at hr
  obtain ⟨data, o, h₁, new, hdata, hle₁, hle₂, ho, hwritten, hws⟩ := invoiceHandler_runs hr
  obtain rfl : h₀ = h₁ := hle₁
  obtain rfl : h₀ = h := hle₂
  exact ⟨data, o, new, hdata, List.mem_of_find?_eq_some ho, by simpa using List.find?_some ho,
    hwritten, hws⟩

/-- The first invoice of an order that is not PENDING closes it. -/
theorem SerialHistory.closes (hs : SerialHistory (h ++ [k]))
    (ht : k.input.eventType = .invoiceIssued) {data : InvoiceIssuedData}
    (hdata : k.input.data.invoiceIssued = .ok data) {o : Order} (ho : o ∈ (engine.state h).orders)
    (huid : o.orderUid = data.orderUid) (hclosed : o.status ≠ .pending)
    (habsent : ∀ v ∈ (engine.state h).invoices, v.orderId ≠ o.orderId) :
    ∃ o' ∈ (engine.state (h ++ [k])).orders, o'.fixed = o.fixed ∧ o'.status = .invoiced := by
  have hh := (hs.of_prefix (List.prefix_append h [k])).consistent
  obtain ⟨data', o₁, new, hdata', ho₁, huid₁, hwritten, hws⟩ := hs.invoice_written ht
  obtain rfl := Except.ok.inj (hdata.symm.trans hdata')
  obtain rfl : o₁ = o := order_unique hh.keys ho₁ ho (huid₁.trans huid.symm)
  have hsees : ∀ h₁, alone.allows h h₁ →
      (engine.view h₁ [ledgerRow k.input]).invoices = (engine.state h).invoices := by
    rintro h₁ rfl
    rfl
  cases hwritten with
  | known read _ stored =>
    obtain ⟨v, hv, horder⟩ := stored
    exact absurd horder (habsent v (hsees _ read ▸ hv))
  | issued _ _ _ notNow =>
    -- then the order has been invoiced before
    have hinvoiced : o₁.status = .invoiced := by
      have hnot := not_cancelled hh o₁ ho
      cases hstatus : o₁.status <;> simp_all
    obtain ⟨v, hv, horder⟩ := invoice_of_invoiced hh ho hinvoiced
    exact absurd horder (habsent v hv)
  | @closes _ id t _ _ _ _ =>
    rw [Engine.state_concat, hws]
    have hmem : .executed (.updateOrder o₁.orderId .invoiced t) ∈ [ledgerRow k.input] ++
        [.inserted (.invoice (newInvoice o₁.orderId data)) id,
          .executed (.updateOrder o₁.orderId .invoiced t)] := by simp
    refine status_of_update (S := (· = .invoiced)) (fun id' status t' hu => ?_) ho hmem
    simp only [List.singleton_append, List.mem_cons, List.not_mem_nil, or_false, reduceCtorEq,
      false_or] at hu
    rcases hu with hu | hu
    · cases hu
    · cases hu
      rfl

end Serial

/-! ## The events of one order -/

/-- The four events of one order. -/
structure OrderEvents where
  client : EventEnvelope
  order : EventEnvelope
  payment : EventEnvelope
  invoice : EventEnvelope
  clientData : ClientUpsertedData
  orderData : OrderCreatedData
  paymentData : PaymentUpdatedData
  invoiceData : InvoiceIssuedData
  client_event : client.eventType = .clientUpserted ∧ client.data.clientUpserted = .ok clientData
  order_event : order.eventType = .orderCreated ∧ order.data.orderCreated = .ok orderData
  payment_event : payment.eventType = .paymentUpdated ∧
    payment.data.paymentUpdated = .ok paymentData
  invoice_event : invoice.eventType = .invoiceIssued ∧ invoice.data.invoiceIssued = .ok invoiceData
  order_client : orderData.clientUid = clientData.clientUid
  payment_order : paymentData.orderUid = orderData.orderUid
  payment_approved : paymentData.status = .approved
  invoice_order : invoiceData.orderUid = orderData.orderUid
  ids_nodup : [client.eventId, order.eventId, payment.eventId, invoice.eventId].Nodup

namespace OrderEvents
variable (e : OrderEvents)

def all : List EventEnvelope := [e.client, e.order, e.payment, e.invoice]

theorem payment_mem : e.payment ∈ e.all := by simp [all]

theorem invoice_mem : e.invoice ∈ e.all := by simp [all]

def ids : List (Text 8 64) := e.all.map EventEnvelope.eventId

def uid : String := e.orderData.orderUid

/-- The event is another one, and no payment or invoice of the order. -/
structure Foreign (i : EventEnvelope) : Prop where
  event : i.eventId ∉ e.ids
  payment : i.eventType = .paymentUpdated → ∀ data, i.data.paymentUpdated = .ok data →
    data.orderUid.val ≠ e.uid ∧
      ¬ (data.provider = e.paymentData.provider ∧ data.providerTxId = e.paymentData.providerTxId)
  invoice : i.eventType = .invoiceIssued → ∀ data, i.data.invoiceIssued = .ok data →
    data.orderUid.val ≠ e.uid ∧
      ¬ (data.invoiceNumber = e.invoiceData.invoiceNumber ∧ data.series = e.invoiceData.series)

/-- Nothing but the four events is about the order. -/
def Only (ls : List IngestLabel) : Prop := ∀ i, .start i ∈ ls → i ∈ e.all ∨ e.Foreign i

end OrderEvents

/-- A delivery of the event has ended, and not with RETRY. -/
def Delivered (s : IngestState) (i : EventEnvelope) : Prop :=
  ∃ r ∈ s.returned, r.input = i ∧ ∃ ρ, r.result = .ok ρ ∧ ρ.outcome ≠ .retry

/-- The order is INVOICED, with one invoice, one approved payment and one notification. -/
def Converged (d : Database) (orderUid : String) : Prop :=
  ∃ o ∈ d.orders, o.orderUid = orderUid ∧ o.status = .invoiced ∧
    d.invoices.countP (·.orderId == o.orderId) = 1 ∧
    d.payment.countP (fun p => p.orderId == o.orderId && p.status == .approved) = 1 ∧
    notifications d orderUid = 1

namespace OrderEvents
variable {e : OrderEvents}

/-- The history has the four events at most and nothing else about the order. -/
structure Within (e : OrderEvents) (h : History) : Prop where
  serial : SerialHistory h
  inputs : ∀ k ∈ h, k.input ∈ e.all ∨ e.Foreign k.input

section Within
variable {h : History} (hw : e.Within h)
include hw

theorem Within.of_prefix {h₀ : History} (hle : h₀ <+: h) : e.Within h₀ :=
  ⟨hw.serial.of_prefix hle, fun k hk => hw.inputs k (hle.subset hk)⟩

/-- The commit of an event with one of the four ids. -/
theorem Within.commit_of_id {k : IngestCommit} (hk : k ∈ h) (hid : k.input.eventId ∈ e.ids) :
    k.input ∈ e.all := by
  rcases hw.inputs k hk with hall | hforeign
  · exact hall
  · exact absurd hid hforeign.event

omit hw in
theorem eq_payment_of_mem {i : EventEnvelope} (hi : i ∈ e.all) (ht : i.eventType = .paymentUpdated) :
    i = e.payment := by
  simp only [all, List.mem_cons, List.not_mem_nil, or_false] at hi
  rcases hi with rfl | rfl | rfl | rfl
  · cases e.client_event.1.symm.trans ht
  · cases e.order_event.1.symm.trans ht
  · rfl
  · cases e.invoice_event.1.symm.trans ht

omit hw in
theorem eq_invoice_of_mem {i : EventEnvelope} (hi : i ∈ e.all) (ht : i.eventType = .invoiceIssued) :
    i = e.invoice := by
  simp only [all, List.mem_cons, List.not_mem_nil, or_false] at hi
  rcases hi with rfl | rfl | rfl | rfl
  · cases e.client_event.1.symm.trans ht
  · cases e.order_event.1.symm.trans ht
  · cases e.payment_event.1.symm.trans ht
  · rfl

/-- A committed payment event about the order is the one of the four. -/
theorem Within.payment_commit {k : IngestCommit} (hk : k ∈ h)
    (ht : k.input.eventType = .paymentUpdated) {data : PaymentUpdatedData}
    (hdata : k.input.data.paymentUpdated = .ok data)
    (habout : data.orderUid.val = e.uid ∨
      data.provider = e.paymentData.provider ∧ data.providerTxId = e.paymentData.providerTxId) :
    k.input = e.payment ∧ data = e.paymentData := by
  rcases hw.inputs k hk with hall | hforeign
  · have heq := eq_payment_of_mem hall ht
    refine ⟨heq, Except.ok.inj (hdata.symm.trans ?_)⟩
    rw [heq]
    exact e.payment_event.2
  · obtain ⟨huid, htx⟩ := hforeign.payment ht data hdata
    rcases habout with habout | habout
    · exact absurd habout huid
    · exact absurd habout htx

theorem Within.invoice_commit {k : IngestCommit} (hk : k ∈ h)
    (ht : k.input.eventType = .invoiceIssued) {data : InvoiceIssuedData}
    (hdata : k.input.data.invoiceIssued = .ok data)
    (habout : data.orderUid.val = e.uid ∨
      data.invoiceNumber = e.invoiceData.invoiceNumber ∧ data.series = e.invoiceData.series) :
    k.input = e.invoice := by
  rcases hw.inputs k hk with hall | hforeign
  · exact eq_invoice_of_mem hall ht
  · obtain ⟨huid, hnumber⟩ := hforeign.invoice ht data hdata
    rcases habout with habout | habout
    · exact absurd habout huid
    · exact absurd habout hnumber

/-- A payment of the order is the one of the event, and the other way round. -/
theorem Within.payment_iff {p : Payment} (hp : p ∈ (engine.state h).payment) {o : Order}
    (ho : o ∈ (engine.state h).orders) (huid : o.orderUid = e.uid) :
    p.orderId = o.orderId ↔ p.SameTransaction e.paymentData := by
  have hkeys := hw.serial.consistent.keys
  obtain ⟨k, hk, ht, data, hdata, hsame, o', ho', huid', hid⟩ :=
    payment_origin hw.serial.consistent hp
  constructor
  · intro horder
    obtain rfl := order_unique_id hkeys ho' ho (hid.trans horder)
    rw [← (hw.payment_commit hk ht hdata (.inl (huid'.symm.trans huid))).2]
    exact hsame
  · intro hown
    have htx : data.provider = e.paymentData.provider ∧
        data.providerTxId = e.paymentData.providerTxId :=
      ⟨Subtype.ext (hsame.1.symm.trans hown.1), Subtype.ext (hsame.2.symm.trans hown.2)⟩
    obtain ⟨_, rfl⟩ := hw.payment_commit hk ht hdata (.inr htx)
    have huidEq : o'.orderUid = o.orderUid := by
      rw [huid', huid, e.payment_order]
      rfl
    rw [← hid, order_unique hkeys ho' ho huidEq]

/-- An order that is not PENDING has been approved by the payment event. -/
theorem Within.payment_committed {o : Order} (ho : o ∈ (engine.state h).orders)
    (huid : o.orderUid = e.uid) (hclosed : o.status ≠ .pending) :
    ∃ k ∈ h, k.input = e.payment := by
  have hnotified := notified_of_closed hw.serial.consistent h (List.prefix_refl _) o ho hclosed
  obtain ⟨m, hm, hnotifies⟩ := List.countP_pos_iff.mp hnotified
  obtain ⟨h₀, k, hpre, hnew⟩ := commit_of_outbox hm
  have hs := hw.serial.of_prefix hpre
  obtain ⟨data, o', m₀, mid, ha, rfl⟩ := hs.approving_of_message hnew
  have haggregate : m₀.aggregateId = o.orderUid := by
    simp only [OutboxMessage.notifies, Bool.and_eq_true, beq_iff_eq] at hnotifies
    exact hnotifies.2
  have hmem : k ∈ h := hpre.subset (by simp)
  obtain ⟨t, hupdate⟩ := ha.update.1
  have ht := hs.consistent.effect.approves_type hupdate
  have habout : data.orderUid.val = e.uid := by
    rw [← ha.order_uid, ← ha.addressed.2, haggregate, huid]
  exact ⟨k, hmem, (hw.payment_commit hmem ht ha.event (.inl habout)).1⟩

/-- Nothing of the order is invoiced before the invoice event is committed. -/
theorem Within.not_invoiced {h₀ : History} {k : IngestCommit} (hpre : h₀ ++ [k] <+: h)
    (hk : k.input = e.invoice) {k' : IngestCommit} (hk' : k' ∈ h₀) : k'.input ≠ e.invoice := by
  intro heq
  obtain ⟨h₁, later, rfl⟩ := List.append_of_mem hk'
  have hpre₁ : h₁ ++ [k'] <+: h := by
    refine List.IsPrefix.trans ?_ hpre
    exact ⟨later ++ [k], by simp⟩
  have hlen := congrArg List.length (commit_once hw.serial.consistent.kept hw.serial.consistent.keys
    hpre₁ hpre (by rw [heq, hk])).1
  simp at hlen

/-- The invoice event closes the order when the payment event has been committed. -/
theorem Within.invoiced {h₀ : History} {k : IngestCommit} (hpre : h₀ ++ [k] <+: h)
    (hk : k.input = e.invoice) (hpayment : ∃ k' ∈ h₀, k'.input = e.payment) :
    ∃ o ∈ (engine.state h).orders, o.orderUid = e.uid ∧ o.status = .invoiced := by
  have hw' := hw.of_prefix hpre
  have hw₀ := hw'.of_prefix (List.prefix_append h₀ [k])
  have hkeys := hw₀.serial.consistent.keys
  obtain ⟨k', hk', heq⟩ := hpayment
  have honRecord := onRecord_of_mem hw₀.serial.consistent hk'
  rw [heq, OnRecord, e.payment_event.1] at honRecord
  obtain ⟨data, hdata, _, hclosed⟩ := honRecord
  obtain rfl := Except.ok.inj (hdata.symm.trans e.payment_event.2)
  obtain ⟨o, ho, huid, hstatus⟩ := hclosed e.payment_approved
  have huid' : o.orderUid = e.uid := by
    rw [huid, e.payment_order]
    rfl
  have habsent : ∀ v ∈ (engine.state h₀).invoices, v.orderId ≠ o.orderId := by
    intro v hv horder
    obtain ⟨c, hc, ht, data, hdata, _, _, o', ho', huido', hid⟩ :=
      invoice_origin hw₀.serial.consistent hv
    obtain rfl := order_unique_id hkeys ho' ho (hid.trans horder)
    have hown := hw₀.invoice_commit hc ht hdata (.inl (huido'.symm.trans huid'))
    exact hw.not_invoiced hpre hk hc hown
  have hdata' : k.input.data.invoiceIssued = .ok e.invoiceData := hk ▸ e.invoice_event.2
  obtain ⟨o', ho', hfixed, hinvoiced⟩ := hw'.serial.closes (hk ▸ e.invoice_event.1) hdata' ho
    (huid'.trans (congrArg Subtype.val e.invoice_order).symm) hstatus habsent
  obtain ⟨o'', ho'', hfixed', hinvoiced'⟩ := invoiced_later hpre hw.serial ho' hinvoiced
  exact ⟨o'', ho'', (Order.uid_of_fixed (hfixed'.trans hfixed)).trans huid', hinvoiced'⟩

/-- A committed approval leaves one approved payment of the order. -/
theorem Within.one_payment (hpayment : ∃ k ∈ h, k.input = e.payment) {o : Order}
    (ho : o ∈ (engine.state h).orders) (huid : o.orderUid = e.uid) :
    (engine.state h).payment.countP (fun p => p.orderId == o.orderId && p.status == .approved) =
      1 := by
  have hkeys := hw.serial.consistent.keys
  have hstatus : paymentStatusOf (engine.state h) e.paymentData.provider
      e.paymentData.providerTxId = some .approved := by
    rw [hw.serial.paymentStatus]
    have hall : ∀ status ∈ h.filterMap (reportedStatus e.paymentData.provider
        e.paymentData.providerTxId), status = .approved := by
      intro status hmem
      obtain ⟨k, hk, hreported⟩ := List.mem_filterMap.mp hmem
      obtain ⟨ht, data, hdata, hprovider, htx, rfl⟩ := reportedStatus_eq_some.mp hreported
      obtain ⟨_, rfl⟩ := hw.payment_commit hk ht hdata
        (.inr ⟨Subtype.ext hprovider, Subtype.ext htx⟩)
      exact e.payment_approved
    obtain ⟨k, hk, heq⟩ := hpayment
    have hreported : reportedStatus e.paymentData.provider e.paymentData.providerTxId k =
        some .approved := by
      rw [reportedStatus_eq_some, heq]
      exact ⟨e.payment_event.1, _, e.payment_event.2, rfl, rfl, e.payment_approved⟩
    cases hlast : (h.filterMap (reportedStatus e.paymentData.provider
        e.paymentData.providerTxId)).getLast? with
    | none =>
      rw [List.getLast?_eq_none_iff, List.filterMap_eq_nil_iff] at hlast
      rw [hlast k hk] at hreported
      cases hreported
    | some status => rw [hall status (List.mem_of_getLast? hlast)]
  obtain ⟨p, hfind, happroved⟩ := Option.map_eq_some_iff.mp hstatus
  have hp := List.mem_of_find?_eq_some hfind
  have hown : p.SameTransaction e.paymentData := by
    simpa [Payment.SameTransaction] using List.find?_some hfind
  have hnodup : (engine.state h).payment.Nodup :=
    nodup_of_nodup_flatMap (payment_keys_nodup hkeys) (by simp [Payment.keys])
  refine countP_eq_one hnodup hp ?_ fun q hq hq' => ?_
  · simp [(hw.payment_iff hp ho huid).mpr hown, happroved]
  · simp only [Bool.and_eq_true, beq_iff_eq] at hq'
    have hqown := (hw.payment_iff hq ho huid).mp hq'.1
    exact payment_unique hkeys hq hp (hqown.1.trans hown.1.symm) (hqown.2.trans hown.2.symm)

theorem Within.one_notification {o : Order} (ho : o ∈ (engine.state h).orders)
    (huid : o.orderUid = e.uid) (hclosed : o.status ≠ .pending) :
    notifications (engine.state h) e.uid = 1 := by
  have hh := hw.serial.consistent
  refine Nat.le_antisymm ((notifications_le_one_iff hh e.uid).mpr ?_) ?_
  · intro h₀ k hpre o' ho' _ happroves
    obtain ⟨t, hu⟩ := mem_of_approves happroves
    exact (hw.serial.of_prefix hpre).approves_pending ho' hu
  · rw [← huid]
    exact notified_of_closed hh h (List.prefix_refl _) o ho hclosed

theorem Within.converged {h₀ : History} {k : IngestCommit} (hpre : h₀ ++ [k] <+: h)
    (hk : k.input = e.invoice) (hpayment : ∃ k' ∈ h₀, k'.input = e.payment) :
    Converged (engine.state h) e.uid := by
  have hh := hw.serial.consistent
  obtain ⟨o, ho, huid, hinvoiced⟩ := hw.invoiced hpre hk hpayment
  obtain ⟨v, hv, horder⟩ := invoice_of_invoiced hh ho hinvoiced
  have hinvoices : (engine.state h).invoices.Nodup :=
    nodup_of_nodup_flatMap (invoice_keys_nodup hh.keys) (by simp [Invoice.keys])
  refine ⟨o, ho, huid, hinvoiced, ?_, hw.one_payment ?_ ho huid,
    hw.one_notification ho huid (by simp [hinvoiced])⟩
  · refine countP_eq_one hinvoices hv (by simp [horder]) fun w hw' hworder => ?_
    exact invoice_unique hh.keys hw' hv ((beq_iff_eq.mp hworder).trans horder.symm)
  · obtain ⟨k', hk', heq⟩ := hpayment
    exact ⟨k', ((List.prefix_append h₀ [k]).trans hpre).subset hk', heq⟩

/-- An order that ends INVOICED was approved before its invoice was issued. -/
theorem Within.payment_first {o : Order} (ho : o ∈ (engine.state h).orders)
    (huid : o.orderUid = e.uid) (hinvoiced : o.status = .invoiced) {h₀ : History}
    {k : IngestCommit} (hpre : h₀ ++ [k] <+: h) (hk : k.input = e.invoice) :
    ∃ k' ∈ h₀, k'.input = e.payment := by
  have hh := hw.serial.consistent
  obtain ⟨h₁, k₁, hpre₁, t, hu⟩ := closed_origin hh ho hinvoiced
  have hw₁ := hw.of_prefix hpre₁
  obtain ⟨data₀, id, hinserted⟩ := hw₁.serial.consistent.effect.closes hu
  have ht := (hw₁.serial.consistent.effect.inserted_invoice hinserted).1
  obtain ⟨data, o₁, new, hdata, ho₁, huid₁, hwritten, hws⟩ := hw₁.serial.invoice_written ht
  have hupdated : o₁.orderId = o.orderId ∧ o₁.status = .approved := by
    rw [hws] at hu
    rcases List.mem_append.mp hu with hu | hu
    · cases List.mem_singleton.mp hu
    · cases hwritten with
      | known => cases hu
      | issued => simp at hu
      | closes _ _ _ approved =>
        simp only [List.mem_cons, List.not_mem_nil, or_false, reduceCtorEq, false_or,
          Change.executed.injEq, Stmt.updateOrder.injEq] at hu
        exact ⟨hu.1.symm, approved⟩
  have hbefore : h₁ <+: h := (List.prefix_append h₁ [k₁]).trans hpre₁
  have hsame : o.orderUid = o₁.orderUid := hh.uid_eq hbefore ho₁ ho hupdated.1.symm
  have huid' : o₁.orderUid = e.uid := hsame.symm.trans huid
  have heq := hw.invoice_commit (hpre₁.subset (by simp)) ht hdata (.inl (huid₁.symm.trans huid'))
  obtain ⟨rfl, _⟩ := commit_once hh.kept hh.keys hpre₁ hpre (by rw [heq, hk])
  exact (hw.of_prefix hbefore).payment_committed ho₁ huid' (by simp [hupdated.2])

end Within

/-! ## The events that were delivered -/

theorem mem_ids {i : EventEnvelope} (hi : i ∈ e.all) : i.eventId ∈ e.ids := List.mem_map_of_mem hi

theorem eq_of_id {i j : EventEnvelope} (hi : i ∈ e.all) (hj : j ∈ e.all)
    (hid : i.eventId = j.eventId) : i = j := by
  have hids : (e.all.map EventEnvelope.eventId).Nodup := e.ids_nodup
  exact List.inj_on_of_nodup_map hids hi hj hid

/-- An event of the four that is in the ledger has been committed. -/
theorem Within.commit_of_inLedger {h : History} (hw : e.Within h) {i : EventEnvelope}
    (hi : i ∈ e.all) (hin : InLedger (engine.state h) i.eventId) : ∃ k ∈ h, k.input = i := by
  obtain ⟨k, hk, hid⟩ := (inLedger_iff_commit hw.serial.consistent.kept _).mp hin
  have hid : k.input.eventId = i.eventId := Subtype.ext hid
  exact ⟨k, hk, eq_of_id (hw.commit_of_id hk (hid ▸ mem_ids hi)) hi hid⟩

theorem inLedger_of_commit {h : History} (hw : e.Within h) {i : EventEnvelope}
    (hk : ∃ k ∈ h, k.input = i) : InLedger (engine.state h) i.eventId := by
  obtain ⟨k, hk, rfl⟩ := hk
  exact (inLedger_iff_commit hw.serial.consistent.kept _).mpr ⟨k, hk, rfl⟩

/-- Only its own fact stands in the way of the payment and of the invoice. -/
theorem Within.committed_of_refused {h : History} (hw : e.Within h) {h₀ : History}
    (hpre : h₀ <+: h) {i : EventEnvelope} (hi : i = e.payment ∨ i = e.invoice) {ws : List Change}
    {c : Change} {k : Constraint} (href : HandlerRefused others i h₀ ws c k) :
    ∃ k ∈ h, k.input = i := by
  have hw₀ := hw.of_prefix hpre
  obtain ⟨h₁, hruns⟩ := href
  rcases hi with rfl | rfl
  · rw [e.payment_event.1] at hruns
    obtain ⟨_, _, data, hdata, p, hp, hprovider, htx⟩ := paymentHandler_refused hruns
    obtain rfl := Except.ok.inj (hdata.symm.trans e.payment_event.2)
    have hstored : p ∈ (engine.state h₀).payment := hp
    obtain ⟨k', hk', ht, data, hdata', hsame, _⟩ :=
      payment_origin hw₀.serial.consistent hstored
    refine ⟨k', hpre.subset hk', (hw₀.payment_commit hk' ht hdata' (.inr ⟨?_, ?_⟩)).1⟩
    · exact Subtype.ext (hsame.1.symm.trans hprovider)
    · exact Subtype.ext (hsame.2.symm.trans htx)
  · rw [e.invoice_event.1] at hruns
    obtain ⟨_, data, o, h₂, hdata, huid, hle, ho, hiff, hnumber⟩ := invoiceHandler_refused hruns
    obtain rfl := Except.ok.inj (hdata.symm.trans e.invoice_event.2)
    have hstored : o ∈ (engine.state h₂).orders := ho
    rcases hnumber with hk | ⟨_, v, hv, hnumber, hseries⟩
    · obtain ⟨v, hv, horder⟩ := hiff.mp hk
      obtain ⟨k', hk', ht, data, hdata', _, _, o', ho', huid', hid⟩ :=
        invoice_origin hw₀.serial.consistent hv
      have hsame : o'.orderUid = o.orderUid :=
        hw₀.serial.consistent.uid_eq hle hstored ho' (hid.trans horder)
      refine ⟨k', hpre.subset hk', hw₀.invoice_commit hk' ht hdata' (.inl ?_)⟩
      rw [← huid', hsame, huid, e.invoice_order]
      rfl
    · obtain ⟨k', hk', ht, data, hdata', hnumber', hseries', _⟩ :=
        invoice_origin hw₀.serial.consistent hv
      refine ⟨k', hpre.subset hk', hw₀.invoice_commit hk' ht hdata' (.inr ⟨?_, ?_⟩)⟩
      · exact Subtype.ext (hnumber'.symm.trans hnumber)
      · exact Subtype.ext (hseries'.symm.trans hseries)

section Run
variable {clock : Time} {reserved : List String} {ls : List IngestLabel} {s : IngestState}

theorem Only.within (hrun : SerialRun clock reserved ls s) (honly : e.Only ls) :
    e.Within s.shared.history := by
  refine ⟨⟨hrun.sound.kept, (reachable_of_run hrun.2).consistent⟩, fun k hk => ?_⟩
  obtain ⟨h₀, later, heq⟩ := List.append_of_mem hk
  refine run_inputs (P := fun i => i ∈ e.all ∨ e.Foreign i) (fun n a ha => ?_) honly hrun.2 h₀ k
    List.nil_prefix ⟨later, by simp [heq]⟩
  cases ha

/-- No delivery of one of the four events is discarded while it is not in the ledger. -/
def KeepsDeliveries (e : OrderEvents) (s : IngestState) (l : IngestLabel) : Prop :=
  ∀ i ∈ discarding s l, i.eventId ∈ e.ids → InLedger (committed s) i.eventId

/-- A payment or an invoice of the four events that is not to be delivered again has been
committed. -/
theorem Delivered.committed (hrun : SerialRun clock reserved ls s) (honly : e.Only ls)
    (hkeeps : Transition.Along (step engine ingest) e.KeepsDeliveries (initial clock reserved) ls)
    {i : EventEnvelope} (hi : i = e.payment ∨ i = e.invoice) (hdelivered : Delivered s i) :
    ∃ k ∈ s.shared.history, k.input = i := by
  have hw := honly.within hrun
  have hreach := reachable_of_run hrun.2
  have hall : i ∈ e.all := by
    rcases hi with rfl | rfl
    · exact e.payment_mem
    · exact e.invoice_mem
  obtain ⟨r, hr, rfl, ρ, hρ, hout⟩ := hdelivered
  obtain ⟨h, hpre, hpost⟩ := hreach.sound.returned r hr
  rw [hρ] at hpost
  generalize hp : r.progress = p at hpost
  cases hpost with
  | discarded =>
    have hdiscarded := discarded_along
      (F := fun s i => i.eventId ∈ e.ids → InLedger (EcommerceIntegration.committed s) i.eventId)
      (fun s l t i _ hst hin hid => (hin hid).later (step_history hst))
      (fun s l t i hl hst hdis hid => (hl i hdis hid).later (step_history hst)) hkeeps hrun.2
    refine hw.commit_of_inLedger hall (hdiscarded.returned r hr ?_ (mem_ids hall))
    rw [Discarded, hp]
    exact List.mem_singleton_self _
  | @processed _ ws _ =>
    have hcommitted : ws ∈ r.progress.committed := by
      rw [hp]
      exact List.mem_singleton_self _
    obtain ⟨k, hk, hinput, _⟩ := Reachable.commit_of_returned keyLaws hreach hr hcommitted
    exact ⟨k, hk, hinput⟩
  | registered _ ledger => exact hw.commit_of_inLedger hall (ledger.later hpre)
  | @barred _ c k _ refused =>
    have hmet : (c, k) ∈ r.progress.refusals := by
      rw [hp]
      exact List.mem_singleton_self _
    obtain ⟨h₀, ws, hpre₀, href⟩ := hreach.handlerRefused.returned r hr c k hmet refused
    exact hw.committed_of_refused hpre₀ hi href
  | retried => exact absurd rfl hout

/-- A step that commits the invoice event finds the payment event in the ledger. -/
def PaymentFirst (e : OrderEvents) (s : IngestState) (l : IngestLabel) : Prop :=
  ∀ k ∈ s.committing l, k.input.eventId = e.invoice.eventId →
    InLedger (EcommerceIntegration.committed s) e.payment.eventId

instance (s : IngestState) (l : IngestLabel) : Decidable (e.PaymentFirst s l) :=
  inferInstanceAs (Decidable (∀ k ∈ s.committing l, _ → InLedger _ _))

instance (s : IngestState) (l : IngestLabel) : Decidable (e.KeepsDeliveries s l) :=
  inferInstanceAs (Decidable (∀ i ∈ discarding s l, _ → InLedger _ _))

end Run

end OrderEvents

/-- In a serial run that delivers the four events of an order until none of them ends with
RETRY, and discards none of them unprocessed, the order converges exactly when the invoice
is committed after the payment. -/
theorem converged_iff (e : OrderEvents) {clock : Time} {reserved : List String}
    {ls : List IngestLabel} {s : IngestState} (hrun : SerialRun clock reserved ls s)
    (honly : e.Only ls) (hdelivered : ∀ i ∈ e.all, Delivered s i)
    (hkeeps : Transition.Along (step engine ingest) e.KeepsDeliveries (initial clock reserved) ls) :
    Converged (committed s) e.uid ↔
      Transition.Along (step engine ingest) e.PaymentFirst (initial clock reserved) ls := by
  have hw := OrderEvents.Only.within hrun honly
  have hcondition := along_committing_iff
    (P := fun (h : History) (k : IngestCommit) => k.input.eventId = e.invoice.eventId →
      InLedger (engine.state h) e.payment.eventId) hrun.2
  refine Iff.trans ?_ hcondition.symm
  constructor
  · rintro ⟨o, ho, huid, hinvoiced, _⟩ h₀ k _ hpre hid
    have hmem : k ∈ s.shared.history := hpre.subset (by simp)
    have hall := hw.commit_of_id hmem (hid ▸ OrderEvents.mem_ids e.invoice_mem)
    have hk : k.input = e.invoice := OrderEvents.eq_of_id hall e.invoice_mem hid
    have hfirst := hw.payment_first ho huid hinvoiced hpre hk
    exact OrderEvents.inLedger_of_commit
      (hw.of_prefix ((List.prefix_append h₀ [k]).trans hpre)) hfirst
  · intro hfirst
    obtain ⟨k, hk, heq⟩ := OrderEvents.Delivered.committed hrun honly hkeeps (.inr rfl)
      (hdelivered e.invoice e.invoice_mem)
    obtain ⟨h₀, later, hsplit⟩ := List.append_of_mem hk
    have hpre : h₀ ++ [k] <+: s.shared.history := ⟨later, by simp [hsplit]⟩
    have hw₀ := hw.of_prefix ((List.prefix_append h₀ [k]).trans hpre)
    have hin := hfirst h₀ k List.nil_prefix hpre (by rw [heq])
    exact hw.converged hpre heq (hw₀.commit_of_inLedger e.payment_mem hin)

/-! ## An invoice that comes first -/

namespace Sample

def orderEvents : OrderEvents where
  client := clientEvent
  order := order1
  payment := approval1
  invoice := invoice1
  clientData := client
  orderData := order pedido1
  paymentData := payment pedido1 tx1 .approved
  invoiceData := invoice pedido1 nf1
  client_event := ⟨rfl, rfl⟩
  order_event := ⟨rfl, rfl⟩
  payment_event := ⟨rfl, rfl⟩
  invoice_event := ⟨rfl, rfl⟩
  order_client := rfl
  payment_order := rfl
  payment_approved := rfl
  invoice_order := rfl
  ids_nodup := by decide

/-- The invoice is not ready when it comes first, and is delivered again at the end. -/
def retriedInvoice : List IngestLabel :=
  attempt 0 invoice1 6 ++ attempt 1 clientEvent 10 ++ attempt 2 order1 9 ++
    attempt 3 approval1 15 ++ attempt 4 invoice1 8

/-- The invoice comes between the order and its payment. -/
def earlyInvoice : List IngestLabel :=
  attempt 0 clientEvent 10 ++ attempt 1 order1 9 ++ attempt 2 invoice1 7 ++
    attempt 3 approval1 15

theorem start_mem_attempt {j i : EventEnvelope} {n k : Nat} :
    .start j ∈ attempt n i k ↔ j = i := by
  simp [attempt, steps]

theorem retriedInvoice_only : orderEvents.Only retriedInvoice := by
  intro i hi
  simp only [retriedInvoice, List.mem_append, start_mem_attempt] at hi
  refine .inl ?_
  simp only [OrderEvents.all, orderEvents, List.mem_cons, List.not_mem_nil, or_false]
  rcases hi with (((rfl | rfl) | rfl) | rfl) | rfl <;> simp

theorem earlyInvoice_only : orderEvents.Only earlyInvoice := by
  intro i hi
  simp only [earlyInvoice, List.mem_append, start_mem_attempt] at hi
  refine .inl ?_
  simp only [OrderEvents.all, orderEvents, List.mem_cons, List.not_mem_nil, or_false]
  rcases hi with ((rfl | rfl) | rfl) | rfl <;> simp

theorem retriedInvoice_isSome : (after retriedInvoice).isSome = true := by decide +kernel

theorem earlyInvoice_isSome : (after earlyInvoice).isSome = true := by decide +kernel

def retriedInvoiceState : IngestState := (after retriedInvoice).get retriedInvoice_isSome

def earlyInvoiceState : IngestState := (after earlyInvoice).get earlyInvoice_isSome

theorem retriedInvoice_serial : SerialRun 0 [] retriedInvoice retriedInvoiceState :=
  ⟨serial_of_quiet (by decide +kernel), after_run _⟩

theorem earlyInvoice_serial : SerialRun 0 [] earlyInvoice earlyInvoiceState :=
  ⟨serial_of_quiet (by decide +kernel), after_run _⟩

theorem delivered_of_get {s : IngestState} {n : Nat} (hn : n < s.returned.length)
    {i : EventEnvelope} (hi : (s.returned.get ⟨n, hn⟩).input = i)
    (hρ : (s.returned.get ⟨n, hn⟩).result = .ok ⟨.processed, ""⟩) : Delivered s i :=
  ⟨_, List.get_mem _ _, hi, _, hρ, by decide⟩

theorem retriedInvoice_delivered : ∀ i ∈ orderEvents.all, Delivered retriedInvoiceState i := by
  intro i hi
  simp only [OrderEvents.all, orderEvents, List.mem_cons, List.not_mem_nil, or_false] at hi
  rcases hi with rfl | rfl | rfl | rfl
  · exact delivered_of_get (n := 1) (by decide +kernel) rfl rfl
  · exact delivered_of_get (n := 2) (by decide +kernel) rfl rfl
  · exact delivered_of_get (n := 3) (by decide +kernel) rfl rfl
  · exact delivered_of_get (n := 4) (by decide +kernel) rfl rfl

theorem earlyInvoice_delivered : ∀ i ∈ orderEvents.all, Delivered earlyInvoiceState i := by
  intro i hi
  simp only [OrderEvents.all, orderEvents, List.mem_cons, List.not_mem_nil, or_false] at hi
  rcases hi with rfl | rfl | rfl | rfl
  · exact delivered_of_get (n := 0) (by decide +kernel) rfl rfl
  · exact delivered_of_get (n := 1) (by decide +kernel) rfl rfl
  · exact delivered_of_get (n := 3) (by decide +kernel) rfl rfl
  · exact delivered_of_get (n := 2) (by decide +kernel) rfl rfl

end Sample

theorem converged_iff_retriedInvoice :
    Converged (committed Sample.retriedInvoiceState) "PED-1" :=
  (converged_iff Sample.orderEvents Sample.retriedInvoice_serial Sample.retriedInvoice_only
    Sample.retriedInvoice_delivered (by decide +kernel)).mpr (by decide +kernel)

theorem earlyInvoice_not_converged :
    ¬ ∀ (e : OrderEvents) clock reserved ls s, SerialRun clock reserved ls s → e.Only ls →
      (∀ i ∈ e.all, Delivered s i) →
      Transition.Along (step engine ingest) e.KeepsDeliveries (initial clock reserved) ls →
        Converged (committed s) e.uid := by
  intro hall
  obtain ⟨o, ho, huid, hinvoiced, _⟩ := hall Sample.orderEvents _ _ _ _ Sample.earlyInvoice_serial
    Sample.earlyInvoice_only Sample.earlyInvoice_delivered (by decide +kernel)
  revert hinvoiced huid o
  decide +kernel

end EcommerceIntegration
