import EcommerceIntegration.Ingest.OwnPayment

/-!
# An old fact under a new event id

What an order, a payment or an invoice event reports is on record once it has been
processed, and stays on record. A handler that finds its fact on record writes nothing
but the status of a known payment.
-/

namespace EcommerceIntegration

set_option autoImplicit false

open Transaction

/-! ## Facts on record -/

def OrderOnRecord (d : Database) (data : OrderCreatedData) : Prop :=
  ∃ o ∈ d.orders, o.orderUid = data.orderUid

def PaymentOnRecord (d : Database) (data : PaymentUpdatedData) : Prop :=
  (∃ p ∈ d.payment, p.SameTransaction data) ∧
    (data.status = .approved → ∃ o ∈ d.orders, o.orderUid = data.orderUid ∧ o.status ≠ .pending)

def InvoiceOnRecord (d : Database) (data : InvoiceIssuedData) : Prop :=
  ∃ o ∈ d.orders, o.orderUid = data.orderUid ∧ ∃ v ∈ d.invoices, v.orderId = o.orderId

/-- What a client event reports may be changed by the next one. -/
def OnRecord (d : Database) (i : EventEnvelope) : Prop :=
  match i.eventType with
  | .clientUpserted => True
  | .orderCreated => ∃ data, i.data.orderCreated = .ok data ∧ OrderOnRecord d data
  | .paymentUpdated => ∃ data, i.data.paymentUpdated = .ok data ∧ PaymentOnRecord d data
  | .invoiceIssued => ∃ data, i.data.invoiceIssued = .ok data ∧ InvoiceOnRecord d data

theorem OnRecord.congr {d : Database} {i i' : EventEnvelope} (h : OnRecord d i)
    (htype : i'.eventType = i.eventType) (hdata : i'.data = i.data) : OnRecord d i' := by
  unfold OnRecord at h ⊢
  rw [htype, hdata]
  exact h

theorem invoices_grow : engine.Grows fun d => d.invoices := by
  intro d c v hv
  cases c with
  | inserted row id =>
    cases row with
    | invoice r => exact List.mem_append_left _ hv
    | client | address | order | orderItem | payment | outbox => exact hv
  | executed stmt => cases stmt <;> exact hv

section Later
variable {h h' : History}

theorem OrderOnRecord.later {data : OrderCreatedData} (hle : h <+: h')
    (hr : OrderOnRecord (engine.state h) data) : OrderOnRecord (engine.state h') data := by
  obtain ⟨o, ho, huid⟩ := hr
  obtain ⟨o', ho', hfixed⟩ := order_stays hle ho
  exact ⟨o', ho', (Order.uid_of_fixed hfixed).trans huid⟩

theorem samePayment_later {data : PaymentUpdatedData} (hle : h <+: h')
    (hp : ∃ p ∈ (engine.state h).payment, p.SameTransaction data) :
    ∃ p ∈ (engine.state h').payment, p.SameTransaction data := by
  obtain ⟨p, hp, hsame⟩ := hp
  obtain ⟨p', hp', hfixed⟩ := payment_stays hle hp
  exact ⟨p', hp', (Payment.sameTransaction_of_fixed hfixed).mpr hsame⟩

theorem closedOrder_later (hle : h <+: h') (hh : Consistent h') {orderUid : String}
    (ho : ∃ o ∈ (engine.state h).orders, o.orderUid = orderUid ∧ o.status ≠ .pending) :
    ∃ o ∈ (engine.state h').orders, o.orderUid = orderUid ∧ o.status ≠ .pending := by
  obtain ⟨o, ho, huid, hclosed⟩ := ho
  obtain ⟨o', ho', hfixed, hclosed'⟩ := closed_later hle hh ho hclosed
  exact ⟨o', ho', (Order.uid_of_fixed hfixed).trans huid, hclosed'⟩

theorem InvoiceOnRecord.later {data : InvoiceIssuedData} (hle : h <+: h')
    (hr : InvoiceOnRecord (engine.state h) data) : InvoiceOnRecord (engine.state h') data := by
  obtain ⟨o, ho, huid, v, hv, horder⟩ := hr
  obtain ⟨o', ho', hfixed⟩ := order_stays hle ho
  refine ⟨o', ho', (Order.uid_of_fixed hfixed).trans huid, v, invoices_grow.state hle hv, ?_⟩
  exact horder.trans (Order.id_of_fixed hfixed).symm

/-- A fact stays on record. -/
theorem OnRecord.later (hle : h <+: h') (hh : Consistent h') {i : EventEnvelope}
    (hr : OnRecord (engine.state h) i) : OnRecord (engine.state h') i := by
  unfold OnRecord at hr ⊢
  split at hr
  · trivial
  · obtain ⟨data, hdata, hr⟩ := hr
    exact ⟨data, hdata, hr.later hle⟩
  · obtain ⟨data, hdata, hpayment, hclosed⟩ := hr
    exact ⟨data, hdata, samePayment_later hle hpayment,
      fun happroved => closedOrder_later hle hh (hclosed happroved)⟩
  · obtain ⟨data, hdata, hr⟩ := hr
    exact ⟨data, hdata, hr.later hle⟩

end Later

/-! ## A commit puts its fact on record -/

section Inserted
variable {d : Database} {ws : List Change} {id : Nat}

theorem order_of_inserted {r : Order} (hr : .inserted (.order r) id ∈ ws) :
    ∃ o ∈ (engine.replay d ws).orders, o.fixed = { r with orderId := id }.fixed := by
  obtain ⟨us, vs, rfl⟩ := List.append_of_mem hr
  rw [Engine.replay_append, Engine.replay_cons]
  refine List.mem_map.mp (orders_grow.replay _ vs (List.mem_map_of_mem ?_))
  exact List.mem_append_right _ (List.mem_singleton_self _)

theorem payment_of_inserted {r : Payment} (hr : .inserted (.payment r) id ∈ ws) :
    ∃ p ∈ (engine.replay d ws).payment, p.fixed = { r with paymentId := id }.fixed := by
  obtain ⟨us, vs, rfl⟩ := List.append_of_mem hr
  rw [Engine.replay_append, Engine.replay_cons]
  refine List.mem_map.mp (payments_grow.replay _ vs (List.mem_map_of_mem ?_))
  exact List.mem_append_right _ (List.mem_singleton_self _)

theorem invoice_of_inserted {r : Invoice} (hr : .inserted (.invoice r) id ∈ ws) :
    { r with invoiceId := id } ∈ (engine.replay d ws).invoices := by
  obtain ⟨us, vs, rfl⟩ := List.append_of_mem hr
  rw [Engine.replay_append, Engine.replay_cons]
  exact invoices_grow.replay _ vs (List.mem_append_right _ (List.mem_singleton_self _))

end Inserted

section Concat
variable {h : History} {k : IngestCommit}

theorem orderOnRecord_concat (hk : CompleteEffect others k.input h k.writes)
    (ht : k.input.eventType = .orderCreated) :
    ∃ data, k.input.data.orderCreated = .ok data ∧
      OrderOnRecord (engine.state (h ++ [k])) data := by
  obtain ⟨h₀, _, hr⟩ := hk
  rw [ht] at hr
  obtain ⟨data, new, hdata, hwritten, -, hws⟩ := orderHandler_runs hr
  refine ⟨data, hdata, ?_⟩
  cases hwritten with
  | known read later stored =>
    exact OrderOnRecord.later (later.trans (List.prefix_append _ _)) stored
  | created =>
    rw [Engine.state_concat, hws]
    obtain ⟨o, ho, hfixed⟩ := order_of_inserted (d := engine.state h)
      (List.mem_append_right _ List.mem_cons_self)
    exact ⟨o, ho, Order.uid_of_fixed hfixed⟩

theorem paymentOnRecord_concat (hh : Consistent (h ++ [k]))
    (ht : k.input.eventType = .paymentUpdated) :
    ∃ data, k.input.data.paymentUpdated = .ok data ∧
      PaymentOnRecord (engine.state (h ++ [k])) data := by
  obtain ⟨h₀, _, hr⟩ := hh.effect
  rw [ht] at hr
  obtain ⟨data, o, h₁, h₂, record, approval, hdata, _, hle₂, hle₃, ho, hrecorded, happroval, hws⟩ :=
    paymentHandler_runs hr
  have hlast : h <+: h ++ [k] := List.prefix_append _ _
  have hstored : o ∈ (engine.state h₁).orders := List.mem_of_find?_eq_some ho
  have huid : o.orderUid = data.orderUid := by simpa using List.find?_some ho
  refine ⟨data, hdata, ?_, fun happroved => ?_⟩
  · cases hrecorded with
    | created =>
      rw [Engine.state_concat, hws]
      obtain ⟨p, hp, hfixed⟩ := payment_of_inserted (d := engine.state h)
        (List.mem_append_left _ (List.mem_append_right _ (List.mem_singleton_self _)))
      exact ⟨p, hp, (Payment.sameTransaction_of_fixed hfixed).mpr ⟨rfl, rfl⟩⟩
    | updated read later found =>
      obtain ⟨hp, hsame⟩ := storedPayment_spec found
      exact samePayment_later (later.trans (hle₃.trans hlast)) ⟨_, hp, hsame⟩
  · cases happroval with
    | none notNow =>
      exact closedOrder_later (hle₂.trans (hle₃.trans hlast)) hh ⟨o, hstored, huid, notNow happroved⟩
    | now =>
      obtain ⟨o', ho', hfixed⟩ := order_stays (hle₂.trans hle₃) hstored
      rw [Engine.state_concat]
      have hupdate : ∃ t, .executed (.updateOrder o'.orderId .approved t) ∈ k.writes := by
        rw [hws, Order.id_of_fixed hfixed]
        exact ⟨_, List.mem_append_right _ List.mem_cons_self⟩
      obtain ⟨t, hmem⟩ := hupdate
      obtain ⟨o'', ho'', hfixed', hclosed⟩ := status_of_update
        (fun _ _ _ hu => hh.effect.update_closes hu) ho' hmem
      exact ⟨o'', ho'', (Order.uid_of_fixed (hfixed'.trans hfixed)).trans huid, hclosed⟩

theorem invoiceOnRecord_concat (hk : CompleteEffect others k.input h k.writes)
    (ht : k.input.eventType = .invoiceIssued) :
    ∃ data, k.input.data.invoiceIssued = .ok data ∧
      InvoiceOnRecord (engine.state (h ++ [k])) data := by
  obtain ⟨h₀, _, hr⟩ := hk
  rw [ht] at hr
  obtain ⟨data, o, h₁, new, hdata, _, hle, ho, hwritten, hws⟩ := invoiceHandler_runs hr
  have hlast : h <+: h ++ [k] := List.prefix_append _ _
  have hstored : o ∈ (engine.state h₁).orders := List.mem_of_find?_eq_some ho
  have huid : o.orderUid = data.orderUid := by simpa using List.find?_some ho
  refine ⟨data, hdata, ?_⟩
  have inserted : ∀ id, .inserted (.invoice (newInvoice o.orderId data)) id ∈ k.writes →
      InvoiceOnRecord (engine.state (h ++ [k])) data := by
    intro id hid
    obtain ⟨o', ho', hfixed⟩ := order_stays (hle.trans hlast) hstored
    refine ⟨o', ho', (Order.uid_of_fixed hfixed).trans huid, ?_⟩
    rw [Engine.state_concat]
    exact ⟨_, invoice_of_inserted hid, (Order.id_of_fixed hfixed).symm⟩
  cases hwritten with
  | known read later stored =>
    obtain ⟨v, hv, horder⟩ := stored
    obtain ⟨o', ho', hfixed⟩ := order_stays read hstored
    refine InvoiceOnRecord.later (later.trans hlast)
      ⟨o', ho', (Order.uid_of_fixed hfixed).trans huid, v, hv, ?_⟩
    exact horder.trans (Order.id_of_fixed hfixed).symm
  | issued => exact inserted _ (hws ▸ List.mem_append_right _ List.mem_cons_self)
  | closes => exact inserted _ (hws ▸ List.mem_append_right _ List.mem_cons_self)

theorem onRecord_concat (hh : Consistent (h ++ [k])) :
    OnRecord (engine.state (h ++ [k])) k.input := by
  unfold OnRecord
  split
  · trivial
  · rename_i ht
    exact orderOnRecord_concat hh.effect ht
  · rename_i ht
    exact paymentOnRecord_concat hh ht
  · rename_i ht
    exact invoiceOnRecord_concat hh.effect ht

end Concat

/-- What has been committed is on record. -/
theorem onRecord_of_mem {h : History} (hh : Consistent h) {k : IngestCommit} (hk : k ∈ h) :
    OnRecord (engine.state h) k.input := by
  obtain ⟨h₀, later, rfl⟩ := List.append_of_mem hk
  have hpre : h₀ ++ [k] <+: h₀ ++ k :: later := ⟨later, by simp⟩
  exact (onRecord_concat (hh.of_prefix hpre)).later hpre hh

/-! ## A handler that finds its fact on record -/

/-- The change is to the ledger or to the row of a known payment. -/
def Harmless : Change → Prop
  | .executed (.registerEvent _) => True
  | .executed (.updatePayment ..) => True
  | _ => False

theorem harmless_recordUpdate (data : PaymentUpdatedData) (p : Payment) :
    ∀ c ∈ recordUpdate data p, Harmless c := by
  intro c hc
  rcases recordUpdate_cases data p with heq | ⟨s, t, heq⟩
  · rw [heq] at hc
    cases hc
  · rw [heq] at hc
    obtain rfl := List.mem_singleton.mp hc
    trivial

theorem harmless_append {us ws : List Change} (hus : ∀ c ∈ us, Harmless c)
    (hws : ∀ c ∈ ws, Harmless c) : ∀ c ∈ us ++ ws, Harmless c := by
  intro c hc
  rcases List.mem_append.mp hc with hc | hc
  · exact hus c hc
  · exact hws c hc

section Known
variable {h : History} {i : EventEnvelope} {ws : List Change}

theorem harmless_ledgerRow : ∀ c ∈ [ledgerRow i], Harmless c := by
  intro c hc
  obtain rfl := List.mem_singleton.mp hc
  trivial

theorem order_harmless {data : OrderCreatedData} (hdata : i.data.orderCreated = .ok data)
    (hr : OrderOnRecord (engine.state h) data)
    (hruns : Runs keyLaws alone (OrderCreatedHandler.handle i) h [ledgerRow i] h ws (.value ())) :
    ∀ c ∈ ws, Harmless c := by
  obtain ⟨data', new, hdata', hwritten, -, rfl⟩ := orderHandler_runs hruns
  obtain rfl := Except.ok.inj (hdata.symm.trans hdata')
  refine harmless_append harmless_ledgerRow ?_
  cases hwritten with
  | known => simp
  | created read next later absent =>
    obtain rfl : h = _ := read
    obtain ⟨o, ho, huid⟩ := hr
    exact absurd huid (absent o ho)

theorem payment_harmless (hkeys : (engine.state h).keys.Nodup) {data : PaymentUpdatedData}
    (hdata : i.data.paymentUpdated = .ok data) (hr : PaymentOnRecord (engine.state h) data)
    (hruns : Runs keyLaws alone (PaymentUpdatedHandler.handle i) h [ledgerRow i] h ws
      (.value ())) : ∀ c ∈ ws, Harmless c := by
  obtain ⟨data', o, h₁, h₂, record, approval, hdata', hle₁, hle₂, _, ho, hrecorded, happroval, rfl⟩ :=
    paymentHandler_runs hruns
  obtain rfl := Except.ok.inj (hdata.symm.trans hdata')
  obtain rfl : h = h₁ := hle₁
  obtain rfl : h = h₂ := hle₂
  refine harmless_append (harmless_append harmless_ledgerRow ?_) ?_
  · cases hrecorded with
    | created read inserted later absent =>
      obtain rfl : h = _ := read
      obtain ⟨p, hp, hprovider, htx⟩ := hr.1
      have hnone := List.find?_eq_none.mp absent p hp
      simp [hprovider, htx] at hnone
    | updated => exact harmless_recordUpdate _ _
  · cases happroval with
    | none => simp
    | now approves pending =>
      obtain ⟨o', ho', huid, hclosed⟩ := hr.2 approves
      have hsame : o.orderUid = data.orderUid := by simpa using List.find?_some ho
      have hstored : o ∈ (engine.state h).orders := List.mem_of_find?_eq_some ho
      rw [order_unique hkeys ho' hstored (huid.trans hsame.symm)] at hclosed
      exact absurd pending hclosed

theorem invoice_harmless (hkeys : (engine.state h).keys.Nodup) {data : InvoiceIssuedData}
    (hdata : i.data.invoiceIssued = .ok data) (hr : InvoiceOnRecord (engine.state h) data)
    (hruns : Runs keyLaws alone (InvoiceIssuedHandler.handle i) h [ledgerRow i] h ws (.value ())) :
    ∀ c ∈ ws, Harmless c := by
  obtain ⟨data', o, h₁, new, hdata', hle₁, _, ho, hwritten, rfl⟩ := invoiceHandler_runs hruns
  obtain rfl := Except.ok.inj (hdata.symm.trans hdata')
  obtain rfl : h = h₁ := hle₁
  refine harmless_append harmless_ledgerRow ?_
  obtain ⟨o', ho', huid, v, hv, horder⟩ := hr
  have hsame : o.orderUid = data.orderUid := by simpa using List.find?_some ho
  have hstored : o ∈ (engine.state h).orders := List.mem_of_find?_eq_some ho
  rw [order_unique hkeys ho' hstored (huid.trans hsame.symm)] at horder
  cases hwritten with
  | known => simp
  | issued read later absent =>
    obtain rfl : h = _ := read
    exact absurd horder (absent v hv)
  | closes read later absent =>
    obtain rfl : h = _ := read
    exact absurd horder (absent v hv)

/-- In a serial run a transaction whose fact is on record is harmless. -/
theorem CompleteEffect.harmless (hc : CompleteEffect alone i h ws)
    (hkeys : (engine.state h).keys.Nodup) (ht : i.eventType ≠ .clientUpserted)
    (hr : OnRecord (engine.state h) i) : ∀ c ∈ ws, Harmless c := by
  obtain ⟨h₀, _, hruns⟩ := hc
  obtain rfl : h₀ = h := hruns.later
  unfold OnRecord at hr
  split at hr
  · rename_i htype
    exact absurd htype ht
  · rename_i htype
    obtain ⟨data, hdata, hr⟩ := hr
    rw [htype] at hruns
    exact order_harmless hdata hr hruns
  · rename_i htype
    obtain ⟨data, hdata, hr⟩ := hr
    rw [htype] at hruns
    exact payment_harmless hkeys hdata hr hruns
  · rename_i htype
    obtain ⟨data, hdata, hr⟩ := hr
    rw [htype] at hruns
    exact invoice_harmless hkeys hdata hr hruns

end Known

/-! ## The tables of the orders -/

/-- No row of `orders`, `order_items`, `invoices` and `outbox` is added or changed, and
no row is added to `payment`. -/
structure Untouched (d d' : Database) : Prop where
  orders : d'.orders = d.orders
  orderItems : d'.orderItems = d.orderItems
  invoices : d'.invoices = d.invoices
  outbox : d'.outbox = d.outbox
  payment : d'.payment.map Payment.paymentId = d.payment.map Payment.paymentId

namespace Untouched
variable {d d' d'' : Database}

theorem refl (d : Database) : Untouched d d := ⟨rfl, rfl, rfl, rfl, rfl⟩

theorem trans (h : Untouched d d') (h' : Untouched d' d'') : Untouched d d'' where
  orders := h'.orders.trans h.orders
  orderItems := h'.orderItems.trans h.orderItems
  invoices := h'.invoices.trans h.invoices
  outbox := h'.outbox.trans h.outbox
  payment := h'.payment.trans h.payment

theorem apply {c : Change} (hc : Harmless c) (d : Database) :
    Untouched d (engine.apply d c) := by
  cases c with
  | inserted row id => exact hc.elim
  | executed stmt =>
    cases stmt with
    | registerEvent r => exact ⟨rfl, rfl, rfl, rfl, rfl⟩
    | updatePayment id s t =>
      have hid : ∀ p : Payment, (p.set s t).paymentId = p.paymentId := fun _ => rfl
      exact ⟨rfl, rfl, rfl, rfl, map_updateWhere hid d.payment⟩
    | updateClient | closeAddress | updateOrder => exact hc.elim

theorem replay {ws : List Change} (hws : ∀ c ∈ ws, Harmless c) (d : Database) :
    Untouched d (engine.replay d ws) := by
  induction ws generalizing d with
  | nil => exact refl d
  | cons c ws ih =>
    have hfirst := apply (hws c List.mem_cons_self) d
    exact hfirst.trans (ih (fun c' hc' => hws c' (List.mem_cons_of_mem c hc')) _)

end Untouched

/-- Commits that all report a fact on record. -/
theorem untouched_of_commits {h h' : History} (hle : h <+: h') (hh : Consistent h')
    (hserial : (effectContract alone).Kept h') {i : EventEnvelope}
    (ht : i.eventType ≠ .clientUpserted) (hr : OnRecord (engine.state h) i)
    (hinputs : ∀ h₀ k, h <+: h₀ → h₀ ++ [k] <+: h' →
      k.input.eventType = i.eventType ∧ k.input.data = i.data) :
    Untouched (engine.state h) (engine.state h') := by
  obtain ⟨later, rfl⟩ := hle
  induction later using List.reverseRecOn with
  | nil => simpa using Untouched.refl _
  | append_singleton later k ih =>
    rw [← List.append_assoc] at hh hserial hinputs ⊢
    have hlast : h ++ later <+: h ++ later ++ [k] := List.prefix_append _ _
    have hbefore := hh.of_prefix hlast
    have huntil := ih hbefore (hserial.of_prefix hlast)
      fun h₀ k' hle hlt => hinputs h₀ k' hle (hlt.trans hlast)
    obtain ⟨htype, hdata⟩ := hinputs _ k (List.prefix_append _ _) (List.prefix_refl _)
    have hcomplete : CompleteEffect alone k.input (h ++ later) k.writes :=
      hserial _ k (List.prefix_refl _)
    have hknown := (hr.later (List.prefix_append h later) hbefore).congr htype hdata
    rw [Engine.state_concat]
    exact huntil.trans
      (Untouched.replay (hcomplete.harmless hbefore.keys (htype ▸ ht) hknown) _)

/-- After an order, payment or invoice event has been processed, an attempt to process an
event with the same data touches none of the tables. -/
theorem replay_untouched {clock : Time} {reserved : List String} {ls ms : List IngestLabel}
    {s t : IngestState} {i : EventEnvelope} (hs : ingestRun (initial clock reserved) ls = some s)
    (hrun : SerialRun clock reserved (ls ++ .start i :: ms) t) (halone : ∀ j, .start j ∉ ms)
    {r : Returned store EventEnvelope Result} (hr : r ∈ s.returned) {ρ : Result}
    (hρ : r.result = .ok ρ) (hprocessed : ρ.outcome = .processed)
    (htype : r.input.eventType ≠ .clientUpserted)
    (hsame : i.eventType = r.input.eventType ∧ i.data = r.input.data) :
    Untouched (committed s) (committed t) := by
  have hreach := reachable_of_run hs
  have hreach' := reachable_of_run hrun.2
  -- the event that was processed has been committed
  obtain ⟨k, hk, hinput⟩ : ∃ k ∈ s.shared.history, k.input = r.input := by
    obtain ⟨h, _, hpost⟩ := hreach.sound.returned r hr
    rw [hρ] at hpost
    have hcommitted : ∃ ws, ws ∈ r.progress.committed := by
      generalize r.progress = p at hpost
      cases hpost with
      | processed => exact ⟨_, List.mem_singleton_self _⟩
      | discarded | registered | barred | retried => cases hprocessed
    obtain ⟨ws, hws⟩ := hcommitted
    obtain ⟨k, hk, hinput, _⟩ := Reachable.commit_of_returned keyLaws hreach hr hws
    exact ⟨k, hk, hinput⟩
  have honRecord := onRecord_of_mem hreach.consistent hk
  rw [hinput] at honRecord
  have hquiet : ∀ n, s.active n = none := Transition.along_at hrun.1 hs i rfl
  obtain ⟨s', hs', hafter⟩ := Transition.run_append_eq_some.mp hrun.2
  obtain rfl := Option.some.inj (hs.symm.trans hs')
  refine untouched_of_commits (run_history hafter) hreach'.consistent hrun.sound.kept htype
    honRecord ?_
  refine run_inputs (P := fun j => j.eventType = r.input.eventType ∧ j.data = r.input.data)
    (fun n a ha => ?_) (fun j hj => ?_) hafter
  · rw [hquiet n] at ha
    cases ha
  · rcases List.mem_cons.mp hj with heq | hj
    · cases heq
      exact hsame
    · exact absurd hj (halone j)

namespace Sample

/-- An order is approved and invoiced. -/
def invoicedRun : List IngestLabel :=
  catalog ++ attempt 3 approval1 15 ++ attempt 4 invoice1 8

/-- The approval under another id. -/
def approvalAgain : EventEnvelope :=
  paymentEvent ⟨"evt-pay-9", by decide⟩ (payment pedido1 tx1 .approved)

def approvedAgain : List IngestLabel :=
  invoicedRun ++ .start approvalAgain :: (steps 5 6 ++ [.finish 5])

theorem approvedAgain_serial :
    SerialRun 0 [] approvedAgain ((after approvedAgain).get (by decide +kernel)) :=
  ⟨serial_of_quiet (by decide +kernel), after_run _⟩

theorem invoicedRun_isSome : (after invoicedRun).isSome = true := by decide +kernel

def approvalReturned : Returned store EventEnvelope Result :=
  ((after invoicedRun).get invoicedRun_isSome).returned.get ⟨3, by decide +kernel⟩

end Sample

theorem replay_untouched_approval :
    Untouched (committed ((Sample.after Sample.invoicedRun).get Sample.invoicedRun_isSome))
      (committed ((Sample.after Sample.approvedAgain).get (by decide +kernel))) :=
  replay_untouched (r := Sample.approvalReturned) (ρ := ⟨.processed, ""⟩)
    (Sample.after_run Sample.invoicedRun_isSome) Sample.approvedAgain_serial
    (by simp [Sample.steps]) (List.get_mem _ _) rfl rfl (by decide +kernel) ⟨rfl, rfl⟩

end EcommerceIntegration
