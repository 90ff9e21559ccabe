import EcommerceIntegration.Ingest.ConstraintBarrier
import EcommerceIntegration.Ingest.Notification

/-!
# The payment of an approved order

A payment is looked up by its provider transaction, the order by the uid in the event.
When the transaction is already recorded for another order, the order of the event is
approved all the same and has no payment of its own.
-/

namespace EcommerceIntegration

set_option autoImplicit false

open Transaction

/-! ## Payments stay -/

/-- The columns of a payment that no statement sets. -/
def Payment.fixed (p : Payment) : Payment := { p with status := .pending, approvedAt := none }

@[simp] theorem Payment.fixed_set (s : Option PaymentStatus) (t : Option Time) (p : Payment) :
    (p.set s t).fixed = p.fixed := rfl

theorem Payment.id_of_fixed {p p' : Payment} (h : p.fixed = p'.fixed) :
    p.paymentId = p'.paymentId := by
  simpa [Payment.fixed] using congrArg Payment.paymentId h

theorem Payment.orderId_of_fixed {p p' : Payment} (h : p.fixed = p'.fixed) :
    p.orderId = p'.orderId := by
  simpa [Payment.fixed] using congrArg Payment.orderId h

theorem Payment.sameTransaction_of_fixed {p p' : Payment} (h : p.fixed = p'.fixed)
    {data : PaymentUpdatedData} : p.SameTransaction data ↔ p'.SameTransaction data := by
  have hprovider : p.provider = p'.provider := by
    simpa [Payment.fixed] using congrArg Payment.provider h
  have htx : p.providerTxId = p'.providerTxId := by
    simpa [Payment.fixed] using congrArg Payment.providerTxId h
  simp [SameTransaction, hprovider, htx]

theorem payments_grow : engine.Grows fun d => d.payment.map Payment.fixed := by
  intro d c p hp
  cases c with
  | inserted row id =>
    cases row with
    | payment r =>
      simp only [engine, Database.apply, Database.insert, List.map_append]
      exact List.mem_append_left _ hp
    | client | address | order | orderItem | invoice | outbox => exact hp
  | executed stmt =>
    cases stmt with
    | updatePayment id s t =>
      simp only [engine, Database.apply, Database.execute]
      rw [map_updateWhere (Payment.fixed_set s t)]
      exact hp
    | registerEvent | updateClient | closeAddress | updateOrder => exact hp

theorem payment_stays {h h' : History} (hle : h <+: h') {p : Payment}
    (hp : p ∈ (engine.state h).payment) :
    ∃ p' ∈ (engine.state h').payment, p'.fixed = p.fixed :=
  List.mem_map.mp (payments_grow.state hle (List.mem_map_of_mem hp))

/-- The ids of the orders that have a payment with `approved_at`. -/
def paidOrders (d : Database) : List Nat :=
  (d.payment.filter (·.approvedAt.isSome)).map Payment.orderId

theorem mem_paidOrders {d : Database} {id : Nat} :
    id ∈ paidOrders d ↔ ∃ p ∈ d.payment, p.orderId = id ∧ p.approvedAt.isSome = true := by
  simp only [paidOrders, List.mem_map, List.mem_filter]
  exact ⟨fun ⟨p, ⟨hp, hsome⟩, hid⟩ => ⟨p, hp, hid, hsome⟩,
    fun ⟨p, hp, hid, hsome⟩ => ⟨p, ⟨hp, hsome⟩, hid⟩⟩

/-- `approved_at` is never taken away. -/
theorem paidOrders_grow : engine.Grows paidOrders := by
  intro d c id hid
  obtain ⟨p, hp, rfl, hsome⟩ := mem_paidOrders.mp hid
  refine mem_paidOrders.mpr ?_
  cases c with
  | inserted row k =>
    cases row with
    | payment r => exact ⟨p, List.mem_append_left _ hp, rfl, hsome⟩
    | client | address | order | orderItem | invoice | outbox => exact ⟨p, hp, rfl, hsome⟩
  | executed stmt =>
    cases stmt with
    | updatePayment k s t =>
      by_cases hk : p.paymentId = k
      · refine ⟨p.set s t, mem_updateWhere.mpr ⟨p, hp, .inl ⟨by simpa using hk, rfl⟩⟩, rfl, ?_⟩
        simp [Payment.set, hsome]
      · exact ⟨p, mem_updateWhere.mpr ⟨p, hp, .inr ⟨by simpa using hk, rfl⟩⟩, rfl, hsome⟩
    | registerEvent | updateClient | closeAddress | updateOrder => exact ⟨p, hp, rfl, hsome⟩

theorem paid_of_inserted {d : Database} {ws : List Change} {r : Payment} (id : Nat)
    (hr : .inserted (.payment r) id ∈ ws) (hsome : r.approvedAt.isSome = true) :
    r.orderId ∈ paidOrders (engine.replay d ws) := by
  obtain ⟨us, vs, rfl⟩ := List.append_of_mem hr
  rw [Engine.replay_append, Engine.replay_cons]
  refine paidOrders_grow.replay _ _ (mem_paidOrders.mpr ⟨{ r with paymentId := id }, ?_, rfl, hsome⟩)
  exact List.mem_append_right _ (List.mem_singleton.mpr rfl)

theorem paid_of_update {d : Database} {ws : List Change} {p : Payment} (hp : p ∈ d.payment)
    {s : Option PaymentStatus} {t : Time}
    (hu : .executed (.updatePayment p.paymentId s (some t)) ∈ ws) :
    p.orderId ∈ paidOrders (engine.replay d ws) := by
  obtain ⟨us, vs, rfl⟩ := List.append_of_mem hu
  obtain ⟨q, hq, hfixed⟩ := List.mem_map.mp (payments_grow.replay d us (List.mem_map_of_mem hp))
  rw [Engine.replay_append, Engine.replay_cons]
  refine paidOrders_grow.replay _ _ (mem_paidOrders.mpr ⟨q.set s (some t), ?_, ?_, rfl⟩)
  · exact mem_updateWhere.mpr ⟨q, hq, .inl ⟨by simpa using Payment.id_of_fixed hfixed, rfl⟩⟩
  · exact Payment.orderId_of_fixed hfixed

/-! ## Transactions that approve an order -/

/-- The writes of a transaction that approves the order `o` for the event `i`. -/
inductive Approving (R : Rely store EventEnvelope) (i : EventEnvelope) (h : History) :
    List Change → PaymentUpdatedData → Order → OutboxMessage → Prop
  | intro {data o m h₁ h₂ h₃ record t mid} (event : i.data.paymentUpdated = .ok data)
      (approved : data.status = .approved)
      (found : storedOrder (engine.state h₁) data.orderUid = some o)
      (pending : o.status = .pending)
      (recorded : Recorded R o.orderId data h₁ [ledgerRow i] h₂ record)
      (read : R.allows h₁ h₂) (update : R.allows h₂ h₃) (later : R.allows h₃ h)
      (notifies : Notifies R (o.set .approved t) h₃
        ([ledgerRow i] ++ record ++ [.executed (.updateOrder o.orderId .approved t)]) h m) :
      Approving R i h ([ledgerRow i] ++ record ++
        [.executed (.updateOrder o.orderId .approved t), .inserted (.outbox m) mid])
        data o m

theorem CompleteEffect.approves_type {R : Rely store EventEnvelope} {i : EventEnvelope}
    {h : History} {ws : List Change} (hc : CompleteEffect R i h ws) {id : Nat} {t : Option Time}
    (hu : .executed (.updateOrder id .approved t) ∈ ws) : i.eventType = .paymentUpdated :=
  hc.type_of_write hu rfl

theorem CompleteEffect.approving {R : Rely store EventEnvelope} {i : EventEnvelope} {h : History}
    {ws : List Change} (hc : CompleteEffect R i h ws) {id : Nat}
    (ha : ws.any (approvesOrder id) = true) :
    ∃ data o m, o.orderId = id ∧ Approving R i h ws data o m := by
  obtain ⟨t, hmem⟩ := mem_of_approves ha
  have ht := hc.approves_type hmem
  obtain ⟨h₀, _, hr⟩ := hc
  rw [ht] at hr
  obtain ⟨data, o, h₁, h₂, record, approval, hdata, _, hle₂, hle₃, ho, hrecord, happroval, rfl⟩ :=
    paymentHandler_runs hr
  have hnone := hrecord.silent.1
  cases happroval with
  | none =>
    simp only [List.append_nil, List.mem_append, List.mem_singleton] at hmem
    rcases hmem with hmem | hmem
    · cases hmem
    · exact absurd hmem (hnone _ _ _)
  | now approves pending update later notifies =>
    refine ⟨data, o, _, ?_, .intro hdata approves ho pending hrecord hle₂ update later notifies⟩
    simp only [List.mem_append, List.mem_cons, List.not_mem_nil, or_false, reduceCtorEq] at hmem
    rcases hmem with (hmem | hmem) | hmem
    · cases hmem
    · exact absurd hmem (hnone _ _ _)
    · cases hmem
      rfl

/-! ## What approving does to the payments -/

theorem Payment.set_none (p : Payment) : p.set none none = p := rfl

/-- The row of a known transaction after its update, other rows as they are. -/
theorem payment_recordUpdate (d : Database) (data : PaymentUpdatedData) (p : Payment) :
    (engine.replay d (recordUpdate data p)).payment =
      updateWhere (·.paymentId == p.paymentId)
        (Payment.set (paymentUpdate data p).1 (paymentUpdate data p).2) d.payment := by
  unfold recordUpdate
  dsimp only
  split
  · rfl
  · rename_i hclean
    obtain ⟨hs, ht⟩ : (paymentUpdate data p).1 = none ∧ (paymentUpdate data p).2 = none := by
      simpa using hclean
    simp [hs, ht, updateWhere, Payment.set_none]

theorem payment_inserted (d : Database) (r : Payment) (id : Nat) :
    (engine.replay d [.inserted (.payment r) id]).payment =
      d.payment ++ [{ r with paymentId := id }] := rfl

/-- Beside the record of the payment the transaction writes no payment. -/
theorem Recorded.payment_replay {R : Rely store EventEnvelope} {i : EventEnvelope} {orderId : Nat}
    {data : PaymentUpdatedData} {h h' : History} {ws record : List Change}
    (hr : Recorded R orderId data h ws h' record) (d : Database) :
    (engine.replay d ([ledgerRow i] ++ record)).payment = (engine.replay d record).payment := by
  rw [Engine.replay_append]
  cases hr with
  | created => rfl
  | updated => rw [payment_recordUpdate, payment_recordUpdate]; rfl

theorem payment_approval (d : Database) (id mid : Nat) (t : Option Time) (m : OutboxMessage) :
    (engine.replay d
      [.executed (.updateOrder id .approved t), .inserted (.outbox m) mid]).payment =
      d.payment := rfl

theorem storedPayment_spec {d : Database} {data : PaymentUpdatedData} {p : Payment}
    (h : storedPayment d data = some p) : p ∈ d.payment ∧ p.SameTransaction data := by
  refine ⟨List.mem_of_find?_eq_some h, ?_⟩
  simpa [Payment.SameTransaction] using List.find?_some h

theorem Approving.order_uid {R : Rely store EventEnvelope} {i : EventEnvelope} {h : History}
    {ws : List Change} {data : PaymentUpdatedData} {o : Order} {m : OutboxMessage}
    (ha : Approving R i h ws data o m) : o.orderUid = data.orderUid := by
  cases ha with
  | intro _ _ found => simpa using List.find?_some found

theorem Approving.order_stays {R : Rely store EventEnvelope} {i : EventEnvelope} {h : History}
    {ws : List Change} {data : PaymentUpdatedData} {o : Order} {m : OutboxMessage}
    (ha : Approving R i h ws data o m) :
    ∃ o' ∈ (engine.state h).orders, o'.fixed = o.fixed := by
  cases ha with
  | intro _ _ found _ _ read update later =>
    exact EcommerceIntegration.order_stays
      (R.prefix_of (R.trans read (R.trans update later))) (List.mem_of_find?_eq_some found)

section Commit
variable {i : EventEnvelope} {h : History} {ws : List Change} {data : PaymentUpdatedData}
  {o : Order} {m : OutboxMessage}

/-- The order has a payment of its own when its transaction is on no other order. -/
theorem Approving.paid (ha : Approving others i h ws data o m)
    (hown : ∀ p ∈ (engine.state h).payment, p.SameTransaction data → p.orderId = o.orderId) :
    o.orderId ∈ paidOrders (engine.replay (engine.state h) ws) := by
  cases ha with
  | @intro _ _ _ h₁ h₂ h₃ record t mid event approved found pending recorded read update later
      notifies =>
    cases recorded with
    | @created h₄ h₅ id =>
      refine paid_of_inserted (r := newPayment o.orderId data) id (by simp) ?_
      simp [newPayment, approved]
    | @updated h₄ p read₄ later₄ stored =>
      obtain ⟨hp, hsame⟩ := storedPayment_spec stored
      have hle : h₄ <+: h := later₄.trans (update.trans later)
      obtain ⟨p', hp', hfixed⟩ := payment_stays hle hp
      have hid := Payment.id_of_fixed hfixed
      have horder : p'.orderId = o.orderId :=
        hown p' hp' ((Payment.sameTransaction_of_fixed hfixed).mpr hsame)
      rw [← horder]
      by_cases hsome : p.approvedAt.isSome = true
      · have hpaid : p.orderId ∈ paidOrders (engine.state h₄) :=
          mem_paidOrders.mpr ⟨p, hp, rfl, hsome⟩
        rw [Payment.orderId_of_fixed hfixed]
        exact paidOrders_grow.replay _ _ (paidOrders_grow.state hle hpaid)
      · refine paid_of_update hp' (s := (paymentUpdate data p).1)
          (t := data.occurredAt.replaceTzinfoNone) ?_
        have hnone : p.approvedAt.isNone = true := by simpa using hsome
        simp [recordUpdate, paymentUpdate, approved, hnone, hid]

/-- The order gets no payment when its transaction is on another order. -/
theorem Approving.not_paid (ha : Approving others i h ws data o m)
    (hkeys : (engine.state h).keys.Nodup)
    (hafter : (engine.replay (engine.state h) ws).keys.Nodup) {p : Payment}
    (hp : p ∈ (engine.state h).payment) (hsame : p.SameTransaction data)
    (hother : p.orderId ≠ o.orderId) (hunpaid : o.orderId ∉ paidOrders (engine.state h)) :
    o.orderId ∉ paidOrders (engine.replay (engine.state h) ws) := by
  cases ha with
  | @intro _ _ _ h₁ h₂ h₃ record t mid event approved found pending recorded read update later
      notifies =>
    have hpayments : (engine.replay (engine.state h) ([ledgerRow i] ++ record ++
        [.executed (.updateOrder o.orderId .approved t), .inserted (.outbox m) mid])).payment =
        (engine.replay (engine.state h) record).payment := by
      rw [Engine.replay_append, payment_approval, recorded.payment_replay]
    cases recorded with
    | @created h₄ h₅ id =>
      -- the insert would repeat the key of the row that is there
      exfalso
      have heq := payment_unique hafter (q := { newPayment o.orderId data with paymentId := id })
        (hpayments ▸ List.mem_append_left _ hp)
        (hpayments ▸ List.mem_append_right _ (List.mem_singleton_self _)) hsame.1 hsame.2
      exact hother (by rw [heq]; rfl)
    | @updated h₄ q read₄ later₄ stored =>
      obtain ⟨hq, hqsame⟩ := storedPayment_spec stored
      obtain ⟨q', hq', hfixed⟩ := payment_stays (later₄.trans (update.trans later)) hq
      have hqsame' := (Payment.sameTransaction_of_fixed hfixed).mpr hqsame
      obtain rfl := payment_unique hkeys hq' hp (hqsame'.1.trans hsame.1.symm)
        (hqsame'.2.trans hsame.2.symm)
      intro hpaid
      obtain ⟨r, hr, hro, hsome⟩ := mem_paidOrders.mp hpaid
      rw [hpayments, payment_recordUpdate] at hr
      obtain ⟨r₀, hr₀, ⟨hid, rfl⟩ | ⟨_, rfl⟩⟩ := mem_updateWhere.mp hr
      · have hid' : r₀.paymentId = q'.paymentId :=
          (beq_iff_eq.mp hid).trans (Payment.id_of_fixed hfixed).symm
        obtain rfl := payment_unique_id hkeys hr₀ hp hid'
        exact hother hro
      · exact hunpaid (mem_paidOrders.mpr ⟨r, hr₀, hro, hsome⟩)

end Commit

/-! ## Approved orders are paid -/

def Paid (d : Database) : Prop :=
  ∀ o ∈ d.orders, o.status = .approved ∨ o.status = .invoiced →
    ∃ p ∈ d.payment, p.orderId = o.orderId ∧ p.approvedAt.isSome = true

/-- An approved order is paid already, or the transaction of the event that approves it
is recorded for no other order. -/
def PaysOwnOrder (h : History) (c : IngestCommit) : Prop :=
  ∀ o ∈ (engine.state h).orders, c.writes.any (approvesOrder o.orderId) = true →
    (∃ p ∈ (engine.state h).payment, p.orderId = o.orderId ∧ p.approvedAt.isSome = true) ∨
      ∀ data, c.input.data.paymentUpdated = .ok data →
        ∀ p ∈ (engine.state h).payment, p.SameTransaction data → p.orderId = o.orderId

instance (data : PaymentUpdatedData) (p : Payment) : Decidable (p.SameTransaction data) :=
  inferInstanceAs (Decidable (_ ∧ _))

instance decidableForallOk {α : Type} (x : Except String α) (P : α → Prop)
    [∀ a, Decidable (P a)] : Decidable (∀ a, x = .ok a → P a) :=
  match x with
  | .ok a => decidable_of_iff (P a) (by simp)
  | .error _ => .isTrue (by simp)

instance (h : History) (c : IngestCommit) : Decidable (PaysOwnOrder h c) :=
  inferInstanceAs (Decidable (∀ o ∈ (engine.state h).orders, _ → _ ∨ _))

theorem Approving.event {R : Rely store EventEnvelope} {i : EventEnvelope} {h : History}
    {ws : List Change} {data : PaymentUpdatedData} {o : Order} {m : OutboxMessage}
    (ha : Approving R i h ws data o m) : i.data.paymentUpdated = .ok data := by
  cases ha with
  | intro event => exact event

theorem paid_concat {h : History} {c : IngestCommit} (hh : Consistent (h ++ [c]))
    (hpaid : ∀ h', h' <+: h → Paid (engine.state h')) (hown : PaysOwnOrder h c) :
    Paid (engine.state (h ++ [c])) := by
  intro o' ho' hopen
  rw [← mem_paidOrders]
  have hgrow : ∀ h', h' <+: h → ∀ o ∈ (engine.state h').orders,
      o.status = .approved ∨ o.status = .invoiced → o.orderId = o'.orderId →
      o'.orderId ∈ paidOrders (engine.state (h ++ [c])) := by
    intro h' hle o ho hstatus hid
    rw [← hid]
    exact paidOrders_grow.state (hle.trans (List.prefix_append _ _))
      (mem_paidOrders.mpr (hpaid h' hle o ho hstatus))
  have hcommit := ho'
  rw [Engine.state_concat] at hcommit
  obtain ⟨o, hfixed, hsource, hstatus⟩ := order_of_replay hcommit
  have hid := Order.id_of_fixed hfixed
  rcases hstatus with hsame | ⟨t, hupdate⟩
  · rcases hsource with hold | ⟨r, hr, hs⟩
    · exact hgrow h (List.prefix_refl _) o hold (by rwa [← hsame]) hid
    · have hpending := hh.effect.inserted_order hr
      rw [hsame, hs, hpending] at hopen
      rcases hopen with hopen | hopen <;> cases hopen
  · cases hh.effect.orderEffect with
    | silent orders => exact absurd hupdate (orders _ _ _)
    | approves _ _ _ _ orders =>
      have happroves : c.writes.any (approvesOrder o.orderId) = true :=
        approves_of_mem ((orders _ _ _ hupdate).2 ▸ hupdate)
      obtain ⟨data, o₁, m, hid₁, ha⟩ := hh.effect.approving happroves
      obtain ⟨o₂, ho₂, hfixed₂⟩ := ha.order_stays
      have hid₂ : o₂.orderId = o.orderId := (Order.id_of_fixed hfixed₂).trans hid₁
      rw [← hid, ← hid₁, Engine.state_concat]
      rcases hown o₂ ho₂ (hid₂ ▸ happroves) with hbefore | hevent
      · rw [hid₂.trans hid₁.symm] at hbefore
        exact paidOrders_grow.replay _ _ (mem_paidOrders.mpr hbefore)
      · refine ha.paid fun p hp hsame => ?_
        exact (hevent data ha.event p hp hsame).trans (hid₂.trans hid₁.symm)
    | invoices read stored approved orders =>
      exact hgrow _ read _ stored (.inl approved) ((orders _ _ _ hupdate).1.symm.trans hid)

theorem paysOwnOrder_of_paid {h : History} {c : IngestCommit} (hh : Consistent (h ++ [c]))
    (hpaid : Paid (engine.state (h ++ [c]))) : PaysOwnOrder h c := by
  intro o ho happroves
  have hkeys := (hh.of_prefix (List.prefix_append h [c])).keys
  have hafter := hh.keys
  obtain ⟨data, o₁, m, hid₁, ha⟩ := hh.effect.approving happroves
  obtain ⟨t, hupdate⟩ := mem_of_approves happroves
  rw [Engine.state_concat] at hpaid hafter
  obtain ⟨o', ho', hfixed, hstatus⟩ := status_of_update
    (hh.effect.orderEffect.only_approves hupdate) ho hupdate
  have hmem := mem_paidOrders.mpr (hpaid o' ho' (.inl hstatus))
  rw [Order.id_of_fixed hfixed, ← hid₁] at hmem
  by_contra hnot
  rw [not_or] at hnot
  obtain ⟨hunpaid, hforeign⟩ := hnot
  refine hforeign fun data' hdata' p hp hsame => ?_
  obtain rfl : data = data' := Except.ok.inj (ha.event.symm.trans hdata')
  by_contra hother
  refine ha.not_paid hkeys hafter hp hsame (hid₁ ▸ hother) ?_ hmem
  rw [mem_paidOrders, hid₁]
  exact hunpaid

theorem paid_iff {h : History} (hh : Consistent h) :
    (∀ h', h' <+: h → Paid (engine.state h')) ↔ ∀ h₀ c, h₀ ++ [c] <+: h → PaysOwnOrder h₀ c := by
  constructor
  · exact fun hpaid h₀ c hpre => paysOwnOrder_of_paid (hh.of_prefix hpre) (hpaid _ hpre)
  · intro hown
    induction h using List.reverseRecOn with
    | nil =>
      intro h' hle o ho
      obtain rfl := List.prefix_nil.mp hle
      cases ho
    | append_singleton h c ih =>
      have hbefore := ih (hh.of_prefix (List.prefix_append _ _)) fun h₀ c₀ hpre =>
        hown h₀ c₀ (hpre.trans (List.prefix_append _ _))
      intro h' hle
      rcases List.prefix_concat_iff.mp hle with rfl | hle
      · exact paid_concat hh hbefore (hown h c (List.prefix_refl _))
      · exact hbefore h' hle

/-- In all states of a run every approved order has a payment of its own, exactly when
every step that approves an order pays that order. -/
theorem approvedOrder_paid_iff {clock : Time} {reserved : List String} {ls : List IngestLabel}
    {s : IngestState} (hrun : ingestRun (initial clock reserved) ls = some s) :
    (∀ ks s', ks <+: ls → ingestRun (initial clock reserved) ks = some s' →
        Paid (committed s')) ↔
      Transition.Along (step engine ingest)
        (fun s l => ∀ c ∈ s.committing l, PaysOwnOrder s.shared.history c)
        (initial clock reserved) ls := by
  rw [along_committing_iff hrun]
  have hiff := paid_iff (reachable_of_run hrun).consistent
  constructor
  · intro hpaid h c _ hpre
    refine hiff.mp (fun h' hle => ?_) h c hpre
    obtain ⟨ks, s', hks, hrun', rfl⟩ := exists_state_of_history hrun List.nil_prefix hle
    exact hpaid ks s' hks hrun'
  · intro hown ks s' hks hrun'
    obtain ⟨ms, rfl⟩ := hks
    obtain ⟨s'', hrun'', hrest⟩ := Transition.run_append_eq_some.mp hrun
    obtain rfl := Option.some.inj (hrun'.symm.trans hrun'')
    exact hiff.mpr (fun h c hpre => hown h c List.nil_prefix hpre) _ (run_history hrest)

/-! ## A transaction of another order -/

namespace Sample

def authorized2 : EventEnvelope :=
  paymentEvent ⟨"evt-pay-3", by decide⟩ (payment pedido2 tx1 .authorized)

/-- The approval names the first order, its transaction belongs to the second. -/
def foreignTransaction : List IngestLabel :=
  catalog ++ attempt 3 authorized2 7 ++ attempt 4 approval1 15

end Sample

theorem approvedOrder_paid_inTurn :
    Paid (committed ((Sample.after Sample.inTurn).get (by decide))) :=
  (approvedOrder_paid_iff (Sample.after_run (by decide))).mpr (by decide +kernel)
    Sample.inTurn _ (List.prefix_refl _) (Sample.after_run (by decide))

theorem approvedOrder_unpaid : ¬ ∀ s, IngestReachable s → Paid (committed s) := by
  intro hall
  have hpaid := hall ((Sample.after Sample.foreignTransaction).get (by decide))
    (Sample.after_reachable (by decide))
  revert hpaid
  unfold Paid
  decide +kernel

end EcommerceIntegration
