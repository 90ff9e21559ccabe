import EcommerceIntegration.Library.Commits
import EcommerceIntegration.Ingest.OrderEffects

/-!
# Notifications of the ERP

The guard of a notification is the status that the handler read, so two transactions
that read the order as PENDING both approve it and both notify. Outside of that, the
notified orders are the ones that are no longer PENDING.
-/

namespace EcommerceIntegration

set_option autoImplicit false

open Transaction

/-- A history that the workers can leave behind. -/
structure Consistent (h : History) : Prop where
  kept : (effectContract others).Kept h
  keys : (engine.state h).keys.Nodup

theorem IngestReachable.consistent {s : IngestState} (hs : IngestReachable s) :
    Consistent s.shared.history :=
  ⟨hs.sound.kept, hs.sound.wellFormed.keys⟩

theorem Consistent.of_prefix {h h' : History} (hh : Consistent h') (hle : h <+: h') :
    Consistent h := by
  refine ⟨hh.kept.of_prefix hle, ?_⟩
  obtain ⟨later, rfl⟩ := hle
  induction later using List.reverseRecOn with
  | nil => simpa using hh.keys
  | append_singleton later c ih =>
    rw [← List.append_assoc] at hh
    refine ih ⟨hh.kept.of_prefix (List.prefix_append _ _), ?_⟩
    have hkeys := hh.keys
    rw [Engine.state_concat] at hkeys
    exact ((keyLaws.keys_replay _ _).nodup_iff.mp hkeys).of_append_left

theorem Consistent.effect {h : History} {c : IngestCommit} (hh : Consistent (h ++ [c])) :
    CompleteEffect others c.input h c.writes :=
  hh.kept h c (List.prefix_refl _)

/-- An order is the same at all times when its id is. -/
theorem Consistent.uid_eq {h h₁ : History} (hh : Consistent h) (hle : h₁ <+: h) {o o' : Order}
    (ho : o ∈ (engine.state h₁).orders) (ho' : o' ∈ (engine.state h).orders)
    (hid : o'.orderId = o.orderId) : o'.orderUid = o.orderUid := by
  obtain ⟨o₁, ho₁, hfixed⟩ := order_stays hle ho
  have hid₁ : o₁.orderId = o.orderId := Order.id_of_fixed hfixed
  rw [order_unique_id hh.keys ho' ho₁ (hid.trans hid₁.symm)]
  exact Order.uid_of_fixed hfixed

/-- Only the handler of new orders inserts them, PENDING. -/
theorem CompleteEffect.inserted_order {R : Rely store EventEnvelope} {i : EventEnvelope}
    {h : History} {ws : List Change} (hc : CompleteEffect R i h ws) {r : Order} {id : Nat}
    (hr : .inserted (.order r) id ∈ ws) : r.status = .pending := by
  have hwrite := hc.handlerWrite hr (by simp [ledgerRow])
  cases ht : i.eventType <;> rw [ht] at hwrite
  · exact hwrite.elim
  · exact hwrite
  · exact hwrite.elim
  · exact hwrite.elim

theorem CompleteEffect.update_closes {i : EventEnvelope} {h : History} {ws : List Change}
    (hc : CompleteEffect others i h ws) {id : Nat} {status : OrderStatus} {t : Option Time}
    (hu : .executed (.updateOrder id status t) ∈ ws) : status ≠ .pending := by
  cases hc.orderEffect with
  | silent orders => exact absurd hu (orders _ _ _)
  | approves _ _ _ _ orders => simp [(orders _ _ _ hu).2]
  | invoices _ _ _ orders => simp [(orders _ _ _ hu).2]

/-- An order that has left PENDING does not come back. -/
theorem closed_later {h h' : History} (hle : h <+: h') (hh : Consistent h') {o : Order}
    (ho : o ∈ (engine.state h).orders) (hclosed : o.status ≠ .pending) :
    ∃ o' ∈ (engine.state h').orders, o'.fixed = o.fixed ∧ o'.status ≠ .pending := by
  obtain ⟨later, rfl⟩ := hle
  induction later using List.reverseRecOn with
  | nil => exact ⟨o, by simpa using ho, rfl, hclosed⟩
  | append_singleton later c ih =>
    rw [← List.append_assoc] at hh ⊢
    obtain ⟨o', ho', hfixed, hclosed'⟩ := ih (hh.of_prefix (List.prefix_append _ _))
    rw [Engine.state_concat]
    obtain ⟨o'', ho'', hfixed', hclosed''⟩ := status_replay
      (fun _ _ _ hu => hh.effect.update_closes hu) ho' hclosed'
    exact ⟨o'', ho'', hfixed'.trans hfixed, hclosed''⟩

/-- An order that is not PENDING has been notified. -/
theorem notified_of_closed {h : History} (hh : Consistent h) :
    ∀ h', h' <+: h → ∀ o ∈ (engine.state h').orders, o.status ≠ .pending →
      1 ≤ notifications (engine.state h') o.orderUid := by
  induction h using List.reverseRecOn with
  | nil =>
    intro h' hle o ho
    obtain rfl := List.prefix_nil.mp hle
    cases ho
  | append_singleton h c ih =>
    have hbefore := ih (hh.of_prefix (List.prefix_append _ _))
    intro h' hle o' ho' hclosed
    rcases List.prefix_concat_iff.mp hle with rfl | hle
    · have hmono := notifications_le (List.prefix_append h [c])
      have hread := ho'
      rw [Engine.state_concat] at ho'
      obtain ⟨o, hfixed, hsource, hstatus⟩ := order_of_replay ho'
      have huid : o.orderUid = o'.orderUid := Order.uid_of_fixed hfixed
      have hid : o.orderId = o'.orderId := Order.id_of_fixed hfixed
      rcases hstatus with hsame | ⟨t, hupdate⟩
      · -- no UPDATE of this transaction closed it
        rcases hsource with hold | ⟨r, hr, hs⟩
        · rw [← huid]
          exact (hbefore h (List.prefix_refl _) o hold (hsame ▸ hclosed)).trans (hmono _)
        · exact absurd ((hsame.trans hs).trans (hh.effect.inserted_order hr)) hclosed
      · cases hh.effect.orderEffect with
        | silent orders => exact absurd hupdate (orders _ _ _)
        | approves read stored pending _ orders outbox notifies =>
          have hsame := hh.uid_eq (read.trans (List.prefix_append _ _)) stored hread
            (hid ▸ (orders _ _ _ hupdate).1)
          rw [Engine.state_concat, notifications_replay, outbox]
          simp [notifies, hsame]
        | invoices read stored approved orders =>
          have hsame := hh.uid_eq (read.trans (List.prefix_append _ _)) stored hread
            (hid ▸ (orders _ _ _ hupdate).1)
          rw [hsame]
          refine (hbefore _ read _ stored (by simp [approved])).trans ?_
          exact notifications_le (read.trans (List.prefix_append _ _)) _
    · exact hbefore h' hle o' ho' hclosed

/-- A notification is about an order that is not PENDING any more. -/
theorem closed_of_notified {h : History} (hh : Consistent h) {uid : String}
    (hn : 1 ≤ notifications (engine.state h) uid) :
    ∃ o ∈ (engine.state h).orders, o.orderUid = uid ∧ o.status ≠ .pending := by
  induction h using List.reverseRecOn with
  | nil => simp [notifications, engine] at hn
  | append_singleton h c ih =>
    have hh' := hh.of_prefix (List.prefix_append _ _)
    have hcloses : ∀ id status t, .executed (.updateOrder id status t) ∈ c.writes →
        status ≠ .pending := fun _ _ _ hu => hh.effect.update_closes hu
    rw [Engine.state_concat, notifications_replay] at hn
    rw [Engine.state_concat]
    by_cases hbefore : 1 ≤ notifications (engine.state h) uid
    · obtain ⟨o, ho, rfl, hclosed⟩ := ih hh' hbefore
      obtain ⟨o', ho', hfixed, hclosed'⟩ := status_replay hcloses ho hclosed
      exact ⟨o', ho', Order.uid_of_fixed hfixed, hclosed'⟩
    · cases hh.effect.orderEffect with
      | silent _ outbox | invoices _ _ _ _ outbox =>
        simp only [outbox, List.countP_nil] at hn
        omega
      | @approves o₁ _ _ _ read stored _ update _ outbox notifies =>
        have hsame : o₁.orderUid = uid := by
          by_contra hne
          simp only [outbox, List.countP_singleton, notifies, beq_iff_eq, if_neg hne] at hn
          omega
        obtain ⟨o, ho, hfixed⟩ := order_stays read stored
        have hid : o.orderId = o₁.orderId := Order.id_of_fixed hfixed
        obtain ⟨o', ho', hfixed', hclosed⟩ := status_of_update hcloses ho (hid ▸ update)
        exact ⟨o', ho', (Order.uid_of_fixed (hfixed'.trans hfixed)).trans hsame, hclosed⟩

theorem newMessages_of_approves {h : History} {ws : List Change} (heffect : OrderEffect h ws)
    (hkeys : Consistent h) {o : Order} (ho : o ∈ (engine.state h).orders)
    (happroves : ws.any (approvesOrder o.orderId) = true) :
    (newMessages ws).countP (OutboxMessage.notifies o.orderUid) = 1 := by
  obtain ⟨t, hmem⟩ := mem_of_approves happroves
  cases heffect with
  | silent orders => exact absurd hmem (orders _ _ _)
  | approves read stored _ _ orders outbox notifies =>
    have hsame := hkeys.uid_eq read stored ho (orders _ _ _ hmem).1
    simp [outbox, notifies, hsame]
  | invoices _ _ _ orders => cases (orders _ _ _ hmem).2

/-- Whoever approves the order finds it PENDING in the committed state `h`. -/
def FindsPending (orderUid : String) (h : History) (c : IngestCommit) : Prop :=
  ∀ o ∈ (engine.state h).orders, o.orderUid = orderUid →
    c.writes.any (approvesOrder o.orderId) = true → o.status = .pending

theorem notifications_le_one_iff {h : History} (hh : Consistent h) (uid : String) :
    notifications (engine.state h) uid ≤ 1 ↔
      ∀ h₀ c, h₀ ++ [c] <+: h → FindsPending uid h₀ c := by
  constructor
  · rintro hle h₀ c hpre o ho rfl happroves
    have hc := hh.of_prefix hpre
    have hh₀ := hc.of_prefix (List.prefix_append _ _)
    by_contra hclosed
    have hbefore := notified_of_closed hh₀ h₀ (List.prefix_refl _) o ho hclosed
    have hnew := newMessages_of_approves hc.effect.orderEffect hh₀ ho happroves
    have hafter := notifications_le hpre o.orderUid
    rw [Engine.state_concat, notifications_replay] at hafter
    omega
  · intro hpending
    induction h using List.reverseRecOn with
    | nil => simp [notifications, engine]
    | append_singleton h c ih =>
      have hh' := hh.of_prefix (List.prefix_append _ _)
      have hbefore := ih hh' fun h₀ c₀ hpre => hpending h₀ c₀ (hpre.trans (List.prefix_append _ _))
      rw [Engine.state_concat, notifications_replay]
      cases hh.effect.orderEffect with
      | silent _ outbox | invoices _ _ _ _ outbox => simpa [outbox] using hbefore
      | @approves o₁ _ t m read stored _ update _ outbox notifies =>
        rw [outbox, List.countP_singleton, notifies]
        by_cases hsame : o₁.orderUid = uid
        · -- the order is still PENDING, so nobody has notified it
          obtain ⟨o, ho, hfixed⟩ := order_stays read stored
          have huid : o.orderUid = uid := (Order.uid_of_fixed hfixed).trans hsame
          have hstill : o.status = .pending := by
            refine hpending h c (List.prefix_refl _) o ho huid (approves_of_mem (t := t) ?_)
            rwa [Order.id_of_fixed hfixed]
          have hzero : ¬ 1 ≤ notifications (engine.state h) uid := by
            intro hone
            obtain ⟨o', ho', huid', hclosed⟩ := closed_of_notified hh' hone
            rw [order_unique hh'.keys ho' ho (huid'.trans huid.symm)] at hclosed
            exact hclosed hstill
          simp only [hsame, beq_self_eq_true, if_true]
          omega
        · simpa [hsame] using hbefore

/-- A step that commits the approval of the order is taken while the order is PENDING. -/
def ApprovesPending (orderUid : String) (s : IngestState) (l : IngestLabel) : Prop :=
  ∀ c ∈ s.committing l, FindsPending orderUid s.shared.history c

instance (orderUid : String) (h : History) (c : IngestCommit) :
    Decidable (FindsPending orderUid h c) :=
  inferInstanceAs (Decidable (∀ o ∈ (engine.state h).orders, o.orderUid = orderUid →
    c.writes.any (approvesOrder o.orderId) = true → o.status = .pending))

instance (orderUid : String) (s : IngestState) (l : IngestLabel) :
    Decidable (ApprovesPending orderUid s l) :=
  inferInstanceAs (Decidable (∀ c ∈ s.committing l, FindsPending orderUid s.shared.history c))

/-- At most one notification of the order is committed exactly in the runs in which
every approval of the order is committed while it is still PENDING. -/
theorem notification_atMostOnce_iff {clock : Time} {reserved : List String}
    {ls : List IngestLabel} {s : IngestState}
    (hrun : ingestRun (initial clock reserved) ls = some s) (orderUid : String) :
    notifications (committed s) orderUid ≤ 1 ↔
      Transition.Along (step engine ingest) (ApprovesPending orderUid)
        (initial clock reserved) ls := by
  refine (notifications_le_one_iff (reachable_of_run hrun).consistent orderUid).trans ?_
  refine Iff.trans ?_ (along_committing_iff hrun).symm
  exact ⟨fun hall h c _ hpre => hall h c hpre, fun hall h c hpre => hall h c List.nil_prefix hpre⟩

/-! ## Two approvals of one order -/

namespace Sample

def approval1 : EventEnvelope :=
  paymentEvent evtPay1 (payment pedido1 tx1 .approved)

def approval2 : EventEnvelope :=
  paymentEvent ⟨"evt-pay-2", by decide⟩ (payment pedido1 tx2 .approved)

/-- Both handlers read the order before one of them updates it. -/
def lostUpdate : List IngestLabel :=
  catalog ++ [.start approval1, .start approval2] ++ steps 3 3 ++ steps 4 3 ++
    steps 3 12 ++ [.finish 3] ++ steps 4 12 ++ [.finish 4]

/-- The second handler reads what the first has committed. -/
def inTurn : List IngestLabel :=
  catalog ++ attempt 3 approval1 15 ++ attempt 4 approval2 7

end Sample

theorem notification_atMostOnce_inTurn :
    notifications (committed ((Sample.after Sample.inTurn).get (by decide))) "PED-1" ≤ 1 :=
  (notification_atMostOnce_iff (Sample.after_run _) "PED-1").mpr (by decide +kernel)

theorem notification_twice :
    ¬ ∀ s, IngestReachable s → ∀ orderUid, notifications (committed s) orderUid ≤ 1 := by
  intro hall
  have hle := hall ((Sample.after Sample.lostUpdate).get (by decide))
    (Sample.after_reachable (by decide)) "PED-1"
  have htwo : notifications (committed ((Sample.after Sample.lostUpdate).get (by decide)))
      "PED-1" = 2 := by decide
  omega

end EcommerceIntegration
