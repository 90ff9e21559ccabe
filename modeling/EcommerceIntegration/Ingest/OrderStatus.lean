import EcommerceIntegration.Ingest.Notification
import Mathlib.Data.List.Chain

/-!
# The committed status of an order

A transition is checked against the status that the session has read. An invoice is
never late, since an order that has been APPROVED is APPROVED or INVOICED from then on;
an approval can be.
-/

namespace EcommerceIntegration

set_option autoImplicit false

open Transaction

/-! ## The status before and after a commit -/

/-- The statuses that the handlers set. -/
theorem CompleteEffect.update_status {i : EventEnvelope} {h : History} {ws : List Change}
    (hc : CompleteEffect others i h ws) {id : Nat} {status : OrderStatus} {t : Option Time}
    (hu : .executed (.updateOrder id status t) ∈ ws) : status = .approved ∨ status = .invoiced := by
  cases hc.orderEffect with
  | silent orders => exact absurd hu (orders _ _ _)
  | approves _ _ _ _ orders => exact .inl (orders _ _ _ hu).2
  | invoices _ _ _ orders => exact .inr (orders _ _ _ hu).2

/-- No handler cancels an order. -/
theorem not_cancelled {h : History} (hh : Consistent h) :
    ∀ o ∈ (engine.state h).orders, o.status ≠ .cancelled := by
  induction h using List.reverseRecOn with
  | nil => simp [engine]
  | append_singleton h c ih =>
    intro o' ho'
    rw [Engine.state_concat] at ho'
    obtain ⟨o, _, hsource, hstatus⟩ := order_of_replay ho'
    have hold : o.status ≠ .cancelled := by
      rcases hsource with hstored | ⟨r, hr, hs⟩
      · exact ih (hh.of_prefix (List.prefix_append _ _)) o hstored
      · simp [hs, hh.effect.inserted_order hr]
    rcases hstatus with hsame | ⟨t, hu⟩
    · exact hsame ▸ hold
    · rcases hh.effect.update_status hu with heq | heq <;> simp [heq]

def statusOf (d : Database) (orderUid : String) : Option OrderStatus :=
  (storedOrder d orderUid).map Order.status

theorem statusOf_eq_some {d : Database} (hd : d.keys.Nodup) {orderUid : String}
    {status : OrderStatus} :
    statusOf d orderUid = some status ↔
      ∃ o ∈ d.orders, o.orderUid = orderUid ∧ o.status = status := by
  unfold statusOf storedOrder
  rw [Option.map_eq_some_iff]
  constructor
  · rintro ⟨o, ho, hs⟩
    exact ⟨o, List.mem_of_find?_eq_some ho, by simpa using List.find?_some ho, hs⟩
  · rintro ⟨o, ho, huid, hs⟩
    cases hfind : d.orders.find? (·.orderUid == orderUid) with
    | none => simpa [huid] using List.find?_eq_none.mp hfind o ho
    | some o' =>
      have huid' : o'.orderUid = orderUid := by simpa using List.find?_some hfind
      have hsame := order_unique hd (List.mem_of_find?_eq_some hfind) ho (huid'.trans huid.symm)
      exact ⟨o', rfl, hsame ▸ hs⟩

/-- From one committed status to the next: no change, or one that the table allows. -/
def Forward (s t : OrderStatus) : Prop := t = s ∨ t ∈ allowedOrderTransitions s

instance (s t : OrderStatus) : Decidable (Forward s t) := inferInstanceAs (Decidable (_ ∨ _))

/-- The committed change of the order's status, if there is one, is in the table. -/
def FollowsTable (orderUid : String) (h : History) (c : IngestCommit) : Prop :=
  ∀ s ∈ statusOf (engine.state h) orderUid, ∀ t ∈ statusOf (engine.state (h ++ [c])) orderUid,
    Forward s t

/-- Whoever approves the order finds it not yet INVOICED in the committed state `h`. -/
def FindsOpen (orderUid : String) (h : History) (c : IngestCommit) : Prop :=
  ∀ o ∈ (engine.state h).orders, o.orderUid = orderUid →
    c.writes.any (approvesOrder o.orderId) = true → o.status ≠ .invoiced

section Concat
variable {h : History} {c : IngestCommit} {o : Order} {S : OrderStatus → Prop}

theorem followsTable_of_order (hh : Consistent (h ++ [c])) (ho : o ∈ (engine.state h).orders)
    {o' : Order} (ho' : o' ∈ (engine.state (h ++ [c])).orders) (hfixed : o'.fixed = o.fixed) :
    FollowsTable o.orderUid h c ↔ Forward o.status o'.status := by
  have hbefore := (hh.of_prefix (List.prefix_append _ _)).keys
  have hs : statusOf (engine.state h) o.orderUid = some o.status :=
    (statusOf_eq_some hbefore).mpr ⟨o, ho, rfl, rfl⟩
  have ht : statusOf (engine.state (h ++ [c])) o.orderUid = some o'.status :=
    (statusOf_eq_some hh.keys).mpr ⟨o', ho', Order.uid_of_fixed hfixed, rfl⟩
  simp only [FollowsTable, hs, ht, Option.mem_def, Option.some.injEq, forall_eq']

theorem findsOpen_of_order (hh : Consistent h) (ho : o ∈ (engine.state h).orders) :
    FindsOpen o.orderUid h c ↔
      (c.writes.any (approvesOrder o.orderId) = true → o.status ≠ .invoiced) := by
  refine ⟨fun hall => hall o ho rfl, fun hone p hp huid => ?_⟩
  rwa [order_unique hh.keys hp ho huid]

/-- Only an approval can be late: an invoice has been read from an APPROVED order, and no
order goes back to PENDING. -/
theorem followsTable_iff_of_order (hh : Consistent (h ++ [c])) (ho : o ∈ (engine.state h).orders) :
    FollowsTable o.orderUid h c ↔ FindsOpen o.orderUid h c := by
  have hh₀ := hh.of_prefix (List.prefix_append h [c])
  have hnot := not_cancelled hh₀ o ho
  rw [findsOpen_of_order hh₀ ho]
  have stays : (∀ status t, .executed (.updateOrder o.orderId status t) ∉ c.writes) →
      (FollowsTable o.orderUid h c ↔
        (c.writes.any (approvesOrder o.orderId) = true → o.status ≠ .invoiced)) := by
    intro hnone
    obtain ⟨o', ho', hfixed, hsame⟩ := status_replay_of (S := (· = o.status))
      (fun status t hu => absurd hu (hnone status t)) ho rfl
    rw [← Engine.state_concat] at ho'
    refine iff_of_true ((followsTable_of_order hh ho ho' hfixed).mpr (.inl hsame)) ?_
    intro happroves
    obtain ⟨t, hu⟩ := mem_of_approves happroves
    exact absurd hu (hnone _ _)
  by_cases hnone : ∀ status t, .executed (.updateOrder o.orderId status t) ∉ c.writes
  · exact stays hnone
  · obtain ⟨status, t, hu⟩ : ∃ status t, .executed (.updateOrder o.orderId status t) ∈ c.writes := by
      simpa using hnone
    cases hh.effect.orderEffect with
    | silent orders => exact absurd hu (orders _ _ _)
    | approves _ _ _ _ orders =>
      obtain ⟨o', ho', hfixed, happroved⟩ := status_of_update (S := (· = .approved))
        (fun _ _ _ hu => (orders _ _ _ hu).2) ho hu
      rw [← Engine.state_concat] at ho'
      have happroves : c.writes.any (approvesOrder o.orderId) = true :=
        approves_of_mem (t := t) ((orders _ _ _ hu).2 ▸ hu)
      rw [followsTable_of_order hh ho ho' hfixed, happroved, Forward, approved_mem_allowed]
      cases hstatus : o.status <;> simp_all
    | invoices read stored approved orders =>
      obtain ⟨o', ho', hfixed, hinvoiced⟩ := status_of_update (S := (· = .invoiced))
        (fun _ _ _ hu => (orders _ _ _ hu).2) ho hu
      rw [← Engine.state_concat] at ho'
      obtain ⟨p, hp, hpfixed, hclosed⟩ := closed_later read hh₀ stored (by simp [approved])
      have hpo : p = o := order_unique_id hh₀.keys hp ho
        ((Order.id_of_fixed hpfixed).trans (orders _ _ _ hu).1.symm)
      rw [followsTable_of_order hh ho ho' hfixed, hinvoiced, Forward, invoiced_mem_allowed]
      refine iff_of_true ?_ fun happroves => ?_
      · cases hstatus : o.status <;> simp_all
      · obtain ⟨t', hu'⟩ := mem_of_approves happroves
        cases (orders _ _ _ hu').2

theorem followsTable_iff (hh : Consistent (h ++ [c])) (orderUid : String) :
    FollowsTable orderUid h c ↔ FindsOpen orderUid h c := by
  by_cases hstored : ∃ o ∈ (engine.state h).orders, o.orderUid = orderUid
  · obtain ⟨o, ho, rfl⟩ := hstored
    exact followsTable_iff_of_order hh ho
  · refine iff_of_true (fun s hs => ?_) fun o ho huid => absurd ⟨o, ho, huid⟩ hstored
    obtain ⟨o, ho, huid, _⟩ :=
      (statusOf_eq_some (hh.of_prefix (List.prefix_append h [c])).keys).mp hs
    exact absurd ⟨o, ho, huid⟩ hstored

end Concat

/-! ## The status over a history -/

/-- The committed status values of the order, one for every commit after it is stored. -/
def statusTrail (orderUid : String) (h : History) : List OrderStatus :=
  h.inits.filterMap fun h₀ => statusOf (engine.state h₀) orderUid

theorem statusTrail_concat (orderUid : String) (h : History) (c : IngestCommit) :
    statusTrail orderUid (h ++ [c]) =
      statusTrail orderUid h ++ (statusOf (engine.state (h ++ [c])) orderUid).toList := by
  have hinits : (h ++ [c]).inits = h.inits ++ [h ++ [c]] := by
    simp [List.inits_append]
  rw [statusTrail, hinits, List.filterMap_append]
  cases hs : statusOf (engine.state (h ++ [c])) orderUid <;> simp only [hs, statusTrail,
    List.filterMap_cons, List.filterMap_nil, Option.toList]

/-- The trail ends with the status of now. -/
theorem statusTrail_getLast {h : History} (hh : Consistent h) (orderUid : String) :
    (statusTrail orderUid h).getLast? = statusOf (engine.state h) orderUid := by
  induction h using List.reverseRecOn with
  | nil => rfl
  | append_singleton h c ih =>
    have hh₀ := hh.of_prefix (List.prefix_append h [c])
    rw [statusTrail_concat]
    cases hs : statusOf (engine.state (h ++ [c])) orderUid with
    | some s => simp
    | none =>
      rw [Option.toList_none, List.append_nil, ih hh₀]
      cases hbefore : statusOf (engine.state h) orderUid with
      | none => rfl
      | some s =>
        -- a stored order stays stored
        obtain ⟨o, ho, huid, _⟩ := (statusOf_eq_some hh₀.keys).mp hbefore
        obtain ⟨o', ho', hfixed⟩ := order_stays (List.prefix_append h [c]) ho
        have hsome := (statusOf_eq_some hh.keys).mpr
          ⟨o', ho', (Order.uid_of_fixed hfixed).trans huid, rfl⟩
        rw [hs] at hsome
        cases hsome

theorem statusTrail_isChain_iff {h : History} (hh : Consistent h) (orderUid : String) :
    (statusTrail orderUid h).IsChain Forward ↔
      ∀ h₀ c, h₀ ++ [c] <+: h → FollowsTable orderUid h₀ c := by
  induction h using List.reverseRecOn with
  | nil =>
    refine iff_of_true .nil fun h₀ c hpre => ?_
    simp at hpre
  | append_singleton h c ih =>
    have hh₀ := hh.of_prefix (List.prefix_append h [c])
    have hlast : (∀ s ∈ (statusTrail orderUid h).getLast?,
        ∀ t ∈ (statusOf (engine.state (h ++ [c])) orderUid).toList.head?, Forward s t) ↔
        FollowsTable orderUid h c := by
      rw [statusTrail_getLast hh₀]
      simp [FollowsTable]
    have hone : (statusOf (engine.state (h ++ [c])) orderUid).toList.IsChain Forward := by
      cases statusOf (engine.state (h ++ [c])) orderUid <;> simp
    rw [statusTrail_concat, List.isChain_append, hlast, ih hh₀]
    constructor
    · rintro ⟨hearlier, _, hnow⟩ h₀ c₀ hpre
      rcases List.prefix_concat_iff.mp hpre with heq | hpre
      · obtain ⟨rfl, hc⟩ := List.append_inj' heq rfl
        cases hc
        exact hnow
      · exact hearlier h₀ c₀ hpre
    · intro hall
      refine ⟨fun h₀ c₀ hpre => hall h₀ c₀ (hpre.trans (List.prefix_append _ _)), hone, ?_⟩
      exact hall h c (List.prefix_refl _)

/-- A step that commits an approval of the order is taken before the order is INVOICED. -/
def ApprovesOpen (orderUid : String) (s : IngestState) (l : IngestLabel) : Prop :=
  ∀ c ∈ s.committing l, FindsOpen orderUid s.shared.history c

instance (orderUid : String) (h : History) (c : IngestCommit) :
    Decidable (FindsOpen orderUid h c) :=
  inferInstanceAs (Decidable (∀ o ∈ (engine.state h).orders, o.orderUid = orderUid →
    c.writes.any (approvesOrder o.orderId) = true → o.status ≠ .invoiced))

instance (orderUid : String) (s : IngestState) (l : IngestLabel) :
    Decidable (ApprovesOpen orderUid s l) :=
  inferInstanceAs (Decidable (∀ c ∈ s.committing l, FindsOpen orderUid s.shared.history c))

/-- The committed status of the order follows the table of transitions exactly in the
runs in which no approval of the order is committed after it has been INVOICED. -/
theorem statusTrail_forward_iff {clock : Time} {reserved : List String}
    {ls : List IngestLabel} {s : IngestState}
    (hrun : ingestRun (initial clock reserved) ls = some s) (orderUid : String) :
    (statusTrail orderUid s.shared.history).IsChain Forward ↔
      Transition.Along (step engine ingest) (ApprovesOpen orderUid)
        (initial clock reserved) ls := by
  have hh := (reachable_of_run hrun).consistent
  refine (statusTrail_isChain_iff hh orderUid).trans ?_
  refine Iff.trans ?_ (along_committing_iff hrun).symm
  constructor
  · exact fun hall h c _ hpre => (followsTable_iff (hh.of_prefix hpre) orderUid).mp (hall h c hpre)
  · intro hall h c hpre
    exact (followsTable_iff (hh.of_prefix hpre) orderUid).mpr (hall h c List.nil_prefix hpre)

/-! ## An approval after the invoice -/

namespace Sample

/-- The first handler has read the order as PENDING when the second approves it and it
is invoiced. -/
def lateApproval : List IngestLabel :=
  catalog ++ [.start approval1] ++ steps 3 3 ++ attempt 4 approval2 15 ++
    attempt 5 invoice1 8 ++ steps 3 12 ++ [.finish 3]

end Sample

theorem statusTrail_forward_inTurn :
    (statusTrail "PED-1" ((Sample.after Sample.inTurn).get (by decide)).shared.history).IsChain
      Forward :=
  (statusTrail_forward_iff (Sample.after_run _) "PED-1").mpr (by decide +kernel)

theorem statusTrail_backward :
    ¬ ∀ s, IngestReachable s → ∀ orderUid,
      (statusTrail orderUid s.shared.history).IsChain Forward := by
  intro hall
  have hchain := hall ((Sample.after Sample.lateApproval).get (by decide +kernel))
    (Sample.after_reachable _) "PED-1"
  revert hchain
  decide +kernel

end EcommerceIntegration
