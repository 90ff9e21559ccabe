import EcommerceIntegration.Library.Contract

/-!
# The commits of a run

A run adds to the history what its steps commit. A condition on the steps that commit
is a condition on the history that the run leaves.
-/

namespace Transaction

set_option autoImplicit false

variable {σ : Signature} {I α : Type}

/-- What the step commits, if it does. -/
def State.committing (s : State σ I α) : Label σ I → Option (Commit σ I)
  | .exec n .ok =>
    match s.active n with
    | some ⟨i, .call .commit _, p⟩ => some ⟨n, i, s.shared.clock, p.writes⟩
    | _ => none
  | _ => none

theorem step_committing {E : Engine σ} {prog : I → Session σ α} {s t : State σ I α}
    {l : Label σ I} (hst : step E prog s l = some t) :
    t.shared.history = s.shared.history ++ (s.committing l).toList := by
  cases l with
  | start i =>
    obtain rfl := step_start hst
    exact (List.append_nil _).symm
  | exec n choice =>
    obtain ⟨i, o, k, p, r, p', sh, ha, hr, rfl⟩ := step_exec hst
    cases choice with
    | ok =>
      cases o with
      | commit =>
        cases hr
        simp [State.committing, ha, Shared.release]
      | select | insert | execute | now | rollback | request =>
        rcases respond_history hr with heq | ⟨ho, _⟩
        · simp [State.committing, ha, heq]
        · cases ho
    | fault m applied =>
      rcases respond_history hr with heq | ⟨rfl, _⟩
      · simp [State.committing, heq]
      · cases hr
        exact (List.append_nil _).symm
  | finish n =>
    obtain ⟨i, q, p, r, _, _, rfl⟩ := step_finish hst
    exact (List.append_nil _).symm
  | crash n =>
    obtain ⟨_, _, rfl⟩ := step_crash hst
    exact (List.append_nil _).symm
  | tick d =>
    cases hst
    exact (List.append_nil _).symm
  | remote r =>
    cases hst
    exact (List.append_nil _).symm

section Runs
variable {E : Engine σ} {prog : I → Session σ α} {s t : State σ I α} {ls : List (Label σ I)}

theorem run_history (hrun : Transition.run (step E prog) s ls = some t) :
    s.shared.history <+: t.shared.history :=
  Transition.run_relates_along
    (R := fun (s t : State σ I α) => s.shared.history <+: t.shared.history)
    (fun _ => List.prefix_refl _) List.IsPrefix.trans (fun _ _ _ _ hst => step_history hst)
    (Transition.along_true s ls) hrun

/-- Two commits at the same place of a history. -/
theorem commit_unique {h h' : List (Commit σ I)} {c c' : Commit σ I} (hc : h ++ [c] <+: h')
    (hc' : h ++ [c'] <+: h') : c = c' := by
  have hsame : h ++ [c] = h ++ [c'] :=
    (List.prefix_of_prefix_length_le hc hc' (by simp)).eq_of_length (by simp)
  exact List.singleton_inj.mp (List.append_cancel_left hsame)

/-- A condition on the commits of a run, in terms of the history that the run leaves. -/
theorem along_committing_iff {P : List (Commit σ I) → Commit σ I → Prop}
    (hrun : Transition.run (step E prog) s ls = some t) :
    Transition.Along (step E prog) (fun s l => ∀ c ∈ s.committing l, P s.shared.history c) s ls ↔
      ∀ h c, s.shared.history <+: h → h ++ [c] <+: t.shared.history → P h c := by
  induction ls generalizing s with
  | nil =>
    cases hrun
    refine iff_of_true trivial fun h c hle hlt => ?_
    have h₁ := hle.length_le
    have h₂ := hlt.length_le
    simp only [List.length_append, List.length_singleton] at h₂
    omega
  | cons l ls ih =>
    obtain ⟨s', hst, hrun'⟩ := Transition.run_cons_eq_some.mp hrun
    have hhist := step_committing hst
    have hlater := run_history hrun'
    have hih := ih hrun'
    constructor
    · rintro ⟨hnow, hrest⟩ h c hle hlt
      cases hcommit : s.committing l with
      | none =>
        rw [hcommit, Option.toList_none, List.append_nil] at hhist
        exact hih.mp (hrest s' hst) h c (hhist ▸ hle) hlt
      | some c₀ =>
        rw [hcommit, Option.toList_some] at hhist
        rw [hhist] at hlater
        by_cases hlonger : s.shared.history ++ [c₀] <+: h
        · exact hih.mp (hrest s' hst) h c (hhist ▸ hlonger) hlt
        · -- the commit of this step
          have hshort : h <+: s.shared.history ++ [c₀] :=
            (List.prefix_or_prefix_of_prefix ((List.prefix_append _ _).trans hlt)
              hlater).resolve_right hlonger
          rcases List.prefix_concat_iff.mp hshort with rfl | hback
          · exact absurd (List.prefix_refl _) hlonger
          · obtain rfl := hle.eq_of_length_le hback.length_le
            rw [commit_unique hlt hlater]
            exact hnow c₀ hcommit
    · intro hall
      refine ⟨fun c hc => ?_, fun s'' hst' => ?_⟩
      · rw [hc, Option.toList_some] at hhist
        exact hall _ c (List.prefix_refl _) (hhist ▸ hlater)
      · obtain rfl := Option.some.inj (hst.symm.trans hst')
        exact hih.mpr fun h c hle hlt => hall h c ((step_history hst).trans hle) hlt

/-- Every history on the way is the one of some state of the run. -/
theorem exists_state_of_history (hrun : Transition.run (step E prog) s ls = some t)
    {h : List (Commit σ I)} (hle : s.shared.history <+: h) (hlt : h <+: t.shared.history) :
    ∃ ks s', ks <+: ls ∧ Transition.run (step E prog) s ks = some s' ∧ s'.shared.history = h := by
  induction ls generalizing s with
  | nil =>
    cases hrun
    exact ⟨[], _, List.prefix_refl _, rfl, hle.eq_of_length_le hlt.length_le⟩
  | cons l ls ih =>
    obtain ⟨s', hst, hrun'⟩ := Transition.run_cons_eq_some.mp hrun
    by_cases hnext : s'.shared.history <+: h
    · obtain ⟨ks, s'', hks, hrun'', rfl⟩ := ih hrun' hnext
      exact ⟨l :: ks, s'', List.cons_prefix_cons.mpr ⟨rfl, hks⟩,
        Transition.run_cons_eq_some.mpr ⟨s', hst, hrun''⟩, rfl⟩
    · refine ⟨[], s, List.nil_prefix, rfl, ?_⟩
      have hshort : h <+: s'.shared.history :=
        (List.prefix_or_prefix_of_prefix hlt (run_history hrun')).resolve_right hnext
      rw [step_committing hst] at hshort hnext
      cases hcommit : s.committing l with
      | none =>
        rw [hcommit, Option.toList_none, List.append_nil] at hnext
        exact absurd hle hnext
      | some c =>
        rw [hcommit, Option.toList_some] at hshort hnext
        rcases List.prefix_concat_iff.mp hshort with rfl | hback
        · exact absurd (List.prefix_refl _) hnext
        · exact hle.eq_of_length_le hback.length_le

/-- The commits of a run are made for the attempts under way and for those that start. -/
theorem run_inputs {P : I → Prop} (hactive : ∀ n a, s.active n = some a → P a.input)
    (hstart : ∀ i, .start i ∈ ls → P i)
    (hrun : Transition.run (step E prog) s ls = some t) :
    ∀ h k, s.shared.history <+: h → h ++ [k] <+: t.shared.history → P k.input := by
  rw [← along_committing_iff (P := fun _ k => P k.input) hrun]
  clear hrun
  induction ls generalizing s with
  | nil => trivial
  | cons l ls ih =>
    refine ⟨fun k hk => ?_, fun s' hst => ih (fun n a ha => ?_) fun i hi => ?_⟩
    · cases l with
      | exec n choice =>
        cases choice with
        | ok =>
          simp only [State.committing] at hk
          split at hk
          · rename_i i _ p ha
            cases hk
            exact hactive n _ ha
          · cases hk
        | fault m applied => cases hk
      | start | finish | crash | tick | remote => cases hk
    · rcases step_active hst ha with ⟨b, hb, heq⟩ | ⟨rfl, _⟩
      · exact heq ▸ hactive n b hb
      · exact hstart a.input List.mem_cons_self
    · exact hstart i (List.mem_cons_of_mem l hi)

end Runs

/-! ## The last write -/

/-- A column that each commit overwrites or leaves as it is has the value written last. -/
theorem Engine.column_eq_getLast? (E : Engine σ) {β : Type} (column : σ.Db → Option β)
    {written : Commit σ I → Option β} {h : List (Commit σ I)} (hempty : column E.empty = none)
    (hstep : ∀ h₀ k, h₀ ++ [k] <+: h →
      column (E.state (h₀ ++ [k])) = (written k).or (column (E.state h₀))) :
    column (E.state h) = (h.filterMap written).getLast? := by
  induction h using List.reverseRecOn with
  | nil => exact hempty
  | append_singleton h k ih =>
    have hbefore := ih fun h₀ k₀ hpre => hstep h₀ k₀ (hpre.trans (List.prefix_append _ _))
    rw [hstep h k (List.prefix_refl _), hbefore, List.filterMap_append]
    cases hk : written k with
    | none => simp [hk]
    | some b => simp [hk]

/-- What the commits with such a change report, the last of those that report something. -/
def lastReport {β : Type} (writes : Change σ → Bool) (reported : Commit σ I → Option β)
    (h : List (Commit σ I)) : Option β :=
  ((h.filter fun k => k.writes.any writes).filterMap reported).getLast?

/-- When the commits that write a column write what they report, the column has the last report. -/
theorem Engine.column_eq_lastReport (E : Engine σ) {β : Type} (column : σ.Db → Option β)
    {writes : Change σ → Bool} {reported : Commit σ I → Option β} {h : List (Commit σ I)}
    (hempty : column E.empty = none) (hspares : ∀ c, writes c = false → E.Spares column c)
    (hwritten : ∀ h₀ k, h₀ ++ [k] <+: h → k.writes.any writes = true →
      column (E.state (h₀ ++ [k])) = (reported k).or (column (E.state h₀))) :
    column (E.state h) = lastReport writes reported h := by
  rw [lastReport, List.filterMap_filter]
  refine E.column_eq_getLast? column hempty fun h₀ k hpre => ?_
  split
  · rename_i hany
    exact hwritten h₀ k hpre hany
  · rename_i hnone
    rw [Option.none_or, Engine.state_concat]
    refine Engine.replay_spares (fun c hc => hspares c ?_) _
    exact Bool.eq_false_iff.mpr fun hw => hnone (List.any_eq_true.mpr ⟨c, hc, hw⟩)

/-! ## Whose commits they are -/

/-- The commits of an attempt are made for the input that it was started with. -/
structure Attributed {E : Engine σ} (K : KeyLaws E) (s : State σ I α) : Prop where
  wellFormed : WellFormed K s
  active : ∀ n a, s.active n = some a → ∀ c ∈ s.shared.history, c.attempt = n → c.input = a.input
  returned : ∀ r ∈ s.returned, ∀ c ∈ s.shared.history, c.attempt = r.attempt → c.input = r.input

namespace Attributed
variable {E : Engine σ} {K : KeyLaws E} {prog : I → Session σ α} {s t : State σ I α}

theorem initial (clock : Int) (remote : σ.Remote) :
    Attributed K (Transaction.initial clock remote : State σ I α) := by
  refine ⟨WellFormed.initial clock remote, ?_, ?_⟩
  · intro n a ha
    cases ha
  · intro r hr
    cases hr

theorem leave (hs : Attributed K s) (n : Nat) : Attributed K (s.leave n) := by
  refine ⟨hs.wellFormed.leave n, fun m a ha => ?_, hs.returned⟩
  rcases update_eq_some ha with ⟨_, hv⟩ | ⟨_, ha⟩
  · cases hv
  · exact hs.active m a ha

theorem exec (hs : Attributed K s) {n : Nat} {choice : Choice}
    (hst : Transaction.step E prog s (.exec n choice) = some t) : Attributed K t := by
  have hwf := hs.wellFormed.step hst
  obtain ⟨i, o, k, p, r, p', sh, hn, hr, rfl⟩ := step_exec hst
  have hcommit : ∀ c ∈ sh.history, c ∈ s.shared.history ∨ c.attempt = n ∧ c.input = i := by
    intro c hc
    rcases respond_history hr with heq | ⟨_, heq⟩
    · exact .inl (heq ▸ hc)
    · rcases List.mem_append.mp (heq ▸ hc) with hold | hnew
      · exact .inl hold
      · obtain rfl := List.mem_singleton.mp hnew
        exact .inr ⟨rfl, rfl⟩
  refine ⟨hwf, fun m a ha c hc hm => ?_, fun ρ hρ c hc hm => ?_⟩
  · rcases update_eq_some ha with ⟨rfl, hv⟩ | ⟨hne, ha⟩
    · cases hv
      rcases hcommit c hc with hold | ⟨_, hi⟩
      · exact hs.active m _ hn c hold hm
      · exact hi
    · rcases hcommit c hc with hold | ⟨hc', _⟩
      · exact hs.active m a ha c hold hm
      · exact absurd (hm.symm.trans hc') hne
  · rcases hcommit c hc with hold | ⟨hc', _⟩
    · exact hs.returned ρ hρ c hold hm
    · exact absurd (hm.symm.trans hc') (hs.wellFormed.returned_ne hn hρ)

theorem step {l : Label σ I} (hs : Attributed K s) (hst : Transaction.step E prog s l = some t) :
    Attributed K t := by
  have hwf := hs.wellFormed.step hst
  cases l with
  | start i =>
    obtain rfl := step_start hst
    refine ⟨hwf, fun n a ha c hc hn => ?_, hs.returned⟩
    rcases update_eq_some ha with ⟨rfl, _⟩ | ⟨_, ha⟩
    · have hlt := hs.wellFormed.history_lt c hc
      omega
    · exact hs.active n a ha c hc hn
  | exec n choice => exact hs.exec hst
  | finish n =>
    obtain ⟨i, q, p, r, ha, _, rfl⟩ := step_finish hst
    refine ⟨hwf, (hs.leave n).active, fun ρ hρ c hc hm => ?_⟩
    rcases List.mem_append.mp hρ with hρ | hρ
    · exact hs.returned ρ hρ c hc hm
    · obtain rfl := List.mem_singleton.mp hρ
      exact hs.active n _ ha c hc hm
  | crash n =>
    obtain ⟨_, _, rfl⟩ := step_crash hst
    exact hs.leave n
  | tick d =>
    cases hst
    exact ⟨hwf, hs.active, hs.returned⟩
  | remote r =>
    cases hst
    exact ⟨hwf, hs.active, hs.returned⟩

end Attributed

theorem Reachable.attributed {E : Engine σ} (K : KeyLaws E) {prog : I → Session σ α}
    {s : State σ I α} (hs : Reachable E prog s) : Attributed K s := by
  obtain ⟨clock, remote, hs⟩ := hs
  exact hs.invariant (Attributed.initial clock remote) fun _ _ _ hs hst => hs.step hst

/-- What an attempt that returned has committed is in the history, for its input. -/
theorem Reachable.commit_of_returned {E : Engine σ} (K : KeyLaws E) {prog : I → Session σ α}
    {s : State σ I α} (hs : Reachable E prog s) {r : Returned σ I α} (hr : r ∈ s.returned)
    {ws : List (Change σ)} (hws : ws ∈ r.progress.committed) :
    ∃ c ∈ s.shared.history, c.input = r.input ∧ c.writes = ws := by
  have hattributed := hs.attributed K
  rw [(hattributed.wellFormed.returned r hr).2.2] at hws
  obtain ⟨c, hc, rfl⟩ := List.mem_map.mp hws
  obtain ⟨hc, hattempt⟩ := List.mem_filter.mp hc
  exact ⟨c, hc, hattributed.returned r hr c hc (beq_iff_eq.mp hattempt), rfl⟩

/-! ## The inputs of a run -/

/-- Every attempt and every commit is about an input in `P`. -/
structure Inputs (P : I → Prop) (s : State σ I α) : Prop where
  active : ∀ n a, s.active n = some a → P a.input
  committed : ∀ c ∈ s.shared.history, P c.input

theorem Inputs.mono {P Q : I → Prop} (hPQ : ∀ i, P i → Q i) {s : State σ I α} (hs : Inputs P s) :
    Inputs Q s :=
  ⟨fun n a ha => hPQ _ (hs.active n a ha), fun c hc => hPQ _ (hs.committed c hc)⟩

theorem Inputs.step {E : Engine σ} {prog : I → Session σ α} {P : I → Prop} {s t : State σ I α}
    {l : Label σ I} (hs : Inputs P s) (hstart : ∀ i, l = .start i → P i)
    (hst : Transaction.step E prog s l = some t) : Inputs P t := by
  refine ⟨fun n a ha => ?_, fun c hc => ?_⟩
  · rcases step_active hst ha with ⟨b, hb, heq⟩ | ⟨rfl, _⟩
    · exact heq ▸ hs.active n b hb
    · exact hstart a.input rfl
  · rw [step_committing hst] at hc
    rcases List.mem_append.mp hc with hc | hc
    · exact hs.committed c hc
    · unfold State.committing at hc
      split at hc
      · split at hc
        · rename_i ha
          obtain rfl := Option.some.inj (Option.mem_toList.mp hc)
          exact hs.active _ _ ha
        · cases hc
      · cases hc

end Transaction
