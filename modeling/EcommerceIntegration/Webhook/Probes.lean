import EcommerceIntegration.Webhook.Backpressure

/-!
# Concurrent calls of the guard

On one event loop a call of `evaluate` runs up to the measurement without a break. The
measurement may take any time, and other calls go on meanwhile. The probes are numbered
in the order of their starts.
-/

namespace EcommerceIntegration

set_option autoImplicit false

namespace BackpressureGuard

/-- What a probe makes of the lag. -/
def measured (settings : Settings) (lag : Nat) : BackpressureState :=
  let limit := settings.backpressureMaxLag
  ⟨decide (limit ≤ lag), lag, retryAfterFor lag limit⟩

theorem measured_injective (settings : Settings) : Function.Injective (measured settings) := by
  intro lag lag' h
  exact congrArg BackpressureState.lag h

end BackpressureGuard

structure Measurement where
  probe : Nat
  lag : Nat
  deriving DecidableEq

/-- `starts` has the times at which the probes asked for the lag, `waiting` the probes
without an answer, and `returned` what the calls of `evaluate` have returned. -/
structure ProbingState where
  guard : BackpressureGuard := {}
  clock : Nat
  starts : List Nat := []
  waiting : List Nat := []
  completed : List Measurement := []
  returned : List BackpressureState := []

inductive ProbingLabel
  | tick (d : Nat)
  /-- a call of `evaluate`; `d` passes between the two readings of the clock -/
  | evaluate (d : Nat)
  /-- `pending_lag` returns to the probe -/
  | answer (probe lag : Nat)
  /-- the call that waits is cancelled -/
  | cancel (probe : Nat)

namespace Probing

def step (settings : Settings) (s : ProbingState) : ProbingLabel → Option ProbingState
  | .tick d => some { s with clock := s.clock + d }
  | .evaluate d =>
    if s.guard.probeIsDue settings s.clock then
      let now := s.clock + d
      some { s with
        guard := { s.guard with lastProbeAt := now }
        clock := now
        starts := s.starts ++ [now]
        waiting := s.starts.length :: s.waiting }
    else some { s with returned := s.returned ++ [s.guard.state] }
  | .answer probe lag =>
    if probe ∈ s.waiting then
      let state := BackpressureGuard.measured settings lag
      some { s with
        guard := { s.guard with state }
        waiting := s.waiting.filter (· ≠ probe)
        completed := s.completed ++ [⟨probe, lag⟩]
        returned := s.returned ++ [state] }
    else none
  | .cancel probe =>
    if probe ∈ s.waiting then some { s with waiting := s.waiting.filter (· ≠ probe) } else none

def run (settings : Settings) (clock : Nat) (ls : List ProbingLabel) : Option ProbingState :=
  Transition.run (step settings) { clock } ls

/-- The probe interval in microseconds. -/
def interval (settings : Settings) : Nat := settings.backpressureProbeMs * 1000

/-! ## The rate of the probes -/

/-- The starts are an interval apart, and the guard has the last of them. -/
structure Spaced (settings : Settings) (s : ProbingState) : Prop where
  apart : s.starts.Pairwise fun a b => a + interval settings ≤ b
  before : ∀ a ∈ s.starts, a ≤ s.guard.lastProbeAt
  past : s.guard.lastProbeAt ≤ s.clock ∨ s.starts = []
  waiting : ∀ k ∈ s.waiting, k < s.starts.length

section Spaced
variable {settings : Settings} {s t : ProbingState} {l : ProbingLabel}

theorem Spaced.start (settings : Settings) (clock : Nat) : Spaced settings { clock } :=
  ⟨.nil, by simp, .inr rfl, by simp⟩

/-- The clock is read before the guard waits, so the next call finds the new start. -/
theorem Spaced.step (h : Spaced settings s) (hst : Probing.step settings s l = some t) :
    Spaced settings t := by
  obtain ⟨hapart, hbefore, hpast, hwaiting⟩ := h
  cases l with
  | tick d =>
    cases hst
    exact ⟨hapart, hbefore, hpast.imp_left fun h => Nat.le_trans h (Nat.le_add_right _ _), hwaiting⟩
  | evaluate d =>
    simp only [Probing.step] at hst
    split at hst
    · rename_i hdue
      cases hst
      have hdue : s.guard.lastProbeAt + interval settings ≤ s.clock := by
        simpa [BackpressureGuard.probeIsDue, interval] using hdue
      refine ⟨?_, ?_, .inl (Nat.le_refl _), ?_⟩
      · refine List.pairwise_append.mpr ⟨hapart, List.pairwise_singleton _ _, fun a ha b hb => ?_⟩
        have hle := hbefore a ha
        rw [List.mem_singleton.mp hb]
        omega
      · intro a ha
        rcases List.mem_append.mp ha with ha | ha
        · have hle := hbefore a ha
          dsimp only
          omega
        · rw [List.mem_singleton.mp ha]
      · intro k hk
        simp only [List.length_append, List.length_singleton]
        rcases List.mem_cons.mp hk with rfl | hk
        · omega
        · have hlt := hwaiting k hk
          omega
    · cases hst
      exact ⟨hapart, hbefore, hpast, hwaiting⟩
  | answer probe lag =>
    simp only [Probing.step] at hst
    split at hst
    · cases hst
      exact ⟨hapart, hbefore, hpast, fun k hk => hwaiting k (List.mem_of_mem_filter hk)⟩
    · cases hst
  | cancel probe =>
    simp only [Probing.step] at hst
    split at hst
    · cases hst
      exact ⟨hapart, hbefore, hpast, fun k hk => hwaiting k (List.mem_of_mem_filter hk)⟩
    · cases hst

theorem run_spaced {clock : Nat} {ls : List ProbingLabel} (hrun : run settings clock ls = some s) :
    Spaced settings s :=
  Transition.run_invariant (fun _ _ _ h hst => h.step hst) (Spaced.start settings clock) hrun

end Spaced

/-- Times that are `gap` apart, between `lo` and `hi`. -/
theorem spaced_length {gap lo hi : Nat} {times : List Nat}
    (hapart : times.Pairwise fun a b => a + gap ≤ b) (hin : ∀ a ∈ times, lo ≤ a ∧ a ≤ hi)
    (hle : lo ≤ hi + gap) : times.length * gap + lo ≤ hi + gap := by
  induction times generalizing lo with
  | nil => simpa using hle
  | cons a times ih =>
    obtain ⟨hhead, hrest⟩ := List.pairwise_cons.mp hapart
    obtain ⟨hlo, hhi⟩ := hin a List.mem_cons_self
    have hnext := @ih (a + gap) hrest
      (fun b hb => ⟨hhead b hb, (hin b (List.mem_cons_of_mem _ hb)).2⟩) (by omega)
    rw [List.length_cons, Nat.add_mul, Nat.one_mul]
    omega

/-- However many calls there are, the probes start an interval apart, and a window of any
length has no more of them than fit. -/
theorem probes_rateLimited {settings : Settings} {clock : Nat} {ls : List ProbingLabel}
    {s : ProbingState} (hrun : run settings clock ls = some s) :
    s.starts.Pairwise (fun a b => a + interval settings ≤ b) ∧
    ∀ first length, 0 < interval settings →
      (s.starts.filter fun a => decide (first ≤ a ∧ a ≤ first + length)).length ≤
        length / interval settings + 1 := by
  have hspaced := run_spaced hrun
  refine ⟨hspaced.apart, fun first length hpos => ?_⟩
  have hin : ∀ a ∈ s.starts.filter fun a => decide (first ≤ a ∧ a ≤ first + length),
      first ≤ a ∧ a ≤ first + length := fun a ha => by simpa using (List.mem_filter.mp ha).2
  have hcount := spaced_length (hspaced.apart.filter _) hin (by omega)
  rw [← Nat.add_div_right _ hpos, Nat.le_div_iff_mul_le hpos]
  omega

/-! ## Answers out of turn -/

/-- The stored state, and the flag that was returned last, are those of the probe that
started last among the completed ones. -/
def Latest (settings : Settings) (s : ProbingState) : Prop :=
  ∀ p ∈ s.completed, (∀ q ∈ s.completed, q.probe ≤ p.probe) →
    s.guard.state = BackpressureGuard.measured settings p.lag ∧
      ∀ b ∈ s.returned.getLast?, b.overloaded = decide (settings.backpressureMaxLag ≤ p.lag)

/-- A probe changes nothing once one that started later has been completed. -/
def KeepsNewer (settings : Settings) (s : ProbingState) (l : ProbingLabel) : Prop :=
  ∀ t, step settings s l = some t → ∀ probe lag, l = .answer probe lag →
    (∃ q ∈ s.completed, probe < q.probe) → t.guard.state = s.guard.state

/-- The measurements are up to date all along the run. -/
structure UpToDate (settings : Settings) (clock : Nat) (ls : List ProbingLabel) : Prop where
  kept : Transition.Along (step settings) (KeepsNewer settings) { clock } ls
  latest : ∀ ks ms s, ls = ks ++ ms → run settings clock ks = some s → Latest settings s

/-- A probe is answered before those that started later, or with the lag that the last of
these has found. -/
def InTurn (s : ProbingState) : ProbingLabel → Prop
  | .answer probe lag => ∀ q ∈ s.completed, (∀ r ∈ s.completed, r.probe ≤ q.probe) →
    q.probe < probe ∨ lag = q.lag
  | _ => True

instance (s : ProbingState) : (l : ProbingLabel) → Decidable (InTurn s l)
  | .answer probe lag => inferInstanceAs (Decidable (∀ q ∈ s.completed,
      (∀ r ∈ s.completed, r.probe ≤ q.probe) → q.probe < probe ∨ lag = q.lag))
  | .tick _ => .isTrue trivial
  | .evaluate _ => .isTrue trivial
  | .cancel _ => .isTrue trivial

theorem exists_latest {completed : List Measurement} (hne : completed ≠ []) :
    ∃ p ∈ completed, ∀ q ∈ completed, q.probe ≤ p.probe := by
  induction completed with
  | nil => exact absurd rfl hne
  | cons a completed ih =>
    by_cases hrest : completed = []
    · exact ⟨a, by simp, by simp [hrest]⟩
    · obtain ⟨p, hp, hle⟩ := ih hrest
      rcases Nat.le_total p.probe a.probe with h | h
      · refine ⟨a, by simp, fun q hq => ?_⟩
        rcases List.mem_cons.mp hq with rfl | hq
        · exact Nat.le_refl _
        · exact Nat.le_trans (hle q hq) h
      · refine ⟨p, List.mem_cons_of_mem _ hp, fun q hq => ?_⟩
        rcases List.mem_cons.mp hq with rfl | hq
        · exact h
        · exact hle q hq

section Latest
variable {settings : Settings} {s t : ProbingState} {l : ProbingLabel}

/-- A call returns what is stored when it returns. -/
def Current (s : ProbingState) : Prop := ∀ b ∈ s.returned.getLast?, b = s.guard.state

theorem Current.step (h : Current s) (hst : Probing.step settings s l = some t) : Current t := by
  cases l with
  | tick d =>
    cases hst
    exact h
  | evaluate d =>
    simp only [Probing.step] at hst
    split at hst <;> cases hst
    · exact h
    · simp [Current]
  | answer probe lag =>
    simp only [Probing.step] at hst
    split at hst <;> cases hst
    simp [Current]
  | cancel probe =>
    simp only [Probing.step] at hst
    split at hst <;> cases hst
    exact h

theorem run_current {clock : Nat} {ls : List ProbingLabel}
    (hrun : run settings clock ls = some s) : Current s := by
  refine Transition.run_invariant (fun _ _ _ h hst => Current.step h hst) ?_ hrun
  simp [Current]

/-- Only an answer changes what is stored. -/
theorem step_stored (hst : step settings s l = some t) :
    (t.guard.state = s.guard.state ∧ t.completed = s.completed ∧ ∀ probe lag, l ≠ .answer probe lag) ∨
    ∃ probe lag, l = .answer probe lag ∧ probe ∈ s.waiting ∧
      t.guard.state = BackpressureGuard.measured settings lag ∧
      t.completed = s.completed ++ [⟨probe, lag⟩] := by
  cases l with
  | tick d =>
    cases hst
    exact .inl ⟨rfl, rfl, by simp⟩
  | evaluate d =>
    simp only [Probing.step] at hst
    split at hst <;> cases hst <;> exact .inl ⟨rfl, rfl, by simp⟩
  | answer probe lag =>
    simp only [Probing.step] at hst
    split at hst
    · rename_i hwaiting
      cases hst
      exact .inr ⟨probe, lag, rfl, hwaiting, rfl, rfl⟩
    · cases hst
  | cancel probe =>
    simp only [Probing.step] at hst
    split at hst <;> cases hst
    exact .inl ⟨rfl, rfl, by simp⟩

/-- What is stored comes from the probe that started last. -/
def StoresLatest (settings : Settings) (s : ProbingState) : Prop :=
  ∀ p ∈ s.completed, (∀ q ∈ s.completed, q.probe ≤ p.probe) →
    s.guard.state = BackpressureGuard.measured settings p.lag

theorem StoresLatest.latest (h : StoresLatest settings s) (hcurrent : Current s) :
    Latest settings s := by
  intro p hp hlast
  have hstate := h p hp hlast
  refine ⟨hstate, fun b hb => ?_⟩
  rw [hcurrent b hb, hstate]
  rfl

theorem StoresLatest.step (h : StoresLatest settings s) (hturn : InTurn s l)
    (hst : Probing.step settings s l = some t) : StoresLatest settings t := by
  intro p hp hlast
  rcases step_stored hst with ⟨hstate, hcompleted, _⟩ | ⟨probe, lag, rfl, _, hstate, hcompleted⟩
  · rw [hcompleted] at hp hlast
    rw [hstate]
    exact h p hp hlast
  · rw [hcompleted] at hp hlast
    rw [hstate]
    rcases List.mem_append.mp hp with hp | hp
    · have hbefore : ∀ q ∈ s.completed, q.probe ≤ p.probe :=
        fun q hq => hlast q (List.mem_append_left _ hq)
      have hle : probe ≤ p.probe := hlast ⟨probe, lag⟩ (by simp)
      rcases hturn p hp hbefore with hlt | rfl
      · omega
      · rfl
    · rw [List.mem_singleton.mp hp]

/-- An answer that has been overtaken brings what is stored already. -/
theorem StoresLatest.keepsNewer (h : StoresLatest settings s) (hturn : InTurn s l) :
    KeepsNewer settings s l := by
  rintro t hst probe lag rfl ⟨q, hq, hlt⟩
  obtain ⟨r, hr, hlast⟩ := exists_latest (List.ne_nil_of_mem hq)
  rcases step_stored hst with ⟨_, _, hnot⟩ | ⟨_, _, heq, _, hstate, _⟩
  · exact absurd rfl (hnot probe lag)
  · cases heq
    rw [hstate, h r hr hlast]
    have hle := hlast q hq
    rcases hturn r hr hlast with hlt' | rfl
    · omega
    · rfl

end Latest

/-- Measurements stay up to date exactly when the probes are answered in turn. -/
theorem upToDate_iff {settings : Settings} {clock : Nat} {ls : List ProbingLabel}
    {s : ProbingState} (hrun : run settings clock ls = some s) :
    UpToDate settings clock ls ↔ Transition.Along (step settings) InTurn { clock } ls := by
  have hstart : StoresLatest settings { clock } := fun p hp => by cases hp
  constructor
  · rintro ⟨_, hlatest⟩
    refine Transition.along_iff.mpr fun ks l ms u heq hbefore => ?_
    subst heq
    obtain ⟨u', hu', hrest⟩ := Transition.run_append_eq_some.mp hrun
    cases hbefore.symm.trans hu'
    obtain ⟨v, hst, _⟩ := Transition.run_cons_eq_some.mp hrest
    have hafter : run settings clock (ks ++ [l]) = some v :=
      Transition.run_concat_eq_some.mpr ⟨u, hbefore, hst⟩
    rcases step_stored hst with ⟨_, _, hnot⟩ | ⟨probe, lag, rfl, _, hstate, hcompleted⟩
    · cases l with
      | answer probe lag => exact absurd rfl (hnot probe lag)
      | tick | evaluate | cancel => trivial
    · intro q hq hlast
      by_contra hnone
      obtain ⟨hle, hne⟩ := not_or.mp hnone
      have hnew := (hlatest (ks ++ [.answer probe lag]) ms v (by simp) hafter q
        (by simp [hcompleted, hq]) (by
          intro r hr
          rw [hcompleted] at hr
          rcases List.mem_append.mp hr with hr | hr
          · exact hlast r hr
          · rw [List.mem_singleton.mp hr]
            exact Nat.le_of_not_lt hle)).1
      exact hne (BackpressureGuard.measured_injective settings (hstate.symm.trans hnew))
  · intro hturn
    have hstores : ∀ ks ms u, ls = ks ++ ms → run settings clock ks = some u →
        StoresLatest settings u := by
      rintro ks ms u rfl hbefore
      exact Transition.run_invariant_along (fun _ _ _ h ht hst => h.step ht hst) hstart
        (Transition.along_append_iff.mp hturn).1 hbefore
    refine ⟨Transition.along_iff.mpr fun ks l ms u heq hbefore => ?_, fun ks ms u heq hbefore => ?_⟩
    · exact (hstores ks (l :: ms) u heq hbefore).keepsNewer
        (Transition.along_iff.mp hturn ks l ms u heq hbefore)
    · exact (hstores ks ms u heq hbefore).latest (run_current hbefore)

/-! ## Answers within the interval -/

/-- The lag arrives before the next probe is due. -/
def Prompt (settings : Settings) (s : ProbingState) : ProbingLabel → Prop
  | .answer probe _ => ∀ a, s.starts[probe]? = some a → s.clock < a + interval settings
  | _ => True

/-- A completed probe has been started and waits no more. -/
def Numbered (s : ProbingState) : Prop :=
  ∀ q ∈ s.completed, q.probe < s.starts.length ∧ q.probe ∉ s.waiting

section Prompt
variable {settings : Settings} {s t : ProbingState} {l : ProbingLabel}

theorem Numbered.step (h : Numbered s) (hspaced : Spaced settings s)
    (hst : Probing.step settings s l = some t) : Numbered t := by
  cases l with
  | tick d =>
    cases hst
    exact h
  | evaluate d =>
    simp only [Probing.step] at hst
    split at hst <;> cases hst
    · intro q hq
      obtain ⟨hlt, hnot⟩ := h q hq
      have hne : q.probe ≠ s.starts.length := Nat.ne_of_lt hlt
      simp only [List.length_append, List.length_singleton, List.mem_cons]
      exact ⟨by omega, fun hmem => hmem.elim hne hnot⟩
    · exact h
  | answer probe lag =>
    simp only [Probing.step] at hst
    split at hst
    · rename_i hwaiting
      cases hst
      intro q hq
      rcases List.mem_append.mp hq with hq | hq
      · obtain ⟨hlt, hnot⟩ := h q hq
        exact ⟨hlt, fun hmem => hnot (List.mem_of_mem_filter hmem)⟩
      · rw [List.mem_singleton.mp hq]
        exact ⟨hspaced.waiting probe hwaiting, by simp⟩
    · cases hst
  | cancel probe =>
    simp only [Probing.step] at hst
    split at hst
    · cases hst
      intro q hq
      obtain ⟨hlt, hnot⟩ := h q hq
      exact ⟨hlt, fun hmem => hnot (List.mem_of_mem_filter hmem)⟩
    · cases hst

theorem run_numbered {clock : Nat} {ls : List ProbingLabel}
    (hrun : run settings clock ls = some s) : Numbered s := by
  have hstart : Spaced settings { clock } ∧ Numbered { clock } :=
    ⟨Spaced.start settings clock, fun q hq => by cases hq⟩
  have hstep : ∀ s l t, Spaced settings s ∧ Numbered s → step settings s l = some t →
      Spaced settings t ∧ Numbered t :=
    fun _ _ _ h hst => ⟨h.1.step hst, h.2.step h.1 hst⟩
  exact (Transition.run_invariant hstep hstart hrun).2

/-- While a probe waits for less than the interval, no other has been started. -/
theorem Spaced.inTurn (hspaced : Spaced settings s) (hnumbered : Numbered s)
    (hprompt : Prompt settings s l) (hst : Probing.step settings s l = some t) : InTurn s l := by
  rcases step_stored hst with ⟨_, _, hnot⟩ | ⟨probe, lag, rfl, hwaiting, _, _⟩
  · cases l with
    | answer probe lag => exact absurd rfl (hnot probe lag)
    | tick | evaluate | cancel => trivial
  · intro q hq _
    obtain ⟨hlt, hnot⟩ := hnumbered q hq
    have hprobe := hspaced.waiting probe hwaiting
    rcases Nat.lt_trichotomy q.probe probe with hbefore | rfl | hafter
    · exact .inl hbefore
    · exact absurd hwaiting hnot
    · have hsoon := hprompt _ (List.getElem?_eq_getElem hprobe)
      have hapart := List.pairwise_iff_getElem.mp hspaced.apart probe q.probe hprobe hlt hafter
      have hle := hspaced.before _ (List.getElem_mem hlt)
      rcases hspaced.past with hpast | hnone
      · omega
      · rw [hnone] at hlt
        cases hlt

/-- Lags that arrive within the interval arrive in turn. -/
theorem inTurn_of_prompt {clock : Nat} {ls : List ProbingLabel}
    (hrun : run settings clock ls = some s)
    (hprompt : Transition.Along (step settings) (Prompt settings) { clock } ls) :
    Transition.Along (step settings) InTurn { clock } ls := by
  refine Transition.along_iff.mpr fun ks l ms u heq hbefore => ?_
  subst heq
  obtain ⟨u', hu', hrest⟩ := Transition.run_append_eq_some.mp hrun
  cases hbefore.symm.trans hu'
  obtain ⟨v, hst, _⟩ := Transition.run_cons_eq_some.mp hrest
  exact (run_spaced hbefore).inTurn (run_numbered hbefore)
    (Transition.along_iff.mp hprompt ks l ms u rfl hbefore) hst

end Prompt

/-! ## Two probes under way -/

/-- The second probe starts while the first waits. -/
def twoProbes : List ProbingLabel := [.evaluate 0, .tick 500000, .evaluate 0]

def answeredInTurn : List ProbingLabel := twoProbes ++ [.answer 0 200000, .answer 1 0]

def answeredLate : List ProbingLabel := twoProbes ++ [.answer 1 0, .answer 0 200000]

theorem probes_rateLimited_twoProbes :
    ((run {} 500000 twoProbes).get (by decide)).starts.Pairwise (fun a b => a + 500000 ≤ b) ∧
      (((run {} 500000 twoProbes).get (by decide)).starts.filter fun a =>
        decide (500000 ≤ a ∧ a ≤ 500000 + 500000)).length ≤ 2 :=
  have hlimited := @probes_rateLimited {} 500000 twoProbes _ (Option.some_get _).symm
  ⟨hlimited.1, hlimited.2 500000 500000 (by decide)⟩

theorem upToDate_answeredInTurn : UpToDate {} 500000 answeredInTurn :=
  (upToDate_iff (Option.some_get (by decide)).symm).mpr (by decide)

/-- The first probe answers last and the guard turns events away, although the second
has found no lag. -/
theorem not_upToDate : ¬ ∀ (settings : Settings) (clock : Nat) (ls : List ProbingLabel) s,
    run settings clock ls = some s → UpToDate settings clock ls := by
  intro hall
  have hrun := (Option.some_get (x := run {} 500000 answeredLate) (by decide)).symm
  have hflag := ((hall {} 500000 answeredLate _ hrun).latest answeredLate [] _ rfl hrun ⟨1, 0⟩
    (by decide) (by decide)).2 _ rfl
  revert hflag
  decide

end Probing

end EcommerceIntegration
