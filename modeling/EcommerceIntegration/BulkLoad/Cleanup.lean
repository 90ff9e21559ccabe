import EcommerceIntegration.BulkLoad.Staging

/-!
# The cleanup and the loads

The cleanup waits for the validation alone. Where a load has failed for good, the tasks
between are given up at once, and the cleanup goes on while other loads still run.
-/

namespace EcommerceIntegration.BulkLoad

set_option autoImplicit false

open Workflow

namespace DagRun
variable {p : LoadParams} {s t : DagRun} {l : DagLabel}

def LoadsFinal (p : LoadParams) (s : DagRun) : Prop :=
  ∀ k < p.chunks.length, (s.schedule.status (.generateAndLoad k)).final = true

/-- The file that the step of the cleanup deletes. -/
def deleting (s : DagRun) : DagLabel → Option Nat
  | .act .cleanup =>
    match s.position .cleanup with
    | .deleting (k :: _) => some k
    | _ => none
  | _ => none

/-- If the step deletes a file, all loads are over, and nobody works on the file. -/
def DeletesLate (p : LoadParams) (s : DagRun) (l : DagLabel) : Prop :=
  ∀ k, s.deleting l = some k →
    LoadsFinal p s ∧ s.schedule.status (.generateAndLoad k) ≠ .running

def Ended (p : LoadParams) (s : DagRun) : Prop :=
  (∀ t ∈ [Task.prepareStaging, .plan, .loadFact, .validateLoad, .cleanup],
    (s.schedule.status t).final = true) ∧ LoadsFinal p s

/-- No file is left at the end, if the cleanup itself has not failed. -/
def EndsClean (p : LoadParams) (s : DagRun) : Prop :=
  Ended p s → s.schedule.status .cleanup ≠ .failed → s.files = []

/-- If a load fails for good in the step, the other loads are over. -/
def Orderly (p : LoadParams) (s : DagRun) : DagLabel → Prop
  | .fail (.generateAndLoad k) => p.dag.lastTry s.schedule (.generateAndLoad k) = true →
      ∀ j < p.chunks.length, j ≠ k → (s.schedule.status (.generateAndLoad j)).final = true
  | _ => True

instance (p : LoadParams) (s : DagRun) : (l : DagLabel) → Decidable (Orderly p s l)
  | .fail (.generateAndLoad k) =>
    inferInstanceAs (Decidable (p.dag.lastTry s.schedule (.generateAndLoad k) = true →
      ∀ j < p.chunks.length, j ≠ k → (s.schedule.status (.generateAndLoad j)).final = true))
  | .fail .prepareStaging | .fail .plan | .fail .loadFact | .fail .validateLoad | .fail .cleanup =>
    .isTrue trivial
  | .start _ | .act _ | .succeed _ | .giveUpLoads | .giveUp _ => .isTrue trivial

/-! ## The loads -/

structure Ordered (p : LoadParams) (s : DagRun) : Prop where
  consistent : Workflow.Consistent p.dag s.schedule
  mapped : ∀ k, (s.schedule.status (.generateAndLoad k)).started = true → k < p.chunks.length
  failed : ∀ k, s.schedule.status (.generateAndLoad k) = .failed → LoadsFinal p s
  givenUp : ∀ k, s.schedule.status (.generateAndLoad k) = .upstreamFailed → LoadsFinal p s

theorem LoadsFinal.step (hs : LoadsFinal p s) (h : step p s l = some t) : LoadsFinal p t := by
  intro k hk
  rw [final_step h (hs k hk)]
  exact hs k hk

theorem Ordered.initial (files : List Nat) (staging fact : List StagedRow) :
    Ordered p (initial files staging fact) where
  consistent := Workflow.Consistent.initial
  mapped := by
    intro k hk
    cases hk
  failed := by
    intro k hk
    cases hk
  givenUp := by
    intro k hk
    cases hk

/-- The loads are given up together. -/
theorem giveUp_loads {ts : List Task} {k : Nat} (hevent : event p l = some (.giveUp ts))
    (hmem : .generateAndLoad k ∈ ts) (h : step p s l = some t) : LoadsFinal p t := by
  cases step_stepped h with
  | act => cases hevent
  | start => cases hevent
  | @scheduled l e schedule hevent' hst _ _ halone =>
    obtain rfl := Option.some.inj (hevent.symm.trans hevent')
    obtain rfl : ts = p.loads := by
      cases l with
      | giveUpLoads => exact (Event.giveUp.inj (Option.some.inj hevent)).symm
      | giveUp τ =>
        cases hevent
        obtain rfl := List.mem_singleton.mp hmem
        exact absurd (halone _ rfl) (by simp [DagRun.mapped])
      | start | act | succeed | fail => cases hevent
    intro j hj
    have hj' : Task.generateAndLoad j ∈ p.loads :=
      List.mem_map.mpr ⟨j, List.mem_range.mpr hj, rfl⟩
    rw [step_giveUp hst hj']
    rfl

theorem Ordered.step (hs : Ordered p s) (hl : Orderly p s l) (h : step p s l = some t) :
    Ordered p t := by
  refine ⟨consistent_step hs.consistent h, fun k hk => ?_, fun k hk => ?_, fun k hk => ?_⟩
  · rcases step_schedule h with heq | ⟨e, hevent, hst⟩
    · exact hs.mapped k (heq ▸ hk)
    · rcases started_back hst hk with hold | rfl
      · exact hs.mapped k hold
      · obtain rfl := event_start hevent
        cases step_stepped h with
        | start _ hadmitted => exact (of_decide_eq_true hadmitted).1
        | scheduled _ _ hnot => exact absurd rfl (hnot _)
  · rcases step_schedule h with heq | ⟨e, hevent, hst⟩
    · exact (hs.failed k (heq ▸ hk)).step h
    · rcases failed_back hst hk with hold | ⟨rfl, hlast⟩
      · exact (hs.failed k hold).step h
      · intro j hj
        by_cases hjk : j = k
        · rw [hjk, hk]
          rfl
        · obtain rfl := event_fail hevent
          have hfinal := hl hlast j hj hjk
          rw [final_step h hfinal]
          exact hfinal
  · rcases step_schedule h with heq | ⟨e, hevent, hst⟩
    · exact (hs.givenUp k (heq ▸ hk)).step h
    · rcases givenUp_back hst hk with hold | ⟨ts, rfl, hmem⟩
      · exact (hs.givenUp k hold).step h
      · exact giveUp_loads hevent hmem h

/-- The cleanup is started when all loads are over. -/
theorem Ordered.loadsFinal (hs : Ordered p s)
    (hcleanup : (s.schedule.status .cleanup).started = true) : LoadsFinal p s := by
  have hfact : (s.schedule.status .loadFact).started = true → LoadsFinal p s := by
    intro hstarted k hk
    have hmem : Task.generateAndLoad k ∈ p.loads :=
      List.mem_map.mpr ⟨k, List.mem_range.mpr hk, rfl⟩
    rw [hs.consistent.upstream_success hstarted rfl hmem]
    rfl
  have hvalidate : (s.schedule.status .validateLoad).started = true → LoadsFinal p s := by
    intro hstarted
    refine hfact ?_
    rw [hs.consistent.upstream_success hstarted rfl (List.mem_singleton.mpr rfl)]
    rfl
  have hfinal := hs.consistent.upstream_final hcleanup rfl
    (show Task.validateLoad ∈ _ from List.mem_singleton.mpr rfl)
  rcases Status.final_cases hfinal with heq | heq | heq
  · exact hvalidate (by rw [heq]; rfl)
  · exact hvalidate (by rw [heq]; rfl)
  obtain ⟨_, u, hu, hbroken⟩ := hs.consistent.upstream_broken heq
  obtain rfl := List.mem_singleton.mp hu
  rcases Status.broken_cases hbroken with heq | heq
  · exact hfact (by rw [heq]; rfl)
  obtain ⟨_, v, hv, hbroken⟩ := hs.consistent.upstream_broken heq
  obtain ⟨k, _, rfl⟩ := List.mem_map.mp hv
  rcases Status.broken_cases hbroken with heq | heq
  · exact hs.failed k heq
  · exact hs.givenUp k heq

/-! ## The files -/

/-- While the cleanup deletes, the files that are left are still on its list. -/
structure Tidy (p : LoadParams) (s : DagRun) : Prop where
  ordered : Ordered p s
  listed : s.schedule.status .cleanup = .running → ∀ names,
    s.position .cleanup = .deleting names → s.files ⊆ names
  clean : (s.schedule.status .cleanup = .running ∧ s.position .cleanup = .done) ∨
    s.schedule.status .cleanup = .success → s.files = []

theorem Tidy.initial (files : List Nat) (staging fact : List StagedRow) :
    Tidy p (initial files staging fact) where
  ordered := Ordered.initial files staging fact
  listed := by
    intro h
    cases h
  clean := by
    rintro (⟨h, _⟩ | h) <;> cases h

/-- Only the cleanup works on files once it is started. -/
theorem Did.files {s' : DagRun} {τ : Task} {position : Position} (hs : Ordered p s)
    (hrunning : s.schedule.status τ = .running) (hdid : Did p s τ (s.position τ) s' position)
    (hτ : τ ≠ .cleanup) (hcleanup : (s.schedule.status .cleanup).started = true) :
    s'.files = s.files := by
  have hload : ∀ k, τ ≠ .generateAndLoad k := by
    rintro k rfl
    have hlt := hs.mapped k (by rw [hrunning]; rfl)
    have hfinal := hs.loadsFinal hcleanup k hlt
    rw [hrunning] at hfinal
    cases hfinal
  generalize s.position τ = old at hdid
  cases hdid with
  | create | written | batch | remove => exact absurd rfl (hload _)
  | list | delete | cleaned => exact absurd rfl hτ
  | prepare | plan | truncate | copy | count | validate => rfl

theorem Tidy.step (hs : Tidy p s) (hl : Orderly p s l) (h : step p s l = some t) : Tidy p t := by
  have hordered := hs.ordered.step hl h
  cases step_stepped h with
  | @act τ s' position hrunning hdid =>
    obtain ⟨hschedule, _⟩ := hdid.frame
    by_cases hτ : τ = .cleanup
    · subst hτ
      refine ⟨hordered, fun _ names hnames => ?_, fun hdone => ?_⟩
      · simp only [Function.update_self] at hnames
        subst hnames
        generalize hold : s.position .cleanup = old at hdid
        cases hdid with
        | list => exact fun k hk => hk
        | @delete k names _ =>
          intro j hj
          obtain ⟨hj, hne⟩ := List.mem_filter.mp hj
          rcases List.mem_cons.mp (hs.listed hrunning _ hold hj) with rfl | hmem
          · simp at hne
          · exact hmem
      · simp only [Function.update_self, hschedule, hrunning, true_and] at hdone
        rcases hdone with rfl | hsuccess
        · generalize hold : s.position .cleanup = old at hdid
          cases hdid with
          | cleaned => exact List.subset_nil.mp (hs.listed hrunning [] hold)
        · cases hsuccess
    · have hkept : (s.schedule.status .cleanup).started = true → s'.files = s.files :=
        hdid.files hs.ordered hrunning hτ
      refine ⟨hordered, fun hcleanup names hnames => ?_, fun hdone => ?_⟩
      · simp only [Function.update_of_ne (Ne.symm hτ)] at hnames
        rw [hschedule] at hcleanup
        simp only [hkept (by rw [hcleanup]; rfl)]
        exact hs.listed hcleanup names hnames
      · simp only [Function.update_of_ne (Ne.symm hτ), hschedule] at hdone
        have hstarted : (s.schedule.status .cleanup).started = true := by
          rcases hdone with ⟨heq, _⟩ | heq <;> rw [heq] <;> rfl
        simp only [hkept hstarted]
        exact hs.clean hdone
  | @start τ schedule hst _ =>
    by_cases hτ : τ = .cleanup
    · subst hτ
      obtain ⟨_, hrunning⟩ := step_start hst
      refine ⟨hordered, fun _ names hnames => ?_, fun hdone => ?_⟩
      · simp at hnames
      · simp [hrunning] at hdone
    · have hother : Task.cleanup ∉ (Event.start τ).tasks :=
        fun hmem => hτ (List.mem_singleton.mp hmem).symm
      have hsame := step_other hst hother
      refine ⟨hordered, fun hcleanup names hnames => ?_, fun hdone => ?_⟩
      · simp only [Function.update_of_ne (Ne.symm hτ)] at hnames
        exact hs.listed (hsame ▸ hcleanup) names hnames
      · simp only [Function.update_of_ne (Ne.symm hτ), hsame] at hdone
        exact hs.clean hdone
  | @scheduled l e schedule hevent hst hnot hdone _ =>
    have hmoved := step_moved hst .cleanup
    generalize hnew : schedule.status .cleanup = x at hmoved
    cases hmoved with
    | stay _ => exact ⟨hordered, fun h => hs.listed (hnew ▸ h), fun h => hs.clean (hnew ▸ h)⟩
    | start => exact absurd (event_start hevent) (hnot _)
    | succeed hrunning =>
      refine ⟨hordered, fun h => ?_, fun _ => ?_⟩
      · simp [hnew] at h
      · exact hs.clean (.inl ⟨hrunning, hdone _ (event_succeed hevent)⟩)
    | retry | fail | giveUp =>
      refine ⟨hordered, fun h => ?_, fun h => ?_⟩
      · simp [hnew] at h
      · simp [hnew] at h

/-- Where no load fails for good before the others are over, the cleanup comes after all
loads and leaves no file. -/
theorem cleanup_waits {files : List Nat} {staging fact : List StagedRow} {ls : List DagLabel}
    (horderly : Transition.Along (step p) (Orderly p) (initial files staging fact) ls)
    (hrun : run p (initial files staging fact) ls = some s) :
    Transition.Along (step p) (DeletesLate p) (initial files staging fact) ls ∧ EndsClean p s := by
  have hinv : ∀ {ks u}, Transition.Along (step p) (Orderly p) (initial files staging fact) ks →
      Transition.run (step p) (initial files staging fact) ks = some u → Tidy p u := by
    intro ks u hks hu
    exact Transition.run_invariant_along (fun _ _ _ hs hl hst => hs.step hl hst)
      (Tidy.initial files staging fact) hks hu
  constructor
  · rw [Transition.along_iff]
    rintro ks l ms u rfl hbefore k hk
    have hu := (hinv (Transition.along_append horderly).1 hbefore).ordered
    obtain ⟨u', hu', hrest⟩ := Transition.run_append_eq_some.mp hrun
    obtain rfl := Option.some.inj (hbefore.symm.trans hu')
    obtain ⟨v, hst, _⟩ := Transition.run_cons_eq_some.mp hrest
    have hrunning : u.schedule.status .cleanup = .running := by
      unfold deleting at hk
      split at hk
      · cases step_stepped hst with
        | act hrunning => exact hrunning
        | scheduled hevent => cases hevent
      · cases hk
    have hfinal := hu.loadsFinal (by rw [hrunning]; rfl)
    refine ⟨hfinal, fun hload => ?_⟩
    have hlt := hu.mapped k (by rw [hload]; rfl)
    have hover := hfinal k hlt
    rw [hload] at hover
    cases hover
  · intro hended hnot
    have hs := hinv horderly hrun
    rcases Status.final_cases (hended.1 .cleanup (by simp)) with heq | heq | heq
    · exact hs.clean (.inr heq)
    · exact absurd heq hnot
    · exact absurd (hs.ordered.consistent.upstream_broken heq).1 (by simp [LoadParams.dag])

end DagRun

/-! ## A load that fails for good -/

namespace Sample
open DagRun

/-- A try of the load of the chunk that fails with the file open. -/
def broken (k : Nat) : List DagLabel :=
  acts (.generateAndLoad k) 1 ++ [.fail (.generateAndLoad k)]

def givenUp : List DagLabel := [.giveUp .loadFact, .giveUp .validateLoad]

/-- The second load fails when the first is over. -/
def lastFails : List DagLabel :=
  prepared ++ whole (.generateAndLoad 0) 4 ++ broken 1 ++ broken 1 ++ broken 1 ++ givenUp ++
    whole .cleanup 3

/-- The first load has failed, the second has its file loaded. -/
def firstFails : List DagLabel :=
  prepared ++ broken 0 ++ broken 0 ++ broken 0 ++ acts (.generateAndLoad 1) 3 ++ givenUp ++
    acts .cleanup 1

/-- The file is gone when the load wants to remove it; the next tries leave it again. -/
def fileMissing : List DagLabel :=
  .act .cleanup :: [.act .cleanup, .act .cleanup, .succeed .cleanup, .fail (.generateAndLoad 1)] ++
    broken 1 ++ broken 1

def start : DagRun := initial [] [] []

def lastFailsEnd : DagRun := (DagRun.run params start lastFails).get (by decide +kernel)

def firstFailsEnd : DagRun := (DagRun.run params start firstFails).get (by decide +kernel)

def fileMissingEnd : DagRun :=
  (DagRun.run params start (firstFails ++ fileMissing)).get (by decide +kernel)

end Sample

namespace DagRun

theorem cleanup_waits_lastFails :
    Transition.Along (step Sample.params) (DeletesLate Sample.params) Sample.start
      Sample.lastFails ∧ EndsClean Sample.params Sample.lastFailsEnd :=
  cleanup_waits (by decide +kernel) (Option.some_get _).symm

/-- The cleanup deletes the file of a load that is running, and leaves a file. -/
theorem cleanup_races :
    (¬ ∀ (p : LoadParams) (files : List Nat) (staging fact : List StagedRow) (ls : List DagLabel)
      (s : DagRun), run p (initial files staging fact) ls = some s →
      Transition.Along (step p) (DeletesLate p) (initial files staging fact) ls) ∧
    ¬ ∀ (p : LoadParams) (files : List Nat) (staging fact : List StagedRow) (ls : List DagLabel)
      (s : DagRun), run p (initial files staging fact) ls = some s → EndsClean p s := by
  have hrun : run Sample.params Sample.start (Sample.firstFails ++ Sample.fileMissing) =
      some Sample.fileMissingEnd := (Option.some_get _).symm
  constructor
  · intro hall
    have hlate := hall Sample.params [] [] [] _ _ hrun
    obtain ⟨_, hidle⟩ := Transition.along_at hlate
      (show run Sample.params Sample.start Sample.firstFails = some Sample.firstFailsEnd from
        (Option.some_get _).symm) 1 (by decide +kernel)
    exact hidle (by decide +kernel)
  · intro hall
    have hnone := hall Sample.params [] [] [] _ _ hrun (by unfold Ended LoadsFinal; decide +kernel)
      (by decide +kernel)
    have hfiles : Sample.fileMissingEnd.files = [1] := by decide +kernel
    rw [hfiles] at hnone
    cases hnone

end DagRun

end EcommerceIntegration.BulkLoad
