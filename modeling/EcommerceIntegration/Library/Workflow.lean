import EcommerceIntegration.Library.Transition
import Mathlib.Logic.Function.Basic

/-!
# Scheduling a graph of tasks

A task runs when its trigger rule is met by the tasks right above it. A try that fails
is repeated until the retries are used up. A task that needs success above it is given up
as soon as one task above it is.
-/

namespace Workflow

set_option autoImplicit false

inductive TriggerRule
  | allSuccess
  | allDone
  deriving DecidableEq

inductive Status
  | none
  | running
  | upForRetry
  | success
  | failed
  | upstreamFailed
  deriving DecidableEq

namespace Status

def final : Status → Bool
  | success | failed | upstreamFailed => true
  | none | running | upForRetry => false

def broken : Status → Bool
  | failed | upstreamFailed => true
  | none | running | upForRetry | success => false

/-- The task has been started. -/
def started : Status → Bool
  | running | upForRetry | success | failed => true
  | none | upstreamFailed => false

theorem final_of_broken {x : Status} (h : x.broken = true) : x.final = true := by
  cases x <;> first | rfl | cases h

theorem final_cases {x : Status} (h : x.final = true) :
    x = success ∨ x = failed ∨ x = upstreamFailed := by
  cases x <;> simp [final] at h ⊢

theorem broken_cases {x : Status} (h : x.broken = true) : x = failed ∨ x = upstreamFailed := by
  cases x <;> simp [broken] at h ⊢

end Status

variable {τ : Type}

structure Dag (τ : Type) where
  upstream : τ → List τ
  rule : τ → TriggerRule
  retries : Nat

structure Schedule (τ : Type) where
  status : τ → Status := fun _ => .none
  failures : τ → Nat := fun _ => 0

inductive Event (τ : Type)
  | start (t : τ)
  | succeed (t : τ)
  | fail (t : τ)
  /-- Tasks that share their upstream are given up together. -/
  | giveUp (ts : List τ)

/-- The tasks that get a new status. -/
def Event.tasks : Event τ → List τ
  | .start t | .succeed t | .fail t => [t]
  | .giveUp ts => ts

namespace Dag

def ready (D : Dag τ) (s : Schedule τ) (t : τ) : Bool :=
  match D.rule t with
  | .allSuccess => (D.upstream t).all fun u => decide (s.status u = .success)
  | .allDone => (D.upstream t).all fun u => (s.status u).final

def doomed (D : Dag τ) (s : Schedule τ) (t : τ) : Bool :=
  decide (D.rule t = .allSuccess) && (D.upstream t).any fun u => (s.status u).broken

/-- The next failure of the task is its last. -/
def lastTry (D : Dag τ) (s : Schedule τ) (t : τ) : Bool := decide (D.retries ≤ s.failures t)

variable [DecidableEq τ]

def step (D : Dag τ) (s : Schedule τ) : Event τ → Option (Schedule τ)
  | .start t =>
    if (s.status t = .none ∨ s.status t = .upForRetry) ∧ D.ready s t = true then
      some { s with status := Function.update s.status t .running }
    else none
  | .succeed t =>
    if s.status t = .running then some { s with status := Function.update s.status t .success }
    else none
  | .fail t =>
    if s.status t = .running then
      some
        { status := Function.update s.status t (if D.lastTry s t then .failed else .upForRetry)
          failures := Function.update s.failures t (s.failures t + 1) }
    else none
  | .giveUp ts =>
    if ∀ t ∈ ts, s.status t = .none ∧ D.doomed s t = true then
      some { s with status := fun t => if t ∈ ts then .upstreamFailed else s.status t }
    else none

end Dag

/-- What an event does to one task. -/
inductive Moved (D : Dag τ) (s : Schedule τ) (t : τ) : Event τ → Status → Prop
  | stay {e : Event τ} (other : t ∉ e.tasks) : Moved D s t e (s.status t)
  | start (waiting : s.status t = .none ∨ s.status t = .upForRetry) (ready : D.ready s t = true) :
      Moved D s t (.start t) .running
  | succeed (running : s.status t = .running) : Moved D s t (.succeed t) .success
  | retry (running : s.status t = .running) (again : D.lastTry s t = false) :
      Moved D s t (.fail t) .upForRetry
  | fail (running : s.status t = .running) (last : D.lastTry s t = true) :
      Moved D s t (.fail t) .failed
  | giveUp {ts : List τ} (waiting : s.status t = .none) (doomed : D.doomed s t = true) (mem : t ∈ ts) :
      Moved D s t (.giveUp ts) .upstreamFailed

section Steps
variable [DecidableEq τ] {D : Dag τ} {s s' : Schedule τ} {e : Event τ}

theorem step_moved (h : D.step s e = some s') (t : τ) : Moved D s t e (s'.status t) := by
  cases e with
  | start u =>
    simp only [Dag.step] at h
    split at h
    · rename_i hguard
      cases h
      by_cases htu : t = u
      · subst htu
        simpa using Moved.start hguard.1 hguard.2
      · simpa [Function.update_of_ne htu] using Moved.stay (by simpa [Event.tasks] using htu)
    · cases h
  | succeed u =>
    simp only [Dag.step] at h
    split at h
    · rename_i hrunning
      cases h
      by_cases htu : t = u
      · subst htu
        simpa using Moved.succeed hrunning
      · simpa [Function.update_of_ne htu] using Moved.stay (by simpa [Event.tasks] using htu)
    · cases h
  | fail u =>
    simp only [Dag.step] at h
    split at h
    · rename_i hrunning
      cases h
      by_cases htu : t = u
      · subst htu
        cases hlast : D.lastTry s t with
        | true => simpa [hlast] using Moved.fail hrunning hlast
        | false => simpa [hlast] using Moved.retry hrunning hlast
      · simpa [Function.update_of_ne htu] using Moved.stay (by simpa [Event.tasks] using htu)
    · cases h
  | giveUp ts =>
    simp only [Dag.step] at h
    split at h
    · rename_i hguard
      cases h
      by_cases hmem : t ∈ ts
      · simpa [hmem] using Moved.giveUp (hguard t hmem).1 (hguard t hmem).2 hmem
      · simpa [hmem] using Moved.stay hmem
    · cases h

theorem step_other (h : D.step s e = some s') {t : τ} (ht : t ∉ e.tasks) :
    s'.status t = s.status t := by
  have hmoved := step_moved h t
  generalize s'.status t = x at hmoved
  cases hmoved with
  | stay _ => rfl
  | start | succeed | retry | fail => exact absurd (List.mem_singleton.mpr rfl) ht
  | giveUp _ _ hmem => exact absurd hmem ht

theorem step_start {t : τ} (h : D.step s (.start t) = some s') :
    (s.status t = .none ∨ s.status t = .upForRetry) ∧ s'.status t = .running := by
  have hmoved := step_moved h t
  generalize s'.status t = x at hmoved
  cases hmoved with
  | stay hother => exact absurd (List.mem_singleton.mpr rfl) hother
  | start hwaiting _ => exact ⟨hwaiting, rfl⟩

theorem step_fail {t : τ} (h : D.step s (.fail t) = some s') :
    s.status t = .running ∧
      s'.status t = if D.lastTry s t = true then .failed else .upForRetry := by
  have hmoved := step_moved h t
  generalize s'.status t = x at hmoved
  cases hmoved with
  | stay hother => exact absurd (List.mem_singleton.mpr rfl) hother
  | retry hrunning hagain => exact ⟨hrunning, by simp [hagain]⟩
  | fail hrunning hlast => exact ⟨hrunning, by simp [hlast]⟩

theorem step_giveUp {ts : List τ} (h : D.step s (.giveUp ts) = some s') {t : τ} (ht : t ∈ ts) :
    s'.status t = .upstreamFailed := by
  have hmoved := step_moved h t
  generalize s'.status t = x at hmoved
  cases hmoved with
  | stay hother => exact absurd ht hother
  | giveUp => rfl

/-! Where a status comes from. -/

theorem failed_back (h : D.step s e = some s') {t : τ} (ht : s'.status t = .failed) :
    s.status t = .failed ∨ (e = .fail t ∧ D.lastTry s t = true) := by
  have hmoved := step_moved h t
  generalize s'.status t = x at hmoved ht
  cases hmoved with
  | stay _ => exact .inl ht
  | fail _ hlast => exact .inr ⟨rfl, hlast⟩
  | start | succeed | retry | giveUp => cases ht

theorem givenUp_back (h : D.step s e = some s') {t : τ} (ht : s'.status t = .upstreamFailed) :
    s.status t = .upstreamFailed ∨ ∃ ts, e = .giveUp ts ∧ t ∈ ts := by
  have hmoved := step_moved h t
  generalize s'.status t = x at hmoved ht
  cases hmoved with
  | stay _ => exact .inl ht
  | giveUp _ _ hmem => exact .inr ⟨_, rfl, hmem⟩
  | start | succeed | retry | fail => cases ht

theorem started_back (h : D.step s e = some s') {t : τ} (ht : (s'.status t).started = true) :
    (s.status t).started = true ∨ e = .start t := by
  have hmoved := step_moved h t
  generalize s'.status t = x at hmoved ht
  cases hmoved with
  | stay _ => exact .inl ht
  | start => exact .inr rfl
  | succeed hrunning | retry hrunning _ | fail hrunning _ => exact .inl (by rw [hrunning]; rfl)
  | giveUp => cases ht

/-- A final status does not change. -/
theorem step_final (h : D.step s e = some s') {t : τ} (ht : (s.status t).final = true) :
    s'.status t = s.status t := by
  have hmoved := step_moved h t
  generalize s'.status t = x at hmoved
  cases hmoved with
  | stay _ => rfl
  | start hwaiting _ => rcases hwaiting with heq | heq <;> simp [heq, Status.final] at ht
  | succeed hrunning | retry hrunning _ | fail hrunning _ => simp [hrunning, Status.final] at ht
  | giveUp hwaiting _ _ => simp [hwaiting, Status.final] at ht

theorem ready_step (h : D.step s e = some s') {t : τ} (ht : D.ready s t = true) :
    D.ready s' t = true := by
  unfold Dag.ready at ht ⊢
  split at ht
  · refine List.all_eq_true.mpr fun u hu => ?_
    have hsuccess := of_decide_eq_true (List.all_eq_true.mp ht u hu)
    have hfinal : (s.status u).final = true := by simp [hsuccess, Status.final]
    exact decide_eq_true ((step_final h hfinal).trans hsuccess)
  · refine List.all_eq_true.mpr fun u hu => ?_
    have hfinal := List.all_eq_true.mp ht u hu
    exact (congrArg Status.final (step_final h hfinal)).trans hfinal

theorem doomed_step (h : D.step s e = some s') {t : τ} (ht : D.doomed s t = true) :
    D.doomed s' t = true := by
  obtain ⟨hrule, hany⟩ := Bool.and_eq_true_iff.mp ht
  refine Bool.and_eq_true_iff.mpr ⟨hrule, ?_⟩
  obtain ⟨u, hu, hbroken⟩ := List.any_eq_true.mp hany
  refine List.any_eq_true.mpr ⟨u, hu, ?_⟩
  rw [step_final h (Status.final_of_broken hbroken)]
  exact hbroken

end Steps

/-- A task was started when its rule was met, and given up for a task above it. -/
structure Consistent (D : Dag τ) (s : Schedule τ) : Prop where
  started : ∀ t, (s.status t).started = true → D.ready s t = true
  givenUp : ∀ t, s.status t = .upstreamFailed → D.doomed s t = true

namespace Consistent
variable {D : Dag τ} {s : Schedule τ}

theorem initial : Consistent D ({} : Schedule τ) := by
  constructor
  · intro t ht
    cases ht
  · intro t ht
    cases ht

theorem step [DecidableEq τ] {s' : Schedule τ} {e : Event τ} (hs : Consistent D s)
    (h : D.step s e = some s') : Consistent D s' := by
  constructor
  · intro t ht
    refine ready_step h ?_
    have hmoved := step_moved h t
    generalize s'.status t = x at hmoved ht
    cases hmoved with
    | stay => exact hs.started t ht
    | start _ hready => exact hready
    | succeed hrunning | retry hrunning _ | fail hrunning _ =>
      exact hs.started t (by simp [hrunning, Status.started])
    | giveUp => cases ht
  · intro t ht
    refine doomed_step h ?_
    have hmoved := step_moved h t
    generalize s'.status t = x at hmoved ht
    cases hmoved with
    | stay => exact hs.givenUp t ht
    | giveUp _ hdoomed _ => exact hdoomed
    | start | succeed | retry | fail => cases ht

/-- What a started task needs above it. -/
theorem upstream_success (hs : Consistent D s) {t u : τ} (ht : (s.status t).started = true)
    (hrule : D.rule t = .allSuccess) (hu : u ∈ D.upstream t) : s.status u = .success := by
  have hready := hs.started t ht
  unfold Dag.ready at hready
  rw [hrule] at hready
  exact of_decide_eq_true (List.all_eq_true.mp hready u hu)

theorem upstream_final (hs : Consistent D s) {t u : τ} (ht : (s.status t).started = true)
    (hrule : D.rule t = .allDone) (hu : u ∈ D.upstream t) : (s.status u).final = true := by
  have hready := hs.started t ht
  unfold Dag.ready at hready
  rw [hrule] at hready
  exact List.all_eq_true.mp hready u hu

theorem upstream_broken (hs : Consistent D s) {t : τ} (ht : s.status t = .upstreamFailed) :
    D.rule t = .allSuccess ∧ ∃ u ∈ D.upstream t, (s.status u).broken = true := by
  obtain ⟨hrule, hany⟩ := Bool.and_eq_true_iff.mp (hs.givenUp t ht)
  exact ⟨of_decide_eq_true hrule, List.any_eq_true.mp hany⟩

end Consistent

end Workflow
