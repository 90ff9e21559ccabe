import Mathlib.Data.List.Infix
import Mathlib.Tactic.Common

/-!
# Deterministic labelled transition systems

`step s l` is the state after the label `l`, or `none` where `l` is not enabled.
All nondeterminism is in the labels, so a run is a list of labels and can be
evaluated. The induction over runs is done here once: for invariants, for
relations between the two ends of a run, and for runs whose steps are guarded.
-/

namespace Transition

set_option autoImplicit false

universe u v
variable {σ : Type u} {ℓ : Type v}

/-- The state after all labels, or `none` as soon as one of them is not enabled. -/
def run (step : σ → ℓ → Option σ) : σ → List ℓ → Option σ
  | s, [] => some s
  | s, l :: ls => (step s l).bind fun s' => run step s' ls

/-- Every step of the run satisfies `P` in the state where it is taken. -/
def Along (step : σ → ℓ → Option σ) (P : σ → ℓ → Prop) : σ → List ℓ → Prop
  | _, [] => True
  | s, l :: ls => P s l ∧ ∀ s', step s l = some s' → Along step P s' ls

def decidableAlong (step : σ → ℓ → Option σ) (P : σ → ℓ → Prop) [∀ s l, Decidable (P s l)] :
    (s : σ) → (ls : List ℓ) → Decidable (Along step P s ls)
  | _, [] => .isTrue trivial
  | s, l :: ls =>
    match h : step s l with
    | none => decidable_of_iff (P s l) (by simp [Along, h])
    | some s' =>
      have := decidableAlong step P s' ls
      decidable_of_iff (P s l ∧ Along step P s' ls) (by simp [Along, h])

instance (step : σ → ℓ → Option σ) (P : σ → ℓ → Prop) [∀ s l, Decidable (P s l)] (s : σ)
    (ls : List ℓ) : Decidable (Along step P s ls) :=
  decidableAlong step P s ls

def Reachable (step : σ → ℓ → Option σ) (init s : σ) : Prop :=
  ∃ ls, run step init ls = some s

section Runs
variable {step : σ → ℓ → Option σ}

@[simp] theorem run_nil (s : σ) : run step s [] = some s := rfl

theorem run_cons_eq_some {s t : σ} {l : ℓ} {ls : List ℓ} :
    run step s (l :: ls) = some t ↔ ∃ s', step s l = some s' ∧ run step s' ls = some t := by
  simp [run, Option.bind_eq_some_iff]

theorem run_append_eq_some {s t : σ} {ls ms : List ℓ} :
    run step s (ls ++ ms) = some t ↔
      ∃ s', run step s ls = some s' ∧ run step s' ms = some t := by
  induction ls generalizing s with
  | nil => simp
  | cons l ls ih =>
    simp only [List.cons_append, run_cons_eq_some, ih]
    constructor
    · rintro ⟨s', hs, t', ht, hr⟩
      exact ⟨t', ⟨s', hs, ht⟩, hr⟩
    · rintro ⟨t', ⟨s', hs, ht⟩, hr⟩
      exact ⟨s', hs, t', ht, hr⟩

theorem run_concat_eq_some {s t : σ} {l : ℓ} {ls : List ℓ} :
    run step s (ls ++ [l]) = some t ↔
      ∃ s', run step s ls = some s' ∧ step s' l = some t := by
  simp only [run_append_eq_some, run_cons_eq_some, run_nil, Option.some.injEq, exists_eq_right]

theorem Reachable.refl (init : σ) : Reachable step init init := ⟨[], rfl⟩

theorem Reachable.tail {init s t : σ} {l : ℓ} (h : Reachable step init s)
    (hst : step s l = some t) : Reachable step init t := by
  obtain ⟨ls, hls⟩ := h
  exact ⟨ls ++ [l], run_concat_eq_some.mpr ⟨s, hls, hst⟩⟩

theorem Reachable.trans_run {init s t : σ} {ls : List ℓ} (h : Reachable step init s)
    (hrun : run step s ls = some t) : Reachable step init t := by
  obtain ⟨ks, hks⟩ := h
  exact ⟨ks ++ ls, run_append_eq_some.mpr ⟨s, hks, hrun⟩⟩

/-- An invariant kept by every guarded step holds after a guarded run. -/
theorem run_invariant_along {P : σ → ℓ → Prop} {Inv : σ → Prop}
    (hstep : ∀ s l t, Inv s → P s l → step s l = some t → Inv t)
    {s t : σ} {ls : List ℓ} (hs : Inv s) (hP : Along step P s ls)
    (hrun : run step s ls = some t) : Inv t := by
  induction ls generalizing s with
  | nil =>
    cases hrun
    exact hs
  | cons l ls ih =>
    obtain ⟨s', hs', hrun'⟩ := run_cons_eq_some.mp hrun
    exact ih (hstep s l s' hs hP.1 hs') (hP.2 s' hs') hrun'

theorem Along.mono {P Q : σ → ℓ → Prop} (hPQ : ∀ s l, P s l → Q s l) {s : σ} {ls : List ℓ}
    (h : Along step P s ls) : Along step Q s ls := by
  induction ls generalizing s with
  | nil => trivial
  | cons l ls ih => exact ⟨hPQ s l h.1, fun s' hs' => ih (h.2 s' hs')⟩

theorem along_true (s : σ) (ls : List ℓ) : Along step (fun _ _ => True) s ls := by
  induction ls generalizing s with
  | nil => trivial
  | cons l ls ih => exact ⟨trivial, fun s' _ => ih s'⟩

/-- An invariant kept by every step holds after every run. -/
theorem run_invariant {Inv : σ → Prop} (hstep : ∀ s l t, Inv s → step s l = some t → Inv t)
    {s t : σ} {ls : List ℓ} (hs : Inv s) (hrun : run step s ls = some t) : Inv t :=
  run_invariant_along (fun s l t hi _ hst => hstep s l t hi hst) hs (along_true s ls) hrun

theorem Reachable.invariant {Inv : σ → Prop} {init s : σ} (h : Reachable step init s)
    (hinit : Inv init) (hstep : ∀ s l t, Inv s → step s l = some t → Inv t) : Inv s := by
  obtain ⟨ls, hls⟩ := h
  exact run_invariant hstep hinit hls

/-- A reflexive and transitive relation kept by every guarded step relates the two
ends of a guarded run. -/
theorem run_relates_along {P : σ → ℓ → Prop} {R : σ → σ → Prop} (hrefl : ∀ s, R s s)
    (htrans : ∀ {a b c}, R a b → R b c → R a c)
    (hstep : ∀ s l t, P s l → step s l = some t → R s t)
    {s t : σ} {ls : List ℓ} (hP : Along step P s ls) (hrun : run step s ls = some t) :
    R s t := by
  induction ls generalizing s with
  | nil =>
    cases hrun
    exact hrefl _
  | cons l ls ih =>
    obtain ⟨s', hs', hrun'⟩ := run_cons_eq_some.mp hrun
    exact htrans (hstep s l s' hP.1 hs') (ih (hP.2 s' hs') hrun')

theorem along_append_iff {P : σ → ℓ → Prop} {s : σ} {ls ms : List ℓ} :
    Along step P s (ls ++ ms) ↔
      Along step P s ls ∧ ∀ s', run step s ls = some s' → Along step P s' ms := by
  induction ls generalizing s with
  | nil => simp [Along]
  | cons l ls ih =>
    simp only [List.cons_append, Along, ih, run_cons_eq_some]
    constructor
    · rintro ⟨hl, h⟩
      exact ⟨⟨hl, fun s' hs' => (h s' hs').1⟩, fun t ⟨s', hs', hrun⟩ => (h s' hs').2 t hrun⟩
    · rintro ⟨⟨hl, h⟩, hafter⟩
      exact ⟨hl, fun s' hs' => ⟨h s' hs', fun t hrun => hafter t ⟨s', hs', hrun⟩⟩⟩

theorem along_append {P : σ → ℓ → Prop} {s : σ} {ls ms : List ℓ}
    (h : Along step P s (ls ++ ms)) :
    Along step P s ls ∧ ∀ s', run step s ls = some s' → Along step P s' ms :=
  along_append_iff.mp h

/-- The guard of a step in the middle of a guarded run. -/
theorem along_at {P : σ → ℓ → Prop} {s t : σ} {ls ms : List ℓ} {l : ℓ}
    (h : Along step P s (ls ++ l :: ms)) (hrun : run step s ls = some t) : P t l :=
  ((along_append h).2 t hrun).1

theorem along_iff {P : σ → ℓ → Prop} {s : σ} {ls : List ℓ} :
    Along step P s ls ↔
      ∀ ks l ms t, ls = ks ++ l :: ms → run step s ks = some t → P t l := by
  constructor
  · rintro h ks l ms t rfl hrun
    exact along_at h hrun
  · intro h
    induction ls generalizing s with
    | nil => trivial
    | cons l ls ih =>
      refine ⟨h [] l ls s rfl rfl, fun s' hs' => ih fun ks l' ms t heq hrun => ?_⟩
      exact h (l :: ks) l' ms t (by rw [heq]; rfl) (run_cons_eq_some.mpr ⟨s', hs', hrun⟩)

end Runs

end Transition
