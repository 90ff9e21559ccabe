import EcommerceIntegration.Library.Transition

/-!
# What a system can still reach

From every state with `A` some run, all steps of which satisfy `P`, ends in a state with
`B`. Such facts are put together stage by stage. Nothing is said about other runs.
-/

namespace Transition

set_option autoImplicit false

universe u v
variable {σ : Type u} {ℓ : Type v}

/-- From `A` the system can be led to `B` by steps that satisfy `P`. -/
def Leads (step : σ → ℓ → Option σ) (P : σ → ℓ → Prop) (A B : σ → Prop) : Prop :=
  ∀ s, A s → ∃ ls t, Along step P s ls ∧ run step s ls = some t ∧ B t

namespace Leads
variable {step : σ → ℓ → Option σ} {P : σ → ℓ → Prop} {A B C : σ → Prop}

theorem of_imp (h : ∀ s, A s → B s) : Leads step P A B := by
  intro s hs
  exact ⟨[], s, trivial, rfl, h s hs⟩

/-- One step is enough, and its label may depend on the state. -/
theorem single (h : ∀ s, A s → ∃ l t, P s l ∧ step s l = some t ∧ B t) : Leads step P A B := by
  intro s hs
  obtain ⟨l, t, hl, hst, ht⟩ := h s hs
  exact ⟨[l], t, ⟨hl, fun _ _ => trivial⟩, run_cons_eq_some.mpr ⟨t, hst, rfl⟩, ht⟩

theorem trans (hAB : Leads step P A B) (hBC : Leads step P B C) : Leads step P A C := by
  intro s hs
  obtain ⟨ls, t, hls, hrun, ht⟩ := hAB s hs
  obtain ⟨ms, u, hms, hrun', hu⟩ := hBC t ht
  refine ⟨ls ++ ms, u, ?_, run_append_eq_some.mpr ⟨t, hrun, hrun'⟩, hu⟩
  refine along_append_iff.mpr ⟨hls, fun s' hs' => ?_⟩
  obtain rfl := Option.some.inj (hrun.symm.trans hs')
  exact hms

theorem or {A' : σ → Prop} (h : Leads step P A B) (h' : Leads step P A' B) :
    Leads step P (fun s => A s ∨ A' s) B := by
  intro s hs
  cases hs with
  | inl hs => exact h s hs
  | inr hs => exact h' s hs

theorem exists_left {ι : Type u} {A : ι → σ → Prop} (h : ∀ i, Leads step P (A i) B) :
    Leads step P (fun s => ∃ i, A i s) B := by
  intro s hs
  obtain ⟨i, hi⟩ := hs
  exact h i s hi

/-- A measure that can always be brought down comes to zero. -/
theorem countdown {A : Nat → σ → Prop}
    (h : ∀ n, Leads step P (A (n + 1)) fun s => ∃ m, m ≤ n ∧ A m s) (n : Nat) :
    Leads step P (A n) (A 0) := by
  induction n using Nat.strong_induction_on with
  | _ n ih =>
    cases n with
    | zero => exact of_imp fun _ hs => hs
    | succ n =>
      refine (h n).trans fun s hs => ?_
      obtain ⟨m, hm, hs⟩ := hs
      exact ih m (Nat.lt_succ_of_le hm) s hs

end Leads

end Transition
