import Mathlib.Data.List.Chain
import Mathlib.Tactic.Common

/-!
# Versions of a record

A record is changed by closing its current version and opening another one (a slowly
changing dimension of type 2). The versions of a record, in the order of their keys, then
follow each other without a gap.
-/

namespace Versions

set_option autoImplicit false

universe u v

/-- The columns of a version, and how it is closed. -/
structure Columns (α : Type u) (β : Type v) where
  key : α → Nat
  validFrom : α → Int
  validTo : α → Option Int
  isCurrent : α → Bool
  content : α → β
  close : Int → α → α
  key_close : ∀ t a, key (close t a) = key a
  validFrom_close : ∀ t a, validFrom (close t a) = validFrom a
  validTo_close : ∀ t a, validTo (close t a) = some t
  isCurrent_close : ∀ t a, isCurrent (close t a) = false
  content_close : ∀ t a, content (close t a) = content a

variable {α : Type u} {β : Type v} (V : Columns α β)

/-- The version `b` comes right after `a`. -/
structure Columns.Follows (a b : α) : Prop where
  joined : V.validTo a = some (V.validFrom b)
  forward : V.validFrom a ≤ V.validFrom b
  differs : V.content a ≠ V.content b

/-- The versions of one record in the order of their keys. -/
structure Columns.History (vs : List α) : Prop where
  one_current : vs.countP V.isCurrent = 1
  current_iff : ∀ a ∈ vs, V.isCurrent a = true ↔ V.validTo a = none
  period : ∀ a ∈ vs, ∀ t, V.validTo a = some t → V.validFrom a ≤ t
  chain : vs.IsChain V.Follows

/-- The versions in the order in which they were opened. -/
structure Columns.Opened (init : List α) (last : α) : Prop where
  ordered : (init ++ [last]).Pairwise fun a b => V.key a < V.key b
  closed : ∀ a ∈ init, V.isCurrent a = false ∧ ∃ t, V.validTo a = some t ∧ V.validFrom a ≤ t
  current : V.isCurrent last = true ∧ V.validTo last = none
  chain : (init ++ [last]).IsChain V.Follows

variable {V} {init : List α} {last next : α}

namespace Columns.Opened

theorem first (h : V.isCurrent next = true ∧ V.validTo next = none) : V.Opened [] next := by
  refine ⟨?_, ?_, h, ?_⟩
  · exact List.pairwise_singleton _ _
  · intro a ha
    cases ha
  · exact List.IsChain.singleton _

/-- The current version is closed at the time from which the next is valid. -/
theorem replace (h : V.Opened init last) {t : Int} (hlast : V.validFrom last ≤ t)
    (hkey : V.key last < V.key next) (hfrom : V.validFrom next = t)
    (hcurrent : V.isCurrent next = true ∧ V.validTo next = none)
    (hdiffers : V.content last ≠ V.content next) :
    V.Opened (init ++ [V.close t last]) next := by
  have hordered := List.pairwise_append.mp h.ordered
  have hchain := List.isChain_append.mp h.chain
  have hfollows : V.Follows (V.close t last) next := by
    refine ⟨?_, ?_, ?_⟩
    · rw [V.validTo_close, hfrom]
    · rw [V.validFrom_close, hfrom]
      exact hlast
    · rw [V.content_close]
      exact hdiffers
  have hbefore : ∀ a ∈ init, V.key a < V.key last :=
    fun a ha => hordered.2.2 a ha last (List.mem_singleton.mpr rfl)
  constructor
  · rw [List.append_assoc]
    refine List.pairwise_append.mpr ⟨hordered.1, ?_, fun a ha b hb => ?_⟩
    · simpa [V.key_close] using hkey
    · have := hbefore a ha
      simp only [List.singleton_append, List.mem_cons, List.not_mem_nil, or_false] at hb
      rcases hb with rfl | rfl
      · rwa [V.key_close]
      · omega
  · intro a ha
    rcases List.mem_append.mp ha with ha | ha
    · exact h.closed a ha
    · obtain rfl := List.mem_singleton.mp ha
      refine ⟨V.isCurrent_close t last, t, V.validTo_close t last, ?_⟩
      rwa [V.validFrom_close]
  · exact hcurrent
  · rw [List.append_assoc]
    refine List.isChain_append.mpr ⟨hchain.1, ?_, fun a ha b hb => ?_⟩
    · simpa using hfollows
    · -- closing a version changes neither its beginning nor its content
      have hold := hchain.2.2 a ha last (by simp)
      obtain rfl : V.close t last = b := by simpa using hb
      refine ⟨?_, ?_, ?_⟩
      · rw [V.validFrom_close]
        exact hold.joined
      · rw [V.validFrom_close]
        exact hold.forward
      · rw [V.content_close]
        exact hold.differs

theorem history (h : V.Opened init last) : V.History (init ++ [last]) := by
  have hclosed : init.countP V.isCurrent = 0 := by
    rw [List.countP_eq_zero]
    intro a ha
    simp [(h.closed a ha).1]
  constructor
  · simp [List.countP_append, hclosed, h.current.1]
  · intro a ha
    rcases List.mem_append.mp ha with ha | ha
    · obtain ⟨hcur, t, ht, _⟩ := h.closed a ha
      simp [hcur, ht]
    · obtain rfl := List.mem_singleton.mp ha
      exact iff_of_true h.current.1 h.current.2
  · intro a ha t ht
    rcases List.mem_append.mp ha with ha | ha
    · obtain ⟨_, t', ht', hle⟩ := h.closed a ha
      obtain rfl := Option.some.inj (ht.symm.trans ht')
      exact hle
    · obtain rfl := List.mem_singleton.mp ha
      rw [h.current.2] at ht
      cases ht
  · exact h.chain

/-- They are in the order of their keys. -/
theorem sorted (h : V.Opened init last) :
    (init ++ [last]).mergeSort (fun a b => decide (V.key a ≤ V.key b)) = init ++ [last] := by
  refine List.mergeSort_of_pairwise (h.ordered.imp fun {a b} hlt => ?_)
  exact decide_eq_true (Nat.le_of_lt hlt)

end Columns.Opened

end Versions
