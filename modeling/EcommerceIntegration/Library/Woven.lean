import Mathlib.Data.List.MinMax
import Mathlib.Data.List.Forall2

/-!
# Lists that agree where it matters

Two lists are woven when they consist of related elements in the same order and, between
them, of elements of either list that are of no concern.
-/

set_option autoImplicit false

/-- `P` and `P'` say which elements of the two lists are of no concern. -/
inductive Woven {α β : Type} (R : α → β → Prop) (P : α → Prop) (P' : β → Prop) :
    List α → List β → Prop
  | nil : Woven R P P' [] []
  | both {a b l l'} : R a b → Woven R P P' l l' → Woven R P P' (a :: l) (b :: l')
  | left {a l l'} : P a → Woven R P P' l l' → Woven R P P' (a :: l) l'
  | right {b l l'} : P' b → Woven R P P' l l' → Woven R P P' l (b :: l')

namespace Woven

variable {α β γ δ : Type} {R : α → β → Prop} {P : α → Prop} {P' : β → Prop}
  {l m : List α} {l' m' : List β}

theorem refl {R : α → α → Prop} {P' : α → Prop} (h : ∀ a ∈ l, R a a) : Woven R P P' l l := by
  induction l with
  | nil => exact .nil
  | cons a l ih =>
    exact .both (h a List.mem_cons_self) (ih fun b hb => h b (List.mem_cons_of_mem a hb))

theorem mono {S : α → β → Prop} {Q : α → Prop} {Q' : β → Prop} (hR : ∀ a b, R a b → S a b)
    (hP : ∀ a, P a → Q a) (hP' : ∀ b, P' b → Q' b) (h : Woven R P P' l l') :
    Woven S Q Q' l l' := by
  induction h with
  | nil => exact .nil
  | both hab _ ih => exact .both (hR _ _ hab) ih
  | left ha _ ih => exact .left (hP _ ha) ih
  | right hb _ ih => exact .right (hP' _ hb) ih

theorem append (h : Woven R P P' l l') (k : Woven R P P' m m') :
    Woven R P P' (l ++ m) (l' ++ m') := by
  induction h with
  | nil => exact k
  | both hab _ ih => exact .both hab ih
  | left ha _ ih => exact .left ha ih
  | right hb _ ih => exact .right hb ih

theorem concat {a : α} {b : β} (h : Woven R P P' l l') (hab : R a b) :
    Woven R P P' (l ++ [a]) (l' ++ [b]) :=
  h.append (.both hab .nil)

theorem concat_right {b : β} (h : Woven R P P' l l') (hb : P' b) : Woven R P P' l (l' ++ [b]) := by
  have happend := h.append (.right hb .nil : Woven R P P' [] [b])
  rwa [List.append_nil] at happend

theorem map {S : γ → δ → Prop} {Q : γ → Prop} {Q' : δ → Prop} {f : α → γ} {g : β → δ}
    (hR : ∀ a b, R a b → S (f a) (g b)) (hP : ∀ a, P a → Q (f a)) (hP' : ∀ b, P' b → Q' (g b))
    (h : Woven R P P' l l') : Woven S Q Q' (l.map f) (l'.map g) := by
  induction h with
  | nil => exact .nil
  | both hab _ ih => exact .both (hR _ _ hab) ih
  | left ha _ ih => exact .left (hP _ ha) ih
  | right hb _ ih => exact .right (hP' _ hb) ih

/-- A change of the second list that keeps related what is of concern. -/
theorem map_right {g : β → β} (hR : ∀ a, ∀ b ∈ l', R a b → R a (g b) ∨ P a ∧ P' (g b))
    (hP' : ∀ b, P' b → P' (g b)) (h : Woven R P P' l l') : Woven R P P' l (l'.map g) := by
  induction h with
  | nil => exact .nil
  | both hab _ ih =>
    have hrest := ih fun a b hb => hR a b (List.mem_cons_of_mem _ hb)
    rcases hR _ _ List.mem_cons_self hab with hrelated | ⟨ha, hb⟩
    · exact .both hrelated hrest
    · exact .left ha (.right hb hrest)
  | left ha _ ih => exact .left ha (ih hR)
  | right hb _ ih => exact .right (hP' _ hb) (ih fun a b hmem => hR a b (List.mem_cons_of_mem _ hmem))

theorem exists_of_mem (h : Woven R P P' l l') {a : α} (ha : a ∈ l) (hP : ¬ P a) :
    ∃ b ∈ l', R a b := by
  induction h with
  | nil => cases ha
  | both hab _ ih =>
    rcases List.mem_cons.mp ha with rfl | ha
    · exact ⟨_, List.mem_cons_self, hab⟩
    · obtain ⟨b, hb, hrelated⟩ := ih ha
      exact ⟨b, List.mem_cons_of_mem _ hb, hrelated⟩
  | left hleft _ ih =>
    rcases List.mem_cons.mp ha with rfl | ha
    · exact absurd hleft hP
    · exact ih ha
  | right _ _ ih =>
    obtain ⟨b, hb, hrelated⟩ := ih ha
    exact ⟨b, List.mem_cons_of_mem _ hb, hrelated⟩

/-! ## Queries that look at what is of concern -/

section Queries
variable {p : α → Bool} {q : β → Bool} (hR : ∀ a b, R a b → p a = q b)
  (hP : ∀ a, P a → p a = false) (hP' : ∀ b, P' b → q b = false)
include hR hP hP'

theorem find? (h : Woven R P P' l l') : Option.Rel R (l.find? p) (l'.find? q) := by
  induction h with
  | nil => exact .none
  | @both a b l l' hab _ ih =>
    rw [List.find?_cons, List.find?_cons, ← hR a b hab]
    cases p a with
    | true => exact .some hab
    | false => exact ih
  | left ha _ ih =>
    rw [List.find?_cons, hP _ ha]
    exact ih
  | right hb _ ih =>
    rw [List.find?_cons, hP' _ hb]
    exact ih

theorem any (h : Woven R P P' l l') : l.any p = l'.any q := by
  induction h with
  | nil => rfl
  | both hab _ ih => rw [List.any_cons, List.any_cons, hR _ _ hab, ih]
  | left ha _ ih => rw [List.any_cons, hP _ ha, ih, Bool.false_or]
  | right hb _ ih => rw [List.any_cons, hP' _ hb, ih, Bool.false_or]

theorem filter (h : Woven R P P' l l') : List.Forall₂ R (l.filter p) (l'.filter q) := by
  induction h with
  | nil => exact .nil
  | @both a b l l' hab _ ih =>
    rw [List.filter_cons, List.filter_cons, ← hR a b hab]
    cases p a with
    | true => exact .cons hab ih
    | false => exact ih
  | left ha _ ih =>
    rw [List.filter_cons, hP _ ha]
    exact ih
  | right hb _ ih =>
    rw [List.filter_cons, hP' _ hb]
    exact ih

end Queries

end Woven

/-- The last of the greatest elements, by columns that are ordered alike. -/
theorem List.Forall₂.argmax {α β : Type} {R : α → β → Prop} {f : α → Nat} {g : β → Nat}
    (hR : ∀ a b a' b', R a b → R a' b' → (f a < f a' ↔ g b < g b')) {l : List α} {l' : List β}
    (h : List.Forall₂ R l l') : Option.Rel R (l.argmax f) (l'.argmax g) := by
  refine List.rel_foldl (P := Option.Rel R) ?_ .none h
  intro o o' ho a b hab
  cases ho with
  | none => exact .some hab
  | @some c d hcd =>
    have hiff := hR c d a b hcd hab
    by_cases hlt : f c < f a
    · simp only [List.argAux, if_pos hlt, if_pos (hiff.mp hlt)]
      exact .some hab
    · simp only [List.argAux, if_neg hlt, if_neg (mt hiff.mpr hlt)]
      exact .some hcd

theorem Option.rel_with {α β : Type} {R : α → β → Prop} {P : α → Prop} {o : Option α}
    {o' : Option β} (h : Option.Rel R o o') (hP : ∀ a, o = some a → P a) :
    Option.Rel (fun a b => R a b ∧ P a) o o' := by
  cases h with
  | none => exact .none
  | some hab => exact .some ⟨hab, hP _ rfl⟩
