import EcommerceIntegration.Library.Decimal

/-!
# The text of a decimal number

A number is written with a point inside or before its digits when its exponent is not
positive and not too small, and in scientific notation otherwise. Reading what was written
gives the number back, with its coefficient and its exponent.
-/

set_option autoImplicit false

namespace Decimal

/-! ## Writing -/

def signed (e : Int) : List Char :=
  (if e < 0 then '-' else '+') :: Nat.toDigits 10 e.natAbs

def chars (d : Decimal) : List Char :=
  let int := Nat.toDigits 10 d.coef
  let leftdigits := d.exp + int.length
  let dotplace := if d.exp ≤ 0 ∧ -6 < leftdigits then leftdigits else 1
  let number :=
    if dotplace ≤ 0 then '0' :: '.' :: (List.replicate (-dotplace).toNat '0' ++ int)
    else if int.length ≤ dotplace then int ++ List.replicate (dotplace - int.length).toNat '0'
    else int.take dotplace.toNat ++ '.' :: int.drop dotplace.toNat
  let exp := if leftdigits = dotplace then [] else 'E' :: signed (leftdigits - dotplace)
  number ++ exp

def text (d : Decimal) : String := String.ofList d.chars

/-! ## Reading -/

def readNat? (cs : List Char) : Option Nat :=
  if cs ≠ [] ∧ cs.all Char.isDigit = true then some (Nat.ofDigitChars 10 cs 0) else none

def readInt? : List Char → Option Int
  | '+' :: cs => (readNat? cs).map Int.ofNat
  | '-' :: cs => (readNat? cs).map fun n => -Int.ofNat n
  | cs => (readNat? cs).map Int.ofNat

/-- The digits after a point, and what follows them. -/
def readFraction : List Char → List Char × List Char
  | '.' :: cs => (cs.takeWhile Char.isDigit, cs.dropWhile Char.isDigit)
  | cs => ([], cs)

def readExponent? : List Char → Option Int
  | [] => some 0
  | 'E' :: cs => readInt? cs
  | 'e' :: cs => readInt? cs
  | _ => none

/-- A number without a sign; digits before or after the point may be left out. -/
def ofChars? (cs : List Char) : Option Decimal :=
  let int := cs.takeWhile Char.isDigit
  let (frac, rest) := readFraction (cs.dropWhile Char.isDigit)
  if int ++ frac = [] then none
  else (readExponent? rest).map fun e => ⟨Nat.ofDigitChars 10 (int ++ frac) 0, e - frac.length⟩

def ofText? (s : String) : Option Decimal := ofChars? s.toList

/-! ## Reading what was written -/

def point (frac : List Char) : List Char := if frac = [] then [] else '.' :: frac

def exponent (e : Int) : List Char := if e = 0 then [] else 'E' :: signed e

theorem isDigit_toDigits (n : Nat) : ∀ c ∈ Nat.toDigits 10 n, c.isDigit = true :=
  fun _ hc => Nat.isDigit_of_mem_toDigits (by decide) (by decide) hc

/-- The digits before the point, after it, and the exponent that is left. -/
theorem chars_parts (d : Decimal) : ∃ int frac, int ≠ [] ∧
    (∀ c ∈ int ++ frac, c.isDigit = true) ∧ Nat.ofDigitChars 10 (int ++ frac) 0 = d.coef ∧
    d.chars = int ++ point frac ++ exponent (d.exp + frac.length) := by
  have hne : Nat.toDigits 10 d.coef ≠ [] := Nat.toDigits_ne_nil
  have hdigits := isDigit_toDigits d.coef
  have hcoef : Nat.ofDigitChars 10 (Nat.toDigits 10 d.coef) 0 = d.coef :=
    Nat.ofDigitChars_ten_toDigits
  unfold chars
  simp only
  generalize Nat.toDigits 10 d.coef = int at *
  have hlength : 0 < int.length := List.length_pos_iff.mpr hne
  have hdotplace : ∃ dotplace : Int,
      (if d.exp ≤ 0 ∧ -6 < d.exp + int.length then d.exp + int.length else 1) = dotplace ∧
        dotplace ≤ max 1 (d.exp + int.length) ∧ dotplace ≤ int.length := by
    refine ⟨_, rfl, ?_, ?_⟩ <;> split <;> omega
  obtain ⟨dotplace, hplace, _, hle⟩ := hdotplace
  rw [hplace]
  have hexponent : ∀ frac : List Char, (frac.length : Int) = int.length - dotplace →
      (if d.exp + int.length = dotplace then []
        else 'E' :: signed (d.exp + int.length - dotplace)) =
      exponent (d.exp + frac.length) := by
    intro frac hfrac
    have hexp : d.exp + int.length - dotplace = d.exp + frac.length := by omega
    have hzero : d.exp + int.length = dotplace ↔ d.exp + frac.length = 0 := by omega
    simp only [exponent, hexp, hzero]
  split
  · -- zeros before the digits
    rename_i hnone
    refine ⟨['0'], List.replicate (-dotplace).toNat '0' ++ int, by simp, ?_, ?_, ?_⟩
    · intro c hc
      simp only [List.cons_append, List.nil_append, List.mem_cons, List.mem_append,
        List.mem_replicate] at hc
      rcases hc with rfl | ⟨_, rfl⟩ | hc
      · rfl
      · rfl
      · exact hdigits c hc
    · rw [Nat.ofDigitChars_append, Nat.ofDigitChars_append, Nat.ofDigitChars_replicate_zero]
      exact hcoef
    · rw [hexponent (List.replicate (-dotplace).toNat '0' ++ int) (by simp; omega)]
      simp [point, hne]
  · split
    · -- all digits before the point
      rename_i hall
      have hsame : dotplace = int.length := le_antisymm hle hall
      refine ⟨int, [], hne, by simpa using hdigits, by simpa using hcoef, ?_⟩
      rw [hexponent [] (by simp [hsame])]
      simp [point, hsame]
    · rename_i hpos hless
      have hdrop : int.drop dotplace.toNat ≠ [] := by
        intro hnil
        have hlen := List.drop_eq_nil_iff.mp hnil
        omega
      refine ⟨int.take dotplace.toNat, int.drop dotplace.toNat, ?_, ?_, ?_, ?_⟩
      · intro hnil
        have hlen := congrArg List.length hnil
        simp only [List.length_take, List.length_nil] at hlen
        omega
      · rwa [List.take_append_drop]
      · rwa [List.take_append_drop]
      · rw [hexponent (int.drop dotplace.toNat) (by simp; omega)]
        simp [point, hdrop]

theorem readNat?_toDigits (n : Nat) : readNat? (Nat.toDigits 10 n) = some n := by
  unfold readNat?
  have hdigits : (Nat.toDigits 10 n).all Char.isDigit = true :=
    List.all_eq_true.mpr (isDigit_toDigits n)
  rw [if_pos ⟨Nat.toDigits_ne_nil, hdigits⟩, Nat.ofDigitChars_ten_toDigits]

theorem readInt?_signed (e : Int) : readInt? (signed e) = some e := by
  unfold signed
  split
  · rename_i hneg
    have habs : -(e.natAbs : Int) = e := by omega
    simp only [readInt?, readNat?_toDigits, Option.map_some]
    exact congrArg some habs
  · rename_i hnonneg
    have habs : (e.natAbs : Int) = e := by omega
    simp only [readInt?, readNat?_toDigits, Option.map_some]
    exact congrArg some habs

theorem readExponent?_exponent (e : Int) : readExponent? (exponent e) = some e := by
  unfold exponent
  split
  · rename_i hzero
    rw [hzero]
    rfl
  · exact readInt?_signed e

/-- No digit stands at the beginning of an exponent. -/
theorem exponent_head (e : Int) : (exponent e).takeWhile Char.isDigit = [] ∧
    (exponent e).dropWhile Char.isDigit = exponent e := by
  unfold exponent
  split
  · exact ⟨rfl, rfl⟩
  · exact ⟨rfl, rfl⟩

theorem readFraction_point {frac : List Char} (hfrac : ∀ c ∈ frac, c.isDigit = true) (e : Int) :
    readFraction (point frac ++ exponent e) = (frac, exponent e) := by
  obtain ⟨htake, hdrop⟩ := exponent_head e
  unfold point
  split
  · rename_i hnil
    subst hnil
    unfold exponent
    split <;> rfl
  · simp only [List.cons_append, readFraction]
    rw [List.takeWhile_append_of_pos hfrac, List.dropWhile_append_of_pos hfrac, htake, hdrop,
      List.append_nil]

theorem ofText?_text (d : Decimal) : ofText? d.text = some d := by
  obtain ⟨int, frac, hint, hdigits, hcoef, hchars⟩ := chars_parts d
  have hrest : (point frac ++ exponent (d.exp + frac.length)).takeWhile Char.isDigit = [] ∧
      (point frac ++ exponent (d.exp + frac.length)).dropWhile Char.isDigit =
        point frac ++ exponent (d.exp + frac.length) := by
    unfold point
    split
    · exact exponent_head _
    · exact ⟨rfl, rfl⟩
  have hints : ∀ c ∈ int, c.isDigit = true := fun c hc => hdigits c (List.mem_append_left _ hc)
  have hfracs : ∀ c ∈ frac, c.isDigit = true := fun c hc => hdigits c (List.mem_append_right _ hc)
  unfold ofText? text ofChars?
  rw [String.toList_ofList, hchars, List.append_assoc, List.takeWhile_append_of_pos hints,
    List.dropWhile_append_of_pos hints, hrest.1, hrest.2, List.append_nil,
    readFraction_point hfracs]
  simp [hint, readExponent?_exponent, hcoef]

example : [(⟨1050, -2⟩ : Decimal), ⟨5, -10⟩, ⟨1, 20⟩, ⟨0, 0⟩].map chars =
    ["10.50".toList, "5E-10".toList, "1E+20".toList, "0".toList] := by decide

end Decimal
