import Mathlib.Algebra.BigOperators.Group.List.Basic
import Mathlib.Algebra.Order.Field.Power
import Mathlib.Data.List.Induction
import Mathlib.Data.Rat.Cast.Order
import Mathlib.Tactic.Linarith
import Mathlib.Tactic.NormNum
import Mathlib.Tactic.Ring

/-!
# Decimal numbers with a bounded precision

A number is a coefficient and an exponent, so one value has many representations. Sums and
products are exact numbers rounded to `p` digits, half to even. The result of an operation
depends on the values of its operands only, and a number is read back from its text as it is.
-/

set_option autoImplicit false

/-- `coef * 10 ^ exp`. -/
structure Decimal where
  coef : Nat
  exp : Int
  deriving DecidableEq

namespace Decimal

def value (d : Decimal) : ℚ := d.coef * 10 ^ d.exp

def ofNat (n : Nat) : Decimal := ⟨n, 0⟩

@[simp] theorem value_ofNat (n : Nat) : (ofNat n).value = n := by
  simp [value, ofNat]

theorem value_shift (c k : Nat) (e : Int) :
    (⟨c * 10 ^ k, e⟩ : Decimal).value = (⟨c, e + k⟩ : Decimal).value := by
  simp only [value, Nat.cast_mul, Nat.cast_pow, Nat.cast_ofNat]
  rw [zpow_add₀ (by norm_num), zpow_natCast]
  ring

/-- Two representations of one value differ by zeros at the end of the coefficient. -/
theorem coef_of_value_eq {c c' : Nat} {e : Int} {k : Nat}
    (h : (⟨c, e⟩ : Decimal).value = (⟨c', e + k⟩ : Decimal).value) : c = c' * 10 ^ k := by
  rw [← value_shift] at h
  have hpow : (10 : ℚ) ^ e ≠ 0 := zpow_ne_zero _ (by norm_num)
  exact_mod_cast mul_right_cancel₀ hpow h

theorem value_inj {m n : Nat} {e : Int} :
    (⟨m, e⟩ : Decimal).value = (⟨n, e⟩ : Decimal).value ↔ m = n := by
  have hpow : (10 : ℚ) ^ e ≠ 0 := zpow_ne_zero _ (by norm_num)
  rw [value, value, mul_left_inj' hpow, Nat.cast_inj]

/-! ## Rounding -/

def digitCount (n : Nat) : Nat := (Nat.toDigits 10 n).length

theorem digitCount_le_iff {n p : Nat} (hp : 0 < p) : digitCount n ≤ p ↔ n < 10 ^ p :=
  Nat.length_toDigits_le_iff (by decide) hp

theorem digitCount_pos (n : Nat) : 0 < digitCount n := Nat.length_toDigits_pos

theorem digitCount_of_le {n : Nat} (hn : 10 ≤ n) : digitCount n = digitCount (n / 10) + 1 := by
  simp only [digitCount, Nat.toDigits_of_base_le (by decide : 1 < 10) hn, List.length_append,
    List.length_singleton]

theorem digitCount_mul_pow {n : Nat} (hn : 0 < n) (k : Nat) :
    digitCount (n * 10 ^ k) = digitCount n + k := by
  induction k with
  | zero => simp
  | succ k ih =>
    have hpos : 0 < n * 10 ^ k := Nat.mul_pos hn (Nat.pow_pos (by decide))
    rw [Nat.pow_succ, ← Nat.mul_assoc, digitCount_of_le (by omega),
      Nat.mul_div_cancel _ (by decide), ih, Nat.add_assoc]

/-- The quotient `q` with the remainder `r`, rounded to the nearest, a tie to even. -/
def roundHalfEven (q r unit : Nat) : Nat :=
  if 2 * r < unit then q
  else if unit < 2 * r then q + 1
  else if q % 2 = 0 then q else q + 1

theorem roundHalfEven_zero {q unit : Nat} (hunit : 0 < unit) : roundHalfEven q 0 unit = q := by
  simp [roundHalfEven, hunit]

theorem roundHalfEven_mul {q r unit m : Nat} (hm : 0 < m) :
    roundHalfEven q (r * m) (unit * m) = roundHalfEven q r unit := by
  unfold roundHalfEven
  rw [← Nat.mul_assoc]
  simp only [Nat.mul_lt_mul_right hm]

theorem roundHalfEven_bounds (q r unit : Nat) :
    q ≤ roundHalfEven q r unit ∧ roundHalfEven q r unit ≤ q + 1 := by
  unfold roundHalfEven
  split_ifs <;> omega

/-- Half a unit to either side, and at a tie the quotient is even. -/
theorem roundHalfEven_near {n unit : Nat} (hunit : 0 < unit) :
    let q := roundHalfEven (n / unit) (n % unit) unit
    (2 * q * unit ≤ 2 * n + unit ∧ 2 * n ≤ (2 * q + 1) * unit) ∧
      (2 * q * unit = 2 * n + unit ∨ 2 * n = (2 * q + 1) * unit → q % 2 = 0) := by
  have hdiv := Nat.div_add_mod n unit
  have hmod := Nat.mod_lt n hunit
  generalize n / unit = q at hdiv ⊢
  generalize n % unit = r at hdiv hmod ⊢
  have hodd : (2 * q + 1) * unit = 2 * (unit * q) + unit := by ring
  have hnext : (2 * (q + 1) + 1) * unit = 2 * (unit * q) + 3 * unit := by ring
  have heven : 2 * q * unit = 2 * (unit * q) := by ring
  have hup : 2 * (q + 1) * unit = 2 * (unit * q) + 2 * unit := by ring
  unfold roundHalfEven
  split_ifs <;> omega

/-- The natural number nearest to a rational number, a tie to even. -/
def nearest (x : ℚ) : Nat := roundHalfEven (x.num.toNat / x.den) (x.num.toNat % x.den) x.den

section Nearest
variable {x y : ℚ}

theorem nearest_of_nonpos (hx : x ≤ 0) : nearest x = 0 := by
  have hnum : x.num.toNat = 0 := Int.toNat_eq_zero.mpr (Rat.num_nonpos.mpr hx)
  rw [nearest, hnum, Nat.zero_div, Nat.zero_mod, roundHalfEven_zero x.den_pos]

theorem nearest_near (hx : 0 ≤ x) :
    ((2 * nearest x : ℚ) ≤ 2 * x + 1 ∧ 2 * x ≤ 2 * nearest x + 1) ∧
      ((2 * nearest x : ℚ) = 2 * x + 1 ∨ 2 * x = 2 * nearest x + 1 → nearest x % 2 = 0) := by
  have hden : (0 : ℚ) < x.den := Nat.cast_pos.mpr x.den_pos
  have hnum : ((x.num.toNat : Nat) : ℚ) = x * x.den := by
    have hcast : ((x.num.toNat : Nat) : ℚ) = (x.num : ℚ) := by
      exact_mod_cast Int.toNat_of_nonneg (Rat.num_nonneg.mpr hx)
    rw [hcast, Rat.mul_den_eq_num]
  obtain ⟨⟨hlow, hhigh⟩, htie⟩ := roundHalfEven_near (n := x.num.toNat) x.den_pos
  rw [← nearest] at hlow hhigh htie
  generalize nearest x = q at hlow hhigh htie ⊢
  have hscale : ∀ a b : ℚ, a ≤ b ↔ a * x.den ≤ b * x.den :=
    fun a b => (mul_le_mul_iff_left₀ hden).symm
  have heq : ∀ a b : ℚ, a = b ↔ a * x.den = b * x.den :=
    fun a b => (mul_left_inj' hden.ne').symm
  have hup : (2 * x + 1) * x.den = 2 * (x.num.toNat : ℚ) + x.den := by rw [hnum]; ring
  have htwo : 2 * x * x.den = 2 * (x.num.toNat : ℚ) := by rw [hnum]; ring
  refine ⟨⟨?_, ?_⟩, ?_⟩
  · rw [hscale, hup]
    exact_mod_cast hlow
  · rw [hscale, htwo]
    exact_mod_cast hhigh
  · rw [heq, heq (2 * x), hup, htwo]
    exact_mod_cast htie

theorem nearest_mono (h : x ≤ y) : nearest x ≤ nearest y := by
  rcases le_total x 0 with hx | hx
  · rw [nearest_of_nonpos hx]
    exact Nat.zero_le _
  obtain ⟨⟨hlow, _⟩, hxtie⟩ := nearest_near hx
  obtain ⟨⟨_, hhigh⟩, hytie⟩ := nearest_near (hx.trans h)
  by_contra hlt
  -- both would have to be even at the same tie
  have hnext : (nearest y + 1 : ℚ) ≤ nearest x := by exact_mod_cast Nat.not_le.mp hlt
  have hxeven := hxtie (.inl (by linarith))
  have hyeven := hytie (.inr (by linarith))
  have heq : nearest x = nearest y + 1 := by
    have hcast : (nearest x : ℚ) = nearest y + 1 := by linarith
    exact_mod_cast hcast
  omega

theorem nearest_pos_iff : 0 < nearest x ↔ 1 / 2 < x := by
  rcases le_total x 0 with hx | hx
  · rw [nearest_of_nonpos hx]
    constructor
    · intro h
      cases h
    · intro h
      linarith
  obtain ⟨⟨hlow, hhigh⟩, htie⟩ := nearest_near hx
  constructor
  · intro hpos
    have hone : (1 : ℚ) ≤ nearest x := by exact_mod_cast hpos
    by_contra hle
    have heven := htie (.inl (by linarith))
    have heq : nearest x = 1 := by
      have hcast : (nearest x : ℚ) = 1 := by linarith
      exact_mod_cast hcast
    omega
  · intro h
    by_contra hzero
    rw [Nat.eq_zero_of_not_pos hzero, Nat.cast_zero] at hhigh
    linarith

end Nearest

section Precision
variable (p : Nat)

/-- What is left of the digits of `n` when it keeps the first `p`, rounded. -/
def rounded (n : Nat) : Nat :=
  let unit := 10 ^ (digitCount n - p)
  roundHalfEven (n / unit) (n % unit) unit

/-- `n` rounded to `p` digits. -/
def roundTo (n : Nat) : Nat := rounded p n * 10 ^ (digitCount n - p)

/-- The number rounded to `p` digits; a carry into another digit moves the exponent. -/
def fix (d : Decimal) : Decimal :=
  let excess := digitCount d.coef - p
  if excess = 0 then d
  else if p < digitCount (rounded p d.coef) then
    ⟨rounded p d.coef / 10, d.exp + excess + 1⟩
  else ⟨rounded p d.coef, d.exp + excess⟩

def mul (a b : Decimal) : Decimal := fix p ⟨a.coef * b.coef, a.exp + b.exp⟩

def add (a b : Decimal) : Decimal :=
  let e := min a.exp b.exp
  fix p ⟨a.coef * 10 ^ (a.exp - e).toNat + b.coef * 10 ^ (b.exp - e).toNat, e⟩

variable {p}

theorem roundTo_of_digitCount {n : Nat} (h : digitCount n ≤ p) : roundTo p n = n := by
  simp [roundTo, rounded, Nat.sub_eq_zero_of_le h, Nat.mod_one, roundHalfEven]

theorem roundTo_of_lt {n : Nat} (hp : 0 < p) (h : n < 10 ^ p) : roundTo p n = n :=
  roundTo_of_digitCount ((digitCount_le_iff hp).mpr h)

/-- A number with more than `p` digits keeps `p` of them. -/
theorem le_roundTo {n : Nat} (hp : 0 < p) (h : p < digitCount n) : 10 ^ (p - 1) ≤ roundTo p n := by
  have hn : 10 ^ (digitCount n - 1) ≤ n := by
    by_contra hlt
    have hle := (digitCount_le_iff (show 0 < digitCount n - 1 by omega)).mpr (Nat.not_le.mp hlt)
    omega
  have hquotient : 10 ^ (p - 1) ≤ n / 10 ^ (digitCount n - p) := by
    rw [Nat.le_div_iff_mul_le (Nat.pow_pos (by decide)), ← Nat.pow_add]
    exact (Nat.pow_le_pow_right (by decide) (by omega)).trans hn
  calc 10 ^ (p - 1) ≤ n / 10 ^ (digitCount n - p) := hquotient
    _ ≤ rounded p n := (roundHalfEven_bounds _ _ _).1
    _ ≤ roundTo p n := Nat.le_mul_of_pos_right _ (Nat.pow_pos (by decide))

section Bound
variable {bound : Nat}

/-- A bound with fewer digits than the precision is not crossed by rounding. -/
theorem roundTo_lt_iff (hp : 0 < p) (hbound : bound ≤ 10 ^ (p - 1)) {n : Nat} :
    roundTo p n < bound ↔ n < bound := by
  by_cases hn : digitCount n ≤ p
  · rw [roundTo_of_digitCount hn]
  · have hround := le_roundTo hp (Nat.not_le.mp hn)
    have hle := Nat.not_lt.mp fun hlt => hn ((digitCount_le_iff hp).mpr hlt)
    have hpow : 10 ^ (p - 1) ≤ 10 ^ p := Nat.pow_le_pow_right (by decide) (Nat.sub_le p 1)
    omega

theorem roundTo_of_bound (hp : 0 < p) (hbound : bound ≤ 10 ^ (p - 1)) {n : Nat} (hn : n < bound) :
    roundTo p n = n := by
  apply roundTo_of_lt hp
  have hpow : 10 ^ (p - 1) ≤ 10 ^ p := Nat.pow_le_pow_right (by decide) (Nat.sub_le p 1)
  omega

/-- The accumulated sum is below the bound exactly when the sum is, and then it is the sum. -/
theorem foldl_roundTo (hp : 0 < p) (hbound : bound ≤ 10 ^ (p - 1)) (ns : List Nat) :
    (ns.foldl (fun acc n => roundTo p (acc + n)) 0 < bound ↔ ns.sum < bound) ∧
      (ns.sum < bound → ns.foldl (fun acc n => roundTo p (acc + n)) 0 = ns.sum) := by
  induction ns using List.reverseRecOn with
  | nil => exact ⟨Iff.rfl, fun _ => rfl⟩
  | append_singleton ns n ih =>
    obtain ⟨hlt, heq⟩ := ih
    simp only [List.foldl_append, List.foldl_cons, List.foldl_nil, List.sum_append,
      List.sum_singleton, roundTo_lt_iff hp hbound]
    have hsum : ns.foldl (fun acc n => roundTo p (acc + n)) 0 + n < bound ↔ ns.sum + n < bound := by
      constructor
      · intro h
        rw [← heq (hlt.mp (by omega))]
        exact h
      · intro h
        rw [heq (by omega)]
        exact h
    refine ⟨hsum, fun h => ?_⟩
    rw [roundTo_of_bound hp hbound (hsum.mpr h), heq (by omega)]

end Bound

/-- Zeros at the end change nothing. -/
theorem roundTo_mul_pow (hp : 0 < p) (n k : Nat) : roundTo p (n * 10 ^ k) = roundTo p n * 10 ^ k := by
  rcases Nat.eq_zero_or_pos n with rfl | hn
  · simp [roundTo_of_lt hp (Nat.pow_pos (by decide) : 0 < 10 ^ p)]
  · have hcount := digitCount_mul_pow hn k
    rcases Nat.le_total (digitCount n) p with hle | hle
    · -- the digits that are dropped are zeros
      rw [roundTo_of_digitCount hle]
      obtain ⟨j, hj⟩ : ∃ j, k = j + (digitCount n + k - p) :=
        ⟨k - (digitCount n + k - p), by omega⟩
      have hunit : 0 < 10 ^ (digitCount n + k - p) := Nat.pow_pos (by decide)
      have hmul : n * 10 ^ k = n * 10 ^ j * 10 ^ (digitCount n + k - p) := by
        rw [Nat.mul_assoc, ← Nat.pow_add, ← hj]
      unfold roundTo rounded
      rw [hcount]
      simp only
      rw [hmul, Nat.mul_div_cancel _ hunit, Nat.mul_mod_left, roundHalfEven_zero hunit]
    · have hunit : 0 < 10 ^ k := Nat.pow_pos (by decide)
      have hexcess : digitCount n + k - p = digitCount n - p + k := by omega
      unfold roundTo rounded
      rw [hcount, hexcess, Nat.pow_add]
      simp only
      rw [Nat.mul_div_mul_right _ _ hunit, Nat.mul_mod_mul_right, roundHalfEven_mul hunit,
        Nat.mul_assoc]

/-- A carry leaves a coefficient of zeros. -/
theorem rounded_of_carry {n : Nat} (hp : 0 < p) (hexcess : digitCount n - p ≠ 0)
    (hcarry : p < digitCount (rounded p n)) : rounded p n = rounded p n / 10 * 10 := by
  have hn : n < 10 ^ digitCount n := (digitCount_le_iff (digitCount_pos n)).mp (Nat.le_refl _)
  have hquotient : n / 10 ^ (digitCount n - p) < 10 ^ p := by
    rw [Nat.div_lt_iff_lt_mul (Nat.pow_pos (by decide)), ← Nat.pow_add]
    have hcount : p + (digitCount n - p) = digitCount n := by omega
    rwa [hcount]
  have hle : rounded p n ≤ 10 ^ p := (roundHalfEven_bounds _ _ _).2.trans hquotient
  have hge : 10 ^ p ≤ rounded p n := by
    by_contra hlt
    exact absurd ((digitCount_le_iff hp).mpr (Nat.not_le.mp hlt)) (Nat.not_le.mpr hcarry)
  have heq : rounded p n = 10 ^ p := Nat.le_antisymm hle hge
  obtain ⟨q, rfl⟩ : ∃ q, p = q + 1 := ⟨p - 1, by omega⟩
  rw [heq, Nat.pow_succ, Nat.mul_div_cancel _ (by decide)]

theorem value_fix (hp : 0 < p) (d : Decimal) :
    (fix p d).value = (⟨roundTo p d.coef, d.exp⟩ : Decimal).value := by
  unfold fix
  simp only
  split
  · rename_i hexcess
    rw [roundTo_of_digitCount (by omega)]
  · rename_i hexcess
    rw [roundTo, value_shift]
    split
    · rename_i hcarry
      have hzeros := value_shift (rounded p d.coef / 10) 1
        (d.exp + (digitCount d.coef - p : Nat))
      rw [Nat.pow_one, ← rounded_of_carry hp hexcess hcarry] at hzeros
      exact hzeros.symm
    · rfl

/-- Rounding a value that is a multiple of `10 ^ s`. -/
theorem value_fix_of_value (hp : 0 < p) {d : Decimal} {n : Nat} {s : Int}
    (h : d.value = (⟨n, s⟩ : Decimal).value) :
    (fix p d).value = (⟨roundTo p n, s⟩ : Decimal).value := by
  obtain ⟨c, e⟩ := d
  rw [value_fix hp]
  rcases le_total e s with hle | hle
  · obtain ⟨k, rfl⟩ : ∃ k : Nat, s = e + k := ⟨(s - e).toNat, by omega⟩
    rw [coef_of_value_eq h, roundTo_mul_pow hp, value_shift]
  · obtain ⟨k, rfl⟩ : ∃ k : Nat, e = s + k := ⟨(e - s).toNat, by omega⟩
    rw [coef_of_value_eq h.symm, roundTo_mul_pow hp, value_shift]

theorem value_mul_ofNat (hp : 0 < p) {a : Decimal} {m : Nat} {s : Int}
    (ha : a.value = (⟨m, s⟩ : Decimal).value) (k : Nat) :
    (mul p a (ofNat k)).value = (⟨roundTo p (m * k), s⟩ : Decimal).value := by
  apply value_fix_of_value hp
  simp only [value, ofNat, add_zero, Nat.cast_mul] at ha ⊢
  rw [mul_right_comm, ha, mul_right_comm]

theorem value_add (hp : 0 < p) {a b : Decimal} {m n : Nat} {s : Int}
    (ha : a.value = (⟨m, s⟩ : Decimal).value) (hb : b.value = (⟨n, s⟩ : Decimal).value) :
    (add p a b).value = (⟨roundTo p (m + n), s⟩ : Decimal).value := by
  have haligned : ∀ (d : Decimal) (e : Int), e ≤ d.exp →
      ((d.coef * 10 ^ (d.exp - e).toNat : Nat) : ℚ) * 10 ^ e = d.value := by
    intro d e he
    have hshift := value_shift d.coef (d.exp - e).toNat e
    have hexp : e + ((d.exp - e).toNat : Int) = d.exp := by omega
    rw [hexp] at hshift
    exact hshift
  apply value_fix_of_value hp
  have hsum : (⟨m + n, s⟩ : Decimal).value = a.value + b.value := by
    rw [ha, hb]
    simp only [value, Nat.cast_add]
    ring
  rw [hsum, ← haligned a _ (min_le_left _ _), ← haligned b _ (min_le_right _ _)]
  simp only [value, Nat.cast_add]
  ring

/-- A sum of numbers that are multiples of `10 ^ s`. -/
theorem value_foldl_add (hp : 0 < p) {s : Int} {ds : List Decimal} {ns : List Nat}
    (h : List.Forall₂ (fun (d : Decimal) n => d.value = (⟨n, s⟩ : Decimal).value) ds ns)
    {acc : Decimal} {m : Nat} (hacc : acc.value = (⟨m, s⟩ : Decimal).value) :
    (ds.foldl (add p) acc).value =
      (⟨ns.foldl (fun m n => roundTo p (m + n)) m, s⟩ : Decimal).value := by
  induction h generalizing acc m with
  | nil => exact hacc
  | cons hd _ ih => exact ih (value_add hp hacc hd)

end Precision

end Decimal
