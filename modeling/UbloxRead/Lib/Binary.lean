/-
UbloxRead.Lib.Binary — binary floating-point numbers, scaled by powers of two.

A format has `w` bits of exponent and `t` bits of fraction. A number is a sign
and a magnitude, the exponent and the fraction read as one natural number. The
magnitudes from `infinity` on stand for infinity and for the NaNs.

`double` and `half` multiply by 2 and by 1/2 and round to nearest, ties to even.
`double_cases`: doubling is exact, or the number has become too large for the
format. `half_cases`: halving is exact, or the number is smaller than one. The
two `iterate` lemmas carry this to any number of multiplications.
-/
import Mathlib.Data.Rat.Floor
import Mathlib.Tactic.Linarith
import Mathlib.Tactic.Ring

namespace UbloxRead.Lib

/-- A number of the binary format with `w` bits of exponent and `t` of fraction. -/
structure Binary (w t : Nat) where
  negative : Bool
  magnitude : Nat
  bounded : magnitude < 2 ^ (w + t)

namespace Binary

variable {w t : Nat}

/-- The magnitude of infinity: all bits of the exponent, none of the fraction. -/
def infinity (w t : Nat) : Nat := (2 ^ w - 1) * 2 ^ t

theorem lt_of_le_infinity {m : Nat} (h : m ≤ infinity w t) : m < 2 ^ (w + t) := by
  have hw : 0 < 2 ^ w := Nat.two_pow_pos w
  have hlt : infinity w t < 2 ^ w * 2 ^ t :=
    Nat.mul_lt_mul_of_pos_right (by omega) (Nat.two_pow_pos t)
  rw [pow_add]
  omega

/-- The number with the bits of `n`: sign, exponent, fraction. -/
def ofBits (w t n : Nat) : Binary w t where
  negative := n.testBit (w + t)
  magnitude := n % 2 ^ (w + t)
  bounded := Nat.mod_lt _ (Nat.two_pow_pos _)

/-- Neither infinity nor a NaN. -/
def Finite (x : Binary w t) : Prop := x.magnitude < infinity w t

instance (x : Binary w t) : Decidable x.Finite := inferInstanceAs (Decidable (_ < _))

/-! ## What a number stands for -/

/-- The bias of the exponent. -/
def bias (w : Nat) : Int := 2 ^ (w - 1) - 1

/-- The exponent of the last bit of the fraction. The exponents 0 and 1 are the same
one. -/
def lastExponent (w t m : Nat) : Int := max (m / 2 ^ t : Nat) 1 - bias w - t

/-- The fraction, with the leading bit that an exponent other than 0 implies. -/
def significand (t m : Nat) : Nat := if m < 2 ^ t then m else 2 ^ t + m % 2 ^ t

/-- The absolute value of the numbers with the magnitude `m`. -/
def size (w t m : Nat) : ℚ := significand t m * 2 ^ lastExponent w t m

/-- The value of a finite number. -/
def value (x : Binary w t) : ℚ :=
  if x.negative then -size w t x.magnitude else size w t x.magnitude

/-- The integer part, as a conversion to an integer leaves it: toward zero. -/
def truncate (q : ℚ) : Int := if 0 ≤ q then ⌊q⌋ else ⌈q⌉

/-! ## Multiplying by 2 and by 1/2 -/

/-- Twice a magnitude: the fraction moves up while the exponent is 0, and from then on
the exponent grows. -/
def doubled (t m : Nat) : Nat := if m < 2 ^ t then 2 * m else m + 2 ^ t

/-- Half a magnitude: the exponent falls until it is 1, and from then on the fraction
moves down and loses its last bit. Of two numbers as near the even one is taken. -/
def halved (t m : Nat) : Nat :=
  if 2 ^ (t + 1) ≤ m then m - 2 ^ t else if m % 4 = 3 then (m + 1) / 2 else m / 2

theorem halved_le (t m : Nat) : halved t m ≤ m := by
  unfold halved
  split_ifs
  · exact Nat.sub_le _ _
  · omega
  · omega

/-- Multiply by 2. -/
def double (x : Binary w t) : Binary w t where
  negative := x.negative
  magnitude := if x.Finite then min (doubled t x.magnitude) (infinity w t) else x.magnitude
  bounded := by
    split
    · exact lt_of_le_infinity (min_le_right _ _)
    · exact x.bounded

/-- Multiply by 1/2. -/
def half (x : Binary w t) : Binary w t where
  negative := x.negative
  magnitude := if x.Finite then halved t x.magnitude else x.magnitude
  bounded := by
    split
    · exact Nat.lt_of_le_of_lt (halved_le t x.magnitude) x.bounded
    · exact x.bounded

/-! ## Sizes -/

theorem size_nonneg (w t m : Nat) : 0 ≤ size w t m :=
  mul_nonneg (Nat.cast_nonneg _) (zpow_nonneg (by norm_num) _)

/-- With the exponents 0 and 1 the size is a multiple of the least one. -/
theorem size_of_lt {m : Nat} (h : m < 2 ^ (t + 1)) :
    size w t m = m * 2 ^ (1 - bias w - t : Int) := by
  have hexp : m / 2 ^ t ≤ 1 := by
    rw [pow_succ'] at h
    have := Nat.div_lt_of_lt_mul (by rwa [Nat.mul_comm] at h)
    omega
  have hsig : significand t m = m := by
    unfold significand
    split_ifs with hlt
    · rfl
    · rw [Nat.mod_eq_sub_mod (by omega), Nat.mod_eq_of_lt (by omega)]
      omega
  rw [size, hsig, lastExponent, max_eq_right hexp, Nat.cast_one]

/-- One more in the exponent is twice the size. -/
theorem size_add {m : Nat} (h : 2 ^ t ≤ m) : size w t (m + 2 ^ t) = 2 * size w t m := by
  have hpos : 0 < 2 ^ t := Nat.two_pow_pos t
  have hexp : 1 ≤ m / 2 ^ t := (Nat.one_le_div_iff hpos).mpr h
  have hlast : lastExponent w t (m + 2 ^ t) = lastExponent w t m + 1 := by
    rw [lastExponent, lastExponent, Nat.add_div_right _ hpos]
    omega
  have hsig : significand t (m + 2 ^ t) = significand t m := by
    rw [significand, significand, if_neg (by omega), if_neg (by omega), Nat.add_mod_right]
  rw [size, size, hsig, hlast, zpow_add_one₀ (by norm_num)]
  ring

theorem size_doubled (w t m : Nat) : size w t (doubled t m) = 2 * size w t m := by
  unfold doubled
  split_ifs with h
  · rw [size_of_lt (by rw [pow_succ]; omega), size_of_lt (by rw [pow_succ]; omega)]
    push_cast
    ring
  · exact size_add (by omega)

/-- Halving loses nothing while the exponent is above 1. -/
theorem size_halved {m : Nat} (h : 2 ^ (t + 1) ≤ m) : size w t (halved t m) = size w t m / 2 := by
  have hle : 2 ^ t ≤ m - 2 ^ t := by
    rw [pow_succ] at h
    omega
  have hadd := size_add (w := w) hle
  rw [Nat.sub_add_cancel (by omega)] at hadd
  rw [halved, if_pos h, hadd]
  ring

/-- With the exponents 0 and 1 the size is less than one. -/
theorem size_lt_one (hw : 3 ≤ w) {m : Nat} (h : m < 2 ^ (t + 1)) : size w t m < 1 := by
  have hbias : 2 ≤ bias w := by
    have : (2 : Int) ^ 2 ≤ 2 ^ (w - 1) := pow_le_pow_right₀ (by norm_num) (by omega)
    rw [bias]
    omega
  have hpow : (2 : ℚ) ^ (1 - bias w - t : Int) ≤ 2 ^ (-(t + 1 : Int)) :=
    zpow_le_zpow_right₀ (by norm_num) (by omega)
  have hm : (m : ℚ) < 2 ^ (t + 1 : Int) := by exact_mod_cast h
  rw [size_of_lt h]
  calc (m : ℚ) * 2 ^ (1 - bias w - t : Int)
      ≤ m * 2 ^ (-(t + 1 : Int)) := mul_le_mul_of_nonneg_left hpow (Nat.cast_nonneg m)
    _ < 2 ^ (t + 1 : Int) * 2 ^ (-(t + 1 : Int)) :=
      mul_lt_mul_of_pos_right hm (zpow_pos (by norm_num) _)
    _ = 1 := by rw [← zpow_add₀ (by norm_num), add_neg_cancel, zpow_zero]

/-- A magnitude that doubling takes to infinity has the largest exponent. -/
theorem exponent_of_overflow (hw : 2 ≤ w) {m : Nat} (h : infinity w t ≤ doubled t m) :
    2 ^ t ≤ m ∧ 2 ^ w ≤ m / 2 ^ t + 2 := by
  have hpos : 0 < 2 ^ t := Nat.two_pow_pos t
  have hfour : 2 ^ 2 ≤ 2 ^ w := Nat.pow_le_pow_right (by omega) hw
  have hle : 3 * 2 ^ t ≤ infinity w t := Nat.mul_le_mul_right _ (by omega)
  have hlarge : ¬ m < 2 ^ t := fun hlt => by
    rw [doubled, if_pos hlt] at h
    omega
  rw [doubled, if_neg hlarge, infinity] at h
  refine ⟨by omega, ?_⟩
  have hexp : 2 ^ w - 2 ≤ m / 2 ^ t := by
    rw [Nat.le_div_iff_mul_le hpos]
    have hsucc : (2 ^ w - 1) * 2 ^ t = (2 ^ w - 2) * 2 ^ t + 2 ^ t := by
      rw [← Nat.succ_mul]
      congr 1
      omega
    omega
  omega

/-- So the number was half as large as the format allows, at least. -/
theorem le_size_of_overflow (hw : 2 ≤ w) {m : Nat} (h : infinity w t ≤ doubled t m) :
    (2 : ℚ) ^ 2 ^ (w - 1) ≤ 2 * size w t m := by
  obtain ⟨hlarge, hexp⟩ := exponent_of_overflow hw h
  have hsig : (2 : ℚ) ^ (t : Int) ≤ significand t m := by
    rw [significand, if_neg (by omega)]
    exact_mod_cast Nat.le_add_right _ _
  have hlast : (2 ^ (w - 1) - 1 - t : Int) ≤ lastExponent w t m := by
    have hcast : (2 ^ w : Int) ≤ (m / 2 ^ t : Nat) + 2 := by exact_mod_cast hexp
    have hpow : (2 ^ w : Int) = 2 * 2 ^ (w - 1) := by
      rw [← pow_succ', Nat.sub_add_cancel (by omega)]
    rw [lastExponent, bias]
    omega
  have hsize : (2 : ℚ) ^ (t : Int) * 2 ^ (2 ^ (w - 1) - 1 - t : Int) ≤ size w t m :=
    mul_le_mul hsig (zpow_le_zpow_right₀ (by norm_num) hlast) (zpow_nonneg (by norm_num) _)
      (Nat.cast_nonneg _)
  calc (2 : ℚ) ^ 2 ^ (w - 1)
      = 2 * (2 ^ (t : Int) * 2 ^ (2 ^ (w - 1) - 1 - t : Int)) := by
        rw [← zpow_add₀ (by norm_num), ← zpow_one_add₀ (by norm_num), ← zpow_natCast]
        congr 1
        push_cast
        ring
    _ ≤ 2 * size w t m := mul_le_mul_of_nonneg_left hsize (by norm_num)

/-! ## One multiplication -/

theorem abs_value (x : Binary w t) : |x.value| = size w t x.magnitude := by
  unfold value
  split
  · rw [abs_neg, abs_of_nonneg (size_nonneg _ _ _)]
  · rw [abs_of_nonneg (size_nonneg _ _ _)]

theorem double_magnitude {x : Binary w t} (hx : x.Finite) :
    x.double.magnitude = min (doubled t x.magnitude) (infinity w t) := if_pos hx

theorem half_magnitude {x : Binary w t} (hx : x.Finite) :
    x.half.magnitude = halved t x.magnitude := if_pos hx

/-- The value is scaled as the size is, under the same sign. -/
theorem value_scaled {x y : Binary w t} {c : ℚ} (hneg : y.negative = x.negative)
    (hsize : size w t y.magnitude = size w t x.magnitude * c) : y.value = x.value * c := by
  rw [value, value, hneg, hsize]
  split
  · exact (neg_mul _ _).symm
  · rfl

/-- **Doubling** is exact, or the result is too large for the format. -/
theorem double_cases (hw : 2 ≤ w) {x : Binary w t} (hx : x.Finite) :
    (x.double.Finite ∧ x.double.value = x.value * 2) ∨
      (¬ x.double.Finite ∧ (2 : ℚ) ^ 2 ^ (w - 1) ≤ |x.value * 2|) := by
  by_cases hlt : doubled t x.magnitude < infinity w t
  · have hmag : x.double.magnitude = doubled t x.magnitude := by
      rw [double_magnitude hx, min_eq_left (by omega)]
    refine Or.inl ⟨by rw [Finite, hmag]; exact hlt, value_scaled rfl ?_⟩
    rw [hmag, size_doubled, mul_comm]
  · have hmag : x.double.magnitude = infinity w t := by
      rw [double_magnitude hx, min_eq_right (by omega)]
    refine Or.inr ⟨by rw [Finite, hmag]; exact lt_irrefl _, ?_⟩
    rw [abs_mul, abs_value, abs_two, mul_comm]
    exact le_size_of_overflow hw (by omega)

theorem double_of_not_finite {x : Binary w t} (hx : ¬ x.Finite) : x.double = x := by
  simp [double, hx]

/-- **Halving** is exact, or the number is smaller than one, before and after. -/
theorem half_cases (hw : 3 ≤ w) {x : Binary w t} (hx : x.Finite) :
    x.half.Finite ∧ (x.half.value = x.value / 2 ∨ (|x.value| < 1 ∧ |x.half.value| < 1)) := by
  have hmag := half_magnitude hx
  have hle : halved t x.magnitude ≤ x.magnitude := halved_le t x.magnitude
  refine ⟨by rw [Finite, hmag]; exact Nat.lt_of_le_of_lt hle hx, ?_⟩
  by_cases h : 2 ^ (t + 1) ≤ x.magnitude
  · refine Or.inl ?_
    rw [div_eq_mul_inv]
    refine value_scaled rfl ?_
    rw [hmag, size_halved h, div_eq_mul_inv]
  · rw [abs_value, abs_value, hmag]
    exact Or.inr ⟨size_lt_one hw (by omega), size_lt_one hw (by omega)⟩

theorem half_of_not_finite {x : Binary w t} (hx : ¬ x.Finite) : x.half = x := by
  simp [half, hx]

/-! ## Any number of multiplications -/

/-- Doubled `k` times a number is exact, or too large for the format. -/
theorem iterate_double_cases (hw : 2 ≤ w) {x : Binary w t} (hx : x.Finite) (k : Nat) :
    ((double^[k] x).Finite ∧ (double^[k] x).value = x.value * 2 ^ k) ∨
      (¬ (double^[k] x).Finite ∧ (2 : ℚ) ^ 2 ^ (w - 1) ≤ |x.value * 2 ^ k|) := by
  induction k with
  | zero => exact Or.inl ⟨hx, by simp⟩
  | succ k ih =>
    rw [Function.iterate_succ_apply', pow_succ, ← mul_assoc]
    obtain ⟨hfin, hval⟩ | ⟨hinf, hlarge⟩ := ih
    · rw [← hval]
      exact double_cases hw hfin
    · rw [double_of_not_finite hinf, abs_mul, abs_two]
      refine Or.inr ⟨hinf, le_trans hlarge ?_⟩
      linarith [abs_nonneg (x.value * 2 ^ k)]

theorem iterate_double_of_not_finite {x : Binary w t} (hx : ¬ x.Finite) (k : Nat) :
    double^[k] x = x :=
  Function.iterate_fixed (double_of_not_finite hx) k

/-- Halved `k` times a number is exact, or it and the exact quotient are smaller than
one. -/
theorem iterate_half_cases (hw : 3 ≤ w) {x : Binary w t} (hx : x.Finite) (k : Nat) :
    (half^[k] x).Finite ∧ ((half^[k] x).value = x.value / 2 ^ k ∨
      (|x.value / 2 ^ k| < 1 ∧ |(half^[k] x).value| < 1)) := by
  induction k with
  | zero => exact ⟨hx, Or.inl (by simp)⟩
  | succ k ih =>
    rw [Function.iterate_succ_apply', pow_succ, ← div_div]
    obtain ⟨hfin, hprev⟩ := ih
    obtain ⟨hfin', hstep⟩ := half_cases hw hfin
    refine ⟨hfin', ?_⟩
    have hhalf : ∀ q : ℚ, |q| < 1 → |q / 2| < 1 := fun q hq => by
      rw [abs_div, abs_two]
      linarith
    obtain heq | ⟨hquot, hsmall⟩ := hprev
    · rw [← heq]
      obtain hexact | ⟨hlt, hlt'⟩ := hstep
      · exact Or.inl hexact
      · exact Or.inr ⟨hhalf _ hlt, hlt'⟩
    · refine Or.inr ⟨hhalf _ hquot, ?_⟩
      obtain hexact | ⟨-, hlt'⟩ := hstep
      · rw [hexact]
        exact hhalf _ hsmall
      · exact hlt'

theorem iterate_half_of_not_finite {x : Binary w t} (hx : ¬ x.Finite) (k : Nat) :
    half^[k] x = x :=
  Function.iterate_fixed (half_of_not_finite hx) k

/-! ## The integer part -/

theorem truncate_eq_zero {q : ℚ} (h : |q| < 1) : truncate q = 0 := by
  obtain ⟨hlo, hhi⟩ := abs_lt.mp h
  unfold truncate
  split_ifs with hq
  · exact Int.floor_eq_zero_iff.mpr ⟨hq, hhi⟩
  · exact Int.ceil_eq_zero_iff.mpr ⟨hlo, by linarith⟩

/-- The integer part reaches every integer that the number reaches. -/
theorem le_abs_truncate {n : Nat} {q : ℚ} (h : n ≤ |q|) : (n : Int) ≤ |truncate q| := by
  unfold truncate
  split_ifs with hq
  · rw [abs_of_nonneg hq] at h
    exact le_trans (Int.le_floor.mpr (by exact_mod_cast h)) (le_abs_self _)
  · rw [abs_of_neg (by linarith)] at h
    have hceil : ⌈q⌉ ≤ -(n : Int) := Int.ceil_le.mpr (by push_cast; linarith)
    exact le_trans (by omega) (neg_le_abs _)

end Binary

end UbloxRead.Lib
