/-
UbloxRead.FixedPoint — the conversions from floating point to fixed point.

`float_to_fixedpoint` and `double_to_fixedpoint` multiply a number by 2, or by
1/2, in a loop and convert what they have then to `int`. `float` and `double`
are the binary formats of 32 and 64 bits, with products rounded to nearest. The
conversion has no outcome where C does not define it: when the integer part is
no `int`.

`toFixedpoint_eq`: the answer is the integer part of the exact product, and there
is one whenever that is an `int`. The roundings and overflows on the way do not
show, because a product that is rounded is smaller than one and a product that
overflows is too large for an `int`.
-/
import UbloxRead.Lib.Binary
import UbloxRead.Lib.Loop
import UbloxRead.UbxParse

namespace UbloxRead

open Lib

variable {w t : Nat}

/-- `(int)f`. -/
def castInt (f : Binary w t) : Option Int :=
  if f.Finite ∧ INT_MIN ≤ Binary.truncate f.value ∧ Binary.truncate f.value ≤ INT_MAX then
    some (Binary.truncate f.value)
  else none

/-- `while (sf++ < 0) f *= 2.0f;`. -/
def doubleWhile : Binary w t × Int → Option (Binary w t × Int) := fun (f, sf) =>
  if sf < 0 then some (f.double, sf + 1) else none

/-- `while (sf-- > 0) f *= 0.5f;`. -/
def halveWhile : Binary w t × Int → Option (Binary w t × Int) := fun (f, sf) =>
  if sf > 0 then some (f.half, sf - 1) else none

/-- The body of the two conversions, for the numbers of any binary format. -/
def toFixedpoint (f : Binary w t) (sf : Int) : Option Int :=
  (whileLoop (if sf < 0 then doubleWhile else halveWhile) (sf.natAbs + 1) (f, sf)).bind
    fun s => castInt s.1

/-- `float_to_fixedpoint`. -/
def floatToFixedpoint (f : BitVec 32) (sf : Int) : Option Int :=
  toFixedpoint (Binary.ofBits 8 23 f.toNat) sf

/-- `double_to_fixedpoint`. -/
def doubleToFixedpoint (d : BitVec 64) (sf : Int) : Option Int :=
  toFixedpoint (Binary.ofBits 11 52 d.toNat) sf

/-! ## What they are for -/

/-- `f` in units of `2 ^ sf`, as an `int`: the integer part of `f * 2 ^ (-sf)`. -/
def fixedOf (f : Binary w t) (sf : Int) : Option Int :=
  let q := f.value * 2 ^ (-sf)
  if f.Finite ∧ INT_MIN ≤ Binary.truncate q ∧ Binary.truncate q ≤ INT_MAX then
    some (Binary.truncate q)
  else none

theorem whileLoop_double (f : Binary w t) (k : Nat) :
    whileLoop doubleWhile (k + 1) (f, -(k : Int)) = some (Binary.double^[k] f, 0) := by
  induction k generalizing f with
  | zero => rfl
  | succ k ih =>
    have hround : doubleWhile (f, -((k + 1 : Nat) : Int)) = some (f.double, -(k : Int)) := by
      rw [doubleWhile, if_pos (by omega)]
      congr 2
      omega
    rw [whileLoop, hround, Function.iterate_succ_apply]
    exact ih f.double

theorem whileLoop_half (f : Binary w t) (k : Nat) :
    whileLoop halveWhile (k + 1) (f, (k : Int)) = some (Binary.half^[k] f, 0) := by
  induction k generalizing f with
  | zero => rfl
  | succ k ih =>
    have hround : halveWhile (f, ((k + 1 : Nat) : Int)) = some (f.half, (k : Int)) := by
      rw [halveWhile, if_pos (by omega)]
      congr 2
      omega
    rw [whileLoop, hround, Function.iterate_succ_apply]
    exact ih f.half

theorem castInt_of_not_finite {f : Binary w t} (h : ¬ f.Finite) : castInt f = none :=
  if_neg fun h' => h h'.1

theorem fixedOf_of_not_finite {f : Binary w t} (h : ¬ f.Finite) (sf : Int) :
    fixedOf f sf = none := if_neg fun h' => h h'.1

/-- A product that the formats have no room for is no `int`. -/
theorem fixedOf_of_large (hw : 6 ≤ w) {f : Binary w t} {sf : Int}
    (h : (2 : ℚ) ^ 2 ^ (w - 1) ≤ |f.value * 2 ^ (-sf)|) : fixedOf f sf = none := by
  have hexp : 2 ^ 5 ≤ 2 ^ (w - 1) := Nat.pow_le_pow_right (by omega) (by omega)
  have hpow : ((2 ^ 32 : Nat) : ℚ) ≤ 2 ^ 2 ^ (w - 1) := by
    push_cast
    exact pow_le_pow_right₀ (by norm_num : (1 : ℚ) ≤ 2) hexp
  have htrunc := Binary.le_abs_truncate (le_trans hpow h)
  rw [fixedOf]
  refine if_neg fun hint => ?_
  have habs := abs_le.mpr ⟨show -(2 ^ 31 : Int) ≤ _ from hint.2.1,
    show _ ≤ (2 ^ 31 : Int) from le_trans hint.2.2 (by decide)⟩
  omega

/-- **Scaling up.** -/
theorem castInt_double (hw : 6 ≤ w) (f : Binary w t) (k : Nat) :
    castInt (Binary.double^[k] f) = fixedOf f (-(k : Int)) := by
  by_cases hf : f.Finite
  · have hscale : f.value * 2 ^ (-(-(k : Int))) = f.value * 2 ^ k := by
      rw [neg_neg, zpow_natCast]
    obtain ⟨hfin, hval⟩ | ⟨hinf, hlarge⟩ := Binary.iterate_double_cases (by omega) hf k
    · simp only [castInt, fixedOf, hscale, hval, hfin, hf]
    · rw [castInt_of_not_finite hinf, fixedOf_of_large hw (by rwa [hscale])]
  · rw [Binary.iterate_double_of_not_finite hf, castInt_of_not_finite hf,
      fixedOf_of_not_finite hf]

/-- **Scaling down.** -/
theorem castInt_half (hw : 3 ≤ w) (f : Binary w t) (k : Nat) :
    castInt (Binary.half^[k] f) = fixedOf f k := by
  by_cases hf : f.Finite
  · have hscale : f.value * 2 ^ (-(k : Int)) = f.value / 2 ^ k := by
      rw [zpow_neg, zpow_natCast, div_eq_mul_inv]
    obtain ⟨hfin, hval⟩ := Binary.iterate_half_cases hw hf k
    have htrunc : Binary.truncate (Binary.half^[k] f).value = Binary.truncate (f.value / 2 ^ k) := by
      obtain heq | ⟨hquot, hsmall⟩ := hval
      · rw [heq]
      · rw [Binary.truncate_eq_zero hquot, Binary.truncate_eq_zero hsmall]
    simp only [castInt, fixedOf, hscale, htrunc, hfin, hf]
  · rw [Binary.iterate_half_of_not_finite hf, castInt_of_not_finite hf, fixedOf_of_not_finite hf]

/-- **The conversions are exact.** In a format of six bits of exponent or more. -/
theorem toFixedpoint_eq (hw : 6 ≤ w) (f : Binary w t) (sf : Int) :
    toFixedpoint f sf = fixedOf f sf := by
  unfold toFixedpoint
  split_ifs with hneg
  · obtain ⟨k, rfl⟩ : ∃ k : Nat, sf = -(k : Int) := ⟨sf.natAbs, by omega⟩
    rw [Int.natAbs_neg, Int.natAbs_natCast, whileLoop_double, Option.bind_some]
    exact castInt_double hw f k
  · obtain ⟨k, rfl⟩ : ∃ k : Nat, sf = k := ⟨sf.natAbs, by omega⟩
    rw [Int.natAbs_natCast, whileLoop_half, Option.bind_some]
    exact castInt_half (by omega) f k

/-- **Both conversions are exact**, for every number and every scale factor. -/
theorem fixedpoint_exact (f : BitVec 32) (d : BitVec 64) (sf : Int) :
    floatToFixedpoint f sf = fixedOf (Binary.ofBits 8 23 f.toNat) sf ∧
      doubleToFixedpoint d sf = fixedOf (Binary.ofBits 11 52 d.toNat) sf :=
  ⟨toFixedpoint_eq (by omega) _ sf, toFixedpoint_eq (by omega) _ sf⟩

example : floatToFixedpoint 0x3f800000#32 (-30) = some (2 ^ 30) ∧
    floatToFixedpoint 0x3f800000#32 (-31) = none := by decide +kernel

/-! ## The conversions of the handlers -/

/-- The conversions of the code; `undef` is what the machine makes of a conversion to
`int` that C does not define. -/
def conversions (undef : FixedPoint) : FixedPoint where
  floatToFixedpoint f sf := (floatToFixedpoint f sf).getD (undef.floatToFixedpoint f sf)
  doubleToFixedpoint d sf := (doubleToFixedpoint d sf).getD (undef.doubleToFixedpoint d sf)

/-- The exact ones. -/
def exactConversions (undef : FixedPoint) : FixedPoint where
  floatToFixedpoint f sf :=
    (fixedOf (Binary.ofBits 8 23 f.toNat) sf).getD (undef.floatToFixedpoint f sf)
  doubleToFixedpoint d sf :=
    (fixedOf (Binary.ofBits 11 52 d.toNat) sf).getD (undef.doubleToFixedpoint d sf)

theorem conversions_eq (undef : FixedPoint) : conversions undef = exactConversions undef := by
  unfold conversions exactConversions floatToFixedpoint doubleToFixedpoint
  congr 1 <;> funext f sf <;> rw [toFixedpoint_eq (by omega)]

end UbloxRead
