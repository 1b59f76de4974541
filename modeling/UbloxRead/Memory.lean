/-
UbloxRead.Memory — the C objects the model shares: bytes, blocks of memory
and the integer conversions the compiler inserts.

A block is `Mem := Nat → UInt8`, a byte for every offset from the block's
start. Nothing bounds the offsets: what lies behind a buffer is part of the
block, so a function that reads past the end of its buffer reads it. A pointer
into a block is an offset.

The integer types are those of the makefile's target: `int` and `unsigned int`
have 32 bits and `size_t` has 64.
-/
import Mathlib.Data.UInt
import UbloxRead.Lib.Access
import UbloxRead.Lib.Window

namespace UbloxRead

open Lib

/-- A block of memory: the byte at every offset. -/
abbrev Mem := Nat → UInt8

/-- A computation over the bytes of a block that notes which ones it touches. -/
abbrev MemAccess := Access Nat UInt8

def INT_MIN : Int := -2 ^ 31

def INT_MAX : Int := 2 ^ 31 - 1

def UINT_MAX : Nat := 2 ^ 32 - 1

/-! ## Copying and filling -/

/-- `memcpy(dst + d, src + s, n)`. -/
def memcpy (dst : Mem) (d : Nat) (src : Mem) (s n : Nat) : Mem :=
  fun i => if d ≤ i ∧ i < d + n then src (s + (i - d)) else dst i

/-- `memset(dst + d, c, n)`. -/
def memset (dst : Mem) (d : Nat) (c : UInt8) (n : Nat) : Mem :=
  fun i => if d ≤ i ∧ i < d + n then c else dst i

/-- A block that starts with the given bytes. -/
def memOfList (bytes : List UInt8) : Mem := fun i => bytes.getD i 0

/-- Inside the destination range a copy reads the source. -/
theorem memcpy_inside (dst : Mem) (d : Nat) (src : Mem) (s n : Nat) {i : Nat}
    (h1 : d ≤ i) (h2 : i < d + n) : memcpy dst d src s n i = src (s + (i - d)) := by
  simp [memcpy, h1, h2]

/-- Outside the destination range a copy changes nothing. -/
theorem memcpy_outside (dst : Mem) (d : Nat) (src : Mem) (s n : Nat) {i : Nat}
    (h : i < d ∨ d + n ≤ i) : memcpy dst d src s n i = dst i := by
  have : ¬ (d ≤ i ∧ i < d + n) := by omega
  simp [memcpy, this]

/-- What a copy to the front of a block leaves there. -/
theorem slice_memcpy_front (dst src : Mem) (s n : Nat) :
    slice (memcpy dst 0 src s n) 0 n = slice src s n :=
  slice_congr fun k hk => by
    rw [memcpy_inside _ _ _ _ _ (by omega) (by omega)]
    simp

theorem slice_memOfList (bytes : List UInt8) :
    slice (memOfList bytes) 0 bytes.length = bytes := by
  apply List.ext_getElem
  · simp
  · intro i h1 h2
    simp [memOfList, h2]

/-! ## Copies into and out of a circular store

A store of `cap` bytes is filled and emptied with one copy, or with two when
the range runs over the end. Each lemma below is one of the four cases, in
terms of `Stored` and `window`. -/

theorem stored_memcpy (mem src : Mem) {cap w n : Nat} (h : w + n ≤ cap) :
    Stored cap mem (memcpy mem w src 0 n) w src n where
  laid k hk := by
    rw [Nat.mod_eq_of_lt (by omega), memcpy_inside _ _ _ _ _ (by omega) (by omega)]
    congr 1
    omega
  kept i hi := by
    refine memcpy_outside _ _ _ _ _ ?_
    by_contra hc
    exact hi (i - w) (by omega) (by rw [Nat.mod_eq_of_lt (by omega)]; omega)

theorem stored_memcpy_split (mem src : Mem) (cap w n₁ n₂ : Nat) (hend : w + n₁ = cap)
    (hfit : n₂ ≤ w) :
    Stored cap mem (memcpy (memcpy mem w src 0 n₁) 0 src n₁ n₂) w src (n₁ + n₂) where
  laid k hk := by
    by_cases hfirst : k < n₁
    · rw [Nat.mod_eq_of_lt (by omega), memcpy_outside _ _ _ _ _ (by omega),
        memcpy_inside _ _ _ _ _ (by omega) (by omega)]
      congr 1
      omega
    · have hmod : (w + k) % cap = k - n₁ := by
        rw [Nat.mod_eq_sub_mod (by omega), Nat.mod_eq_of_lt (by omega)]
        omega
      rw [hmod, memcpy_inside _ _ _ _ _ (by omega) (by omega)]
      congr 1
      omega
  kept i hi := by
    have hback : ¬ i < n₂ := by
      intro hc
      refine hi (n₁ + i) (by omega) ?_
      rw [← Nat.add_assoc, hend, Nat.add_mod_left, Nat.mod_eq_of_lt (by omega)]
    have hfront : ¬ (w ≤ i ∧ i < w + n₁) := by
      intro hc
      exact hi (i - w) (by omega) (by rw [Nat.mod_eq_of_lt (by omega)]; omega)
    rw [memcpy_outside _ _ _ _ _ (by omega), memcpy_outside _ _ _ _ _ (by omega)]

/-- A block that received the first `n` cells of a window. -/
theorem eq_memcpy_window {mem buf buf' : Mem} {cap r n m : Nat} (hn : n ≤ m)
    (hin : ∀ k, k < n → buf' k = mem ((r + k) % cap)) (hout : ∀ k, n ≤ k → buf' k = buf k) :
    buf' = memcpy buf 0 (memOfList (window mem cap r m)) 0 n := by
  funext k
  by_cases hk : k < n
  · rw [hin k hk, memcpy_inside _ _ _ _ _ (by omega) (by omega)]
    have : k < m := by omega
    simp [memOfList, window, this]
  · rw [hout k (by omega), memcpy_outside _ _ _ _ _ (by omega)]

theorem memcpy_eq_window (buf mem : Mem) {cap r n m : Nat} (hn : n ≤ m) (h : r + n ≤ cap) :
    memcpy buf 0 mem r n = memcpy buf 0 (memOfList (window mem cap r m)) 0 n := by
  refine eq_memcpy_window hn (fun k hk => ?_) (fun k hk => memcpy_outside _ _ _ _ _ (by omega))
  rw [memcpy_inside _ _ _ _ _ (by omega) (by omega), Nat.mod_eq_of_lt (by omega)]
  simp

theorem memcpy_split_eq_window (buf mem : Mem) (cap r n₁ n₂ m : Nat) (hn : n₁ + n₂ ≤ m)
    (hend : r + n₁ = cap) (hfit : n₂ ≤ cap) :
    memcpy (memcpy buf 0 mem r n₁) n₁ mem 0 n₂
      = memcpy buf 0 (memOfList (window mem cap r m)) 0 (n₁ + n₂) := by
  refine eq_memcpy_window hn (fun k hk => ?_) (fun k hk => ?_)
  · by_cases hfirst : k < n₁
    · rw [memcpy_outside _ _ _ _ _ (by omega), memcpy_inside _ _ _ _ _ (by omega) (by omega),
        Nat.mod_eq_of_lt (by omega)]
      simp
    · rw [memcpy_inside _ _ _ _ _ (by omega) (by omega), show r + k = cap + (k - n₁) by omega,
        Nat.add_mod_left, Nat.mod_eq_of_lt (by omega)]
      simp
  · rw [memcpy_outside _ _ _ _ _ (by omega), memcpy_outside _ _ _ _ _ (by omega)]

/-! ## Integer conversions -/

/-- An `int` compared with an `unsigned int` is converted to it. -/
def uintOfInt (n : Int) : Nat := (n % 2 ^ 32).toNat

/-- An `int` compared with a `size_t` is converted to it: a negative one
becomes a large one. -/
def sizeOfInt (n : Int) : Nat := if 0 ≤ n then n.toNat else (n + 2 ^ 64).toNat

theorem sizeOfInt_of_nonneg {n : Int} (h : 0 ≤ n) : sizeOfInt n = n.toNat := by
  simp [sizeOfInt, h]

theorem uintOfInt_of_nonneg {n : Int} (h0 : 0 ≤ n) (h1 : n < 2 ^ 32) : uintOfInt n = n.toNat := by
  rw [uintOfInt, Int.emod_eq_of_lt h0 h1]

end UbloxRead
