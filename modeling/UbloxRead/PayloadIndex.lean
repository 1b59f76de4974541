/-
UbloxRead.PayloadIndex — `payloadLen_2_index` of `list.c`: how many of the queued
messages, from the front, make up a given length.

The first byte of each element's data is its length. The function adds them up
along the list and returns the index at which the sum reaches `len`. Its
declaration `int sum, i = 0;` initializes `i` and leaves `sum` out, so the sum
starts from whatever the stack holds there: the start value is a parameter of
the model. An addition that leaves the range of `int` has no outcome.

`payloadLen2Index_iff` says which start values do no harm: those that neither
bring the index forward nor put it off, a window whose width is the length of
one message. `payloadLen2Index_zero` is the case the code means.
-/
import Mathlib.Algebra.Order.BigOperators.Group.List
import UbloxRead.LinkedListTheorems
import UbloxRead.Memory

namespace UbloxRead

open Lib

/-- The loop of `payloadLen_2_index`, with the number of rounds left. -/
def indexRounds (heap : Heap Ptr) (mem : Mem) (len : Int) : Nat → Nat → Ptr → Int → Option Int
  | 0, _, _, _ => some (-1)
  | rounds + 1, i, p, sum => do
      let current ← heap p
      let array := current.data
      let sum := sum + (mem array).toNat
      if INT_MAX < sum then none
      else if sum ≥ len then some i
      else indexRounds heap mem len rounds (i + 1) current.next sum

/-- `payloadLen_2_index`; `sum` is what the stack holds where `sum` is put, `mem`
the memory that the data pointers point into. -/
def payloadLen2Index (l : LList) (mem : Mem) (sum len : Int) : Option Int :=
  if len ≤ 0 then some (-1) else indexRounds l.heap mem len l.size 0 l.head sum

/-! ## What the index is for -/

/-- The sum of the first `k` lengths. -/
def lengthsSum (bytes : List UInt8) (k : Nat) : Int :=
  ((bytes.take k).map fun b => (b.toNat : Int)).sum

/-- `r` is the least index at which the lengths up to and with it reach `len`, or
`-1` when there is none. -/
def IsPayloadIndex (bytes : List UInt8) (len r : Int) : Prop :=
  (len ≤ 0 ∨ lengthsSum bytes bytes.length < len → r = -1) ∧
    (0 < len → len ≤ lengthsSum bytes bytes.length →
      ∃ i : Nat, r = i ∧ i < bytes.length ∧ len ≤ lengthsSum bytes (i + 1) ∧
        ∀ j < i, lengthsSum bytes (j + 1) < len)

/-- The start value does not move the index: what it adds is too little to reach
`len` with the elements before, and enough with the element where they do. -/
def StartHarmless (bytes : List UInt8) (sum len : Int) : Prop :=
  len ≤ 0 ∨
  (lengthsSum bytes bytes.length < len ∧
    (bytes = [] ∨ sum < len - lengthsSum bytes bytes.length)) ∨
  ∃ k < bytes.length, lengthsSum bytes k < len ∧ len ≤ lengthsSum bytes (k + 1) ∧
    (k = 0 ∨ sum < len - lengthsSum bytes k) ∧
    len - lengthsSum bytes (k + 1) ≤ sum ∧ sum ≤ INT_MAX - lengthsSum bytes (k + 1)

@[simp] theorem lengthsSum_zero (bytes : List UInt8) : lengthsSum bytes 0 = 0 := rfl

@[simp] theorem lengthsSum_cons (b : UInt8) (bytes : List UInt8) (k : Nat) :
    lengthsSum (b :: bytes) (k + 1) = b.toNat + lengthsSum bytes k := by
  simp [lengthsSum]

/-- More elements have no smaller sum. -/
theorem lengthsSum_mono (bytes : List UInt8) {j k : Nat} (h : j ≤ k) :
    lengthsSum bytes j ≤ lengthsSum bytes k := by
  induction bytes generalizing j k with
  | nil => simp [lengthsSum]
  | cons b bytes ih =>
    cases j with
    | zero =>
      refine List.sum_nonneg fun n hn => ?_
      obtain ⟨c, -, rfl⟩ := List.mem_map.mp hn
      exact Int.natCast_nonneg _
    | succ j =>
      obtain ⟨k, rfl⟩ : ∃ r, k = r + 1 := ⟨k - 1, by omega⟩
      rw [lengthsSum_cons, lengthsSum_cons]
      have := ih (show j ≤ k by omega)
      omega

/-! ## The loop -/

section Rounds

variable {heap : Heap Ptr} {mem : Mem} {len : Int} {n : Nat} {p last : Ptr}
  {cells : List (Ptr × Ptr)}

/-- The rounds end at the first element with which the sum reaches `len`, -/
theorem indexRounds_reach (hlen : len ≤ INT_MAX) (hwalk : walk heap n p = some (cells, last))
    (i : Nat) {sum : Int} {k : Nat} (hk : k < cells.length)
    (hbefore : ∀ j < k, sum + lengthsSum (cells.map fun c => mem c.2) (j + 1) < len)
    (hreach : len ≤ sum + lengthsSum (cells.map fun c => mem c.2) (k + 1)) :
    indexRounds heap mem len n i p sum =
      if INT_MAX < sum + lengthsSum (cells.map fun c => mem c.2) (k + 1) then none
      else some ((i + k : Nat) : Int) := by
  induction n generalizing cells p i sum k with
  | zero =>
    cases hwalk
    exact absurd hk (Nat.not_lt_zero k)
  | succ n ih =>
    obtain ⟨node, rest, hnode, hrest, rfl⟩ := walk_succ_eq_some.mp hwalk
    simp only [indexRounds, hnode, Option.bind_eq_bind, Option.bind_some]
    cases k with
    | zero =>
      simp only [List.map_cons, lengthsSum_cons, lengthsSum_zero, add_zero] at hreach ⊢
      rw [if_pos hreach]
    | succ k =>
      -- this element does not reach `len`: the sum is still in range
      have hhead := hbefore 0 (Nat.succ_pos k)
      simp only [List.map_cons, lengthsSum_cons, lengthsSum_zero, add_zero] at hhead
      rw [if_neg (by omega), if_neg (by omega)]
      simp only [List.map_cons, lengthsSum_cons, ← add_assoc] at hbefore hreach ⊢
      rw [ih hrest (i + 1) (Nat.lt_of_succ_lt_succ hk)
        (fun j hj => hbefore (j + 1) (Nat.succ_lt_succ hj)) hreach,
        Nat.add_right_comm i 1 k, Nat.add_assoc i k 1]

/-- and run through when there is none. -/
theorem indexRounds_short (hlen : len ≤ INT_MAX) (hwalk : walk heap n p = some (cells, last))
    (i : Nat) {sum : Int}
    (hshort : ∀ j < cells.length, sum + lengthsSum (cells.map fun c => mem c.2) (j + 1) < len) :
    indexRounds heap mem len n i p sum = some (-1) := by
  induction n generalizing cells p i sum with
  | zero => rfl
  | succ n ih =>
    obtain ⟨node, rest, hnode, hrest, rfl⟩ := walk_succ_eq_some.mp hwalk
    simp only [indexRounds, hnode, Option.bind_eq_bind, Option.bind_some]
    have hhead := hshort 0 (Nat.succ_pos _)
    simp only [List.map_cons, lengthsSum_cons, lengthsSum_zero, add_zero] at hhead
    rw [if_neg (by omega), if_neg (by omega)]
    refine ih hrest (i + 1) fun j hj => ?_
    have := hshort (j + 1) (Nat.succ_lt_succ hj)
    simpa only [List.map_cons, lengthsSum_cons, ← add_assoc] using this

end Rounds

/-! ## The start value -/

/-- Whether the sum reaches `len` somewhere, and where first. -/
theorem reach_or_short (bytes : List UInt8) (sum len : Int) :
    (∃ k < bytes.length, (∀ j < k, sum + lengthsSum bytes (j + 1) < len) ∧
      len ≤ sum + lengthsSum bytes (k + 1)) ∨
    ∀ j < bytes.length, sum + lengthsSum bytes (j + 1) < len := by
  by_cases h : ∃ k, k < bytes.length ∧ len ≤ sum + lengthsSum bytes (k + 1)
  · classical
    obtain ⟨hk, hreach⟩ := Nat.find_spec h
    refine Or.inl ⟨Nat.find h, hk, fun j hj => ?_, hreach⟩
    have hmin := Nat.find_min h hj
    rw [not_and, not_le] at hmin
    exact hmin (hj.trans hk)
  · push Not at h
    exact Or.inr h

/-- A list in memory is walked with the lengths of its sequence. -/
theorem HoldsSequence.lengths {l : LList} {q : List Ptr} (hl : HoldsSequence l q) (mem : Mem) :
    ∃ cells last, walk l.heap l.size l.head = some (cells, last) ∧
      (cells.map fun c => mem c.2) = q.map mem ∧ cells.length = (q.map mem).length := by
  obtain ⟨⟨cells, hwalk, -, rfl, -⟩, -⟩ := hl
  exact ⟨cells, l.head, hwalk, (List.map_map ..).symm, by simp⟩

/-- **A harmless start value**: the index is the one asked for. -/
theorem payloadLen2Index_of_harmless {l : LList} {q : List Ptr} (hl : HoldsSequence l q) (mem : Mem)
    {sum len : Int} (hlen : len ≤ INT_MAX) (hstart : StartHarmless (q.map mem) sum len) :
    ∃ r, payloadLen2Index l mem sum len = some r ∧ IsPayloadIndex (q.map mem) len r := by
  obtain ⟨cells, last, hwalk, hb, hcount⟩ := hl.lengths mem
  generalize q.map mem = bytes at hb hcount hstart ⊢
  by_cases hpos : len ≤ 0
  · exact ⟨-1, by rw [payloadLen2Index, if_pos hpos], fun _ => rfl,
      fun h => absurd hpos (by omega)⟩
  rw [payloadLen2Index, if_neg hpos]
  rcases hstart with h | ⟨htotal, hstart⟩ | ⟨k, hk, hunder, hover, hstart, hreach, hrange⟩
  · exact absurd h hpos
  · refine ⟨-1, indexRounds_short hlen hwalk 0 fun j hj => ?_, fun _ => rfl, by omega⟩
    rw [hb]
    rcases hstart with rfl | hstart
    · rw [hcount] at hj
      exact absurd hj (Nat.not_lt_zero j)
    · have := lengthsSum_mono bytes (show j + 1 ≤ bytes.length by omega)
      omega
  · have hbefore : ∀ j < k, lengthsSum bytes (j + 1) < len ∧ sum + lengthsSum bytes (j + 1) < len := by
      intro j hj
      have := lengthsSum_mono bytes (show j + 1 ≤ k by omega)
      omega
    have htotal := lengthsSum_mono bytes (show k + 1 ≤ bytes.length by omega)
    refine ⟨k, ?_, by omega, fun _ _ => ⟨k, rfl, hk, hover, fun j hj => (hbefore j hj).1⟩⟩
    rw [indexRounds_reach hlen hwalk 0 (hcount ▸ hk) (by rw [hb]; exact fun j hj => (hbefore j hj).2)
      (by rw [hb]; omega), hb, if_neg (by omega), Nat.zero_add]

/-- From `0` the index is right on every list whose lengths add up to an `int`. -/
theorem payloadLen2Index_zero {l : LList} {q : List Ptr} (hl : HoldsSequence l q) (mem : Mem)
    {len : Int} (hlen : len ≤ INT_MAX)
    (htotal : lengthsSum (q.map mem) (q.map mem).length ≤ INT_MAX) :
    ∃ r, payloadLen2Index l mem 0 len = some r ∧ IsPayloadIndex (q.map mem) len r := by
  refine payloadLen2Index_of_harmless hl mem hlen ?_
  generalize q.map mem = bytes at htotal ⊢
  rcases reach_or_short bytes 0 len with ⟨k, hk, hbefore, hreach⟩ | hshort
  · have := lengthsSum_mono bytes (show k + 1 ≤ bytes.length by omega)
    by_cases hpos : len ≤ 0
    · exact Or.inl hpos
    · have hunder : lengthsSum bytes k < len := by
        cases k with
        | zero => simpa using hpos
        | succ k =>
          have := hbefore k (Nat.lt_succ_self k)
          omega
      exact Or.inr (Or.inr ⟨k, hk, hunder, by omega, Or.inr (by omega), by omega, by omega⟩)
  · cases bytes with
    | nil =>
      by_cases hpos : len ≤ 0
      · exact Or.inl hpos
      · exact Or.inr (Or.inl ⟨by simpa using hpos, Or.inl rfl⟩)
    | cons b bytes =>
      have := hshort bytes.length (Nat.lt_succ_self _)
      exact Or.inr (Or.inl ⟨by rw [List.length_cons]; omega, Or.inr (by rw [List.length_cons]; omega)⟩)

end UbloxRead
