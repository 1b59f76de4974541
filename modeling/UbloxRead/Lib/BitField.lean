/-
UbloxRead.Lib.BitField — fields packed into the bits of an array of words.

The first half is about the two expressions C programs take a field out of a
word with: shift and mask for an unsigned field (`fieldU`), shift up and
arithmetic shift down for a signed one (`fieldS`), and the two joined by a shift
and an or when the field goes over a word's end. Each is described by its bits.

The second half says what such a program reads. A `BitField` is the list of the
pieces it is made of, low to high, and whether its top bit is a sign;
`BitField.value` is its value in an array. `value_congr_iff` says that values are
equal exactly when the bits under them are, and `exists_values` that fields
without a bit in common take any values that fit them, all at once. The
expressions of the first half are `BitField.value`s (`toInt_fieldU`, `toInt_fieldS`,
`toNat_joinU`, `toInt_joinS`), so a program made of them is a layout and inherits
both.
-/
import Mathlib.Data.BitVec
import Mathlib.Data.List.Nodup
import Mathlib.Tactic.Common

namespace UbloxRead.Lib

/-! ## Taking a field out of a word -/

section Word

variable {w : Nat}

/-- `(x >> pos) & ((1 << nb) - 1)`. -/
def fieldU (x : BitVec w) (nb pos : Nat) : BitVec w := (x >>> pos) &&& ((1#w <<< nb) - 1#w)

/-- `((int)(x << (w - nb - pos))) >> (w - nb)`, the last shift arithmetic. -/
def fieldS (x : BitVec w) (nb pos : Nat) : BitVec w :=
  (x <<< (w - nb - pos)).sshiftRight (w - nb)

/-- The mask has its low `nb` bits set. -/
theorem getLsbD_mask (nb i : Nat) :
    ((1#w <<< nb) - 1#w).getLsbD i = (decide (i < nb) && decide (i < w)) := by
  by_cases hw : i < w
  · have hone : 1#w <<< nb = BitVec.twoPow w nb := (BitVec.twoPow_eq w nb).symm
    rw [← BitVec.testBit_toNat, hone]
    by_cases hnb : nb < w
    · have hlt : 2 ^ nb < 2 ^ w := Nat.pow_lt_pow_right (by omega) hnb
      have h1 : 1 ≤ 2 ^ nb := Nat.one_le_two_pow
      have hw1 : 1 < 2 ^ w := Nat.one_lt_two_pow (by omega)
      rw [BitVec.toNat_sub, BitVec.toNat_twoPow, Nat.mod_eq_of_lt hlt, BitVec.toNat_ofNat,
        Nat.mod_eq_of_lt hw1, show 2 ^ w - 1 + 2 ^ nb = 2 ^ w + (2 ^ nb - 1) by omega,
        Nat.add_mod_left, Nat.mod_eq_of_lt (by omega), Nat.testBit_two_pow_sub_one]
      simp [hw]
    · have hzero : BitVec.twoPow w nb = 0#w := by
        rw [← hone]
        exact BitVec.shiftLeft_eq_zero (by omega)
      have hw1 : 1 < 2 ^ w := Nat.one_lt_two_pow (by omega)
      rw [hzero, BitVec.toNat_sub, BitVec.toNat_ofNat, BitVec.toNat_ofNat, Nat.mod_eq_of_lt hw1,
        Nat.zero_mod, Nat.add_zero, Nat.mod_eq_of_lt (by omega), Nat.testBit_two_pow_sub_one]
      have : i < nb := by omega
      simp [this]
  · rw [BitVec.getLsbD_of_ge _ _ (by omega)]
    simp [hw]

/-- The bits of an unsigned field. -/
theorem getLsbD_fieldU (x : BitVec w) (nb pos i : Nat) :
    (fieldU x nb pos).getLsbD i = (decide (i < nb) && x.getLsbD (pos + i)) := by
  rw [fieldU, BitVec.getLsbD_and, BitVec.getLsbD_ushiftRight, getLsbD_mask]
  by_cases hw : i < w
  · simp [hw, Bool.and_comm]
  · rw [BitVec.getLsbD_of_ge x (pos + i) (by omega)]
    simp

/-- The bits of a signed field: its top bit is repeated. -/
theorem getLsbD_fieldS (x : BitVec w) {nb pos i : Nat} (hnb : 0 < nb) (hfit : pos + nb ≤ w)
    (hi : i < w) :
    (fieldS x nb pos).getLsbD i
      = if i < nb then x.getLsbD (pos + i) else x.getLsbD (pos + nb - 1) := by
  rw [fieldS, BitVec.getLsbD_sshiftRight]
  have hi' : ¬ w ≤ i := by omega
  simp only [hi', decide_false, Bool.not_false, Bool.true_and]
  by_cases hlow : i < nb
  · rw [if_pos (by omega), if_pos hlow, BitVec.getLsbD_shiftLeft]
    have h1 : w - nb + i < w := by omega
    have h2 : ¬ w - nb + i < w - nb - pos := by omega
    have h3 : w - nb + i - (w - nb - pos) = pos + i := by omega
    simp [h1, h2, h3]
  · rw [if_neg (by omega), if_neg hlow, BitVec.msb_eq_getLsbD_last, BitVec.getLsbD_shiftLeft]
    have h1 : w - 1 < w := by omega
    have h2 : ¬ w - 1 < w - nb - pos := by omega
    have h3 : w - 1 - (w - nb - pos) = pos + nb - 1 := by omega
    simp [h1, h2, h3]

end Word

/-! ## Layouts -/

/-- `width` bits of the word numbered `word`, from bit `pos` up. -/
structure Piece where
  word : Nat
  pos : Nat
  width : Nat
  deriving DecidableEq

/-- The places of its bits, low to high: word and bit. -/
def Piece.cells (p : Piece) : List (Nat × Nat) :=
  (List.range p.width).map fun k => (p.word, p.pos + k)

/-- A field: its pieces from low to high, and whether its top bit is a sign. -/
structure BitField where
  pieces : List Piece
  signed : Bool

def BitField.cells (f : BitField) : List (Nat × Nat) := f.pieces.flatMap Piece.cells

theorem Piece.mem_cells {p : Piece} {c : Nat × Nat} :
    c ∈ p.cells ↔ c.1 = p.word ∧ p.pos ≤ c.2 ∧ c.2 < p.pos + p.width := by
  simp only [Piece.cells, List.mem_map, List.mem_range]
  constructor
  · rintro ⟨k, hk, rfl⟩
    exact ⟨rfl, Nat.le_add_right .., Nat.add_lt_add_left hk _⟩
  · rintro ⟨h1, h2, h3⟩
    exact ⟨c.2 - p.pos, by omega, Prod.ext h1.symm (Nat.add_sub_cancel' h2)⟩

/-- Two pieces without a bit in common. -/
def Piece.Apart (p q : Piece) : Prop :=
  p.word ≠ q.word ∨ p.pos + p.width ≤ q.pos ∨ q.pos + q.width ≤ p.pos

instance (p q : Piece) : Decidable (p.Apart q) := inferInstanceAs (Decidable (_ ∨ _))

section Layout

variable {w : Nat}

/-- The bit at a place of an array of words. -/
def bitAt (ws : Nat → BitVec w) (c : Nat × Nat) : Bool := (ws c.1).getLsbD c.2

/-- The bits at the given places, low to high. -/
def gather (ws : Nat → BitVec w) (cs : List (Nat × Nat)) : BitVec cs.length :=
  (BitVec.ofBoolListLE (cs.map (bitAt ws))).cast (List.length_map _)

/-- The value of a field. -/
def BitField.value (f : BitField) (ws : Nat → BitVec w) : Int :=
  if f.signed then (gather ws f.cells).toInt else (gather ws f.cells).toNat

/-- A number a field can hold. -/
def BitField.Fits (f : BitField) (v : Int) : Prop :=
  if f.signed then -2 ^ f.cells.length ≤ 2 * v ∧ 2 * v < 2 ^ f.cells.length
  else 0 ≤ v ∧ v < 2 ^ f.cells.length

theorem getLsbD_gather (ws : Nat → BitVec w) {cs : List (Nat × Nat)} {k : Nat}
    (hk : k < cs.length) : (gather ws cs).getLsbD k = bitAt ws cs[k] := by
  rw [gather, BitVec.getLsbD_cast, BitVec.getLsbD_ofBoolListLE]
  simp [hk]

/-- **Values are equal exactly when the bits under them are.** -/
theorem value_congr_iff (f : BitField) (ws ws' : Nat → BitVec w) :
    f.value ws = f.value ws' ↔ ∀ c ∈ f.cells, bitAt ws c = bitAt ws' c := by
  have hbits : gather ws f.cells = gather ws' f.cells ↔
      ∀ c ∈ f.cells, bitAt ws c = bitAt ws' c := by
    rw [BitVec.eq_of_getLsbD_eq_iff]
    constructor
    · intro h c hc
      obtain ⟨k, hk, rfl⟩ := List.getElem_of_mem hc
      have := h k hk
      rwa [getLsbD_gather ws hk, getLsbD_gather ws' hk] at this
    · intro h k hk
      rw [getLsbD_gather ws hk, getLsbD_gather ws' hk]
      exact h _ (List.getElem_mem hk)
  rw [← hbits, BitField.value, BitField.value]
  split
  · exact BitVec.toInt_inj
  · rw [Int.natCast_inj, BitVec.toNat_inj]

/-- The same for a whole layout, by its pieces. -/
theorem map_value_congr_iff (layout : List BitField) (ws ws' : Nat → BitVec w) :
    layout.map (·.value ws) = layout.map (·.value ws') ↔
      ∀ p ∈ layout.flatMap BitField.pieces, ∀ k, k < p.width →
        (ws p.word).getLsbD (p.pos + k) = (ws' p.word).getLsbD (p.pos + k) := by
  rw [List.map_inj_left]
  constructor
  · intro h p hp k hk
    obtain ⟨f, hf, hpf⟩ := List.mem_flatMap.mp hp
    refine (value_congr_iff f ws ws').mp (h f hf) (p.word, p.pos + k) ?_
    exact List.mem_flatMap.mpr ⟨p, hpf, Piece.mem_cells.mpr (by simp [hk])⟩
  · intro h f hf
    refine (value_congr_iff f ws ws').mpr ?_
    rintro ⟨i, j⟩ hc
    obtain ⟨p, hpf, hcp⟩ := List.mem_flatMap.mp hc
    obtain ⟨rfl, h1, h2⟩ := Piece.mem_cells.mp hcp
    have hk := h p (List.mem_flatMap.mpr ⟨f, hf, hpf⟩) (j - p.pos) (by simp at h1 h2; omega)
    rwa [Nat.add_sub_cancel' h1] at hk

/-- A value fits its field. -/
theorem value_fits (f : BitField) (ws : Nat → BitVec w) : f.Fits (f.value ws) := by
  unfold BitField.Fits BitField.value
  split
  · exact ⟨BitVec.le_two_mul_toInt, BitVec.two_mul_toInt_lt⟩
  · exact ⟨Int.natCast_nonneg _, by exact_mod_cast BitVec.isLt _⟩

/-! ## The expressions as layouts -/

/-- A word whose bits are those of a list of places, and clear above. -/
theorem toNat_eq_gather {ws : Nat → BitVec w} {cs : List (Nat × Nat)} {y : BitVec w}
    (hlen : cs.length ≤ w) (hbits : ∀ k, k < w → y.getLsbD k = cs[k]?.any (bitAt ws)) :
    y.toNat = (gather ws cs).toNat := by
  have hy : y = (gather ws cs).setWidth w := by
    apply BitVec.eq_of_getLsbD_eq
    intro k hk
    rw [hbits k hk, BitVec.getLsbD_setWidth]
    by_cases h : k < cs.length
    · rw [getLsbD_gather ws h]
      simp [h, hk]
    · rw [BitVec.getLsbD_of_ge (gather ws cs) k (by omega), List.getElem?_eq_none (by omega)]
      simp
  rw [hy, BitVec.toNat_setWidth_of_le hlen]

/-- A word whose bits are those of a list of places, and the last one of them
repeated above. -/
theorem toInt_eq_gather {ws : Nat → BitVec w} {cs : List (Nat × Nat)} {y : BitVec w}
    (hpos : 0 < cs.length) (hlen : cs.length ≤ w)
    (hbits : ∀ k, k < w → y.getLsbD k = cs[min k (cs.length - 1)]?.any (bitAt ws)) :
    y.toInt = (gather ws cs).toInt := by
  have hy : y = (gather ws cs).signExtend w := by
    apply BitVec.eq_of_getLsbD_eq
    intro k hk
    rw [hbits k hk, BitVec.getLsbD_signExtend]
    by_cases h : k < cs.length
    · have hmin : min k (cs.length - 1) = k := by omega
      rw [if_pos h, getLsbD_gather ws h]
      simp [h, hk, hmin]
    · have hmin : min k (cs.length - 1) = cs.length - 1 := by omega
      have hlast : cs.length - 1 < cs.length := by omega
      rw [if_neg h, BitVec.msb_eq_getLsbD_last, getLsbD_gather ws hlast]
      simp [hk, hmin, hlast]
  rw [hy, BitVec.toInt_signExtend_of_le hlen]

/-- An unsigned value that leaves the word's top bit clear is its `int` value
too. -/
theorem toInt_eq_gather_toNat {ws : Nat → BitVec w} {cs : List (Nat × Nat)} {y : BitVec w}
    (hlen : cs.length < w) (hy : y.toNat = (gather ws cs).toNat) :
    y.toInt = (gather ws cs).toNat := by
  have hlt : (gather ws cs).toNat < 2 ^ cs.length := BitVec.isLt _
  have hpow : 2 ^ (cs.length + 1) ≤ 2 ^ w := Nat.pow_le_pow_right (by omega) (by omega)
  rw [BitVec.toInt_eq_toNat_of_lt (by omega), hy]

theorem length_cells_one (p : Piece) (s : Bool) : (BitField.mk [p] s).cells.length = p.width := by
  simp [BitField.cells, Piece.cells]

theorem length_cells_two (p q : Piece) (s : Bool) :
    (BitField.mk [p, q] s).cells.length = p.width + q.width := by
  simp [BitField.cells, Piece.cells]

theorem getElem?_cells_one (p : Piece) (s : Bool) (k : Nat) :
    (BitField.mk [p] s).cells[k]? = if k < p.width then some (p.word, p.pos + k) else none := by
  by_cases h : k < p.width <;> simp [BitField.cells, Piece.cells, h]

theorem getElem?_cells_two (p q : Piece) (s : Bool) (k : Nat) :
    (BitField.mk [p, q] s).cells[k]?
      = if k < p.width then some (p.word, p.pos + k)
        else if k - p.width < q.width then some (q.word, q.pos + (k - p.width)) else none := by
  by_cases h : k < p.width
  · simp [BitField.cells, Piece.cells, List.getElem?_append, h]
  · by_cases h' : k - p.width < q.width <;>
      simp [BitField.cells, Piece.cells, List.getElem?_append, h, h']

theorem toNat_fieldU (ws : Nat → BitVec w) (i : Nat) {nb pos : Nat} (hnb : nb ≤ w) :
    (fieldU (ws i) nb pos).toNat = (gather ws (BitField.mk [⟨i, pos, nb⟩] false).cells).toNat := by
  refine toNat_eq_gather (by rw [length_cells_one]; exact hnb) ?_
  intro k hk
  rw [getLsbD_fieldU, getElem?_cells_one]
  by_cases h : k < nb <;> simp [h, bitAt]

/-- An unsigned field taken out of a word. -/
theorem toInt_fieldU (ws : Nat → BitVec w) (i : Nat) {nb pos : Nat} (hnb : nb < w) :
    (fieldU (ws i) nb pos).toInt = (BitField.mk [⟨i, pos, nb⟩] false).value ws :=
  toInt_eq_gather_toNat (by rw [length_cells_one]; exact hnb) (toNat_fieldU ws i (by omega))

/-- A signed field taken out of a word. -/
theorem toInt_fieldS (ws : Nat → BitVec w) (i : Nat) {nb pos : Nat} (hnb : 0 < nb)
    (hfit : pos + nb ≤ w) :
    (fieldS (ws i) nb pos).toInt = (BitField.mk [⟨i, pos, nb⟩] true).value ws := by
  have hlen := length_cells_one ⟨i, pos, nb⟩ true
  refine toInt_eq_gather (by rw [hlen]; exact hnb) (by rw [hlen]; simp; omega) ?_
  intro k hk
  rw [getLsbD_fieldS _ hnb hfit hk, getElem?_cells_one, hlen]
  by_cases h : k < nb
  · have hmin : min k (nb - 1) = k := by omega
    simp [h, hmin, bitAt]
  · have hmin : min k (nb - 1) = nb - 1 := by omega
    have hlast : nb - 1 < nb := by omega
    simp [h, hmin, hlast, bitAt, Nat.add_sub_assoc hnb]

/-- The bits of two fields joined. -/
theorem getLsbD_join (x y : BitVec w) {k pos i : Nat} (hi : i < w) :
    (x <<< k ||| fieldU y k pos).getLsbD i
      = if i < k then y.getLsbD (pos + i) else x.getLsbD (i - k) := by
  rw [BitVec.getLsbD_or, BitVec.getLsbD_shiftLeft, getLsbD_fieldU]
  by_cases h : i < k <;> simp [h, hi]

theorem toNat_joinU (ws : Nat → BitVec w) (i j : Nat) {na pa k pb : Nat} (hfit : na + k ≤ w) :
    (fieldU (ws i) na pa <<< k ||| fieldU (ws j) k pb).toNat
      = (gather ws (BitField.mk [⟨j, pb, k⟩, ⟨i, pa, na⟩] false).cells).toNat := by
  refine toNat_eq_gather (by rw [length_cells_two]; simp; omega) ?_
  intro b hb
  rw [getLsbD_join _ _ hb, getLsbD_fieldU, getElem?_cells_two]
  by_cases h : b < k
  · simp [h, bitAt]
  · by_cases h' : b - k < na <;> simp [h, h', bitAt]

/-- Two unsigned fields joined, as an `unsigned int`. -/
theorem joinU_value (ws : Nat → BitVec w) (i j : Nat) {na pa k pb : Nat} (hfit : na + k ≤ w) :
    ((fieldU (ws i) na pa <<< k ||| fieldU (ws j) k pb).toNat : Int)
      = (BitField.mk [⟨j, pb, k⟩, ⟨i, pa, na⟩] false).value ws := by
  rw [toNat_joinU ws i j hfit]
  rfl

/-- Two unsigned fields joined, as an `int`. -/
theorem toInt_joinU (ws : Nat → BitVec w) (i j : Nat) {na pa k pb : Nat} (hfit : na + k < w) :
    (fieldU (ws i) na pa <<< k ||| fieldU (ws j) k pb).toInt
      = (BitField.mk [⟨j, pb, k⟩, ⟨i, pa, na⟩] false).value ws :=
  toInt_eq_gather_toNat (by rw [length_cells_two]; simp; omega) (toNat_joinU ws i j (by omega))

/-- A signed field joined to an unsigned one below it. -/
theorem toInt_joinS (ws : Nat → BitVec w) (i j : Nat) {na pa k pb : Nat} (hna : 0 < na)
    (hpa : pa + na ≤ w) (hfit : na + k ≤ w) :
    (fieldS (ws i) na pa <<< k ||| fieldU (ws j) k pb).toInt
      = (BitField.mk [⟨j, pb, k⟩, ⟨i, pa, na⟩] true).value ws := by
  have hlen := length_cells_two ⟨j, pb, k⟩ ⟨i, pa, na⟩ true
  refine toInt_eq_gather (by rw [hlen]; simp; omega) (by rw [hlen]; simp; omega) ?_
  intro b hb
  rw [getLsbD_join _ _ hb, getElem?_cells_two, hlen]
  by_cases h : b < k
  · have hmin : min b (k + na - 1) = b := by omega
    simp [h, hmin, bitAt]
  · have hmin : ¬ min b (k + na - 1) < k := by omega
    have hin : min b (k + na - 1) - k < na := by omega
    rw [getLsbD_fieldS _ hna hpa (by omega)]
    simp only [h, hmin, hin, if_false, if_true, Option.any_some, bitAt]
    split
    · next hl => rw [Nat.min_eq_left (by omega)]
    · next hl =>
      rw [Nat.min_eq_right (by omega)]
      congr 1
      omega

/-! ## Every assignment of values -/

/-- The words with the bits of `v` laid down at the given places. -/
def scatter (ws : Nat → BitVec w) (cs : List (Nat × Nat)) (v : BitVec cs.length) : Nat → BitVec w :=
  fun i => (BitVec.ofBoolListLE ((List.range w).map fun j =>
    if (i, j) ∈ cs then v.getLsbD (cs.idxOf (i, j)) else (ws i).getLsbD j)).setWidth w

theorem bitAt_scatter (ws : Nat → BitVec w) {cs : List (Nat × Nat)} (v : BitVec cs.length)
    {c : Nat × Nat} (hc : c.2 < w) :
    bitAt (scatter ws cs v) c = if c ∈ cs then v.getLsbD (cs.idxOf c) else bitAt ws c := by
  rw [bitAt, scatter, BitVec.getLsbD_setWidth, BitVec.getLsbD_ofBoolListLE]
  simp only [hc, decide_true, Bool.true_and, List.getD_eq_getElem?_getD, List.getElem?_map,
    List.getElem?_range hc, Option.map_some, Option.getD_some]
  rfl

/-- What was laid down is read back. -/
theorem gather_scatter (ws : Nat → BitVec w) {cs : List (Nat × Nat)} (hnodup : cs.Nodup)
    (hin : ∀ c ∈ cs, c.2 < w) (v : BitVec cs.length) : gather (scatter ws cs v) cs = v := by
  apply BitVec.eq_of_getLsbD_eq
  intro k hk
  have hmem := List.getElem_mem hk
  rw [getLsbD_gather _ hk, bitAt_scatter ws v (hin _ hmem), if_pos hmem, hnodup.idxOf_getElem]

/-- Every number that fits is the value of some bits. -/
theorem exists_bits_of_fits {f : BitField} {v : Int} (h : f.Fits v) :
    ∃ b : BitVec f.cells.length, v = if f.signed then b.toInt else b.toNat := by
  unfold BitField.Fits at h
  split at h
  · next hs =>
    refine ⟨BitVec.ofInt _ v, ?_⟩
    rw [if_pos hs, BitVec.toInt_ofInt, Int.bmod_eq_of_le_mul_two]
    · rw [Int.mul_comm]
      exact_mod_cast h.1
    · rw [Int.mul_comm]
      exact_mod_cast h.2
  · next hs =>
    obtain ⟨n, rfl⟩ := Int.eq_ofNat_of_zero_le h.1
    have hn : n < 2 ^ f.cells.length := by exact_mod_cast h.2
    refine ⟨BitVec.ofNat _ n, ?_⟩
    rw [if_neg hs, BitVec.toNat_ofNat, Nat.mod_eq_of_lt hn]

/-- Pieces apart have no place in common. -/
theorem Piece.Apart.not_mem {p q : Piece} (h : p.Apart q) {c : Nat × Nat} (hp : c ∈ p.cells) :
    c ∉ q.cells := by
  intro hq
  rw [Piece.mem_cells] at hp hq
  unfold Piece.Apart at h
  omega

theorem nodup_cells {ps : List Piece} (h : ps.Pairwise Piece.Apart) :
    (ps.flatMap Piece.cells).Nodup := by
  rw [List.nodup_flatMap]
  constructor
  · intro p _
    refine List.Nodup.map ?_ List.nodup_range
    intro a b hab
    simpa using hab
  · exact h.imp fun hpq c hp hq => hpq.not_mem hp hq

/-- **Fields without a bit in common take any values that fit them**, all at
once. -/
theorem exists_values (layout : List BitField)
    (hapart : (layout.flatMap BitField.pieces).Pairwise Piece.Apart)
    (hin : ∀ p ∈ layout.flatMap BitField.pieces, p.pos + p.width ≤ w) (vs : List Int)
    (hfits : List.Forall₂ BitField.Fits layout vs) :
    ∃ ws : Nat → BitVec w, layout.map (·.value ws) = vs := by
  induction hfits with
  | nil => exact ⟨fun _ => 0#w, rfl⟩
  | @cons f v layout vs hfit _ ih =>
    rw [List.flatMap_cons, List.pairwise_append] at hapart
    obtain ⟨hf, hrest, hcross⟩ := hapart
    have hword : ∀ p ∈ f.pieces ++ layout.flatMap BitField.pieces, ∀ c ∈ p.cells, c.2 < w := by
      intro p hp c hc
      have := hin p (by rwa [List.flatMap_cons])
      have := Piece.mem_cells.mp hc
      omega
    obtain ⟨ws, hws⟩ := ih hrest fun p hp =>
      hin p (by rw [List.flatMap_cons]; exact List.mem_append_right _ hp)
    have hcell : ∀ c ∈ f.cells, c.2 < w := by
      intro c hc
      obtain ⟨p, hp, hc⟩ := List.mem_flatMap.mp hc
      exact hword p (List.mem_append_left _ hp) c hc
    have hnodup : f.cells.Nodup := nodup_cells hf
    obtain ⟨b, rfl⟩ := exists_bits_of_fits hfit
    -- the bits of `f` are laid down over words that already give the other values
    refine ⟨scatter ws f.cells b, ?_⟩
    rw [List.map_cons, BitField.value, gather_scatter ws hnodup hcell, ← hws]
    congr 1
    refine List.map_congr_left fun g hg => (value_congr_iff g _ _).mpr ?_
    intro c hc
    obtain ⟨q, hq, hcq⟩ := List.mem_flatMap.mp hc
    have hq' : q ∈ layout.flatMap BitField.pieces := List.mem_flatMap.mpr ⟨g, hg, hq⟩
    rw [bitAt_scatter ws b (hword q (List.mem_append_right _ hq') c hcq), if_neg]
    intro hmem
    obtain ⟨p, hp, hcp⟩ := List.mem_flatMap.mp hmem
    exact (hcross p hp q hq').not_mem hcp hcq

end Layout

end UbloxRead.Lib
