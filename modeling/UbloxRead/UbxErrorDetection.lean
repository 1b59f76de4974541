/-
UbloxRead.UbxErrorDetection — which corruptions of a frame the check of `ubx.c`
notices.

Class, id, length and payload run through the checksum, so a frame with some of
those bytes changed is checked against the double sum of a changed list, and
`Lib.Fletcher` says when that sum is the old one. `parse_of_same_length` reduces
the parser to that question: as long as the sync and length bytes stay, the
answer is the old length or `-3`. One changed byte is always noticed
(`parse_change`); two changed bytes are missed exactly when the amounts cancel
and the distance times the amount is a multiple of 256 (`parse_change_change`),
which an exchange of two different bytes at an odd distance never meets
(`parse_exchange`). `parse_detects_errors` puts the three together.
-/
import UbloxRead.UbxFrameTheorems
import UbloxRead.Lib.Fletcher
import Mathlib.RingTheory.Coprime.Lemmas
import Mathlib.Data.Nat.Prime.Basic

namespace UbloxRead

open Lib

/-! ## Amounts modulo 256 -/

theorem ofInt_eq_zero_iff (d : Int) : UInt8.ofInt d = 0 ↔ d % 256 = 0 := by
  unfold UInt8.ofInt
  rw [← UInt8.toNat_inj, UInt8.toNat_ofNat']
  simp
  omega

theorem nsmul_ofInt (n : Nat) (d : Int) : n • UInt8.ofInt d = UInt8.ofInt (n * d) := by
  induction n with
  | zero =>
    simp
    rfl
  | succ n ih => rw [succ_nsmul, ih, Nat.cast_succ, add_mul, one_mul, UInt8.ofInt_add]

theorem ofInt_toNat_sub (x y : UInt8) : x + UInt8.ofInt (y.toNat - x.toNat) = y := by
  have hx := x.toNat_lt
  have hy := y.toNat_lt
  unfold UInt8.ofInt
  rw [← UInt8.toNat_inj, UInt8.toNat_add, UInt8.toNat_ofNat']
  omega

/-- An odd multiple of an amount is nothing only when the amount is. -/
theorem odd_mul_emod_eq_zero {n : Nat} (hn : n % 2 = 1) {d : Int} (h : (n * d) % 256 = 0) :
    d % 256 = 0 := by
  have hcop : Nat.Coprime (2 ^ 8) n :=
    Nat.Coprime.pow_left 8 (Nat.coprime_two_left.mpr (Nat.odd_iff.mpr hn))
  have hcop' : IsCoprime (256 : Int) n := by simpa using Nat.isCoprime_iff_coprime.mpr hcop
  exact Int.emod_eq_zero_of_dvd (hcop'.dvd_of_dvd_mul_left (Int.dvd_of_emod_eq_zero h))

/-! ## The bytes of a frame -/

/-- The offsets of class, id and payload in a frame with `len` payload bytes. -/
def BodyOffset (len k : Nat) : Prop := k = 2 ∨ k = 3 ∨ (6 ≤ k ∧ k < 6 + len)

/-- The offsets of class, id, payload and checksum. -/
def CheckedOffset (len k : Nat) : Prop := k = 2 ∨ k = 3 ∨ (6 ≤ k ∧ k < 8 + len)

/-- The block with `d` added to the byte at `p`. -/
def addToByte (mem : Mem) (p : Nat) (d : Int) : Mem :=
  Function.update mem p (mem p + UInt8.ofInt d)

/-- The block with the bytes at `p` and `q` exchanged. -/
def exchangeBytes (mem : Mem) (p q : Nat) : Mem :=
  Function.update (Function.update mem p (mem q)) q (mem p)

/-- An accepted frame with its sync and length bytes kept is accepted with its
length when its checksum still stands, and refused with `-3` otherwise. -/
theorem parse_of_same_length {mem mem' : Mem} {msg : Nat} {left : Int}
    (hacc : 0 ≤ (parseUartInput4UbxMsg mem msg left).1)
    (hkept : ∀ k, k = 0 ∨ k = 1 ∨ k = 4 ∨ k = 5 → mem' (msg + k) = mem (msg + k)) :
    (parseUartInput4UbxMsg mem' msg left).1
      = if ChecksumAt mem' msg then (parseUartInput4UbxMsg mem msg left).1 else -3 := by
  have hlen : payloadLen mem' msg = payloadLen mem msg :=
    payloadLen_congr (hkept 4 (by simp)) (hkept 5 (by simp))
  have hsync : SyncAt mem' msg ↔ SyncAt mem msg := by
    have h0 := hkept 0 (by simp)
    have h1 := hkept 1 (by simp)
    rw [Nat.add_zero] at h0
    unfold SyncAt
    rw [h0, h1]
  rw [parse_fst_eq] at hacc ⊢
  rw [parse_fst_eq, hlen]
  by_cases h1 : SyncAt mem msg
  · by_cases h2 : sizeOfInt left < 8 + payloadLen mem msg
    · simp [h1, h2] at hacc
    · by_cases h3 : ChecksumAt mem msg
      · simp only [hsync, h1, h2, h3, not_true, if_false]
        split
        · simp
        · next h =>
          have : ChecksumAt mem' msg := not_not.mp h
          simp [this]
      · simp [h1, h2, h3] at hacc
  · simp [h1] at hacc

/-! ## The checksum of a changed body -/

/-- The bytes under the checksum, as a list. -/
def bodyAt (mem : Mem) (msg : Nat) : List UInt8 := slice mem (msg + 2) (4 + payloadLen mem msg)

/-- A body byte, in that list. -/
theorem BodyOffset.getElem? {mem : Mem} {msg k : Nat} (h : BodyOffset (payloadLen mem msg) k) :
    (bodyAt mem msg)[k - 2]? = some (mem (msg + k)) := by
  unfold BodyOffset at h
  rw [bodyAt, getElem?_slice mem (msg + 2) (by omega)]
  congr 2
  omega

/-- A byte of the header or of the checksum is none of the body. -/
theorem BodyOffset.ne {len k m : Nat} (h : BodyOffset len k)
    (hm : m = 0 ∨ m = 1 ∨ m = 4 ∨ m = 5 ∨ 6 + len ≤ m) : m ≠ k := by
  unfold BodyOffset at h
  omega

/-- Adding to a body byte keeps the rest. -/
theorem addToByte_of_ne {mem : Mem} {msg k m : Nat} (d : Int) (h : m ≠ k) :
    addToByte mem (msg + k) d (msg + m) = mem (msg + m) :=
  Function.update_of_ne (by omega) ..

theorem payloadLen_addToByte {mem : Mem} {msg k : Nat} (h : BodyOffset (payloadLen mem msg) k)
    (d : Int) : payloadLen (addToByte mem (msg + k) d) msg = payloadLen mem msg :=
  payloadLen_congr (addToByte_of_ne d (h.ne (by simp))) (addToByte_of_ne d (h.ne (by simp)))

theorem bodyAt_addToByte {mem : Mem} {msg k : Nat} (h : BodyOffset (payloadLen mem msg) k)
    (d : Int) :
    bodyAt (addToByte mem (msg + k) d) msg
      = (bodyAt mem msg).set (k - 2) (mem (msg + k) + UInt8.ofInt d) := by
  have hplace : msg + k = msg + 2 + (k - 2) := by
    unfold BodyOffset at h
    omega
  rw [bodyAt, payloadLen_addToByte h d, addToByte, bodyAt, hplace]
  exact slice_update mem (msg + 2) _ _ _

/-- A frame with body bytes changed has its checksum when the double sum of its
body is the old one. -/
theorem checksumAt_iff_of_kept {mem mem' : Mem} {msg : Nat} (hck : ChecksumAt mem msg)
    (hlen : payloadLen mem' msg = payloadLen mem msg)
    (h6 : mem' (msg + (6 + payloadLen mem msg)) = mem (msg + (6 + payloadLen mem msg)))
    (h7 : mem' (msg + (7 + payloadLen mem msg)) = mem (msg + (7 + payloadLen mem msg))) :
    ChecksumAt mem' msg ↔ fletcher (bodyAt mem' msg) = fletcher (bodyAt mem msg) := by
  unfold ChecksumAt at hck ⊢
  rw [hlen, Nat.add_assoc, Nat.add_assoc, h6, h7, ← Nat.add_assoc, ← Nat.add_assoc, hck, bodyAt,
    bodyAt, hlen]
  exact eq_comm

/-! ## One byte changed -/

theorem not_checksumAt_addToByte {mem : Mem} {msg k : Nat} {d : Int} (hck : ChecksumAt mem msg)
    (hk : CheckedOffset (payloadLen mem msg) k) (hd : d % 256 ≠ 0) :
    ¬ ChecksumAt (addToByte mem (msg + k) d) msg := by
  have hd' : UInt8.ofInt d ≠ 0 := by rwa [ne_eq, ofInt_eq_zero_iff]
  by_cases hbody : BodyOffset (payloadLen mem msg) k
  · rw [checksumAt_iff_of_kept hck (payloadLen_addToByte hbody d)
      (addToByte_of_ne d (hbody.ne (by simp))) (addToByte_of_ne d (hbody.ne (by omega))),
      bodyAt_addToByte hbody]
    exact fletcher_set_ne hbody.getElem? hd'
  · have hat : k = 6 + payloadLen mem msg ∨ k = 7 + payloadLen mem msg := by
      unfold CheckedOffset at hk
      unfold BodyOffset at hbody
      omega
    have hne : mem (msg + k) + UInt8.ofInt d ≠ mem (msg + k) := by simpa using hd'
    have hlen : payloadLen (addToByte mem (msg + k) d) msg = payloadLen mem msg :=
      payloadLen_congr (addToByte_of_ne d (by omega)) (addToByte_of_ne d (by omega))
    have hslice : slice (addToByte mem (msg + k) d) (msg + 2) (4 + payloadLen mem msg)
        = slice mem (msg + 2) (4 + payloadLen mem msg) :=
      slice_update_outside mem (msg + 2) (by omega) _
    unfold ChecksumAt at hck ⊢
    rw [hlen, hslice, ← hck, Prod.mk.injEq]
    rcases hat with rfl | rfl
    · intro h
      exact hne (by simpa [addToByte, ← Nat.add_assoc] using h.1)
    · intro h
      exact hne (by simpa [addToByte, ← Nat.add_assoc] using h.2)

/-- **One byte of an accepted frame changed**, class, id, payload or checksum:
the check answers `-3`. -/
theorem parse_change {mem : Mem} {msg : Nat} {left : Int}
    (hacc : 0 ≤ (parseUartInput4UbxMsg mem msg left).1) {k : Nat}
    (hk : CheckedOffset (payloadLen mem msg) k) {d : Int} (hd : d % 256 ≠ 0) :
    (parseUartInput4UbxMsg (addToByte mem (msg + k) d) msg left).1 = -3 := by
  rw [parse_of_same_length hacc, if_neg (not_checksumAt_addToByte (checksumAt_of_accepted hacc) hk hd)]
  intro m hm
  refine addToByte_of_ne d ?_
  unfold CheckedOffset at hk
  omega

/-! ## Two bytes changed -/

theorem checksumAt_addToByte_addToByte {mem : Mem} {msg i j : Nat} (di dj : Int)
    (hck : ChecksumAt mem msg) (hij : i < j) (hi : BodyOffset (payloadLen mem msg) i)
    (hj : BodyOffset (payloadLen mem msg) j) :
    ChecksumAt (addToByte (addToByte mem (msg + i) di) (msg + j) dj) msg
      ↔ (di + dj) % 256 = 0 ∧ ((j - i : Int) * di) % 256 = 0 := by
  have hlen := payloadLen_addToByte hi di
  have hj' : BodyOffset (payloadLen (addToByte mem (msg + i) di) msg) j := by rwa [hlen]
  have hkept : ∀ m, 6 + payloadLen mem msg ≤ m →
      addToByte (addToByte mem (msg + i) di) (msg + j) dj (msg + m) = mem (msg + m) := by
    intro m hm
    rw [addToByte_of_ne dj (hj.ne (by omega)), addToByte_of_ne di (hi.ne (by omega))]
  have hi2 : 2 ≤ i := by
    unfold BodyOffset at hi
    omega
  have hlt : i - 2 < j - 2 := by omega
  have hdist : j - 2 - (i - 2) = j - i := by omega
  have hcast : ((j - i : Nat) : Int) = (j : Int) - i := by omega
  rw [checksumAt_iff_of_kept hck ((payloadLen_addToByte hj' dj).trans hlen) (hkept _ (by omega))
    (hkept _ (by omega)), bodyAt_addToByte hj', addToByte_of_ne di (by omega), bodyAt_addToByte hi,
    fletcher_set_set_eq_iff hlt hi.getElem? hj.getElem?, hdist, nsmul_ofInt, hcast,
    ← UInt8.ofInt_add, ofInt_eq_zero_iff, ofInt_eq_zero_iff]

/-- **Two body bytes of an accepted frame changed**: the frame stays accepted
exactly when the amounts cancel and the distance times the amount is a multiple
of 256, and gives `-3` otherwise. -/
theorem parse_change_change {mem : Mem} {msg : Nat} {left : Int}
    (hacc : 0 ≤ (parseUartInput4UbxMsg mem msg left).1) {i j : Nat} (di dj : Int) (hij : i < j)
    (hi : BodyOffset (payloadLen mem msg) i) (hj : BodyOffset (payloadLen mem msg) j) :
    (parseUartInput4UbxMsg (addToByte (addToByte mem (msg + i) di) (msg + j) dj) msg left).1
      = if (di + dj) % 256 = 0 ∧ ((j - i : Int) * di) % 256 = 0
        then (parseUartInput4UbxMsg mem msg left).1 else -3 := by
  have hck := checksumAt_addToByte_addToByte di dj (checksumAt_of_accepted hacc) hij hi hj
  rw [parse_of_same_length hacc]
  · simp only [hck]
  · intro m hm
    rw [addToByte_of_ne dj (hj.ne (by omega)), addToByte_of_ne di (hi.ne (by omega))]

/-- An exchange is a change of two bytes by opposite amounts. -/
theorem exchangeBytes_eq (mem : Mem) {p q : Nat} (hpq : p < q) :
    exchangeBytes mem p q
      = addToByte (addToByte mem p ((mem q).toNat - (mem p).toNat)) q
          ((mem p).toNat - (mem q).toNat) := by
  have hq : addToByte mem p ((mem q).toNat - (mem p).toNat) q = mem q :=
    Function.update_of_ne (by omega) ..
  rw [addToByte, hq, ofInt_toNat_sub, addToByte, ofInt_toNat_sub, exchangeBytes]

/-- **Two different body bytes exchanged at an odd distance**: `-3`. -/
theorem parse_exchange {mem : Mem} {msg : Nat} {left : Int}
    (hacc : 0 ≤ (parseUartInput4UbxMsg mem msg left).1) {i j : Nat} (hij : i < j)
    (hi : BodyOffset (payloadLen mem msg) i) (hj : BodyOffset (payloadLen mem msg) j)
    (hodd : (j - i) % 2 = 1) (hne : mem (msg + i) ≠ mem (msg + j)) :
    (parseUartInput4UbxMsg (exchangeBytes mem (msg + i) (msg + j)) msg left).1 = -3 := by
  rw [exchangeBytes_eq mem (by omega), parse_change_change hacc _ _ hij hi hj, if_neg]
  rintro ⟨-, h⟩
  have hcast : ((j - i : Nat) : Int) = (j : Int) - i := by omega
  rw [← hcast] at h
  have hd := odd_mul_emod_eq_zero hodd h
  have hx := (mem (msg + i)).toNat_lt
  have hy := (mem (msg + j)).toNat_lt
  exact hne (UInt8.toNat_inj.mp (by omega))

/-! ## Error detection -/

/-- **What the frame check detects.** Of an accepted frame, whatever its payload
length: any single byte of class, id, payload or checksum changed is answered
`-3`; two body bytes changed are missed exactly when the amounts cancel and the
distance times the amount is a multiple of 256; and an exchange of two different
body bytes at an odd distance is answered `-3`. -/
theorem parse_detects_errors (mem : Mem) (msg : Nat) (left : Int)
    (hacc : 0 ≤ (parseUartInput4UbxMsg mem msg left).1) :
    (∀ k v, CheckedOffset (payloadLen mem msg) k → v ≠ mem (msg + k) →
      (parseUartInput4UbxMsg (Function.update mem (msg + k) v) msg left).1 = -3) ∧
    (∀ i j (di dj : Int), i < j →
      BodyOffset (payloadLen mem msg) i → BodyOffset (payloadLen mem msg) j →
      di % 256 ≠ 0 → dj % 256 ≠ 0 →
      (parseUartInput4UbxMsg (addToByte (addToByte mem (msg + i) di) (msg + j) dj) msg left).1
        = if (di + dj) % 256 = 0 ∧ ((j - i : Int) * di) % 256 = 0
          then (parseUartInput4UbxMsg mem msg left).1 else -3) ∧
    (∀ i j, i < j → BodyOffset (payloadLen mem msg) i → BodyOffset (payloadLen mem msg) j →
      (j - i) % 2 = 1 → mem (msg + i) ≠ mem (msg + j) →
      (parseUartInput4UbxMsg (exchangeBytes mem (msg + i) (msg + j)) msg left).1 = -3) := by
  refine ⟨?_, ?_, ?_⟩
  · intro k v hk hv
    have hupd : Function.update mem (msg + k) v
        = addToByte mem (msg + k) (v.toNat - (mem (msg + k)).toNat) := by
      rw [addToByte, ofInt_toNat_sub]
    rw [hupd]
    refine parse_change hacc hk ?_
    intro hd
    have hx := (mem (msg + k)).toNat_lt
    have hy := v.toNat_lt
    exact hv (UInt8.toNat_inj.mp (by omega))
  · intro i j di dj hij hi hj _ _
    exact parse_change_change hacc di dj hij hi hj
  · intro i j hij hi hj hodd hne
    exact parse_exchange hacc hij hi hj hodd hne

/-- The AID-INI poll: one byte changed, two changed so that it shows, and class
and id exchanged. -/
theorem parse_detects_errors_poll :
    let poll := memOfList [0xb5, 0x62, 0x0b, 0x01, 0x00, 0x00, 0x0c, 0x2f]
    (parseUartInput4UbxMsg (Function.update poll (0 + 6) 0x0d) 0 8).1 = -3 ∧
    (parseUartInput4UbxMsg (addToByte (addToByte poll (0 + 2) 1) (0 + 3) (-1)) 0 8).1 = -3 ∧
    (parseUartInput4UbxMsg (exchangeBytes poll (0 + 2) (0 + 3)) 0 8).1 = -3 := by
  intro poll
  obtain ⟨h1, h2, h3⟩ := parse_detects_errors poll 0 8 (by decide)
  have hclass : BodyOffset (payloadLen poll 0) 2 := .inl rfl
  have hid : BodyOffset (payloadLen poll 0) 3 := .inr (.inl rfl)
  refine ⟨h1 6 0x0d (.inr (.inr (by decide))) (by decide), ?_, ?_⟩
  · exact (h2 2 3 1 (-1) (by decide) hclass hid (by decide) (by decide)).trans (by decide)
  · exact h3 2 3 (by decide) hclass hid (by decide) (by decide)

end UbloxRead
