/-
UbloxRead.UbxFormat — the UBX format as a codec.

`UbxFrame.decode` reads a frame off the front of a list of bytes. It says what a
frame is without a pointer, a memory or a number of bytes left, and `ubxCodec`
carries the proof that it undoes `UbxFrame.bytes`. `deframe`, the frames in some
bytes from left to right, is determined by it alone.

The code is tied to it in two places. `parse_eq_iff_decode`: what
`parseUartInput_4_UbxMsg` returns is the length of the frame that can be read off
the bytes left. `deframe_of_scan`: what a scan finds is `deframe` of the bytes.
-/
import UbloxRead.ScanLoopTheorems
import UbloxRead.Lib.Codec

namespace UbloxRead

open Lib

/-! ## The format -/

theorem headerLen_lt (l0 l1 : UInt8) : l0.toNat + 256 * l1.toNat < 2 ^ 16 := by
  have h0 := l0.toNat_lt
  have h1 := l1.toNat_lt
  omega

/-- The frame at the front of the bytes, and what is behind it. -/
def UbxFrame.decode : List UInt8 → Option (UbxFrame × List UInt8)
  | sync0 :: sync1 :: msgClass :: msgId :: l0 :: l1 :: rest =>
      let len := l0.toNat + 256 * l1.toNat
      let payload := rest.take len
      let cksum := fletcher (msgClass :: msgId :: l0 :: l1 :: payload)
      if sync0 = UBX_SYNC0 ∧ sync1 = UBX_SYNC1 ∧ len + 2 ≤ rest.length ∧
          (rest.drop len).take 2 = [cksum.1, cksum.2] then
        some ({ msgClass := msgClass
                msgId := msgId
                payload := payload
                payload_lt := Nat.lt_of_le_of_lt (List.length_take_le ..) (headerLen_lt l0 l1) },
          rest.drop (len + 2))
      else none
  | _ => none

/-- A 16-bit length and its two bytes. -/
theorem lengthBytes_ofNat (l0 l1 : UInt8) :
    UInt8.ofNat (l0.toNat + 256 * l1.toNat) = l0 ∧
      UInt8.ofNat ((l0.toNat + 256 * l1.toNat) / 256) = l1 := by
  have h0 := l0.toNat_lt
  have h1 := l1.toNat_lt
  constructor
  · rw [← UInt8.toNat_inj, UInt8.toNat_ofNat']
    omega
  · rw [← UInt8.toNat_inj, UInt8.toNat_ofNat']
    omega

/-- A frame is read back. -/
theorem decode_bytes_append (f : UbxFrame) (rest : List UInt8) :
    UbxFrame.decode (f.bytes ++ rest) = some (f, rest) := by
  have hlen := lengthBytes_toNat f
  have hbytes : f.bytes ++ rest = UBX_SYNC0 :: UBX_SYNC1 :: f.msgClass :: f.msgId
      :: UInt8.ofNat f.payload.length :: UInt8.ofNat (f.payload.length / 256)
      :: (f.payload ++ ((fletcher f.body).1 :: (fletcher f.body).2 :: rest)) := by
    simp [UbxFrame.bytes, UbxFrame.body]
  rw [hbytes, UbxFrame.decode]
  simp only [hlen, List.take_left, List.drop_left, true_and]
  rw [if_pos ⟨by simp, rfl⟩, ← List.drop_drop, List.drop_left]
  rfl

/-- What is read is a frame's bytes. -/
theorem bytes_of_decode {bytes rest : List UInt8} {f : UbxFrame}
    (h : UbxFrame.decode bytes = some (f, rest)) : bytes = f.bytes ++ rest := by
  unfold UbxFrame.decode at h
  split at h
  · next sync0 sync1 msgClass msgId l0 l1 tail =>
    obtain ⟨hl0, hl1⟩ := lengthBytes_ofNat l0 l1
    simp only at h
    split at h
    · next hframe =>
      obtain ⟨rfl, rfl, hfit, hcksum⟩ := hframe
      cases h
      have htake : (tail.take (l0.toNat + 256 * l1.toNat)).length = l0.toNat + 256 * l1.toNat := by
        rw [List.length_take]
        omega
      have hrest : tail.drop (l0.toNat + 256 * l1.toNat) = _ ++ _ := (List.take_append_drop 2 _).symm
      rw [hcksum, List.drop_drop] at hrest
      have htail : tail = tail.take (l0.toNat + 256 * l1.toNat) ++ _ :=
        (List.take_append_drop _ tail).symm.trans (congrArg _ hrest)
      simp only [UbxFrame.bytes, UbxFrame.body, htake, hl0, hl1, List.cons_append,
        List.append_assoc, List.cons.injEq, true_and]
      exact htail
    · cases h
  · cases h

/-- **The UBX format.** Reading is the inverse of writing. -/
def ubxCodec : Codec UbxFrame UInt8 where
  encode := UbxFrame.bytes
  decode := UbxFrame.decode
  encode_ne_nil _ := List.cons_ne_nil _ _
  decode_eq_some := by
    intro bytes f rest
    refine ⟨bytes_of_decode, ?_⟩
    rintro rfl
    exact decode_bytes_append f rest

/-- The frames in some bytes, from left to right. -/
def deframe (bytes : List UInt8) : List UbxFrame := ubxCodec.deframe bytes

/-! ## The check -/

/-- An item that ends among the next `n` bytes is the frame at their front. -/
theorem decode_of_item {mem : Mem} {p n l : Nat} (hitem : frameItem mem p = some l) (hle : l ≤ n) :
    UbxFrame.decode (slice mem p n) = some (frameAt mem p, slice mem (p + l) (n - l)) := by
  have hsplit : slice mem p n = slice mem p l ++ slice mem (p + l) (n - l) := by
    rw [← slice_add, Nat.add_sub_cancel' hle]
  rw [hsplit, bytes_frameAt hitem]
  exact decode_bytes_append ..

/-- The frame at the front of the next `n` bytes is an item that ends among them. -/
theorem item_of_decode {mem : Mem} {p n : Nat} {f : UbxFrame} {rest : List UInt8}
    (h : UbxFrame.decode (slice mem p n) = some (f, rest)) :
    frameItem mem p = some f.bytes.length ∧ f.bytes.length ≤ n := by
  have hbytes := bytes_of_decode h
  have hle : f.bytes.length ≤ n := by
    have hlen := congrArg List.length hbytes
    rw [length_slice, List.length_append] at hlen
    omega
  refine ⟨frameItem_of_bytes f ?_, hle⟩
  rw [← take_slice mem p hle, hbytes, List.take_left]

/-- The code compares the number of bytes left as a `size_t`. -/
theorem parse_sizeOfInt (mem : Mem) (msg : Nat) (left : Int) :
    (parseUartInput4UbxMsg mem msg left).1
      = (parseUartInput4UbxMsg mem msg (sizeOfInt left : Int)).1 := by
  rw [parse_fst_eq, parse_fst_eq, sizeOfInt_of_nonneg (Int.natCast_nonneg _), Int.toNat_natCast]

/-- **The frame check reads the format.** It returns `l` exactly when a frame of
`l` bytes can be read off the bytes left. -/
theorem parse_eq_iff_decode (mem : Mem) (msg : Nat) (left : Int) (l : Nat) :
    (parseUartInput4UbxMsg mem msg left).1 = l ↔
      ∃ f rest, UbxFrame.decode (slice mem msg (sizeOfInt left)) = some (f, rest) ∧
        f.bytes.length = l := by
  rw [parse_sizeOfInt, parse_accepts_iff mem msg (Int.natCast_nonneg _)]
  constructor
  · rintro ⟨hitem, hle⟩
    refine ⟨_, _, decode_of_item hitem (by omega), ?_⟩
    rw [← bytes_frameAt hitem, length_slice]
  · rintro ⟨f, rest, hdecode, rfl⟩
    obtain ⟨hitem, hle⟩ := item_of_decode hdecode
    exact ⟨hitem, by omega⟩

/-! ## Frames among other bytes -/

/-- **A scan of items is a reading of frames.** The induction is on the scan. -/
theorem deframe_of_scan {mem : Mem} {n i : Nat} {found : List (Nat × Nat)}
    (h : Scan (frameItem mem) n i found) :
    deframe (slice mem i (n - i)) = found.map fun span => frameAt mem span.1 := by
  induction h with
  | @done i hn =>
    rw [Nat.sub_eq_zero_of_le hn]
    rfl
  | @skip i found hlt hno _ ih =>
    have hsucc : slice mem i (n - i) = mem i :: slice mem (i + 1) (n - (i + 1)) := by
      rw [← slice_succ]
      congr 1
      omega
    rw [← ih, hsucc]
    refine ubxCodec.deframe_cons ?_
    rw [← hsucc]
    cases hdecode : UbxFrame.decode (slice mem i (n - i)) with
    | none => exact hdecode
    | some r =>
      obtain ⟨f, rest⟩ := r
      obtain ⟨hitem, hle⟩ := item_of_decode hdecode
      have := hno _ hitem
      omega
  | @take i l found hlt hit hfit _ ih =>
    have hsplit : slice mem i (n - i) = (frameAt mem i).bytes ++ slice mem (i + l) (n - (i + l)) := by
      rw [← bytes_frameAt hit, ← slice_add]
      congr 1
      omega
    rw [List.map_cons, ← ih, hsplit]
    exact ubxCodec.deframe_encode_append ..

/-- A frame begins with the sync bytes. -/
theorem sync_of_decode {bytes rest : List UInt8} {f : UbxFrame}
    (h : UbxFrame.decode bytes = some (f, rest)) :
    ∃ tail, bytes = UBX_SYNC0 :: UBX_SYNC1 :: tail := by
  rw [bytes_of_decode h]
  exact ⟨_, rfl⟩

/-- What follows a gap does not begin with the second sync byte. -/
theorem partsBytes_ne_sync1 (parts : List (UbxFrame × List UInt8)) (tail : List UInt8) :
    partsBytes parts ≠ UBX_SYNC1 :: tail := by
  cases parts with
  | nil => exact (List.cons_ne_nil _ _).symm
  | cons part parts =>
    intro h
    simp only [partsBytes, List.flatMap_cons, UbxFrame.bytes, List.cons_append,
      List.cons.injEq] at h
    exact absurd h.1 (by decide)

/-- No frame is read off the bytes of a gap. -/
theorem decode_gap {gap front back : List UInt8} {b : UInt8} (hgap : SyncFree gap)
    (heq : gap = front ++ b :: back) (parts : List (UbxFrame × List UInt8)) :
    UbxFrame.decode (b :: back ++ partsBytes parts) = none := by
  cases hdecode : UbxFrame.decode (b :: back ++ partsBytes parts) with
  | none => rfl
  | some r =>
    exfalso
    obtain ⟨f, rest⟩ := r
    obtain ⟨tail, hsync⟩ := sync_of_decode hdecode
    rw [List.cons_append, List.cons.injEq] at hsync
    obtain ⟨rfl, hsync⟩ := hsync
    cases back with
    | nil => exact partsBytes_ne_sync1 parts tail hsync
    | cons b' back =>
      rw [List.cons_append, List.cons.injEq] at hsync
      exact hgap ⟨front, back, by rw [heq, hsync.1]; simp⟩

/-- **Frames with gaps between them are read back.** -/
theorem deframe_parts (parts : List (UbxFrame × List UInt8)) :
    ∀ gap, SyncFree gap → (∀ part ∈ parts, SyncFree part.2) →
      deframe (gap ++ partsBytes parts) = parts.map Prod.fst := by
  induction parts with
  | nil =>
    intro gap hgap _
    exact ubxCodec.deframe_append fun front b back heq => decode_gap hgap heq []
  | cons part parts ih =>
    intro gap hgap hgaps
    obtain ⟨hpart, hparts⟩ := List.forall_mem_cons.mp hgaps
    have hcons : partsBytes (part :: parts) = part.1.bytes ++ (part.2 ++ partsBytes parts) := by
      rw [partsBytes, List.flatMap_cons, List.append_assoc]
      rfl
    have hskip : deframe (gap ++ partsBytes (part :: parts)) = deframe (partsBytes (part :: parts)) :=
      ubxCodec.deframe_append fun front b back heq => decode_gap hgap heq _
    rw [hskip, hcons, List.map_cons, ← ih part.2 hpart hparts]
    exact ubxCodec.deframe_encode_append ..

end UbloxRead
