/-
UbloxRead.UbxFrameTheorems — what the frame check accepts.

`parse_fst_eq` unfolds `parseUartInput4UbxMsg` once and for all: the length
write-back changes nothing (`parse_snd`), and the three tests in order decide
the return value. Everything after it goes through `parse_accepts_iff`: the
check accepts exactly where `frameItem` has an item that ends in the bytes
left, and returns its length. `parse_bytes` and `bytes_frameAt` are the
two halves of the round trip with `UbxFrame.bytes`: a frame laid down anywhere
is accepted with its length, and what is accepted is the encoding of a frame.
-/
import UbloxRead.UbxFrame

namespace UbloxRead

open Lib

/-! ## The header -/

theorem payloadLen_lt (mem : Mem) (msg : Nat) : payloadLen mem msg < 2 ^ 16 := by
  have h4 := (mem (msg + 4)).toNat_lt
  have h5 := (mem (msg + 5)).toNat_lt
  unfold payloadLen
  omega

/-- Writing the length field back with its own value changes nothing. -/
theorem setPayloadLen_self (mem : Mem) (msg : Nat) :
    setPayloadLen mem msg (payloadLen mem msg) = mem := by
  have h4 := (mem (msg + 4)).toNat_lt
  funext i
  unfold setPayloadLen
  split
  · next hi =>
    subst hi
    apply UInt8.toNat_inj.mp
    rw [UInt8.toNat_ofNat']
    unfold payloadLen
    omega
  · split
    · next hi =>
      subst hi
      apply UInt8.toNat_inj.mp
      rw [UInt8.toNat_ofNat']
      have h5 := (mem (msg + 5)).toNat_lt
      unfold payloadLen
      omega
    · rfl

theorem payloadLen_congr {mem mem' : Mem} {p p' : Nat} (h4 : mem (p + 4) = mem' (p' + 4))
    (h5 : mem (p + 5) = mem' (p' + 5)) : payloadLen mem p = payloadLen mem' p' := by
  simp only [payloadLen, h4, h5]

/-! What the expressions of `ubx.c` over `sizeof(struct ubx_hdr)` come to. -/

theorem frameLen_eq (len : Nat) : UBX_HDR_SIZE + len + 2 = 8 + len := by
  unfold UBX_HDR_SIZE
  omega

theorem bodyLen_eq (len : Nat) : UBX_HDR_SIZE + len - 2 = 4 + len := by
  unfold UBX_HDR_SIZE
  omega

theorem cksumPtr_eq (msg len : Nat) : msg + (UBX_HDR_SIZE + len) = msg + 6 + len := by
  unfold UBX_HDR_SIZE
  omega

theorem cksumPtr_succ (msg len : Nat) : msg + 6 + len + 1 = msg + 7 + len := by
  omega

/-! ## The checksum -/

/-- The checksum loop is the double sum of the bytes it runs over. -/
theorem ubxChecksum_eq (mem : Mem) (data len : Nat) :
    ubxChecksum mem data len = fletcher (slice mem data len) := by
  rw [ubxChecksum, fletcher, slice, List.foldl_map]
  rfl

/-! ## The check -/

/-- The scan loop's memory is never changed by the check. -/
@[simp] theorem parse_snd (mem : Mem) (msg : Nat) (left : Int) :
    (parseUartInput4UbxMsg mem msg left).2 = mem := by
  simp only [parseUartInput4UbxMsg, getUbxMsgLength, setPayloadLen_self]
  split
  · rfl
  · split
    · rfl
    · split <;> rfl

/-- The return value, with the write-back gone and the checksum as a sum. -/
theorem parse_fst_eq (mem : Mem) (msg : Nat) (left : Int) :
    (parseUartInput4UbxMsg mem msg left).1 =
      if ¬ SyncAt mem msg then -1
      else if sizeOfInt left < 8 + payloadLen mem msg then -2
      else if ¬ ChecksumAt mem msg then -3
      else ((8 + payloadLen mem msg : Nat) : Int) := by
  simp only [parseUartInput4UbxMsg, getUbxMsgLength, setPayloadLen_self, frameLen_eq, bodyLen_eq,
    cksumPtr_eq, cksumPtr_succ, ubxChecksum_eq, ne_eq, SyncAt, ChecksumAt, Prod.ext_iff, not_and_or]
  split
  · rfl
  · split
    · rfl
    · split <;> rfl

/-- What is accepted has the sync bytes and its checksum. -/
theorem syncAt_of_accepted {mem : Mem} {msg : Nat} {left : Int}
    (hacc : 0 ≤ (parseUartInput4UbxMsg mem msg left).1) : SyncAt mem msg := by
  rw [parse_fst_eq] at hacc
  by_contra h
  simp [h] at hacc

theorem checksumAt_of_accepted {mem : Mem} {msg : Nat} {left : Int}
    (hacc : 0 ≤ (parseUartInput4UbxMsg mem msg left).1) : ChecksumAt mem msg := by
  rw [parse_fst_eq] at hacc
  by_contra h
  simp only [h, not_false_eq_true, if_true] at hacc
  split_ifs at hacc <;> omega

/-- **The check accepts exactly an item that ends in the bytes left**, and
returns its length. -/
theorem parse_accepts_iff (mem : Mem) (msg : Nat) {left : Int} (hleft : 0 ≤ left) (l : Nat) :
    (parseUartInput4UbxMsg mem msg left).1 = l ↔ frameItem mem msg = some l ∧ (l : Int) ≤ left := by
  rw [parse_fst_eq, sizeOfInt_of_nonneg hleft, frameItem]
  by_cases hsync : SyncAt mem msg
  · by_cases hck : ChecksumAt mem msg
    · simp only [hsync, hck, not_true, if_false, and_self, if_true, Option.some.injEq]
      split <;> omega
    · simp only [hsync, hck, not_true, if_false, not_false_eq_true, if_true, and_false,
        reduceCtorEq, false_and, iff_false]
      split <;> omega
  · simp only [hsync, not_false_eq_true, if_true, false_and, if_false, reduceCtorEq]

/-- A return value that is not negative is a length. -/
theorem parse_nonneg_iff (mem : Mem) (msg : Nat) {left : Int} (hleft : 0 ≤ left) :
    0 ≤ (parseUartInput4UbxMsg mem msg left).1 ↔
      ∃ l, frameItem mem msg = some l ∧ (l : Int) ≤ left ∧
        (parseUartInput4UbxMsg mem msg left).1 = l := by
  constructor
  · intro h
    obtain ⟨l, hl⟩ := Int.eq_ofNat_of_zero_le h
    obtain ⟨h1, h2⟩ := (parse_accepts_iff mem msg hleft l).mp hl
    exact ⟨l, h1, h2, hl⟩
  · rintro ⟨l, -, -, hl⟩
    omega

/-! ## Items -/

theorem frameItem_eq_some {mem : Mem} {p l : Nat} :
    frameItem mem p = some l ↔ SyncAt mem p ∧ ChecksumAt mem p ∧ l = 8 + payloadLen mem p := by
  unfold frameItem
  split
  · next h => simp only [Option.some.injEq, h, true_and, eq_comm]
  · next h =>
    simp only [reduceCtorEq, false_iff]
    exact fun hc => h ⟨hc.1, hc.2.1⟩

theorem frameItem_pos {mem : Mem} {p l : Nat} (h : frameItem mem p = some l) : 8 ≤ l := by
  obtain ⟨-, -, rfl⟩ := frameItem_eq_some.mp h
  omega

/-- A valid position is one where an item starts and ends inside. -/
theorem validAt_iff {mem : Mem} {n p : Nat} :
    ValidAt mem n p ↔ ∃ l, frameItem mem p = some l ∧ p + l ≤ n := by
  constructor
  · rintro ⟨hsync, hin, hck⟩
    exact ⟨_, frameItem_eq_some.mpr ⟨hsync, hck, rfl⟩, by omega⟩
  · rintro ⟨l, hl, hin⟩
    obtain ⟨hsync, hck, rfl⟩ := frameItem_eq_some.mp hl
    exact ⟨hsync, by omega, hck⟩

/-- The bytes of an item decide it: it is one wherever they stand. -/
theorem frameItem_congr {mem mem' : Mem} {p p' l : Nat}
    (hbytes : slice mem p l = slice mem' p' l) (h : frameItem mem p = some l) :
    frameItem mem' p' = some l := by
  obtain ⟨⟨h0, h1⟩, hck, rfl⟩ := frameItem_eq_some.mp h
  have hat : ∀ k, k < 8 + payloadLen mem p → mem (p + k) = mem' (p' + k) := fun k hk =>
    slice_inj hbytes hk
  have hlen : payloadLen mem p = payloadLen mem' p' :=
    payloadLen_congr (hat 4 (by omega)) (hat 5 (by omega))
  have hbody : slice mem (p + 2) (4 + payloadLen mem p)
      = slice mem' (p' + 2) (4 + payloadLen mem p) := by
    refine slice_congr fun k hk => ?_
    rw [Nat.add_assoc, Nat.add_assoc]
    exact hat (2 + k) (by omega)
  have hck0 := hat (6 + payloadLen mem p) (by omega)
  have hck1 := hat (7 + payloadLen mem p) (by omega)
  have h0' : mem' p' = UBX_SYNC0 := by rw [← h0]; exact (hat 0 (by omega)).symm
  have h1' : mem' (p' + 1) = UBX_SYNC1 := by rw [← h1]; exact (hat 1 (by omega)).symm
  refine frameItem_eq_some.mpr ⟨⟨h0', h1'⟩, ?_, by rw [hlen]⟩
  rw [ChecksumAt, Nat.add_assoc, Nat.add_assoc] at hck ⊢
  rw [← hlen, ← hbody, ← hck, hck0, hck1]

/-! ## Round trip with frames as values -/

@[simp] theorem length_body (f : UbxFrame) : f.body.length = 4 + f.payload.length := by
  simp only [UbxFrame.body, List.length_cons]
  omega

@[simp] theorem length_bytes (f : UbxFrame) : f.bytes.length = 8 + f.payload.length := by
  simp only [UbxFrame.bytes, List.length_cons, List.length_append, length_body, List.length_nil]
  omega

/-- The two length bytes of a frame give back its payload length. -/
theorem lengthBytes_toNat (f : UbxFrame) :
    (UInt8.ofNat f.payload.length).toNat + 256 * (UInt8.ofNat (f.payload.length / 256)).toNat
      = f.payload.length := by
  have := f.payload_lt
  rw [UInt8.toNat_ofNat', UInt8.toNat_ofNat']
  omega

/-- Frame bytes found at a place, cell by cell. -/
theorem getElem?_of_slice {mem : Mem} {p k : Nat} {bytes : List UInt8}
    (h : slice mem p bytes.length = bytes) (hk : k < bytes.length) :
    bytes[k]? = some (mem (p + k)) := by
  rw [← h]
  exact getElem?_slice mem p hk

/-- **A frame laid down at `p` is an item there.** -/
theorem frameItem_of_bytes {mem : Mem} {p : Nat} (f : UbxFrame)
    (h : slice mem p f.bytes.length = f.bytes) : frameItem mem p = some f.bytes.length := by
  have hat : ∀ k, k < f.bytes.length → f.bytes[k]? = some (mem (p + k)) := fun k hk =>
    getElem?_of_slice h hk
  have hl := length_bytes f
  have h0 := hat 0 (by omega)
  have h1 := hat 1 (by omega)
  have h4 := hat 4 (by omega)
  have h5 := hat 5 (by omega)
  simp only [UbxFrame.bytes, UbxFrame.body, List.getElem?_cons_zero, List.getElem?_cons_succ,
    List.cons_append, Option.some.injEq, Nat.add_zero] at h0 h1 h4 h5
  have hlen : payloadLen mem p = f.payload.length := by
    rw [payloadLen, ← h4, ← h5, lengthBytes_toNat]
  have hbody : slice mem (p + 2) (4 + f.payload.length) = f.body := by
    have hdrop := congrArg (fun bs => (bs.drop 2).take (4 + f.payload.length)) h
    simp only [drop_slice mem p (show 2 ≤ f.bytes.length by omega)] at hdrop
    rw [take_slice _ _ (by omega)] at hdrop
    rw [hdrop]
    simp [UbxFrame.bytes]
  have hck0 := hat (6 + f.payload.length) (by omega)
  have hck1 := hat (7 + f.payload.length) (by omega)
  have hbl := length_body f
  have he0 : 6 + f.payload.length = f.body.length + 2 := by omega
  have he1 : 7 + f.payload.length = f.body.length + 1 + 2 := by omega
  rw [he0] at hck0
  rw [he1] at hck1
  simp only [UbxFrame.bytes, List.getElem?_cons_succ] at hck0 hck1
  rw [List.getElem?_append_right le_rfl, Nat.sub_self] at hck0
  rw [List.getElem?_append_right (by omega), Nat.add_sub_cancel_left] at hck1
  simp only [List.getElem?_cons_zero, List.getElem?_cons_succ, Option.some.injEq] at hck0 hck1
  refine frameItem_eq_some.mpr ⟨⟨h0.symm, h1.symm⟩, ?_, by rw [hl, hlen]⟩
  rw [ChecksumAt, hlen, hbody, Nat.add_assoc, Nat.add_assoc, he0, he1, ← hck0, ← hck1]

/-- A frame with room for it in the bytes left is accepted with its length. -/
theorem parse_bytes {mem : Mem} {p : Nat} (f : UbxFrame)
    (h : slice mem p f.bytes.length = f.bytes) {left : Int} (hleft : (f.bytes.length : Int) ≤ left) :
    (parseUartInput4UbxMsg mem p left).1 = f.bytes.length :=
  (parse_accepts_iff mem p (by omega) _).mpr ⟨frameItem_of_bytes f h, hleft⟩

/-- The frame that the bytes at an item encode. -/
def frameAt (mem : Mem) (p : Nat) : UbxFrame where
  msgClass := getUbxMsgClass mem p
  msgId := getUbxMsgId mem p
  payload := slice mem (p + 6) (payloadLen mem p)
  payload_lt := by rw [length_slice]; exact payloadLen_lt mem p

/-- **What is accepted is the encoding of a frame.** -/
theorem bytes_frameAt {mem : Mem} {p l : Nat} (h : frameItem mem p = some l) :
    slice mem p l = (frameAt mem p).bytes := by
  obtain ⟨⟨h0, h1⟩, hck, rfl⟩ := frameItem_eq_some.mp h
  have hself := setPayloadLen_self mem p
  have h4 : mem (p + 4) = UInt8.ofNat (payloadLen mem p) := by
    have := congrFun hself (p + 4)
    simpa [setPayloadLen] using this.symm
  have h5 : mem (p + 5) = UInt8.ofNat (payloadLen mem p / 256) := by
    have := congrFun hself (p + 5)
    simpa [setPayloadLen] using this.symm
  have hbody : slice mem (p + 2) (4 + payloadLen mem p) = (frameAt mem p).body := by
    rw [slice_add]
    simp only [slice, UbxFrame.body, frameAt, getUbxMsgClass, getUbxMsgId, List.length_map,
      List.length_range, ← h4, ← h5]
    rfl
  rw [show 8 + payloadLen mem p = 2 + (4 + payloadLen mem p) + 2 by omega, slice_add, slice_add,
    hbody, UbxFrame.bytes, ← hbody, ← hck, hbody, show p + (2 + (4 + payloadLen mem p))
      = p + 6 + payloadLen mem p by omega, ← h0, ← h1]
  simp only [slice, List.range_succ, List.range_zero, List.nil_append, List.map_cons, List.map_nil,
    Nat.add_zero, List.cons_append]
  rw [show p + 6 + payloadLen mem p + 1 = p + 7 + payloadLen mem p by omega]

end UbloxRead
