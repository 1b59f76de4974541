/-
UbloxRead.UbxReadsTheorems — when the handlers of `ubx-parse.c` stay inside the
payload.

`run_huiAccess` and its two siblings say that the access-by-access handlers compute
the handlers, and what they touch; `readsOnlyPayload_iff` compares that with the
payload. `decidedByFrame_iff` is about two runs: whether memories that agree on the
frame give the same data. One direction is that the bytes that decide are in the
frame (`aidHui_congr` and its siblings, by the layouts of `GpsTheorems`); for the
other a byte behind the frame is changed that shows in the data (`announced_iff`,
for the two handlers that read on when a word announces more). `handlerReads_iff`
puts the two together.
-/
import UbloxRead.UbxReads
import UbloxRead.UbxParseTheorems

namespace UbloxRead

open Lib

/-! ## Members -/

@[simp] theorem run_leBytesAccess (p n : Nat) (mem : Mem) :
    (leBytesAccess p n).run mem = ⟨leBytes mem p n, mem, List.range' p n⟩ := by
  induction n generalizing p with
  | zero => rfl
  | succ n ih => simp [leBytesAccess, leBytes, ih, List.range'_succ]

@[simp] theorem run_uint32Access (p : Nat) (mem : Mem) :
    (uint32Access p).run mem = ⟨uint32At mem p, mem, List.range' p 4⟩ := by
  simp [uint32Access, uint32At]

@[simp] theorem run_int32Access (p : Nat) (mem : Mem) :
    (int32Access p).run mem = ⟨int32At mem p, mem, List.range' p 4⟩ := by
  simp [int32Access, int32At]

@[simp] theorem run_int16Access (p : Nat) (mem : Mem) :
    (int16Access p).run mem = ⟨int16At mem p, mem, List.range' p 2⟩ := by
  simp [int16Access, int16At]

@[simp] theorem run_floatAccess (p : Nat) (mem : Mem) :
    (floatAccess p).run mem = ⟨floatAt mem p, mem, List.range' p 4⟩ := by
  simp [floatAccess, floatAt]

@[simp] theorem run_doubleAccess (p : Nat) (mem : Mem) :
    (doubleAccess p).run mem = ⟨doubleAt mem p, mem, List.range' p 8⟩ := by
  simp [doubleAccess, doubleAt]

@[simp] theorem run_wordsAccess (p n : Nat) (mem : Mem) :
    (wordsAccess p n).run mem
      = ⟨fun i => if i < n then wordsAt mem p i else 0#32, mem, List.range' p (4 * n)⟩ := by
  induction n generalizing p with
  | zero => simp [wordsAccess]
  | succ n ih =>
    have hwords : (fun i => if i = 0 then uint32At mem p
        else if i - 1 < n then wordsAt mem (p + 4) (i - 1) else 0#32)
          = fun i => if i < n + 1 then wordsAt mem p i else 0#32 := by
      funext i
      cases i with
      | zero => rfl
      | succ i =>
        simp only [Nat.succ_ne_zero, if_false, Nat.add_sub_cancel, Nat.add_lt_add_iff_right,
          wordsAt, Nat.mul_add, Nat.mul_one, Nat.add_assoc, Nat.add_comm 4]
    have hrange : List.range' p (4 * (n + 1)) = List.range' p 4 ++ List.range' (p + 4) (4 * n) := by
      rw [List.range'_append_1, Nat.mul_add, Nat.mul_one, Nat.add_comm]
    simp only [wordsAccess, Access.run_bind, run_uint32Access, ih, Access.run_pure, hwords, hrange,
      List.append_nil]

/-! ## The handlers -/

/-- The bytes `_ubx_msg_parse_aid_hui` reads, in order. -/
def huiTouched (mem : Mem) (pl : Nat) : List Nat :=
  let flags := uint32At mem (pl + 68)
  List.range' (pl + 68) 4 ++
    (if flags &&& 0x2#32 ≠ 0#32 then
      List.range' (pl + 12) 8 ++ List.range' (pl + 4) 8 ++ List.range' (pl + 26) 2 ++
        List.range' (pl + 20) 4 ++ List.range' (pl + 24) 2 ++ List.range' (pl + 28) 2 ++
        List.range' (pl + 30) 2 ++ List.range' (pl + 32) 2
    else []) ++
    List.range' (pl + 68) 4 ++
    if flags &&& 0x04#32 ≠ 0#32 then
      List.range' (pl + 36) 4 ++ List.range' (pl + 40) 4 ++ List.range' (pl + 44) 4 ++
        List.range' (pl + 48) 4 ++ List.range' (pl + 52) 4 ++ List.range' (pl + 56) 4 ++
        List.range' (pl + 60) 4 ++ List.range' (pl + 64) 4
    else []

/-- The bytes `_ubx_msg_parse_aid_alm` reads. -/
def almTouched (mem : Mem) (pl : Nat) : List Nat :=
  List.range' (pl + 4) 4 ++
    if uint32At mem (pl + 4) ≠ 0#32 then List.range' (pl + 4) 4 ++ List.range' (pl + 8) 32 else []

/-- The bytes `_ubx_msg_parse_aid_eph` reads. -/
def ephTouched (mem : Mem) (pl : Nat) : List Nat :=
  List.range' (pl + 4) 4 ++
    if uint32At mem (pl + 4) ≠ 0#32 then List.range' pl 4 ++ List.range' (pl + 8) 96 else []

/-- **The accesses compute `_ubx_msg_parse_aid_hui`.** -/
theorem run_huiAccess (fp : FixedPoint) (mem : Mem) (hdr pl len : Nat) (gps : GpsAssistData) :
    (ubxMsgParseAidHuiAccess fp hdr pl len gps).run mem
      = ⟨ubxMsgParseAidHui fp mem hdr pl len gps, mem, huiTouched mem pl⟩ := by
  unfold ubxMsgParseAidHuiAccess huiUtcAccess huiIonosphereAccess ubxMsgParseAidHui huiTouched
  by_cases hutc : uint32At mem (pl + 68) &&& 0x2#32 = 0#32
  · by_cases hiono : uint32At mem (pl + 68) &&& 0x04#32 = 0#32
    · simp [hutc, hiono]
    · simp [hutc, hiono, -List.range'_append_1]
  · by_cases hiono : uint32At mem (pl + 68) &&& 0x04#32 = 0#32
    · simp [hutc, hiono, -List.range'_append_1]
    · simp [hutc, hiono, -List.range'_append_1]

theorem run_almAccess (mem : Mem) (hdr pl len : Nat) (gps : GpsAssistData) :
    (ubxMsgParseAidAlmAccess hdr pl len gps).run mem
      = ⟨ubxMsgParseAidAlm mem hdr pl len gps, mem, almTouched mem pl⟩ := by
  have hunpack : ∀ alm, gpsUnpackSf45Almanac
      (fun i => if i < 8 then wordsAt mem (pl + 8) i else 0#32) alm
        = gpsUnpackSf45Almanac (wordsAt mem (pl + 8)) alm := fun _ => rfl
  unfold ubxMsgParseAidAlmAccess ubxMsgParseAidAlm almTouched
  by_cases hweek : uint32At mem (pl + 4) = 0#32
  · simp [hweek]
  · simp [hweek, hunpack]

theorem run_ephAccess (mem : Mem) (hdr pl len : Nat) (gps : GpsAssistData) :
    (ubxMsgParseAidEphAccess hdr pl len gps).run mem
      = ⟨ubxMsgParseAidEph mem hdr pl len gps, mem, ephTouched mem pl⟩ := by
  have hunpack : ∀ eph, gpsUnpackSf123
      (fun i => if i < 24 then wordsAt mem (pl + 8) i else 0#32) eph
        = gpsUnpackSf123 (wordsAt mem (pl + 8)) eph := fun _ => rfl
  unfold ubxMsgParseAidEphAccess ubxMsgParseAidEph ephTouched
  by_cases hpresent : uint32At mem (pl + 4) = 0#32
  · simp [hpresent]
  · simp [hpresent, hunpack]

/-! ## Dispatching -/

/-- A table with the five entries of `ubx_parse_dt`, searched. -/
theorem ubxFindHandler_five {H : Type} (posllh ini hui alm eph : H) (msgClass msgId : UInt8) :
    ubxFindHandler
        [⟨UBX_CLASS_NAV, UBX_NAV_POSLLH, some posllh⟩, ⟨UBX_CLASS_AID, UBX_AID_INI, some ini⟩,
          ⟨UBX_CLASS_AID, UBX_AID_HUI, some hui⟩, ⟨UBX_CLASS_AID, UBX_AID_ALM, some alm⟩,
          ⟨UBX_CLASS_AID, UBX_AID_EPH, some eph⟩] msgClass msgId =
      if UBX_CLASS_NAV = msgClass ∧ UBX_NAV_POSLLH = msgId then some (some posllh)
      else if UBX_CLASS_AID = msgClass ∧ UBX_AID_INI = msgId then some (some ini)
      else if UBX_CLASS_AID = msgClass ∧ UBX_AID_HUI = msgId then some (some hui)
      else if UBX_CLASS_AID = msgClass ∧ UBX_AID_ALM = msgId then some (some alm)
      else if UBX_CLASS_AID = msgClass ∧ UBX_AID_EPH = msgId then some (some eph)
      else none := rfl

/-- The data after a frame that stands in memory. -/
theorem dispatchedData_eq (fp : FixedPoint) {mem : Mem} {msg : Nat} {cls id : UInt8}
    (hsync : SyncAt mem msg) (hck : ChecksumAt mem msg) (hcls : getUbxMsgClass mem msg = cls)
    (hid : getUbxMsgId mem msg = id) (len : Int) (gps : GpsAssistData) :
    dispatchedData fp mem msg len gps =
      if UBX_CLASS_NAV = cls ∧ UBX_NAV_POSLLH = id then some gps
      else if UBX_CLASS_AID = cls ∧ UBX_AID_INI = id then some gps
      else if UBX_CLASS_AID = cls ∧ UBX_AID_HUI = id then
        ubxMsgParseAidHui fp mem msg (msg + 6) (payloadLen mem msg) gps
      else if UBX_CLASS_AID = cls ∧ UBX_AID_ALM = id then
        ubxMsgParseAidAlm mem msg (msg + 6) (payloadLen mem msg) gps
      else if UBX_CLASS_AID = cls ∧ UBX_AID_EPH = id then
        ubxMsgParseAidEph mem msg (msg + 6) (payloadLen mem msg) gps
      else none := by
  rw [dispatchedData, ubxMsgDispatch_of_valid _ hsync hck, ubxParseDt, ubxFindHandler_five, hcls, hid]
  split_ifs <;> rfl

/-- The bytes touched for it. -/
theorem handlerTouched_eq (fp : FixedPoint) (f : AcceptedFrame) (gps : GpsAssistData) :
    handlerTouched fp f.mem f.ptr f.left gps =
      if UBX_CLASS_NAV = f.msgClass ∧ UBX_NAV_POSLLH = f.msgId then []
      else if UBX_CLASS_AID = f.msgClass ∧ UBX_AID_INI = f.msgId then []
      else if UBX_CLASS_AID = f.msgClass ∧ UBX_AID_HUI = f.msgId then huiTouched f.mem f.payload
      else if UBX_CLASS_AID = f.msgClass ∧ UBX_AID_ALM = f.msgId then almTouched f.mem f.payload
      else if UBX_CLASS_AID = f.msgClass ∧ UBX_AID_EPH = f.msgId then ephTouched f.mem f.payload
      else [] := by
  rw [handlerTouched, ubxMsgDispatch_of_valid _ f.syncAt f.checksumAt, ubxParseDtAccess,
    ubxFindHandler_five, AcceptedFrame.msgClass, AcceptedFrame.msgId]
  split_ifs
  · rfl
  · rfl
  · simp only [Option.map_some, run_huiAccess, AcceptedFrame.payload]
  · simp only [Option.map_some, run_almAccess, AcceptedFrame.payload]
  · simp only [Option.map_some, run_ephAccess, AcceptedFrame.payload]
  · rfl

/-- It is what the dispatcher of `UbxParse` does to the data. -/
theorem dispatchedData_eq_step (fp : FixedPoint) (f : AcceptedFrame) (gps : GpsAssistData) :
    dispatchedData fp f.mem f.ptr f.left gps
      = (assistMachine (ubxParseDt fp) gps f).map Prod.fst := by
  unfold dispatchedData assistMachine
  rcases ubxMsgDispatch (ubxParseDt fp) f.mem f.ptr f.left with _ | ⟨ret, _ | call⟩
  · rfl
  · rfl
  · simp only [Option.map_map, Function.comp_def, Option.map_id']

/-! ## The bytes touched -/

/-- A range of bytes lies in a payload. -/
theorem range'_inside (p n a len : Nat) (hn : 0 < n) (ha : a ≤ p) :
    (∀ o ∈ List.range' p n, a ≤ o ∧ o < a + len) ↔ p + n ≤ a + len := by
  simp only [List.mem_range'_1]
  constructor
  · intro h
    have := (h (p + n - 1) (by omega)).2
    omega
  · intro h o ho
    omega

theorem huiTouched_inside_iff (mem : Mem) (pl len : Nat) :
    (∀ o ∈ huiTouched mem pl, pl ≤ o ∧ o < pl + len) ↔ 72 ≤ len := by
  constructor
  · intro h
    have := (h (pl + 71) (by simp [huiTouched])).2
    omega
  · intro hlen o ho
    unfold huiTouched at ho
    dsimp only at ho
    split_ifs at ho <;>
      simp only [List.mem_append, List.mem_range'_1, List.not_mem_nil, or_false] at ho <;> omega

theorem almTouched_inside_iff (mem : Mem) (pl len : Nat) :
    (∀ o ∈ almTouched mem pl, pl ≤ o ∧ o < pl + len) ↔
      8 ≤ len ∧ (uint32At mem (pl + 4) ≠ 0#32 → 40 ≤ len) := by
  unfold almTouched
  by_cases hweek : uint32At mem (pl + 4) = 0#32
  · simp only [hweek, ne_eq, not_true, if_false, List.append_nil, false_implies, and_true]
    rw [range'_inside _ _ _ _ (by omega) (by omega)]
    omega
  · simp only [hweek, ne_eq, not_false_eq_true, if_true, List.forall_mem_append, true_implies]
    rw [range'_inside _ _ _ _ (by omega) (by omega), range'_inside _ _ _ _ (by omega) (by omega)]
    omega

theorem ephTouched_inside_iff (mem : Mem) (pl len : Nat) :
    (∀ o ∈ ephTouched mem pl, pl ≤ o ∧ o < pl + len) ↔
      8 ≤ len ∧ (uint32At mem (pl + 4) ≠ 0#32 → 104 ≤ len) := by
  unfold ephTouched
  by_cases hpresent : uint32At mem (pl + 4) = 0#32
  · simp only [hpresent, ne_eq, not_true, if_false, List.append_nil, false_implies, and_true]
    rw [range'_inside _ _ _ _ (by omega) (by omega)]
    omega
  · simp only [hpresent, ne_eq, not_false_eq_true, if_true, List.forall_mem_append, true_implies]
    rw [range'_inside _ _ _ _ (by omega) (by omega), range'_inside _ _ _ _ (by omega) (by omega),
      range'_inside _ _ _ _ (by omega) (by omega)]
    omega

/-! ## Kinds of frames -/

namespace AcceptedFrame

variable {f : AcceptedFrame} {hui short alm eph : Nat}

/-- The frame goes to the handler of AID-HUI, of AID-ALM or of AID-EPH. -/
def IsKind (f : AcceptedFrame) (id : UInt8) : Prop := f.msgClass = UBX_CLASS_AID ∧ f.msgId = id

theorem hasBytes_hui (h : f.IsKind UBX_AID_HUI) :
    f.HasBytes hui short alm eph ↔ hui ≤ f.payloadLen := by
  have halm : UBX_AID_HUI ≠ UBX_AID_ALM := by decide
  have heph : UBX_AID_HUI ≠ UBX_AID_EPH := by decide
  simp only [HasBytes, h.1, h.2, halm, heph, true_implies, false_implies, and_true]

theorem hasBytes_alm (h : f.IsKind UBX_AID_ALM) :
    f.HasBytes hui short alm eph ↔
      short ≤ f.payloadLen ∧
        (uint32At f.mem (f.payload + 4) ≠ 0#32 → alm ≤ f.payloadLen) := by
  have hhui : UBX_AID_ALM ≠ UBX_AID_HUI := by decide
  have heph : UBX_AID_ALM ≠ UBX_AID_EPH := by decide
  simp only [HasBytes, StoresAlmanac, h.1, h.2, hhui, heph, true_implies, false_implies, true_and,
    and_true]

theorem hasBytes_eph (h : f.IsKind UBX_AID_EPH) :
    f.HasBytes hui short alm eph ↔
      short ≤ f.payloadLen ∧
        (uint32At f.mem (f.payload + 4) ≠ 0#32 → eph ≤ f.payloadLen) := by
  have hhui : UBX_AID_EPH ≠ UBX_AID_HUI := by decide
  have halm : UBX_AID_EPH ≠ UBX_AID_ALM := by decide
  simp only [HasBytes, StoresEphemeris, h.1, h.2, hhui, halm, true_implies, false_implies, true_and]

theorem hasBytes_other (h : ¬ f.IsKind UBX_AID_HUI) (h' : ¬ f.IsKind UBX_AID_ALM)
    (h'' : ¬ f.IsKind UBX_AID_EPH) : f.HasBytes hui short alm eph := by
  intro hcls
  exact ⟨fun hid => absurd ⟨hcls, hid⟩ h, fun hid => absurd ⟨hcls, hid⟩ h',
    fun hid => absurd ⟨hcls, hid⟩ h''⟩

theorem handlerTouched_hui (fp : FixedPoint) (gps : GpsAssistData) (h : f.IsKind UBX_AID_HUI) :
    handlerTouched fp f.mem f.ptr f.left gps = huiTouched f.mem f.payload := by
  rw [handlerTouched_eq, h.1, h.2]
  rfl

theorem handlerTouched_alm (fp : FixedPoint) (gps : GpsAssistData) (h : f.IsKind UBX_AID_ALM) :
    handlerTouched fp f.mem f.ptr f.left gps = almTouched f.mem f.payload := by
  rw [handlerTouched_eq, h.1, h.2]
  rfl

theorem handlerTouched_eph (fp : FixedPoint) (gps : GpsAssistData) (h : f.IsKind UBX_AID_EPH) :
    handlerTouched fp f.mem f.ptr f.left gps = ephTouched f.mem f.payload := by
  rw [handlerTouched_eq, h.1, h.2]
  rfl

theorem handlerTouched_other (fp : FixedPoint) (gps : GpsAssistData)
    (h : ¬ f.IsKind UBX_AID_HUI) (h' : ¬ f.IsKind UBX_AID_ALM) (h'' : ¬ f.IsKind UBX_AID_EPH) :
    handlerTouched fp f.mem f.ptr f.left gps = [] := by
  rw [handlerTouched_eq]
  split_ifs with _ _ hhui halm heph
  · rfl
  · rfl
  · exact absurd ⟨hhui.1.symm, hhui.2.symm⟩ h
  · exact absurd ⟨halm.1.symm, halm.2.symm⟩ h'
  · exact absurd ⟨heph.1.symm, heph.2.symm⟩ h''
  · rfl

/-- **The handlers read only the payload exactly when** it is as long as the part of
the structure that they look at. -/
theorem readsOnlyPayload_iff (fp : FixedPoint) (f : AcceptedFrame) :
    f.ReadsOnlyPayload fp ↔ f.HasBytes 72 8 40 104 := by
  have hgps : ∀ P : Prop, (∀ _ : GpsAssistData, P) ↔ P := fun P => ⟨fun h => h .zero, fun h _ => h⟩
  unfold ReadsOnlyPayload
  by_cases hhui : f.IsKind UBX_AID_HUI
  · rw [hasBytes_hui hhui, ← huiTouched_inside_iff f.mem f.payload]
    simp only [handlerTouched_hui fp _ hhui, hgps]
  by_cases halm : f.IsKind UBX_AID_ALM
  · rw [hasBytes_alm halm, ← almTouched_inside_iff]
    simp only [handlerTouched_alm fp _ halm, hgps]
  by_cases heph : f.IsKind UBX_AID_EPH
  · rw [hasBytes_eph heph, ← ephTouched_inside_iff]
    simp only [handlerTouched_eph fp _ heph, hgps]
  · refine iff_of_true (fun gps o ho => ?_) (hasBytes_other hhui halm heph)
    rw [handlerTouched_other fp gps hhui halm heph] at ho
    cases ho

end AcceptedFrame

/-! ## Bytes that decide -/

theorem leBytes_congr {mem mem' : Mem} {p n : Nat} (h : ∀ k, k < n → mem' (p + k) = mem (p + k)) :
    leBytes mem' p n = leBytes mem p n := by
  induction n generalizing p with
  | zero => rfl
  | succ n ih =>
    have hrest : leBytes mem' (p + 1) n = leBytes mem (p + 1) n := by
      refine ih fun k hk => ?_
      rw [Nat.add_assoc, Nat.add_comm 1 k]
      exact h (k + 1) (by omega)
    rw [leBytes, leBytes, hrest, show mem' p = mem p from h 0 (Nat.succ_pos n)]

/-- A bit of the number is a bit of one of its bytes. -/
theorem testBit_leBytes (mem : Mem) {p n j : Nat} (hj : j < 8 * n) :
    (leBytes mem p n).testBit j = (mem (p + j / 8)).toNat.testBit (j % 8) := by
  induction n generalizing p j with
  | zero => omega
  | succ n ih =>
    have hsplit := Nat.testBit_two_pow_mul_add (leBytes mem (p + 1) n) (mem p).toNat_lt j
    rw [leBytes, Nat.add_comm, hsplit]
    split
    · next hlt => rw [Nat.div_eq_of_lt hlt, Nat.mod_eq_of_lt hlt, Nat.add_zero]
    · next hge =>
      have hdiv : p + 1 + (j - 8) / 8 = p + j / 8 := by omega
      rw [ih (by omega), hdiv, show (j - 8) % 8 = j % 8 by omega]

theorem getLsbD_uint32At (mem : Mem) (p : Nat) {j : Nat} (hj : j < 32) :
    (uint32At mem p).getLsbD j = (mem (p + j / 8)).toNat.testBit (j % 8) := by
  rw [uint32At, BitVec.getLsbD_ofNat, decide_eq_true hj, Bool.true_and]
  exact testBit_leBytes mem hj

theorem getLsbD_wordsAt (mem : Mem) (p i : Nat) {j : Nat} (hj : j < 32) :
    (wordsAt mem p i).getLsbD j = (mem (p + (4 * i + j / 8))).toNat.testBit (j % 8) := by
  rw [wordsAt, getLsbD_uint32At mem _ hj, Nat.add_assoc]

/-- A flag in the low byte of a word. -/
theorem flag_iff (mem : Mem) (p : Nat) {j : Nat} (hj : j < 8) :
    uint32At mem p &&& BitVec.twoPow 32 j ≠ 0#32 ↔ (mem p).toNat.testBit j = true := by
  have hbit := getLsbD_uint32At mem p (show j < 32 by omega)
  rw [Nat.div_eq_of_lt hj, Nat.mod_eq_of_lt hj, Nat.add_zero] at hbit
  rw [BitVec.and_twoPow, hbit]
  cases (mem p).toNat.testBit j with
  | false => simp
  | true =>
    refine iff_of_true (fun hzero => ?_) rfl
    have := congrArg BitVec.toNat hzero
    rw [if_pos rfl, BitVec.toNat_twoPow_of_lt (by omega)] at this
    exact absurd this (Nat.two_pow_pos j).ne'

/-- The values of a layout whose bits all lie in the first `n` bytes. -/
theorem map_value_wordsAt_congr {layout : List BitField} {n : Nat}
    (hin : ∀ p ∈ layout.flatMap BitField.pieces, ∀ k, k < p.width →
      p.pos + k < 32 ∧ 4 * p.word + (p.pos + k) / 8 < n)
    {mem mem' : Mem} {pl : Nat} (h : ∀ k, k < n → mem' (pl + k) = mem (pl + k)) :
    layout.map (·.value (wordsAt mem' pl)) = layout.map (·.value (wordsAt mem pl)) := by
  rw [map_value_congr_iff]
  intro p hp k hk
  obtain ⟨hbit, hbyte⟩ := hin p hp k hk
  rw [getLsbD_wordsAt _ _ _ hbit, getLsbD_wordsAt _ _ _ hbit, h _ hbyte]

/-- A changed bit under a layout changes its values. -/
theorem map_value_wordsAt_ne {layout : List BitField} {p : Piece}
    (hp : p ∈ layout.flatMap BitField.pieces) {k : Nat} (hk : k < p.width) (hbit : p.pos + k < 32)
    {mem mem' : Mem} {pl : Nat}
    (hne : (mem' (pl + (4 * p.word + (p.pos + k) / 8))).toNat.testBit ((p.pos + k) % 8)
      ≠ (mem (pl + (4 * p.word + (p.pos + k) / 8))).toNat.testBit ((p.pos + k) % 8)) :
    layout.map (·.value (wordsAt mem' pl)) ≠ layout.map (·.value (wordsAt mem pl)) := by
  rw [Ne, map_value_congr_iff]
  intro hsame
  have := hsame p hp k hk
  rw [getLsbD_wordsAt _ _ _ hbit, getLsbD_wordsAt _ _ _ hbit] at this
  exact hne this

/-! ## What the handlers make of them -/

/-- AID-HUI: the first 69 bytes decide. -/
theorem aidHui_congr (fp : FixedPoint) {mem mem' : Mem} {pl : Nat}
    (h : ∀ k, k < 69 → mem' (pl + k) = mem (pl + k)) (hdr len : Nat) (gps : GpsAssistData) :
    ubxMsgParseAidHui fp mem' hdr pl len gps = ubxMsgParseAidHui fp mem hdr pl len gps := by
  have hflag : ∀ j, j < 8 → (uint32At mem' (pl + 68) &&& BitVec.twoPow 32 j ≠ 0#32 ↔
      uint32At mem (pl + 68) &&& BitVec.twoPow 32 j ≠ 0#32) := by
    intro j hj
    rw [flag_iff _ _ hj, flag_iff _ _ hj, h 68 (by omega)]
  have hutc : (uint32At mem' (pl + 68) &&& 0x2#32 ≠ 0#32) = (uint32At mem (pl + 68) &&& 0x2#32 ≠ 0#32) :=
    propext (hflag 1 (by omega))
  have hiono : (uint32At mem' (pl + 68) &&& 0x04#32 ≠ 0#32)
      = (uint32At mem (pl + 68) &&& 0x04#32 ≠ 0#32) := propext (hflag 2 (by omega))
  have hbytes : ∀ k n, k + n ≤ 68 → leBytes mem' (pl + k) n = leBytes mem (pl + k) n := by
    intro k n hk
    refine leBytes_congr fun i hi => ?_
    rw [Nat.add_assoc]
    exact h (k + i) (by omega)
  simp (disch := decide) only [ubxMsgParseAidHui, hutc, hiono, doubleAt, floatAt, int16At, int32At,
    hbytes]

/-- AID-ALM: the first 8 bytes decide, and the first 39 when there is a week. -/
theorem aidAlm_congr {mem mem' : Mem} {pl : Nat}
    (h : ∀ k, k < 8 → mem' (pl + k) = mem (pl + k))
    (hrest : uint32At mem (pl + 4) ≠ 0#32 → ∀ k, k < 39 → mem' (pl + k) = mem (pl + k))
    (hdr len : Nat) (gps : GpsAssistData) :
    ubxMsgParseAidAlm mem' hdr pl len gps = ubxMsgParseAidAlm mem hdr pl len gps := by
  have hweek : uint32At mem' (pl + 4) = uint32At mem (pl + 4) := by
    refine congrArg (BitVec.ofNat 32) (leBytes_congr fun k hk => ?_)
    rw [Nat.add_assoc]
    exact h (4 + k) (by omega)
  simp only [ubxMsgParseAidAlm, hweek]
  by_cases hzero : uint32At mem (pl + 4) = 0#32
  · simp only [hzero, ne_eq, not_true, if_false]
  · have hwords : ∀ alm, (gpsUnpackSf45Almanac (wordsAt mem' (pl + 8)) alm).2
        = (gpsUnpackSf45Almanac (wordsAt mem (pl + 8)) alm).2 := by
      intro alm
      refine GpsAlmanacSv.ext_members ?_
      rw [members_unpackSf45, members_unpackSf45]
      refine map_value_wordsAt_congr (n := 31) (by decide +kernel) fun k hk => ?_
      rw [Nat.add_assoc]
      exact hrest hzero (8 + k) (by omega)
    simp only [hwords]

/-- AID-EPH: the first 8 bytes decide, and the first 102 when it is present. -/
theorem aidEph_congr {mem mem' : Mem} {pl : Nat}
    (h : ∀ k, k < 8 → mem' (pl + k) = mem (pl + k))
    (hrest : uint32At mem (pl + 4) ≠ 0#32 → ∀ k, k < 102 → mem' (pl + k) = mem (pl + k))
    (hdr len : Nat) (gps : GpsAssistData) :
    ubxMsgParseAidEph mem' hdr pl len gps = ubxMsgParseAidEph mem hdr pl len gps := by
  have hpresent : uint32At mem' (pl + 4) = uint32At mem (pl + 4) := by
    refine congrArg (BitVec.ofNat 32) (leBytes_congr fun k hk => ?_)
    rw [Nat.add_assoc]
    exact h (4 + k) (by omega)
  have hsv : uint32At mem' pl = uint32At mem pl :=
    congrArg (BitVec.ofNat 32) (leBytes_congr fun k hk => h k (by omega))
  simp only [ubxMsgParseAidEph, hpresent, hsv]
  by_cases hzero : uint32At mem (pl + 4) = 0#32
  · simp only [hzero, ne_eq, not_true, if_false]
  · have hwords : ∀ eph, (gpsUnpackSf123 (wordsAt mem' (pl + 8)) eph).2
        = (gpsUnpackSf123 (wordsAt mem (pl + 8)) eph).2 := by
      intro eph
      refine GpsEphemerisSv.ext_members ?_ ?_
      · rw [unpackSf123_svId, unpackSf123_svId]
      · rw [members_unpackSf123, members_unpackSf123]
        refine map_value_wordsAt_congr (n := 94) (by decide +kernel) fun k hk => ?_
        rw [Nat.add_assoc]
        exact hrest hzero (8 + k) (by omega)
    simp only [hwords]

/-- The UTC field bit is the flag. -/
theorem aidHui_utcBit (fp : FixedPoint) (mem : Mem) (hdr pl len : Nat) :
    (ubxMsgParseAidHui fp mem hdr pl len .zero).map (·.fields.getLsbD 1)
      = some ((mem (pl + 68)).toNat.testBit 1) := by
  have hutc := flag_iff mem (pl + 68) (show 1 < 8 by omega)
  rw [show BitVec.twoPow 32 1 = 0x2#32 from rfl] at hutc
  unfold ubxMsgParseAidHui
  cases hbit : (mem (pl + 68)).toNat.testBit 1 with
  | false =>
    rw [hbit] at hutc
    simp only [hutc, Bool.false_eq_true, if_false, Option.map_some]
    split_ifs <;> simp [GpsAssistData.zero, GPS_FIELD_IONOSPHERE]
  | true =>
    rw [hbit] at hutc
    simp only [hutc, if_true, Option.map_some]
    split_ifs <;> simp [GpsAssistData.zero, GPS_FIELD_UTC, GPS_FIELD_IONOSPHERE]

/-- The almanac counts a frame with a week. -/
theorem aidAlm_count (mem : Mem) (hdr pl len : Nat) :
    (ubxMsgParseAidAlm mem hdr pl len .zero).map (·.almanac.nSv)
      = some (if uint32At mem (pl + 4) = 0#32 then 0 else 1) := by
  unfold ubxMsgParseAidAlm
  by_cases hzero : uint32At mem (pl + 4) = 0#32
  · simp [hzero, GpsAssistData.zero]
  · simp [hzero, GpsAssistData.zero, MAX_SV]

theorem aidAlm_entry {mem : Mem} {pl : Nat} (hweek : uint32At mem (pl + 4) ≠ 0#32) (hdr len : Nat) :
    (ubxMsgParseAidAlm mem hdr pl len .zero).map (fun gps => (gps.almanac.svs ⟨0, by decide⟩).members)
      = some (almanacLayout.map (·.value (wordsAt mem (pl + 8)))) := by
  have hroom : 0 < MAX_SV := by decide
  rw [← members_unpackSf45 _ .zero]
  simp [ubxMsgParseAidAlm, hweek, GpsAssistData.zero, hroom]

/-- The ephemeris counts a frame that is present. -/
theorem aidEph_count (mem : Mem) (hdr pl len : Nat) :
    (ubxMsgParseAidEph mem hdr pl len .zero).map (·.ephemeris.nSv)
      = some (if uint32At mem (pl + 4) = 0#32 then 0 else 1) := by
  unfold ubxMsgParseAidEph
  by_cases hzero : uint32At mem (pl + 4) = 0#32
  · simp [hzero, GpsAssistData.zero]
  · simp [hzero, GpsAssistData.zero, MAX_SV]

theorem aidEph_entry {mem : Mem} {pl : Nat} (hpresent : uint32At mem (pl + 4) ≠ 0#32)
    (hdr len : Nat) :
    (ubxMsgParseAidEph mem hdr pl len .zero).map (fun gps => (gps.ephemeris.svs ⟨0, by decide⟩).members)
      = some (ephemerisLayout.map (·.value (wordsAt mem (pl + 8)))) := by
  have hroom : 0 < MAX_SV := by decide
  rw [← members_unpackSf123 _ { GpsEphemerisSv.zero with svId := (uint32At mem pl).toInt }]
  simp [ubxMsgParseAidEph, hpresent, GpsAssistData.zero, hroom]

/-! ## The two-run law -/

/-- The memory holds the bytes of the frame where it stands. -/
def AcceptedFrame.SameIn (f : AcceptedFrame) (mem : Mem) : Prop :=
  ∀ o, f.ptr ≤ o → o < f.ptr + 8 + f.payloadLen → mem o = f.mem o

namespace AcceptedFrame

variable {f : AcceptedFrame} {mem : Mem}

/-- The frame is valid there too. -/
theorem SameIn.valid (h : f.SameIn mem) :
    SyncAt mem f.ptr ∧ ChecksumAt mem f.ptr ∧ getUbxMsgClass mem f.ptr = f.msgClass ∧
      getUbxMsgId mem f.ptr = f.msgId ∧ UbloxRead.payloadLen mem f.ptr = f.payloadLen := by
  have hitem : frameItem f.mem f.ptr = some (8 + f.payloadLen) :=
    frameItem_eq_some.mpr ⟨f.syncAt, f.checksumAt, rfl⟩
  have hslice : slice f.mem f.ptr (8 + f.payloadLen) = slice mem f.ptr (8 + f.payloadLen) :=
    slice_congr fun k hk => (h _ (by omega) (by omega)).symm
  obtain ⟨hsync, hck, hlen⟩ := frameItem_eq_some.mp (frameItem_congr hslice hitem)
  exact ⟨hsync, hck, h _ (by omega) (by omega), h _ (by omega) (by omega), by omega⟩

/-- A byte behind the frame may be anything. -/
theorem sameIn_update {k : Nat} (hk : f.payloadLen + 2 ≤ k) (b : UInt8) :
    f.SameIn (Function.update f.mem (f.payload + k) b) := by
  intro o _ hlt
  refine Function.update_of_ne ?_ ..
  unfold payload
  omega

theorem SameIn.payload_eq (h : f.SameIn mem) {k : Nat} (hk : k < f.payloadLen + 2) :
    mem (f.payload + k) = f.mem (f.payload + k) := by
  unfold payload
  exact h _ (by omega) (by omega)

/-- Flipping a bit of a byte. -/
theorem testBit_xor_flip (b c : UInt8) {j : Nat} (hc : c.toNat.testBit j = true) :
    (b ^^^ c).toNat.testBit j ≠ b.toNat.testBit j := by
  rw [UInt8.toNat_xor, Nat.testBit_xor, hc]
  cases b.toNat.testBit j <;> simp

/-- The word that announces the rest does not stand there. -/
theorem uint32At_update {p k : Nat} (hk : k < p ∨ p + 4 ≤ k) (b : UInt8) :
    uint32At (Function.update mem k b) p = uint32At mem p :=
  congrArg (BitVec.ofNat 32) (leBytes_congr fun _ _ => Function.update_of_ne (by omega) ..)

theorem uint32At_update_ne_zero {p : Nat} :
    uint32At (Function.update mem (p + 3) 1) p ≠ 0#32 := by
  intro hzero
  have hbit := getLsbD_uint32At (Function.update mem (p + 3) 1) p (show 24 < 32 by omega)
  rw [hzero, show p + 24 / 8 = p + 3 from rfl, Function.update_self] at hbit
  exact absurd hbit (by decide)

/-- **A handler that reads on when a word announces more**: what it makes of a frame
is decided by the first 8 bytes of its payload and, when the word is not 0, by the
first `n + 2`. The last of those is among them. -/
theorem announced_iff {handler : UbxMsgHandler} {n : Nat} {layout : List BitField} {p : Piece}
    {j : Nat} (hn : 8 ≤ n)
    (hcongr : ∀ {mem mem' : Mem} {pl : Nat}, (∀ k, k < 8 → mem' (pl + k) = mem (pl + k)) →
      (uint32At mem (pl + 4) ≠ 0#32 → ∀ k, k < n + 2 → mem' (pl + k) = mem (pl + k)) →
      ∀ hdr len gps, handler mem' hdr pl len gps = handler mem hdr pl len gps)
    (count : GpsAssistData → Nat)
    (hcount : ∀ mem hdr pl len, (handler mem hdr pl len .zero).map count
      = some (if uint32At mem (pl + 4) = 0#32 then 0 else 1))
    (entry : GpsAssistData → List Int)
    (hentry : ∀ {mem : Mem} {pl : Nat}, uint32At mem (pl + 4) ≠ 0#32 → ∀ hdr len,
      (handler mem hdr pl len .zero).map entry = some (layout.map (·.value (wordsAt mem (pl + 8)))))
    (hp : p ∈ layout.flatMap BitField.pieces) (hj : j < p.width) (hbit : p.pos + j < 32)
    (hlow : (p.pos + j) % 8 = 0) (hlast : 8 + (4 * p.word + (p.pos + j) / 8) = n + 1) :
    (∀ mem, f.SameIn mem → ∀ gps, handler mem f.ptr f.payload f.payloadLen gps
        = handler f.mem f.ptr f.payload f.payloadLen gps) ↔
      6 ≤ f.payloadLen ∧ (uint32At f.mem (f.payload + 4) ≠ 0#32 → n ≤ f.payloadLen) := by
  constructor
  · intro h
    have hrest : uint32At f.mem (f.payload + 4) ≠ 0#32 → n ≤ f.payloadLen := by
      intro hword
      by_contra hshort
      -- the last byte that decides is behind the frame: flip its low bit
      have hsame := sameIn_update (f := f) (k := n + 1) (by omega) (f.mem (f.payload + (n + 1)) ^^^ 1)
      have heq := congrArg (Option.map entry) (h _ hsame .zero)
      rw [hentry hword, hentry (by rwa [uint32At_update (by omega)]), Option.some.injEq] at heq
      refine map_value_wordsAt_ne hp hj hbit ?_ heq
      rw [Nat.add_assoc, hlast, Function.update_self, hlow]
      exact testBit_xor_flip _ 1 (by decide)
    refine ⟨?_, hrest⟩
    by_contra hshort
    have hword : uint32At f.mem (f.payload + 4) = 0#32 := by
      by_contra hne
      have := hrest hne
      omega
    -- the last byte of the word is behind the frame: set it
    have hsame := sameIn_update (f := f) (k := 4 + 3) (by omega) 1
    have heq := congrArg (Option.map count) (h _ hsame .zero)
    rw [← Nat.add_assoc] at heq
    rw [hcount, hcount, if_pos hword, if_neg uint32At_update_ne_zero] at heq
    cases heq
  · rintro ⟨hshort, hrest⟩ mem hsame gps
    refine hcongr (fun k hk => hsame.payload_eq (by omega)) (fun hword k hk => ?_) _ _ _
    have := hrest hword
    exact hsame.payload_eq (by omega)

/-- The data after the frame, where it stands in another memory. -/
theorem SameIn.dispatchedData_eq (h : f.SameIn mem) (fp : FixedPoint) (gps : GpsAssistData) :
    dispatchedData fp mem f.ptr f.left gps =
      if UBX_CLASS_NAV = f.msgClass ∧ UBX_NAV_POSLLH = f.msgId then some gps
      else if UBX_CLASS_AID = f.msgClass ∧ UBX_AID_INI = f.msgId then some gps
      else if UBX_CLASS_AID = f.msgClass ∧ UBX_AID_HUI = f.msgId then
        ubxMsgParseAidHui fp mem f.ptr f.payload f.payloadLen gps
      else if UBX_CLASS_AID = f.msgClass ∧ UBX_AID_ALM = f.msgId then
        ubxMsgParseAidAlm mem f.ptr f.payload f.payloadLen gps
      else if UBX_CLASS_AID = f.msgClass ∧ UBX_AID_EPH = f.msgId then
        ubxMsgParseAidEph mem f.ptr f.payload f.payloadLen gps
      else none := by
  obtain ⟨hsync, hck, hcls, hid, hlen⟩ := h.valid
  rw [UbloxRead.dispatchedData_eq fp hsync hck hcls hid, hlen, payload]

/-- For a frame that goes to a handler the law is about that handler. -/
theorem decidedByFrame_of_handler {fp : FixedPoint} {handler : UbxMsgHandler}
    (h : ∀ mem, f.SameIn mem → ∀ gps, dispatchedData fp mem f.ptr f.left gps
      = handler mem f.ptr f.payload f.payloadLen gps) :
    f.DecidedByFrame fp ↔ ∀ mem, f.SameIn mem → ∀ gps,
      handler mem f.ptr f.payload f.payloadLen gps
        = handler f.mem f.ptr f.payload f.payloadLen gps := by
  have hself : f.SameIn f.mem := fun _ _ _ => rfl
  refine forall_congr' fun mem => forall_congr' fun hsame => forall_congr' fun gps => ?_
  rw [h mem hsame, h f.mem hself]

theorem aidHui_iff (fp : FixedPoint) :
    (∀ mem, f.SameIn mem → ∀ gps, ubxMsgParseAidHui fp mem f.ptr f.payload f.payloadLen gps
        = ubxMsgParseAidHui fp f.mem f.ptr f.payload f.payloadLen gps) ↔ 67 ≤ f.payloadLen := by
  constructor
  · intro h
    by_contra hshort
    -- the flags are behind the frame: flip the one for the UTC parameters
    have hsame := sameIn_update (f := f) (k := 68) (by omega) (f.mem (f.payload + 68) ^^^ 2)
    have heq := congrArg (Option.map (·.fields.getLsbD 1)) (h _ hsame .zero)
    rw [aidHui_utcBit, aidHui_utcBit, Function.update_self, Option.some.injEq] at heq
    exact testBit_xor_flip _ 2 (by decide) heq
  · intro hlen mem hsame gps
    exact aidHui_congr fp (fun k hk => hsame.payload_eq (by omega)) _ _ _

/-- **The assist data is decided by the frame exactly when** the bytes that decide it
are in the frame: its two checksum bytes stand behind the payload, and not every
byte of the structure decides something. -/
theorem decidedByFrame_iff (fp : FixedPoint) (f : AcceptedFrame) :
    f.DecidedByFrame fp ↔ f.HasBytes 67 6 37 100 := by
  by_cases hhui : f.IsKind UBX_AID_HUI
  · have hdata : ∀ mem, f.SameIn mem → ∀ gps, dispatchedData fp mem f.ptr f.left gps
        = ubxMsgParseAidHui fp mem f.ptr f.payload f.payloadLen gps := by
      intro mem hsame gps
      rw [hsame.dispatchedData_eq, hhui.1, hhui.2]
      rfl
    rw [decidedByFrame_of_handler hdata, hasBytes_hui hhui]
    exact aidHui_iff fp
  by_cases halm : f.IsKind UBX_AID_ALM
  · have hdata : ∀ mem, f.SameIn mem → ∀ gps, dispatchedData fp mem f.ptr f.left gps
        = ubxMsgParseAidAlm mem f.ptr f.payload f.payloadLen gps := by
      intro mem hsame gps
      rw [hsame.dispatchedData_eq, halm.1, halm.2]
      rfl
    rw [decidedByFrame_of_handler hdata, hasBytes_alm halm]
    exact announced_iff (p := ⟨7, 16, 8⟩) (j := 0) (by decide) aidAlm_congr _ aidAlm_count _
      aidAlm_entry (by decide) (by decide) (by decide) (by decide) (by decide)
  by_cases heph : f.IsKind UBX_AID_EPH
  · have hdata : ∀ mem, f.SameIn mem → ∀ gps, dispatchedData fp mem f.ptr f.left gps
        = ubxMsgParseAidEph mem f.ptr f.payload f.payloadLen gps := by
      intro mem hsame gps
      rw [hsame.dispatchedData_eq, heph.1, heph.2]
      rfl
    rw [decidedByFrame_of_handler hdata, hasBytes_eph heph]
    exact announced_iff (p := ⟨23, 2, 14⟩) (j := 6) (by decide) aidEph_congr _ aidEph_count _
      aidEph_entry (by decide) (by decide) (by decide) (by decide) (by decide)
  · refine iff_of_true (fun mem hsame gps => ?_) (hasBytes_other hhui halm heph)
    have hself : f.SameIn f.mem := fun _ _ _ => rfl
    have hsame' : f.SameIn mem := hsame
    rw [hsame'.dispatchedData_eq, hself.dispatchedData_eq]
    split_ifs with _ _ hh ha he
    · rfl
    · rfl
    · exact absurd ⟨hh.1.symm, hh.2.symm⟩ hhui
    · exact absurd ⟨ha.1.symm, ha.2.symm⟩ halm
    · exact absurd ⟨he.1.symm, he.2.symm⟩ heph
    · rfl

theorem HasBytes.mono {hui short alm eph hui' short' alm' eph' : Nat}
    (h : f.HasBytes hui short alm eph) (hhui : hui' ≤ hui) (hshort : short' ≤ short)
    (halm : alm' ≤ alm) (heph : eph' ≤ eph) : f.HasBytes hui' short' alm' eph' := by
  intro hcls
  obtain ⟨h₁, h₂, h₃⟩ := h hcls
  exact ⟨fun hid => hhui.trans (h₁ hid),
    fun hid => ⟨hshort.trans (h₂ hid).1, fun hs => halm.trans ((h₂ hid).2 hs)⟩,
    fun hid => ⟨hshort.trans (h₃ hid).1, fun hs => heph.trans ((h₃ hid).2 hs)⟩⟩

end AcceptedFrame

/-- **A handler stays inside the payload, and the assist data is decided by the frame,
exactly when** the payload is as long as the part of the structure that the handler
looks at: 72 bytes of an AID-HUI frame; 8 of an AID-ALM or AID-EPH frame, and 40 or
104 when its second word is not 0. For the assist data alone a little less will do,
because the frame goes on behind the payload and not every byte decides something. -/
theorem handlerReads_iff (fp : FixedPoint) (f : AcceptedFrame) :
    (f.ReadsOnlyPayload fp ∧ f.DecidedByFrame fp ↔ f.HasBytes 72 8 40 104) ∧
      (f.DecidedByFrame fp ↔ f.HasBytes 67 6 37 100) := by
  refine ⟨?_, f.decidedByFrame_iff fp⟩
  rw [f.readsOnlyPayload_iff fp, f.decidedByFrame_iff fp]
  exact and_iff_left_of_imp fun h => h.mono (by decide) (by decide) (by decide) (by decide)

/-- An AID-HUI message without payload, as `ubx.c` polls for one. -/
def emptyHui : UbxFrame where
  msgClass := UBX_CLASS_AID
  msgId := UBX_AID_HUI
  payload := []
  payload_lt := payload_nil_lt

/-- **A message without payload** makes its handler read what stands behind it: it is
decided there whether UTC parameters are stored. -/
theorem handler_reads_behind :
    ¬ emptyHui.alone.DecidedByFrame ⟨fun _ _ => 0, fun _ _ => 0⟩ := by
  rw [AcceptedFrame.decidedByFrame_iff, AcceptedFrame.hasBytes_hui ⟨by decide, by decide⟩]
  decide

end UbloxRead
