/-
UbloxRead.UbxAckTheorems — which flags a sequence of frames sets.

`updateValidUbxMsgList` writes at most one byte of the flag block.
`ackTarget` is its offset, and `updateAll_flag` is what a whole sequence does
to a flag: it becomes `1` when some frame targets it, and is untouched
otherwise; what lies outside the struct stays as it is (`updateAll_outside`). The
rest is about targets.

A frame that names a satellite up to 31 targets that satellite's flag, and one
that names satellite 32 an overflow slot. Every other AID-ALM or AID-EPH frame
is given index 33, which is one past the overflow slot: AID-ALM reaches
`ephAck[0]` and AID-EPH reaches `huiAck`. A frame with an empty payload is
among them, because the byte read as its satellite is its first checksum byte,
and that is above 32 for both kinds (`firstByte_of_empty`).
-/
import UbloxRead.UbxAck
import UbloxRead.UbxFrameTheorems

namespace UbloxRead

open Lib

/-! ## One byte a frame -/

/-- The offset a frame's update writes to, if it writes. -/
def ackTarget (cls id : UInt8) (svid : Nat) : Option Nat :=
  if cls = UBX_CLASS_AID then
    if id = UBX_AID_INI then some iniAckOffset
    else if id = UBX_AID_HUI then some huiAckOffset
    else if id = UBX_AID_ALM then some (almAckOffset + svid)
    else if id = UBX_AID_EPH then some (ephAckOffset + svid)
    else none
  else if cls = UBX_CLASS_NAV then
    if id = UBX_NAV_POSLLH then some posllhAckOffset else none
  else none

def AcceptedFrame.target (f : AcceptedFrame) : Option Nat :=
  ackTarget f.msgClass f.msgId (getUbxSVID f.mem f.ptr)

theorem update_eq (f : AcceptedFrame) (chk : MsgStrmCheck) :
    f.update chk = f.target.elim chk chk.setOne := by
  simp only [AcceptedFrame.target, ackTarget, apply_ite (fun o => Option.elim o chk chk.setOne),
    Option.elim_some, Option.elim_none]
  rfl

/-- The satellite index never leaves the struct. -/
theorem getUbxSVID_le (mem : Mem) (msg : Nat) : getUbxSVID mem msg ≤ 33 := by
  simp only [getUbxSVID]
  split
  · exact le_rfl
  · next h =>
    have := UInt8.le_iff_toNat_le.mp (UInt8.not_lt.mp h)
    have : (32 : UInt8).toNat = 32 := rfl
    omega

/-- Nor does any update. -/
theorem target_lt (f : AcceptedFrame) : ∀ offset ∈ f.target, offset < UBX_AID_ACK_SIZE := by
  have := getUbxSVID_le f.mem f.ptr
  intro offset h
  simp only [AcceptedFrame.target, ackTarget, almAckOffset, ephAckOffset, huiAckOffset,
    iniAckOffset, posllhAckOffset] at h
  unfold UBX_AID_ACK_SIZE
  split_ifs at h <;> simp only [Option.mem_def, Option.some.injEq, reduceCtorEq] at h <;> omega

theorem update_outside (f : AcceptedFrame) (chk : MsgStrmCheck) {i : Nat}
    (hi : UBX_AID_ACK_SIZE ≤ i) : (f.update chk).ubxAidAck i = chk.ubxAidAck i := by
  rw [update_eq]
  cases h : f.target with
  | none => rfl
  | some offset =>
    have hlt := target_lt f offset h
    exact if_neg (by omega)

/-- **No sequence of frames writes outside the struct**, although two arrays are
indexed past their ends. -/
theorem updateAll_outside (frames : List AcceptedFrame) (chk : MsgStrmCheck) {i : Nat}
    (hi : UBX_AID_ACK_SIZE ≤ i) : (updateAll frames chk).ubxAidAck i = chk.ubxAidAck i := by
  induction frames generalizing chk with
  | nil => rfl
  | cons f frames ih =>
    rw [updateAll, List.foldl_cons]
    exact (ih (f.update chk)).trans (update_outside f chk hi)

theorem flag_update (f : AcceptedFrame) (chk : MsgStrmCheck) (g : AckFlag) :
    (f.update chk).flag g = if f.target = some g.offset then 1 else chk.flag g := by
  rw [update_eq]
  cases h : f.target with
  | none => simp
  | some offset => simp [MsgStrmCheck.flag, MsgStrmCheck.setOne, eq_comm (a := offset)]

/-- **What a sequence of frames does to a flag.** -/
theorem updateAll_flag (frames : List AcceptedFrame) (chk : MsgStrmCheck) (g : AckFlag) :
    (updateAll frames chk).flag g
      = if ∃ f ∈ frames, f.target = some g.offset then 1 else chk.flag g := by
  induction frames generalizing chk with
  | nil => simp [updateAll]
  | cons f frames ih =>
    rw [updateAll, List.foldl_cons]
    refine (ih (f.update chk)).trans ?_
    rw [flag_update]
    by_cases hf : f.target = some g.offset <;> simp [hf]

/-- Flags are only ever set. -/
theorem updateAll_flag_ne_zero (frames : List AcceptedFrame) {chk : MsgStrmCheck} {g : AckFlag}
    (h : chk.flag g ≠ 0) : (updateAll frames chk).flag g ≠ 0 := by
  rw [updateAll_flag]
  split
  · decide
  · exact h

/-! ## Targets and items -/

/-- Distinct items have distinct flags. -/
theorem AckFlag.offset_inj {g g' : AckFlag} (h : g.offset = g'.offset) : g = g' := by
  cases g <;> cases g' <;>
    simp only [AckFlag.offset, almAckOffset, ephAckOffset, huiAckOffset, iniAckOffset,
      posllhAckOffset, AckFlag.alm.injEq, AckFlag.eph.injEq, reduceCtorEq, Fin.ext_iff] at h ⊢ <;>
    omega

/-- No flag is in an overflow slot. -/
theorem AckFlag.offset_ne_buf (g : AckFlag) :
    ¬ (g.offset = almBufOffset ∨ g.offset = ephBufOffset) := by
  cases g <;> simp only [AckFlag.offset, almAckOffset, almBufOffset, ephAckOffset, ephBufOffset,
    huiAckOffset, iniAckOffset, posllhAckOffset] <;> omega

theorem AcceptedFrame.syncAt (f : AcceptedFrame) : SyncAt f.mem f.ptr :=
  syncAt_of_accepted f.accepted

theorem AcceptedFrame.checksumAt (f : AcceptedFrame) : ChecksumAt f.mem f.ptr :=
  checksumAt_of_accepted f.accepted

/-- What stands where the satellite number would: the first checksum byte of an
empty payload. -/
theorem firstByte_of_empty (f : AcceptedFrame) (h : f.payloadLen = 0) :
    f.firstByte = f.msgClass + f.msgId := by
  have hlen : payloadLen f.mem f.ptr = 0 := h
  have hck := f.checksumAt
  have hbytes : f.mem (f.ptr + 4) = 0 ∧ f.mem (f.ptr + 5) = 0 := by
    unfold payloadLen at hlen
    exact ⟨UInt8.toNat_inj.mp (by rw [UInt8.toNat_zero]; omega),
      UInt8.toNat_inj.mp (by rw [UInt8.toNat_zero]; omega)⟩
  rw [ChecksumAt, hlen, Prod.ext_iff] at hck
  have h0 := hck.1
  simp only [Nat.add_zero, fletcher, slice, List.range_succ, List.range_zero, List.nil_append,
    List.map_append, List.map_cons, List.map_nil, List.foldl_append, List.foldl_cons,
    List.foldl_nil, fletcherStep, Nat.add_assoc, Nat.reduceAdd, hbytes] at h0
  simpa [AcceptedFrame.firstByte, AcceptedFrame.msgClass, AcceptedFrame.msgId, getUbxMsgClass,
    getUbxMsgId] using h0

/-- An AID-ALM or AID-EPH frame that names a satellite is given its number. -/
theorem getUbxSVID_of_named {f : AcceptedFrame} (hcls : f.msgClass = UBX_CLASS_AID)
    (hid : f.msgId = UBX_AID_ALM ∨ f.msgId = UBX_AID_EPH) (h : ¬ f.NamesNoSat) :
    0 < f.payloadLen ∧ getUbxSVID f.mem f.ptr = f.firstByte.toNat ∧ f.firstByte.toNat ≤ 32 := by
  have hnot : ¬ (f.payloadLen = 0 ∨ 32 < f.firstByte) := fun hc => h ⟨hcls, hid, hc⟩
  obtain ⟨hlen, hbyte⟩ := not_or.mp hnot
  refine ⟨Nat.pos_of_ne_zero hlen, ?_, UInt8.le_iff_toNat_le.mp (UInt8.not_lt.mp hbyte)⟩
  show (if 32 < f.firstByte then 33 else f.firstByte.toNat) = _
  rw [if_neg hbyte]

/-- Every other AID-ALM or AID-EPH frame is given index 33. -/
theorem getUbxSVID_of_namesNoSat {f : AcceptedFrame} (h : f.NamesNoSat) :
    getUbxSVID f.mem f.ptr = 33 := by
  obtain ⟨hcls, hid, hno⟩ := h
  have hbyte : 32 < f.firstByte := by
    rcases hno with hlen | hbyte
    · rw [firstByte_of_empty f hlen, hcls]
      rcases hid with hid | hid <;> rw [hid] <;> decide
    · exact hbyte
  show (if 32 < f.firstByte then 33 else f.firstByte.toNat) = _
  rw [if_pos hbyte]

/-- A frame targets the flag of what it carries. -/
theorem target_of_carries {f : AcceptedFrame} {g : AckFlag} (h : f.Carries g) :
    f.target = some g.offset := by
  obtain ⟨hcls, hid, hsat⟩ := h
  have hsvid : ∀ s ∈ g.sat, getUbxSVID f.mem f.ptr = s := by
    intro s hs
    have hbyte := (hsat s hs).2
    have hle : ¬ 32 < f.firstByte := by
      rw [UInt8.lt_iff_toNat_lt, hbyte]
      exact not_lt.mpr s.isLt.le
    show (if 32 < f.firstByte then 33 else f.firstByte.toNat) = _
    rw [if_neg hle, hbyte]
  rw [AcceptedFrame.target, hcls, hid]
  cases g with
  | ini => rfl
  | hui => rfl
  | posllh => rfl
  | alm s => rw [hsvid s rfl]; rfl
  | eph s => rw [hsvid s rfl]; rfl

/-- A frame that names its satellite targets the flag of something it carries,
or an overflow slot. -/
theorem carries_of_target {f : AcceptedFrame} (h : ¬ f.NamesNoSat) {offset : Nat}
    (ht : f.target = some offset) :
    (∃ g, offset = g.offset ∧ f.Carries g) ∨ offset = almBufOffset ∨ offset = ephBufOffset := by
  have hsat : ∀ s ∈ (none : Option (Fin 32)), 0 < f.payloadLen ∧ f.firstByte.toNat = s := by simp
  unfold AcceptedFrame.target ackTarget at ht
  split_ifs at ht with hcls hini hhui halm heph hnav hpos
  · exact Or.inl ⟨.ini, by cases ht; rfl, hcls, hini, hsat⟩
  · exact Or.inl ⟨.hui, by cases ht; rfl, hcls, hhui, hsat⟩
  · obtain ⟨hlen, hsvid, hbyte⟩ := getUbxSVID_of_named hcls (Or.inl halm) h
    cases ht
    rcases hbyte.lt_or_eq with hlt | heq
    · exact Or.inl ⟨.alm ⟨_, hlt⟩, by rw [hsvid]; rfl, hcls, halm, by rintro _ ⟨⟩; exact ⟨hlen, rfl⟩⟩
    · exact Or.inr (Or.inl (by rw [hsvid, heq]; rfl))
  · obtain ⟨hlen, hsvid, hbyte⟩ := getUbxSVID_of_named hcls (Or.inr heph) h
    cases ht
    rcases hbyte.lt_or_eq with hlt | heq
    · exact Or.inl ⟨.eph ⟨_, hlt⟩, by rw [hsvid]; rfl, hcls, heph, by rintro _ ⟨⟩; exact ⟨hlen, rfl⟩⟩
    · exact Or.inr (Or.inr (by rw [hsvid, heq]; rfl))
  · exact Or.inl ⟨.posllh, by cases ht; rfl, hnav, hpos, hsat⟩

/-- **A frame that names its satellite targets exactly what it carries.** -/
theorem target_eq_iff {f : AcceptedFrame} (h : ¬ f.NamesNoSat) (g : AckFlag) :
    f.target = some g.offset ↔ f.Carries g := by
  constructor
  · intro ht
    rcases carries_of_target h ht with ⟨g', hg', hcarries⟩ | hbuf
    · rw [AckFlag.offset_inj hg']
      exact hcarries
    · exact absurd hbuf (AckFlag.offset_ne_buf g)
  · exact target_of_carries

/-- **A frame that names none targets the flag of something it does not
carry.** -/
theorem target_of_namesNoSat {f : AcceptedFrame} (h : f.NamesNoSat) :
    ∃ g, f.target = some g.offset ∧ ¬ f.Carries g := by
  have hsvid := getUbxSVID_of_namesNoSat h
  obtain ⟨hcls, hid | hid, -⟩ := h
  · refine ⟨.eph 0, ?_, ?_⟩
    · rw [AcceptedFrame.target, hcls, hid, hsvid]
      rfl
    · rintro ⟨-, hid', -⟩
      rw [hid] at hid'
      cases hid'
  · refine ⟨.hui, ?_, ?_⟩
    · rw [AcceptedFrame.target, hcls, hid, hsvid]
      rfl
    · rintro ⟨-, hid', -⟩
      rw [hid] at hid'
      cases hid'

/-! ## Exactness -/

/-- **The flags are exact, and no frame sets another item's flag, exactly when
every AID-ALM and AID-EPH frame names a satellite up to 32.** -/
theorem updateAll_exact_iff (frames : List AcceptedFrame) :
    (AcksExact frames (updateAll frames .zero) ∧ ∀ f ∈ frames, f.SetsOnlyCarried) ↔
      ∀ f ∈ frames, ¬ f.NamesNoSat := by
  constructor
  · rintro ⟨-, honly⟩ f hf hno
    obtain ⟨g, htarget, hcarries⟩ := target_of_namesNoSat hno
    refine hcarries (honly f hf .zero g ?_)
    rw [flag_update, if_pos htarget]
    show (1 : UInt8) ≠ 0
    decide
  · intro hnamed
    constructor
    · intro g
      rw [updateAll_flag]
      have hiff : (∃ f ∈ frames, f.target = some g.offset) ↔ ∃ f ∈ frames, f.Carries g :=
        exists_congr fun f => and_congr_right fun hf => target_eq_iff (hnamed f hf) g
      rw [← hiff]
      have hone : (1 : UInt8) ≠ 0 := by decide
      split
      · next h => exact ⟨fun _ => h, fun _ => rfl⟩
      · next h => exact ⟨fun hc => absurd hc.symm hone, fun hc => absurd hc h⟩
    · intro f hf chk g hne
      rw [flag_update] at hne
      refine (target_eq_iff (hnamed f hf) g).mp ?_
      by_contra hc
      exact hne (if_neg hc)

/-- A frame alone in memory, as the check accepts it. -/
def UbxFrame.alone (f : UbxFrame) : AcceptedFrame where
  mem := memOfList f.bytes
  ptr := 0
  left := f.bytes.length
  accepted := by
    rw [parse_bytes f (slice_memOfList f.bytes) le_rfl]
    exact Int.natCast_nonneg _

/-- An AID-ALM answer without data for satellite 33. -/
def almanacOf33 : UbxFrame where
  msgClass := UBX_CLASS_AID
  msgId := UBX_AID_ALM
  payload := [33, 0, 0, 0, 0, 0, 0, 0]
  payload_lt := by decide

/-- **The flags are not exact in general**: one almanac answer acknowledges an
ephemeris. -/
theorem updateAll_not_exact :
    (updateAll [almanacOf33.alone] .zero).ephAck 0 = 1 ∧
      ¬ (AcksExact [almanacOf33.alone] (updateAll [almanacOf33.alone] .zero) ∧
        ∀ f ∈ [almanacOf33.alone], f.SetsOnlyCarried) := by
  refine ⟨by decide, ?_⟩
  rintro ⟨hexact, -⟩
  obtain ⟨f, hf, -, hid, -⟩ := (hexact (.eph 0)).mp (by decide)
  rw [List.mem_singleton.mp hf] at hid
  exact absurd hid (by decide)

end UbloxRead
