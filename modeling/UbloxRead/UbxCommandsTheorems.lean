/-
UbloxRead.UbxCommandsTheorems — the generators give frames, and a batch is its
calls.

`MsgCall.gen_eq` says once for every generator that it allocates the bytes of
`MsgCall.frame`, so what is queued is a well-formed UBX frame whatever the
allocation answers. The three `prep…_eq` are the batches: the function that
queues one makes the calls of its list, one after the other.
-/
import UbloxRead.UbxCommands

namespace UbloxRead

open Lib

/-! ## The generators -/

/-- **`genNmeaSilencer_msg_1` to `_7` give frames.** -/
theorem genNmeaSilencerMsg_eq (nmeaId : UInt8) (s : TxHeap) :
    genNmeaSilencerMsg nmeaId s = some (s.allocated (silencerFrame nmeaId).bytes) := by
  have hck : ubxChecksum (memOfList [UBX_SYNC0, UBX_SYNC1, UBX_CLASS_CFG, UBX_CFG_MSG, 3, 0, 0xF0,
      nmeaId, 0, 0, 0]) 2 7 = fletcher [UBX_CLASS_CFG, UBX_CFG_MSG, 3, 0, 0xF0, nmeaId, 0] :=
    ubxChecksum_block [UBX_CLASS_CFG, UBX_CFG_MSG, 3, 0, 0xF0, nmeaId, 0] [0, 0]
  have hbytes : (silencerFrame nmeaId).bytes
      = [UBX_SYNC0, UBX_SYNC1, UBX_CLASS_CFG, UBX_CFG_MSG, 3, 0, 0xF0, nmeaId, 0,
          (fletcher [UBX_CLASS_CFG, UBX_CFG_MSG, 3, 0, 0xF0, nmeaId, 0]).1,
          (fletcher [UBX_CLASS_CFG, UBX_CFG_MSG, 3, 0, 0xF0, nmeaId, 0]).2] := by
    simp [silencerFrame, UbxFrame.bytes, UbxFrame.body]
  rw [genNmeaSilencerMsg, TxHeap.allocated, TxHeap.mallocBlock, hbytes]
  by_cases hp : s.mallocs s.calls 11 = NULL
  · simp [TxHeap.malloc, hp]
  · simp [TxHeap.malloc, hp, List.replicate, UBX_HDR_SIZE, hck]

/-- `pollAlmanac` and `pollEphem` for the satellites they are called with. -/
theorem pollSat_eq (s : TxHeap) (msgId : UInt8) (svid : Option (Fin 32)) :
    pollSat s msgId (MsgCall.svidArg svid)
      = some (s.allocated
          (pollFrame UBX_CLASS_AID msgId (svid.map fun i => UInt8.ofNat i)).bytes) := by
  cases svid with
  | none => exact genPollMessage_eq s UBX_CLASS_AID msgId
  | some i =>
    rw [MsgCall.svidArg, pollSat, if_neg (by omega), if_pos (by omega), genPollMessageIndSV_eq,
      Int.toNat_natCast]
    rfl

/-- **Every generator allocates the bytes of a frame.** -/
theorem MsgCall.gen_eq (call : MsgCall) (s : TxHeap) :
    call.gen s = some (s.allocated call.frame.bytes) := by
  cases call with
  | nmeaSilencer nmeaId => exact genNmeaSilencerMsg_eq nmeaId s
  | pollIni => exact genPollMessage_eq s UBX_CLASS_AID UBX_AID_INI
  | pollHui => exact genPollMessage_eq s UBX_CLASS_AID UBX_AID_HUI
  | pollPosllh => exact genPollMessage_eq s UBX_CLASS_NAV UBX_NAV_POSLLH
  | pollAlmanac svid => exact pollSat_eq s UBX_AID_ALM svid
  | pollEphem svid => exact pollSat_eq s UBX_AID_EPH svid

/-- The call for an item asks for the item's poll. -/
theorem frame_call (g : AckFlag) : g.call.frame = g.poll := by
  cases g <;> rfl

/-! ## The batches -/

/-- **`prepNmeaSilencerMsgs` makes its seven calls**, in order. -/
theorem prepNmeaSilencerMsgs_eq (s : TxHeap) :
    prepNmeaSilencerMsgs s = (nmeaSilencers.foldlM MsgCall.push s).map fun s => (s, 7) := by
  simp [prepNmeaSilencerMsgs, nmeaSilencers, MsgCall.push, MsgCall.gen, genNmeaSilencerMsg1,
    genNmeaSilencerMsg2, genNmeaSilencerMsg3, genNmeaSilencerMsg4, genNmeaSilencerMsg5,
    genNmeaSilencerMsg6, genNmeaSilencerMsg7, Option.bind_assoc, Option.map_eq_bind]

/-- **`prepAidPollMsgs` makes its five calls**, in order. -/
theorem prepAidPollMsgs_eq (s : TxHeap) :
    prepAidPollMsgs s = (aidPolls.foldlM MsgCall.push s).map fun s => (s, 0) := by
  simp [prepAidPollMsgs, aidPolls, MsgCall.push, MsgCall.gen, MsgCall.svidArg, Option.bind_assoc,
    Option.map_eq_bind]

/-- `f` makes the calls for those of the items `gs` whose flags are unset. -/
def CallsFor (chk : MsgStrmCheck) (f : TxHeap → Option TxHeap) (gs : List AckFlag) : Prop :=
  ∀ s, f s = ((gs.filter fun g => chk.flag g = 0).map AckFlag.call).foldlM MsgCall.push s

/-- One `if`. -/
theorem callsFor_pushPollIfUnset {chk : MsgStrmCheck} {g : AckFlag} :
    CallsFor chk (pushPollIfUnset (chk.flag g) g.call.gen) [g] := by
  intro s
  unfold pushPollIfUnset
  by_cases hzero : chk.flag g = 0
  · rw [if_pos hzero.symm]
    simp [hzero, MsgCall.push]
  · rw [if_neg (Ne.symm hzero)]
    simp [hzero]

/-- One after the other. -/
theorem CallsFor.bind {chk : MsgStrmCheck} {f f' : TxHeap → Option TxHeap} {gs gs' : List AckFlag}
    (h : CallsFor chk f gs) (h' : CallsFor chk f' gs') :
    CallsFor chk (fun s => (f s).bind f') (gs ++ gs') := by
  intro s
  rw [List.filter_append, List.map_append, List.foldlM_append, ← h s]
  exact congrArg (Option.bind (f s)) (funext h')

/-- A loop. -/
theorem callsFor_forLoop {chk : MsgStrmCheck} {n : Nat} {body : Nat → TxHeap → Option TxHeap}
    {g : Nat → AckFlag} (h : ∀ i, i < n → CallsFor chk (body i) [g i]) :
    CallsFor chk (forLoop n body) ((List.range n).map g) := by
  induction n with
  | zero => exact fun _ => rfl
  | succ n ih =>
    rw [List.range_succ, List.map_append, List.map_singleton]
    have hall := (ih fun i hi => h i (by omega)).bind (h n (Nat.lt_succ_self n))
    intro s
    rw [forLoop_succ]
    exact hall s

/-- The loop for one kind of satellite item. -/
theorem callsFor_satLoop {chk : MsgStrmCheck} {ack : Nat → UInt8} {id : UInt8}
    {g : Fin 32 → AckFlag} (hack : ∀ i : Fin 32, ack i = chk.flag (g i))
    (hgen : ∀ i, (g i).call.gen = fun s => pollSat s id (i : Nat)) :
    CallsFor chk (forLoop 32 fun i => pushPollIfUnset (ack i) (pollSat · id i))
      ((List.range 32).map fun i => g (Fin.ofNat 32 i)) := by
  refine callsFor_forLoop fun i hi => ?_
  have hval : (Fin.ofNat 32 i).val = i := Nat.mod_eq_of_lt hi
  have hone := @callsFor_pushPollIfUnset chk (g (Fin.ofNat 32 i))
  rw [hgen, ← hack, hval] at hone
  exact hone

/-- **`prepAidMissingPollMsgs` makes the calls for the unset items**, in order. -/
theorem prepAidMissingPollMsgs_eq (s : TxHeap) (chk : MsgStrmCheck) :
    prepAidMissingPollMsgs s chk = (missingPolls chk).foldlM MsgCall.push s := by
  have hini : CallsFor chk (pushPollIfUnset chk.iniAck pollIni) [.ini] :=
    @callsFor_pushPollIfUnset chk .ini
  have hhui : CallsFor chk (pushPollIfUnset chk.huiAck pollHui) [.hui] :=
    @callsFor_pushPollIfUnset chk .hui
  have hposllh : CallsFor chk (pushPollIfUnset chk.posllhAck pollPosllh) [.posllh] :=
    @callsFor_pushPollIfUnset chk .posllh
  have halm : CallsFor chk (forLoop 32 fun i => pushPollIfUnset (chk.almAck i) (pollAlmanac · i))
      ((List.range 32).map fun i => .alm (Fin.ofNat 32 i)) :=
    callsFor_satLoop (fun _ => rfl) fun _ => rfl
  have heph : CallsFor chk (forLoop 32 fun i => pushPollIfUnset (chk.ephAck i) (pollEphem · i))
      ((List.range 32).map fun i => .eph (Fin.ofNat 32 i)) :=
    callsFor_satLoop (fun _ => rfl) fun _ => rfl
  exact (hini.bind (hhui.bind (hposllh.bind (halm.bind heph)))) s

end UbloxRead
