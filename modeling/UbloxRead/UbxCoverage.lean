/-
UbloxRead.UbxCoverage — which satellites the acknowledgement flags of `ubx.h`
stand for.

Satellites are numbered 1 to 32, and `getUbx_SVID` keeps these numbers, as it
keeps 0. The flag arrays have 32 entries, and the loops of
`areThereMissingMessages` and `prepAidMissingPollMsgs` go over the indices 0 to
31: index 0 belongs to no satellite, and satellite 32 is neither counted nor
polled for. `target_iff` adds what index 33, which every other number is given,
sets: the flag of satellite 0, or that of AID-HUI.

`satelliteCoverage_iff` puts the two ends together. Between them, for the
satellites 1 to 31, the flags, the count and the polls agree with the frames.
-/
import UbloxRead.UbxPollTheorems

namespace UbloxRead

open Lib

/-! ## What the flags should say -/

/-- The ids of the messages that come one for each satellite. -/
def satIds : List UInt8 := [UBX_AID_ALM, UBX_AID_EPH]

/-- An AID frame with data of a satellite: its payload starts with the
satellite's number. -/
structure AcceptedFrame.IsFor (f : AcceptedFrame) (id : UInt8) (s : Nat) : Prop where
  msgClass : f.msgClass = UBX_CLASS_AID
  msgId : f.msgId = id
  payload : 0 < f.payloadLen
  sat : f.firstByte.toNat = s

/-- Such a frame is among the frames. -/
def Received (frames : List AcceptedFrame) (id : UInt8) (s : Nat) : Prop :=
  ∃ f ∈ frames, f.IsFor id s

/-- A frame that carries the item is among the frames. -/
def Occurs (frames : List AcceptedFrame) (g : AckFlag) : Prop := ∃ f ∈ frames, f.Carries g

/-- An AID frame of this id without a satellite up to 32 is among the frames. -/
def Stray (frames : List AcceptedFrame) (id : UInt8) : Prop :=
  ∃ f ∈ frames, f.NamesNoSat ∧ f.msgId = id

/-- All that is asked for: AID-INI, AID-HUI, NAV-POSLLH, and both messages of
every satellite. -/
structure Covered (frames : List AcceptedFrame) : Prop where
  ini : Occurs frames .ini
  hui : Occurs frames .hui
  posllh : Occurs frames .posllh
  sats : ∀ id ∈ satIds, ∀ s, 1 ≤ s → s ≤ 32 → Received frames id s

/-- A poll message for one satellite. -/
structure TxMsg.PollsSat (msg : TxMsg) (id : UInt8) (s : Nat) : Prop where
  msgClass : getUbxMsgClass (memOfList msg.bytes) 0 = UBX_CLASS_AID
  msgId : getUbxMsgId (memOfList msg.bytes) 0 = id
  payload : msg.payloadLen = 1
  sat : (memOfList msg.bytes 6).toNat = s

/-- Behind whatever is queued, `prepAidMissingPollMsgs` queues a poll for the
satellite, as long as `malloc` does not fail. -/
def QueuesPoll (chk : MsgStrmCheck) (id : UInt8) (s : Nat) : Prop :=
  ∀ heap queue, TxInv heap.ll heap.blocks queue → heap.MallocOk →
    (∀ k size, heap.calls ≤ k → heap.mallocs k size ≠ NULL) →
    ∃ heap' polls, prepAidMissingPollMsgs heap chk = some heap' ∧
      TxQueue heap'.ll heap'.blocks (queue ++ polls) ∧ ∃ msg ∈ polls, msg.PollsSat id s

/-- After the frames the count is zero exactly when everything was received,
and every satellite whose message was not is polled for. -/
structure SatelliteCoverage (frames : List AcceptedFrame) : Prop where
  counted : areThereMissingMessages (updateAll frames .zero) = 0 ↔ Covered frames
  polled : ∀ id ∈ satIds, ∀ s, 1 ≤ s → s ≤ 32 → ¬ Received frames id s →
    QueuesPoll (updateAll frames .zero) id s

/-- Everything but AID-HUI and the two ends of the satellites' range. -/
structure BetweenEnds (frames : List AcceptedFrame) : Prop where
  ini : Occurs frames .ini
  posllh : Occurs frames .posllh
  sats : ∀ id ∈ satIds, ∀ s, 1 ≤ s → s ≤ 31 → Received frames id s

/-- The frames make up for both ends. Satellite 32 answered unasked; and if
nothing between the ends is missing, AID-HUI tells alone whether the flags of
AID-HUI and of satellite 0 are set. -/
structure EndsMatch (frames : List AcceptedFrame) : Prop where
  last : ∀ id ∈ satIds, Received frames id 32
  first : BetweenEnds frames → (Occurs frames .hui ↔
    (Occurs frames .hui ∨ Stray frames UBX_AID_EPH) ∧ Received frames UBX_AID_ALM 0 ∧
      (Received frames UBX_AID_EPH 0 ∨ Stray frames UBX_AID_ALM))

/-! ## Which flags the frames set -/

/-- A satellite's item comes in an AID message. -/
theorem msgClass_of_sat {g : AckFlag} {s : Fin 32} (hsat : g.sat = some s) :
    g.msgClass = UBX_CLASS_AID := by
  cases g with
  | ini => rfl
  | hui => rfl
  | posllh => cases hsat
  | alm _ => rfl
  | eph _ => rfl

/-- To carry a satellite's item is to be a frame for the satellite. -/
theorem carries_iff_isFor (f : AcceptedFrame) {g : AckFlag} {s : Fin 32} (hsat : g.sat = some s) :
    f.Carries g ↔ f.IsFor g.msgId s := by
  unfold AcceptedFrame.Carries
  rw [msgClass_of_sat hsat, hsat]
  constructor
  · rintro ⟨hcls, hid, hnamed⟩
    exact ⟨hcls, hid, (hnamed s rfl).1, (hnamed s rfl).2⟩
  · rintro ⟨hcls, hid, hlen, hbyte⟩
    refine ⟨hcls, hid, fun s' hs' => ?_⟩
    cases hs'
    exact ⟨hlen, hbyte⟩

/-- A frame without a satellite carries nothing that has a flag. -/
theorem not_carries_of_namesNoSat {f : AcceptedFrame} (h : f.NamesNoSat) (g : AckFlag) :
    ¬ f.Carries g := by
  obtain ⟨hcls, hid, hno⟩ := h
  rintro ⟨hcls', hid', hsat⟩
  have hnone : g.sat = none := by
    cases hg : g.sat with
    | none => rfl
    | some s =>
      obtain ⟨hlen, hbyte⟩ := hsat s hg
      rcases hno with hzero | habove
      · exact absurd hzero hlen.ne'
      · have := UInt8.lt_iff_toNat_lt.mp habove
        rw [hbyte] at this
        exact absurd this (not_lt.mpr s.isLt.le)
  rw [hcls] at hcls'
  rw [hid'] at hid
  cases g with
  | ini => exact absurd hid (by decide)
  | hui => exact absurd hid (by decide)
  | posllh => exact absurd hcls' (by decide)
  | alm s => cases hnone
  | eph s => cases hnone

/-- What a frame without a satellite sets. -/
theorem target_namesNoSat_iff {f : AcceptedFrame} (h : f.NamesNoSat) (g : AckFlag) :
    f.target = some g.offset ↔
      (g = .eph 0 ∧ f.msgId = UBX_AID_ALM) ∨ (g = .hui ∧ f.msgId = UBX_AID_EPH) := by
  have hsvid := getUbxSVID_of_namesNoSat h
  obtain ⟨hcls, hid | hid, -⟩ := h
  · have htarget : f.target = some (AckFlag.eph 0).offset := by
      rw [AcceptedFrame.target, hcls, hid, hsvid]
      rfl
    have hne : UBX_AID_ALM ≠ UBX_AID_EPH := by decide
    rw [htarget, hid, Option.some.injEq]
    simp only [hne, and_true, and_false, or_false]
    exact ⟨fun heq => (AckFlag.offset_inj heq).symm, fun heq => by rw [heq]⟩
  · have htarget : f.target = some AckFlag.hui.offset := by
      rw [AcceptedFrame.target, hcls, hid, hsvid]
      rfl
    have hne : UBX_AID_EPH ≠ UBX_AID_ALM := by decide
    rw [htarget, hid, Option.some.injEq]
    simp only [hne, and_true, and_false, false_or]
    exact ⟨fun heq => (AckFlag.offset_inj heq).symm, fun heq => by rw [heq]⟩

/-- **What a frame sets**: the flag of what it carries, and without a satellite
that of satellite 0's ephemeris or of AID-HUI. -/
theorem target_iff (f : AcceptedFrame) (g : AckFlag) :
    f.target = some g.offset ↔ f.Carries g ∨ f.NamesNoSat ∧
      ((g = .eph 0 ∧ f.msgId = UBX_AID_ALM) ∨ (g = .hui ∧ f.msgId = UBX_AID_EPH)) := by
  by_cases h : f.NamesNoSat
  · simp [target_namesNoSat_iff h, not_carries_of_namesNoSat h, h]
  · simp [target_eq_iff h, h]

/-- **A flag is set when its item occurred, or a frame without a satellite set
it.** -/
theorem flag_ne_zero_iff (frames : List AcceptedFrame) (g : AckFlag) :
    (updateAll frames .zero).flag g ≠ 0 ↔ Occurs frames g ∨
      (g = .eph 0 ∧ Stray frames UBX_AID_ALM) ∨ (g = .hui ∧ Stray frames UBX_AID_EPH) := by
  have hflag : (updateAll frames .zero).flag g ≠ 0 ↔ ∃ f ∈ frames, f.target = some g.offset := by
    rw [updateAll_flag]
    split
    · next h => simp [h]
    · next h => simpa [MsgStrmCheck.flag, MsgStrmCheck.zero] using h
  rw [hflag]
  constructor
  · rintro ⟨f, hf, htarget⟩
    rcases (target_iff f g).mp htarget with hcarries | ⟨hno, ⟨hg, hid⟩ | ⟨hg, hid⟩⟩
    · exact Or.inl ⟨f, hf, hcarries⟩
    · exact Or.inr (Or.inl ⟨hg, f, hf, hno, hid⟩)
    · exact Or.inr (Or.inr ⟨hg, f, hf, hno, hid⟩)
  · rintro (⟨f, hf, hcarries⟩ | ⟨hg, f, hf, hno, hid⟩ | ⟨hg, f, hf, hno, hid⟩)
    · exact ⟨f, hf, (target_iff f g).mpr (Or.inl hcarries)⟩
    · exact ⟨f, hf, (target_iff f g).mpr (Or.inr ⟨hno, Or.inl ⟨hg, hid⟩⟩)⟩
    · exact ⟨f, hf, (target_iff f g).mpr (Or.inr ⟨hno, Or.inr ⟨hg, hid⟩⟩)⟩

theorem occurs_iff_received (frames : List AcceptedFrame) {g : AckFlag} {s : Fin 32}
    (hsat : g.sat = some s) : Occurs frames g ↔ Received frames g.msgId s :=
  exists_congr fun f => and_congr_right fun _ => carries_iff_isFor f hsat

/-- The flags of the satellites from 1 to 31 tell what was received. -/
theorem exists_satFlag (frames : List AcceptedFrame) {id : UInt8} (hid : id ∈ satIds) {s : Nat}
    (h1 : 1 ≤ s) (h31 : s ≤ 31) :
    ∃ g : AckFlag, g.sat = some (Fin.ofNat 32 s) ∧ g.msgId = id ∧
      ((updateAll frames .zero).flag g ≠ 0 ↔ Received frames id s) := by
  have hval : (Fin.ofNat 32 s).val = s := Nat.mod_eq_of_lt (by omega)
  have hpos : ¬ 32 ∣ s := Nat.not_dvd_of_pos_of_lt h1 (by omega)
  rcases List.mem_pair.mp hid with rfl | rfl
  · refine ⟨.alm (Fin.ofNat 32 s), rfl, rfl, ?_⟩
    rw [flag_ne_zero_iff, occurs_iff_received frames (s := Fin.ofNat 32 s) rfl, hval]
    simp [AckFlag.msgId]
  · refine ⟨.eph (Fin.ofNat 32 s), rfl, rfl, ?_⟩
    rw [flag_ne_zero_iff, occurs_iff_received frames (s := Fin.ofNat 32 s) rfl, hval]
    simp [AckFlag.msgId, hpos]

/-! ## The count -/

/-- **Nothing is missing exactly when all between the ends was received, and
the flags of AID-HUI and of satellite 0 are set.** -/
theorem nothingMissing_iff (frames : List AcceptedFrame) :
    areThereMissingMessages (updateAll frames .zero) = 0 ↔ BetweenEnds frames ∧
      (Occurs frames .hui ∨ Stray frames UBX_AID_EPH) ∧ Received frames UBX_AID_ALM 0 ∧
        (Received frames UBX_AID_EPH 0 ∨ Stray frames UBX_AID_ALM) := by
  have hini : (updateAll frames .zero).flag .ini ≠ 0 ↔ Occurs frames .ini := by
    simp [flag_ne_zero_iff]
  have hposllh : (updateAll frames .zero).flag .posllh ≠ 0 ↔ Occurs frames .posllh := by
    simp [flag_ne_zero_iff]
  have hhui : (updateAll frames .zero).flag .hui ≠ 0 ↔
      Occurs frames .hui ∨ Stray frames UBX_AID_EPH := by
    simp [flag_ne_zero_iff]
  have halm : ∀ s : Fin 32, (updateAll frames .zero).flag (.alm s) ≠ 0 ↔
      Received frames UBX_AID_ALM s := by
    intro s
    simp [flag_ne_zero_iff, occurs_iff_received frames (g := .alm s) rfl, AckFlag.msgId]
  have heph : ∀ s : Fin 32, (updateAll frames .zero).flag (.eph s) ≠ 0 ↔
      Received frames UBX_AID_EPH s ∨ (s = 0 ∧ Stray frames UBX_AID_ALM) := by
    intro s
    simp [flag_ne_zero_iff, occurs_iff_received frames (g := .eph s) rfl, AckFlag.msgId]
  rw [areThereMissingMessages_eq_zero_iff]
  constructor
  · intro h
    refine ⟨⟨hini.mp (h .ini), hposllh.mp (h .posllh), fun id hid s h1 h31 => ?_⟩,
      hhui.mp (h .hui), (halm 0).mp (h (.alm 0)), by simpa using (heph 0).mp (h (.eph 0))⟩
    obtain ⟨g, -, -, hflag⟩ := exists_satFlag frames hid h1 h31
    exact hflag.mp (h g)
  · rintro ⟨⟨hini', hposllh', hsats⟩, hhui', halm0, heph0⟩ g
    cases g with
    | ini => exact hini.mpr hini'
    | hui => exact hhui.mpr hhui'
    | posllh => exact hposllh.mpr hposllh'
    | alm s =>
      refine (halm s).mpr ?_
      by_cases hs : s = 0
      · rw [hs]
        exact halm0
      · exact hsats _ (by simp [satIds]) s (by omega) (by omega)
    | eph s =>
      refine (heph s).mpr ?_
      by_cases hs : s = 0
      · simpa [hs] using heph0
      · exact Or.inl (hsats _ (by simp [satIds]) s (by omega) (by omega))

/-! ## The polls -/

/-- What a queue holds is determined by the list and the blocks. -/
theorem TxQueue.unique {ll : LList} {blocks : TxBlocks} {queue queue' : List TxMsg}
    (h : TxQueue ll blocks queue) (h' : TxQueue ll blocks queue') : queue = queue' := by
  obtain ⟨cells, hwalk, -, hptrs, -⟩ := h.list.cycle
  obtain ⟨cells', hwalk', -, hptrs', -⟩ := h'.list.cycle
  rw [hwalk] at hwalk'
  cases hwalk'
  have hread : ∀ q, TxQueue ll blocks q →
      q = (q.map TxMsg.ptr).map fun p => { ptr := p, block := blocks p } := by
    intro q hq
    rw [List.map_map]
    refine (List.map_id' q).symm.trans (List.map_congr_left fun msg hmsg => ?_)
    show msg = { ptr := msg.ptr, block := blocks msg.ptr }
    rw [(hq.live msg hmsg).1]
  rw [hread queue h, hread queue' h', ← hptrs, ← hptrs']

/-- A poll for an item is one for its satellite. -/
theorem PollFor.pollsSat {g : AckFlag} {msg : TxMsg} (h : PollFor g msg) {s : Fin 32}
    (hsat : g.sat = some s) (hcls : g.msgClass = UBX_CLASS_AID) : msg.PollsSat g.msgId s := by
  have hpayload := h.payload
  rw [hsat] at hpayload
  exact ⟨h.msgClass.trans hcls, h.msgId, hpayload.1, hpayload.2⟩

/-- A satellite up to 31 is polled for when its flag is not set. -/
theorem queuesPoll_of_unset {chk : MsgStrmCheck} {g : AckFlag} {s : Fin 32} (hsat : g.sat = some s)
    (hzero : chk.flag g = 0) : QueuesPoll chk g.msgId s := by
  intro heap queue hinv hmalloc hnever
  obtain ⟨heap', polls, hprep, hready, -, hpushed⟩ :=
    prepAidMissingPollMsgs_polls chk heap queue ⟨hinv, hmalloc⟩
  obtain ⟨msg, hmsg, hpoll⟩ : ∃ msg ∈ polls, PushedFor heap g msg :=
    exists_of_forall₂ hpushed (by simp [mem_allItems, hzero])
  obtain ⟨k, size, hk, hptr, -⟩ := hpoll.fromMalloc
  have hne : msg.ptr ≠ NULL := by
    rw [hptr]
    exact hnever k size hk
  exact ⟨heap', polls, hprep, hready.inv.queue, msg, hmsg,
    (hpoll.poll hne).pollsSat hsat (msgClass_of_sat hsat)⟩

/-- **Satellite 32 is never polled for.** -/
theorem not_queuesPoll_last (chk : MsgStrmCheck) (id : UInt8) : ¬ QueuesPoll chk id 32 := by
  intro h
  obtain ⟨heap', polls, hprep, hqueue, msg, hmsg, hsat⟩ :=
    h freshHeap [] freshHeap_ready.inv freshHeap_ready.mallocOk fun k _ _ => Nat.succ_ne_zero k
  obtain ⟨heap'', polls', hprep', hready, -, hpushed⟩ :=
    prepAidMissingPollMsgs_polls chk freshHeap [] freshHeap_ready
  obtain rfl : heap' = heap'' := Option.some.inj (hprep.symm.trans hprep')
  obtain rfl : polls = polls' := hqueue.unique hready.inv.queue
  obtain ⟨g, -, hpoll⟩ := exists_of_forall₂ hpushed.flip hmsg
  obtain ⟨k, size, -, hptr, -⟩ := hpoll.fromMalloc
  have hpayload := (hpoll.poll (by rw [hptr]; exact Nat.succ_ne_zero k)).payload
  -- a poll names a satellite below 32, or none
  cases hg : g.sat with
  | none =>
    rw [hg] at hpayload
    exact absurd (hsat.payload.symm.trans hpayload) (by decide)
  | some s =>
    rw [hg] at hpayload
    have := hsat.sat.symm.trans hpayload.2
    exact absurd this (Nat.ne_of_gt s.isLt)

/-! ## Both ends -/

theorem covered_iff (frames : List AcceptedFrame) :
    Covered frames ↔
      BetweenEnds frames ∧ Occurs frames .hui ∧ ∀ id ∈ satIds, Received frames id 32 := by
  constructor
  · rintro ⟨hini, hhui, hposllh, hsats⟩
    exact ⟨⟨hini, hposllh, fun id hid s h1 h31 => hsats id hid s h1 (by omega)⟩, hhui,
      fun id hid => hsats id hid 32 (by decide) le_rfl⟩
  · rintro ⟨⟨hini, hposllh, hsats⟩, hhui, hlast⟩
    refine ⟨hini, hhui, hposllh, fun id hid s h1 h32 => ?_⟩
    rcases h32.lt_or_eq with hlt | rfl
    · exact hsats id hid s h1 (by omega)
    · exact hlast id hid

/-- **Count and polls cover the satellites exactly when the frames make up for
both ends of the flag arrays.** -/
theorem satelliteCoverage_iff (frames : List AcceptedFrame) :
    SatelliteCoverage frames ↔ EndsMatch frames := by
  constructor
  · rintro ⟨hcounted, hpolled⟩
    have hlast : ∀ id ∈ satIds, Received frames id 32 := by
      intro id hid
      by_contra hno
      exact not_queuesPoll_last _ id (hpolled id hid 32 (by decide) le_rfl hno)
    rw [nothingMissing_iff, covered_iff] at hcounted
    refine ⟨hlast, fun hbetween => ⟨fun hhui => ?_, fun hends => ?_⟩⟩
    · exact (hcounted.mpr ⟨hbetween, hhui, hlast⟩).2
    · exact (hcounted.mp ⟨hbetween, hends⟩).2.1
  · rintro ⟨hlast, hfirst⟩
    refine ⟨?_, fun id hid s h1 h32 hno => ?_⟩
    · rw [nothingMissing_iff, covered_iff]
      constructor
      · rintro ⟨hbetween, hends⟩
        exact ⟨hbetween, (hfirst hbetween).mpr hends, hlast⟩
      · rintro ⟨hbetween, hhui, -⟩
        exact ⟨hbetween, (hfirst hbetween).mp hhui⟩
    · rcases h32.lt_or_eq with hlt | rfl
      · obtain ⟨g, hsat, rfl, hflag⟩ := exists_satFlag frames hid h1 (by omega)
        have hval : (Fin.ofNat 32 s).val = s := Nat.mod_eq_of_lt hlt
        have hzero : (updateAll frames .zero).flag g = 0 := by
          by_contra hne
          exact hno (hflag.mp hne)
        simpa only [hval] using queuesPoll_of_unset hsat hzero
      · exact absurd (hlast id hid) hno

/-- Before anything was received, satellite 32 is missing and not polled for. -/
theorem satelliteCoverage_misses_last : ¬ ∀ frames, SatelliteCoverage frames := by
  intro h
  refine not_queuesPoll_last _ _ ((h []).polled UBX_AID_ALM (by decide) 32 (by decide) le_rfl ?_)
  rintro ⟨f, hf, -⟩
  cases hf

end UbloxRead
