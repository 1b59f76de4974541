/-
UbloxRead.UbxParseTheorems — what a sequence of frames leaves in the assist
data.

The table of the source has no entry that ends a search, so the search stays in
it exactly for the frames it lists (`searchStaysInTable_iff`).

A frame does one of three things (`step_storesAlmanac`, `step_storesEphemeris`,
`step_other`): it adds an almanac entry, adds an ephemeris entry, or leaves both
tables alone. `AssistInv` counts them, and says what the ephemeris entries are.
From it: a sequence has an outcome exactly while the almanac and the ephemeris
frames are at most `MAX_SV` each, since nothing else keeps the handlers inside
their tables (`assistStaysInside_iff`); and the ephemeris holds every frame that
is `present`, whether or not its issues of data agree
(`ephemerisOfConsistent_iff`).
-/
import UbloxRead.UbxParse
import UbloxRead.GpsTheorems
import UbloxRead.UbxAckTheorems
import UbloxRead.UbxDispatchTheorems

namespace UbloxRead

open Lib

/-! ## One frame -/

/-- The handler of the table for a class and an id. -/
theorem entryFor_terminatedDt (fp : FixedPoint) (msgClass msgId : UInt8) :
    (entryFor (terminatedDt fp) msgClass msgId).bind (·.handler) =
      if UBX_CLASS_NAV = msgClass ∧ UBX_NAV_POSLLH = msgId then some ubxMsgParseNavPosllh
      else if UBX_CLASS_AID = msgClass ∧ UBX_AID_INI = msgId then some ubxMsgParseAidIni
      else if UBX_CLASS_AID = msgClass ∧ UBX_AID_HUI = msgId then some (ubxMsgParseAidHui fp)
      else if UBX_CLASS_AID = msgClass ∧ UBX_AID_ALM = msgId then some ubxMsgParseAidAlm
      else if UBX_CLASS_AID = msgClass ∧ UBX_AID_EPH = msgId then some ubxMsgParseAidEph
      else none := by
  simp only [terminatedDt, ubxParseDt, List.cons_append, List.nil_append, entryFor_cons,
    entryFor_null, Option.bind_none]

/-- A frame dispatched: the handler found, run on its payload. -/
theorem assistMachine_eq (fp : FixedPoint) (gps : GpsAssistData) (f : AcceptedFrame) :
    assistMachine (terminatedDt fp) gps f =
      (((entryFor (terminatedDt fp) f.msgClass f.msgId).bind (·.handler)).elim (some gps)
        fun h => h f.mem f.ptr f.payload f.payloadLen gps).map
          fun gps => (gps, ((8 + f.payloadLen : Nat) : Int)) := by
  have hnull : ∃ e ∈ terminatedDt fp, e.handler = none :=
    ⟨⟨0, 0, none⟩, by simp [terminatedDt], rfl⟩
  rw [assistMachine, ubxMsgDispatch_eq hnull, if_pos ⟨f.syncAt, f.checksumAt⟩, callFor]
  cases h : (entryFor (terminatedDt fp) f.msgClass f.msgId).bind (·.handler) with
  | none =>
    simp only [AcceptedFrame.msgClass, AcceptedFrame.msgId] at h
    simp [h, AcceptedFrame.payloadLen]
  | some handler =>
    simp only [AcceptedFrame.msgClass, AcceptedFrame.msgId] at h
    simp [h, AcceptedFrame.payloadLen, AcceptedFrame.payload]

/-- Where the table of the source decides what to do with a frame, the NULL
entry behind it changes nothing. -/
theorem assistMachine_ubxParseDt {fp : FixedPoint} {gps : GpsAssistData} {f : AcceptedFrame}
    {r : GpsAssistData × Int} (h : assistMachine (ubxParseDt fp) gps f = some r) :
    assistMachine (terminatedDt fp) gps f = some r := by
  rw [assistMachine, ubxMsgDispatch_of_valid _ f.syncAt f.checksumAt] at h ⊢
  cases hfind : ubxFindHandler (ubxParseDt fp) (getUbxMsgClass f.mem f.ptr)
      (getUbxMsgId f.mem f.ptr) with
  | none =>
    rw [hfind] at h
    cases h
  | some handler =>
    rw [terminatedDt, ubxFindHandler_append hfind]
    rw [hfind] at h
    exact h

/-! ## The search for a handler -/

/-- A search that runs off the table goes on in whatever stands behind it. -/
theorem ubxFindHandler_ubxParseDt_past (fp : FixedPoint) {msgClass msgId : UInt8}
    (hno : ∀ e ∈ ubxParseDt fp, ¬ (e.msgClass = msgClass ∧ e.msgId = msgId))
    (rest : List (DispatchEntry UbxMsgHandler)) :
    ubxFindHandler (ubxParseDt fp ++ rest) msgClass msgId = ubxFindHandler rest msgClass msgId :=
  ubxFindHandler_past (by simp [ubxParseDt]) hno rest

theorem listed_iff (fp : FixedPoint) (msgClass msgId : UInt8) :
    (∃ e ∈ ubxParseDt fp, e.msgClass = msgClass ∧ e.msgId = msgId) ↔
      msgClass = UBX_CLASS_NAV ∧ msgId = UBX_NAV_POSLLH ∨
        msgClass = UBX_CLASS_AID ∧
          (msgId = UBX_AID_INI ∨ msgId = UBX_AID_HUI ∨ msgId = UBX_AID_ALM ∨ msgId = UBX_AID_EPH) := by
  simp only [ubxParseDt, List.mem_cons, List.not_mem_nil, or_false, exists_eq_or_imp,
    exists_eq_left, @eq_comm _ _ msgClass, @eq_comm _ _ msgId, and_or_left]

/-- Every entry of the table is the answer to its class and id. -/
theorem ubxFindHandler_of_entry (fp : FixedPoint) :
    ∀ e ∈ ubxParseDt fp, ubxFindHandler (ubxParseDt fp) e.msgClass e.msgId = some e.handler := by
  simp only [ubxParseDt, List.forall_mem_cons, List.not_mem_nil, false_implies, implies_true,
    and_true]
  exact ⟨rfl, rfl, rfl, rfl, rfl⟩

/-- **The search for a handler stays in the table exactly when** the frame's class
and id are one of the five it lists: nothing but a match ends it. -/
theorem searchStaysInTable_iff (fp : FixedPoint) (f : AcceptedFrame) :
    SearchStaysInTable fp f ↔
      f.msgClass = UBX_CLASS_NAV ∧ f.msgId = UBX_NAV_POSLLH ∨
        f.msgClass = UBX_CLASS_AID ∧
          (f.msgId = UBX_AID_INI ∨ f.msgId = UBX_AID_HUI ∨ f.msgId = UBX_AID_ALM ∨
            f.msgId = UBX_AID_EPH) := by
  rw [← listed_iff fp]
  constructor
  · rintro ⟨⟨h, hfind⟩, -, -⟩
    by_contra hno
    have hpast := ubxFindHandler_ubxParseDt_past fp
      (fun e he hm => hno ⟨e, he, hm⟩) []
    rw [List.append_nil, hfind] at hpast
    cases hpast
  · intro hyes
    refine ⟨ubxFindHandler_of_listed hyes, ?_, ?_⟩
    · rintro e he ⟨hcls, hid⟩
      have hfind := ubxFindHandler_of_entry fp e he
      rw [hcls, hid] at hfind
      rw [ubxMsgDispatch_of_valid _ f.syncAt f.checksumAt]
      exact congrArg (Option.map _) hfind
    · intro hno
      obtain ⟨e, he, hm⟩ := hyes
      exact absurd hm (hno e he)

/-- A NAV-STATUS message: a valid frame that the table does not list. -/
def navStatus : UbxFrame where
  msgClass := UBX_CLASS_NAV
  msgId := 0x03
  payload := []
  payload_lt := payload_nil_lt

/-- **A frame that is not listed** sends the search behind the table. -/
theorem search_leaves_table :
    ¬ SearchStaysInTable ⟨fun _ _ => 0, fun _ _ => 0⟩ navStatus.alone := by
  intro h
  obtain ⟨handler, hfind⟩ := h.inside
  have hnone : ubxFindHandler (ubxParseDt ⟨fun _ _ => 0, fun _ _ => 0⟩) navStatus.alone.msgClass
      navStatus.alone.msgId = none := rfl
  rw [hnone] at hfind
  cases hfind

/-! ## What a frame changes -/

/-- What the dispatcher returns for a frame. -/
def AcceptedFrame.length (f : AcceptedFrame) : Int := ((8 + f.payloadLen : Nat) : Int)

/-- **An almanac frame** adds its entry, while there is room. -/
theorem step_storesAlmanac (fp : FixedPoint) (gps : GpsAssistData) {f : AcceptedFrame}
    (hf : f.StoresAlmanac) :
    assistMachine (terminatedDt fp) gps f =
      if h : gps.almanac.nSv < MAX_SV then
        some ({ gps with
          fields := gps.fields ||| GPS_FIELD_ALMANAC
          almanac :=
            { wna := (uint32At f.mem (f.payload + 4) &&& 0xff#32).toInt
              nSv := gps.almanac.nSv + 1
              svs := Function.update gps.almanac.svs ⟨gps.almanac.nSv, h⟩
                (gpsUnpackSf45Almanac (wordsAt f.mem (f.payload + 8))
                  (gps.almanac.svs ⟨gps.almanac.nSv, h⟩)).2 } }, f.length)
      else none := by
  obtain ⟨hcls, hid, hweek⟩ := hf
  have hhandler : (entryFor (terminatedDt fp) f.msgClass f.msgId).bind (·.handler)
      = some ubxMsgParseAidAlm := by
    rw [entryFor_terminatedDt, hcls, hid]
    rfl
  rw [assistMachine_eq, hhandler, Option.elim_some, ubxMsgParseAidAlm]
  simp only [hweek, ne_eq, not_false_eq_true, if_true]
  split <;> rfl

/-- **An ephemeris frame** adds its entry, while there is room, whatever the
unpacking returns. -/
theorem step_storesEphemeris (fp : FixedPoint) (gps : GpsAssistData) {f : AcceptedFrame}
    (hf : f.StoresEphemeris) :
    assistMachine (terminatedDt fp) gps f =
      if h : gps.ephemeris.nSv < MAX_SV then
        some ({ gps with
          fields := gps.fields ||| GPS_FIELD_EPHEMERIS
          ephemeris :=
            { nSv := gps.ephemeris.nSv + 1
              svs := Function.update gps.ephemeris.svs ⟨gps.ephemeris.nSv, h⟩ f.ephemerisSv } },
          f.length)
      else none := by
  obtain ⟨hcls, hid, hpresent⟩ := hf
  have hhandler : (entryFor (terminatedDt fp) f.msgClass f.msgId).bind (·.handler)
      = some ubxMsgParseAidEph := by
    rw [entryFor_terminatedDt, hcls, hid]
    rfl
  rw [assistMachine_eq, hhandler, Option.elim_some, ubxMsgParseAidEph]
  simp only [hpresent, ne_eq, not_false_eq_true, if_true]
  split
  · next h =>
    -- the unpacking fills every member but `sv_id`, so the entry before does not show
    have hsv : (gpsUnpackSf123 (wordsAt f.mem (f.payload + 8))
        { gps.ephemeris.svs ⟨gps.ephemeris.nSv, h⟩ with
          svId := (uint32At f.mem f.payload).toInt }).2 = f.ephemerisSv := by
      refine GpsEphemerisSv.ext_members ?_ ?_
      · rw [AcceptedFrame.ephemerisSv, unpackSf123_svId, unpackSf123_svId]
      · rw [AcceptedFrame.ephemerisSv, members_unpackSf123, members_unpackSf123]
        rfl
    rw [hsv]
    rfl
  · rfl

/-- **Any other frame** leaves both tables and the ephemeris field alone. -/
theorem step_other (fp : FixedPoint) (gps : GpsAssistData) {f : AcceptedFrame}
    (halm : ¬ f.StoresAlmanac) (heph : ¬ f.StoresEphemeris) :
    ∃ gps', assistMachine (terminatedDt fp) gps f = some (gps', f.length) ∧
      gps'.almanac = gps.almanac ∧ gps'.ephemeris = gps.ephemeris ∧
      gps'.fields.getLsbD 3 = gps.fields.getLsbD 3 := by
  rw [assistMachine_eq, entryFor_terminatedDt]
  split_ifs with hpos hini hhui halm' heph'
  · exact ⟨gps, rfl, rfl, rfl, rfl⟩
  · exact ⟨gps, rfl, rfl, rfl, rfl⟩
  · refine ⟨_, rfl, ?_, ?_, ?_⟩
    · split_ifs <;> rfl
    · split_ifs <;> rfl
    · split_ifs <;> simp [GPS_FIELD_UTC, GPS_FIELD_IONOSPHERE]
  · have hweek : uint32At f.mem (f.payload + 4) = 0#32 := by
      by_contra hc
      exact halm ⟨halm'.1.symm, halm'.2.symm, hc⟩
    refine ⟨gps, ?_, rfl, rfl, rfl⟩
    simp [ubxMsgParseAidAlm, hweek, AcceptedFrame.length]
  · have hpresent : uint32At f.mem (f.payload + 4) = 0#32 := by
      by_contra hc
      exact heph ⟨heph'.1.symm, heph'.2.symm, hc⟩
    refine ⟨gps, ?_, rfl, rfl, rfl⟩
    simp [ubxMsgParseAidEph, hpresent, AcceptedFrame.length]
  · exact ⟨gps, rfl, rfl, rfl, rfl⟩

theorem not_storesEphemeris {f : AcceptedFrame} (h : f.StoresAlmanac) : ¬ f.StoresEphemeris := by
  intro h'
  exact absurd (h.2.1.symm.trans h'.2.1) (by decide)

/-! ## Sequences -/

theorem almanacFrames_concat (frames : List AcceptedFrame) (f : AcceptedFrame) :
    almanacFrames (frames ++ [f])
      = if f.StoresAlmanac then almanacFrames frames ++ [f] else almanacFrames frames := by
  by_cases h : f.StoresAlmanac <;> simp [almanacFrames, h]

theorem ephemerisFrames_concat (frames : List AcceptedFrame) (f : AcceptedFrame) :
    ephemerisFrames (frames ++ [f])
      = if f.StoresEphemeris then ephemerisFrames frames ++ [f] else ephemerisFrames frames := by
  by_cases h : f.StoresEphemeris <;> simp [ephemerisFrames, h]

/-- The almanac counts its frames. -/
structure AlmanacInv (alm : GpsAlmanac) (frames : List AcceptedFrame) : Prop where
  count : alm.nSv = (almanacFrames frames).length
  le : alm.nSv ≤ MAX_SV

/-- The ephemeris counts its frames, and its entries are theirs, in order. -/
structure EphemerisInv (eph : GpsEphemeris) (field : Bool) (frames : List AcceptedFrame) :
    Prop where
  count : eph.nSv = (ephemerisFrames frames).length
  le : eph.nSv ≤ MAX_SV
  field : field = true ↔ ephemerisFrames frames ≠ []
  entries : ∀ (i : Fin MAX_SV) f, (ephemerisFrames frames)[i.val]? = some f →
    eph.svs i = f.ephemerisSv

/-- What a sequence of frames leaves. -/
structure AssistInv (gps : GpsAssistData) (frames : List AcceptedFrame) : Prop where
  almanac : AlmanacInv gps.almanac frames
  ephemeris : EphemerisInv gps.ephemeris (gps.fields.getLsbD 3) frames

theorem assistInv_zero : AssistInv .zero [] where
  almanac := ⟨rfl, by decide⟩
  ephemeris := ⟨rfl, by decide, by simp [GpsAssistData.zero, ephemerisFrames],
    by simp [ephemerisFrames]⟩

theorem AlmanacInv.keep {alm : GpsAlmanac} {frames : List AcceptedFrame} {f : AcceptedFrame}
    (hinv : AlmanacInv alm frames) (hf : ¬ f.StoresAlmanac) : AlmanacInv alm (frames ++ [f]) := by
  refine ⟨?_, hinv.le⟩
  rw [almanacFrames_concat, if_neg hf]
  exact hinv.count

theorem AlmanacInv.add {alm : GpsAlmanac} {frames : List AcceptedFrame} {f : AcceptedFrame}
    (hinv : AlmanacInv alm frames) (hf : f.StoresAlmanac) (hlt : alm.nSv < MAX_SV) (wna : Int)
    (svs : Fin MAX_SV → GpsAlmanacSv) : AlmanacInv ⟨wna, alm.nSv + 1, svs⟩ (frames ++ [f]) := by
  refine ⟨?_, hlt⟩
  rw [almanacFrames_concat, if_pos hf, List.length_append, ← hinv.count]
  rfl

theorem EphemerisInv.keep {eph : GpsEphemeris} {field : Bool} {frames : List AcceptedFrame}
    {f : AcceptedFrame} (hinv : EphemerisInv eph field frames) (hf : ¬ f.StoresEphemeris) :
    EphemerisInv eph field (frames ++ [f]) := by
  have hframes : ephemerisFrames (frames ++ [f]) = ephemerisFrames frames := by
    rw [ephemerisFrames_concat, if_neg hf]
  refine ⟨?_, hinv.le, ?_, ?_⟩ <;> rw [hframes]
  · exact hinv.count
  · exact hinv.field
  · exact hinv.entries

theorem EphemerisInv.add {eph : GpsEphemeris} {field : Bool} {frames : List AcceptedFrame}
    {f : AcceptedFrame} (hinv : EphemerisInv eph field frames) (hf : f.StoresEphemeris)
    (hlt : eph.nSv < MAX_SV) :
    EphemerisInv ⟨eph.nSv + 1, Function.update eph.svs ⟨eph.nSv, hlt⟩ f.ephemerisSv⟩ true
      (frames ++ [f]) := by
  have hframes : ephemerisFrames (frames ++ [f]) = ephemerisFrames frames ++ [f] := by
    rw [ephemerisFrames_concat, if_pos hf]
  refine ⟨?_, hlt, ?_, ?_⟩
  · rw [hframes, List.length_append, ← hinv.count]
    rfl
  · simp [hframes]
  · intro i g hg
    rw [hframes, List.getElem?_append, ← hinv.count] at hg
    split at hg
    · next hold =>
      have hne : i ≠ ⟨eph.nSv, hlt⟩ := by
        intro hi
        rw [hi] at hold
        exact absurd hold (lt_irrefl _)
      simp only [Function.update_of_ne hne]
      exact hinv.entries i g hg
    · next hge =>
      have hi : i.val = eph.nSv := by
        have := (List.getElem?_eq_some_iff.mp hg).1
        simp at this
        omega
      have hlast : i = ⟨eph.nSv, hlt⟩ := Fin.ext hi
      rw [hi, Nat.sub_self, List.getElem?_cons_zero, Option.some.injEq] at hg
      simp only [hlast, Function.update_self, hg]

/-- Every frame keeps the invariant. -/
theorem assistInv_step (fp : FixedPoint) {gps gps' : GpsAssistData} {frames : List AcceptedFrame}
    {f : AcceptedFrame} {ret : Int} (hinv : AssistInv gps frames)
    (hstep : assistMachine (terminatedDt fp) gps f = some (gps', ret)) :
    AssistInv gps' (frames ++ [f]) := by
  by_cases halm : f.StoresAlmanac
  · rw [step_storesAlmanac fp gps halm] at hstep
    split at hstep
    · next hlt =>
      cases hstep
      have hfield : (gps.fields ||| GPS_FIELD_ALMANAC).getLsbD 3 = gps.fields.getLsbD 3 := by
        simp [GPS_FIELD_ALMANAC]
      refine ⟨hinv.almanac.add halm hlt _ _, ?_⟩
      rw [hfield]
      exact hinv.ephemeris.keep (not_storesEphemeris halm)
    · cases hstep
  · by_cases heph : f.StoresEphemeris
    · rw [step_storesEphemeris fp gps heph] at hstep
      split at hstep
      · next hlt =>
        cases hstep
        have hfield : (gps.fields ||| GPS_FIELD_EPHEMERIS).getLsbD 3 = true := by
          simp [GPS_FIELD_EPHEMERIS]
        refine ⟨hinv.almanac.keep halm, ?_⟩
        rw [hfield]
        exact hinv.ephemeris.add heph hlt
      · cases hstep
    · obtain ⟨gps₁, hstep₁, ha, he, hf⟩ := step_other fp gps halm heph
      rw [hstep₁] at hstep
      cases hstep
      constructor
      · rw [ha]
        exact hinv.almanac.keep halm
      · rw [he, hf]
        exact hinv.ephemeris.keep heph

/-- A frame has an outcome while its table has room. -/
theorem assist_step_total (fp : FixedPoint) {gps : GpsAssistData} {frames : List AcceptedFrame}
    {f : AcceptedFrame} (hinv : AssistInv gps frames)
    (ha : (almanacFrames (frames ++ [f])).length ≤ MAX_SV)
    (he : (ephemerisFrames (frames ++ [f])).length ≤ MAX_SV) :
    ∃ gps' ret, assistMachine (terminatedDt fp) gps f = some (gps', ret) := by
  by_cases halm : f.StoresAlmanac
  · rw [almanacFrames_concat, if_pos halm, List.length_append, ← hinv.almanac.count] at ha
    have hlt : gps.almanac.nSv < MAX_SV := ha
    rw [step_storesAlmanac fp gps halm, dif_pos hlt]
    exact ⟨_, _, rfl⟩
  · by_cases heph : f.StoresEphemeris
    · rw [ephemerisFrames_concat, if_pos heph, List.length_append, ← hinv.ephemeris.count] at he
      have hlt : gps.ephemeris.nSv < MAX_SV := he
      rw [step_storesEphemeris fp gps heph, dif_pos hlt]
      exact ⟨_, _, rfl⟩
    · obtain ⟨gps', hstep, -⟩ := step_other fp gps halm heph
      exact ⟨gps', _, hstep⟩

/-- Whatever a sequence leaves meets the invariant. -/
theorem assistData_inv {fp : FixedPoint} {frames : List AcceptedFrame} {gps : GpsAssistData}
    (h : assistData fp frames = some gps) : AssistInv gps frames := by
  obtain ⟨⟨gps', rets⟩, hrun, rfl⟩ := Option.map_eq_some_iff.mp h
  exact Machine.run_history (fun gps frames _ => AssistInv gps frames)
    (fun _ _ _ _ _ _ hinv hstep => assistInv_step fp hinv hstep) assistInv_zero hrun

/-- **A sequence has an outcome exactly while both kinds of frames are at most
`MAX_SV`.** -/
theorem assistData_isSome_iff (fp : FixedPoint) (frames : List AcceptedFrame) :
    (∃ gps, assistData fp frames = some gps) ↔
      (almanacFrames frames).length ≤ MAX_SV ∧ (ephemerisFrames frames).length ≤ MAX_SV := by
  constructor
  · rintro ⟨gps, h⟩
    have hinv := assistData_inv h
    rw [← hinv.almanac.count, ← hinv.ephemeris.count]
    exact ⟨hinv.almanac.le, hinv.ephemeris.le⟩
  · induction frames using List.reverseRecOn with
    | nil =>
      intro _
      exact ⟨.zero, rfl⟩
    | append_singleton frames f ih =>
      rintro ⟨ha, he⟩
      have hsub : (almanacFrames frames).length ≤ (almanacFrames (frames ++ [f])).length ∧
          (ephemerisFrames frames).length ≤ (ephemerisFrames (frames ++ [f])).length := by
        simp [almanacFrames, ephemerisFrames]
      obtain ⟨gps, h⟩ := ih ⟨hsub.1.trans ha, hsub.2.trans he⟩
      obtain ⟨gps', ret, hstep⟩ := assist_step_total fp (assistData_inv h) ha he
      obtain ⟨⟨_, rets⟩, hrun, rfl⟩ := Option.map_eq_some_iff.mp h
      refine ⟨gps', ?_⟩
      rw [assistData, Machine.run_append hrun (Machine.run_cons_eq_some.mpr
        ⟨gps', ret, [], hstep, rfl, rfl⟩)]
      rfl

/-! ## Room for the entries -/

/-- **The handlers stay inside their tables exactly when** at most `MAX_SV`
AID-ALM frames have a `gps_week` and at most `MAX_SV` AID-EPH frames are
`present`. -/
theorem assistStaysInside_iff (fp : FixedPoint) (frames : List AcceptedFrame) :
    AssistStaysInside fp frames ↔
      (almanacFrames frames).length ≤ MAX_SV ∧ (ephemerisFrames frames).length ≤ MAX_SV := by
  constructor
  · intro h
    obtain ⟨gps, hgps, -⟩ := h frames.length
    rw [List.take_length] at hgps
    exact (assistData_isSome_iff fp frames).mp ⟨gps, hgps⟩
  · rintro ⟨ha, he⟩ n
    have htake : (almanacFrames (frames.take n)).length ≤ (almanacFrames frames).length ∧
        (ephemerisFrames (frames.take n)).length ≤ (ephemerisFrames frames).length :=
      ⟨((List.take_sublist n frames).filter _).length_le,
        ((List.take_sublist n frames).filter _).length_le⟩
    obtain ⟨gps, hgps⟩ := (assistData_isSome_iff fp (frames.take n)).mpr
      ⟨htake.1.trans ha, htake.2.trans he⟩
    have hinv := assistData_inv hgps
    exact ⟨gps, hgps, hinv.almanac.le, hinv.ephemeris.le⟩

/-- An AID-ALM answer of week 1 whose words are all zero. -/
def almanacOfWeek1 : UbxFrame where
  msgClass := UBX_CLASS_AID
  msgId := UBX_AID_ALM
  payload := [1, 0, 0, 0, 1, 0, 0, 0] ++ List.replicate 32 0
  payload_lt := by decide

theorem almanacOfWeek1_stores : almanacOfWeek1.alone.StoresAlmanac := by decide

/-- **Repeated answers leave the table**: the 65th almanac has no room. -/
theorem assist_leaves_table :
    ¬ AssistStaysInside ⟨fun _ _ => 0, fun _ _ => 0⟩
        (List.replicate 65 almanacOfWeek1.alone) := by
  intro h
  obtain ⟨gps, hgps, -⟩ := h 65
  have hroom := ((assistData_isSome_iff _ _).mp ⟨gps, hgps⟩).1
  simp [almanacFrames, almanacOfWeek1_stores, MAX_SV] at hroom

/-! ## Issues of data -/

theorem hasField_ephemeris_iff (gps : GpsAssistData) :
    gps.HasField GPS_FIELD_EPHEMERIS ↔ gps.fields.getLsbD 3 = true := by
  have hbit : GPS_FIELD_EPHEMERIS = BitVec.twoPow 32 3 := by decide
  rw [GpsAssistData.HasField, hbit, BitVec.and_twoPow]
  cases gps.fields.getLsbD 3 <;> decide

/-- **The ephemeris is that of the consistent frames exactly when** every
`present` AID-EPH frame is consistent, and the almanac stays inside its table.
What the unpacking returns decides nothing. -/
theorem ephemerisOfConsistent_iff (fp : FixedPoint) (frames : List AcceptedFrame)
    (hfew : (consistentFrames frames).length < MAX_SV) :
    EphemerisOfConsistent fp frames ↔
      (∀ f ∈ frames, f.StoresEphemeris → f.IssuesAgree) ∧
        (almanacFrames frames).length ≤ MAX_SV := by
  constructor
  · intro h
    obtain ⟨gps, hgps, hcount, -⟩ := h.holds
    refine ⟨?_, ((assistData_isSome_iff fp frames).mp ⟨gps, hgps⟩).1⟩
    have hlen : (consistentFrames frames).length = (ephemerisFrames frames).length := by
      rw [← hcount, (assistData_inv hgps).ephemeris.count]
    intro f hf hstores
    have hmem : f ∈ ephemerisFrames frames := by simp [ephemerisFrames, hf, hstores]
    simpa using List.length_filter_eq_length_iff.mp hlen f hmem
  · rintro ⟨hagree, hroom⟩
    have hsame : consistentFrames frames = ephemerisFrames frames := by
      refine List.filter_eq_self.mpr fun f hf => ?_
      simp only [ephemerisFrames, List.mem_filter, decide_eq_true_eq] at hf
      simpa using hagree f hf.1 hf.2
    rw [hsame] at hfew
    obtain ⟨gps, hgps⟩ := (assistData_isSome_iff fp frames).mpr ⟨hroom, hfew.le⟩
    have hinv := (assistData_inv hgps).ephemeris
    refine ⟨⟨gps, hgps, ?_⟩, ?_⟩
    · rw [hsame, hasField_ephemeris_iff]
      exact ⟨hinv.count, hinv.field, hinv.entries⟩
    · intro pre f post hsplit hstores hdisagree
      exact absurd (hagree f (by simp [hsplit]) hstores) hdisagree

/-- An AID-EPH answer whose words are all zero, but for the low byte of iodc. -/
def ephemerisOfIssue (iodc : UInt8) : UbxFrame where
  msgClass := UBX_CLASS_AID
  msgId := UBX_AID_EPH
  payload := [1, 0, 0, 0, 1, 0, 0, 0] ++ List.replicate 22 0 ++ [iodc] ++ List.replicate 73 0
  payload_lt := by simp

/-- Two consistent ephemerides. -/
theorem ephemerisOfConsistent_iff_two :
    EphemerisOfConsistent ⟨fun _ _ => 0, fun _ _ => 0⟩
      [(ephemerisOfIssue 0).alone, (ephemerisOfIssue 0).alone] :=
  (ephemerisOfConsistent_iff _ _ (by decide)).mpr ⟨by decide, by decide⟩

/-- **An inconsistent ephemeris is counted**: one frame with iodc 1 and both
iodes 0 leaves an entry. -/
theorem inconsistent_ephemeris_counted :
    ¬ EphemerisOfConsistent ⟨fun _ _ => 0, fun _ _ => 0⟩ [(ephemerisOfIssue 1).alone] := by
  intro h
  obtain ⟨gps, hgps, hcount, -⟩ := h.holds
  rw [(assistData_inv hgps).ephemeris.count] at hcount
  exact absurd hcount (by decide)

end UbloxRead
