/-
UbloxRead.UbxWidths — the widths that `gps.h` notes beside the members of the
assist data, and what the handlers of `ubx-parse.c` store in them.

The almanac and the ephemeris get their members from masked bit fields, and
`wna` is masked, so whatever a frame holds they are within their widths. The
UTC members are copied: 16-bit members of AID-HUI, and the upper bits of
`utc_tot`, into members of 8 bits, with no mask. So `assistData_inWidths_iff`
puts a condition on the last frame with UTC parameters, and
`utc_week_out_of_width` is a week number that does not meet it.
-/
import UbloxRead.UbxParseTheorems

namespace UbloxRead

open Lib

instance (n : Nat) (v : Int) : Decidable (UnsignedBits n v) := inferInstanceAs (Decidable (_ ∧ _))

instance (n : Nat) (v : Int) : Decidable (SignedBits n v) := inferInstanceAs (Decidable (_ ∧ _))

/-- The members of the UTC model that are not floating point are within the
widths noted beside them. -/
@[mk_iff] structure GpsUtcModel.InWidths (utc : GpsUtcModel) : Prop where
  deltaTLs : SignedBits 8 utc.deltaTLs
  tOt : UnsignedBits 8 utc.tOt
  wnT : UnsignedBits 8 utc.wnT
  wnLsf : UnsignedBits 8 utc.wnLsf
  dn : UnsignedBits 8 utc.dn
  deltaTLsf : SignedBits 8 utc.deltaTLsf

/-- Every entry of the two tables and the UTC model are within the widths of
`gps.h`, and `wna` within the 8 bits it is masked to. -/
structure GpsAssistData.InWidths (gps : GpsAssistData) : Prop where
  utc : gps.utc.InWidths
  wna : UnsignedBits 8 gps.almanac.wna
  almanac : ∀ i, (gps.almanac.svs i).InWidths
  ephemeris : ∀ i, (gps.ephemeris.svs i).InWidths

namespace AcceptedFrame

/-- An AID-HUI frame whose flags say that its UTC parameters are valid. -/
def StoresUtc (f : AcceptedFrame) : Prop :=
  f.msgClass = UBX_CLASS_AID ∧ f.msgId = UBX_AID_HUI ∧
    uint32At f.mem (f.payload + 68) &&& 0x2#32 ≠ 0#32

instance (f : AcceptedFrame) : Decidable f.StoresUtc := inferInstanceAs (Decidable (_ ∧ _))

/-- The UTC model its handler makes of an AID-HUI frame. -/
def utcModel (fp : FixedPoint) (f : AcceptedFrame) : GpsUtcModel where
  a0 := fp.doubleToFixedpoint (doubleAt f.mem (f.payload + 12)) (-30)
  a1 := fp.doubleToFixedpoint (doubleAt f.mem (f.payload + 4)) (-50)
  deltaTLs := (int16At f.mem (f.payload + 26)).toInt
  tOt := ((int32At f.mem (f.payload + 20)).sshiftRight 12).toInt
  wnT := (int16At f.mem (f.payload + 24)).toInt
  wnLsf := (int16At f.mem (f.payload + 28)).toInt
  dn := (int16At f.mem (f.payload + 30)).toInt
  deltaTLsf := (int16At f.mem (f.payload + 32)).toInt

/-- The leap seconds and week numbers of an AID-HUI frame are 8-bit numbers, and
`utc_tot` is one of 20 bits. -/
structure UtcInRange (f : AcceptedFrame) : Prop where
  ls : SignedBits 8 (int16At f.mem (f.payload + 26)).toInt
  tot : UnsignedBits 20 (int32At f.mem (f.payload + 20)).toInt
  wnt : UnsignedBits 8 (int16At f.mem (f.payload + 24)).toInt
  wnf : UnsignedBits 8 (int16At f.mem (f.payload + 28)).toInt
  dn : UnsignedBits 8 (int16At f.mem (f.payload + 30)).toInt
  lsf : SignedBits 8 (int16At f.mem (f.payload + 32)).toInt

end AcceptedFrame

/-- The last frame of a sequence with UTC parameters. -/
def lastUtc (frames : List AcceptedFrame) : Option AcceptedFrame :=
  (frames.filter fun f => f.StoresUtc).getLast?

/-! ## One frame -/

/-- Shifting out 12 bits leaves 8 of 20. -/
theorem unsignedBits_sshiftRight (x : BitVec 32) :
    UnsignedBits 8 (x.sshiftRight 12).toInt ↔ UnsignedBits 20 x.toInt := by
  rw [BitVec.toInt_sshiftRight, Int.shiftRight_eq_div_pow]
  unfold UnsignedBits
  omega

theorem utcModel_inWidths_iff (fp : FixedPoint) (f : AcceptedFrame) :
    (f.utcModel fp).InWidths ↔ f.UtcInRange := by
  rw [GpsUtcModel.inWidths_iff]
  simp only [AcceptedFrame.utcModel, unsignedBits_sshiftRight]
  constructor
  · rintro ⟨hls, htot, hwnt, hwnf, hdn, hlsf⟩
    exact ⟨hls, htot, hwnt, hwnf, hdn, hlsf⟩
  · rintro ⟨hls, htot, hwnt, hwnf, hdn, hlsf⟩
    exact ⟨hls, htot, hwnt, hwnf, hdn, hlsf⟩

/-- A masked week number has 8 bits. -/
theorem unsignedBits_mask (x : BitVec 32) : UnsignedBits 8 (x &&& 0xff#32).toInt := by
  have hlt : (x &&& 0xff#32).toNat < 2 ^ 8 := by
    rw [BitVec.toNat_and]
    exact Nat.and_lt_two_pow _ (by decide)
  rw [BitVec.toInt_eq_toNat_of_lt (by omega)]
  exact ⟨Int.natCast_nonneg _, by exact_mod_cast hlt⟩

theorem not_storesUtc_of_almanac {f : AcceptedFrame} (h : f.StoresAlmanac) : ¬ f.StoresUtc := by
  intro h'
  exact absurd (h.2.1.symm.trans h'.2.1) (by decide)

theorem not_storesUtc_of_ephemeris {f : AcceptedFrame} (h : f.StoresEphemeris) :
    ¬ f.StoresUtc := by
  intro h'
  exact absurd (h.2.1.symm.trans h'.2.1) (by decide)

/-- An AID-HUI frame sets the UTC model if it has UTC parameters, and leaves it
and the tables alone otherwise. -/
theorem aidHui_utc (fp : FixedPoint) (gps : GpsAssistData) {f : AcceptedFrame}
    (hcls : f.msgClass = UBX_CLASS_AID) (hid : f.msgId = UBX_AID_HUI) :
    ∃ gps', assistMachine (terminatedDt fp) gps f = some (gps', f.length) ∧
      gps'.utc = if f.StoresUtc then f.utcModel fp else gps.utc := by
  have hhandler : (entryFor (terminatedDt fp) f.msgClass f.msgId).bind (·.handler)
      = some (ubxMsgParseAidHui fp) := by
    rw [entryFor_terminatedDt, hcls, hid]
    rfl
  have hstores : f.StoresUtc ↔ uint32At f.mem (f.payload + 68) &&& 0x2#32 ≠ 0#32 :=
    ⟨fun h => h.2.2, fun h => ⟨hcls, hid, h⟩⟩
  rw [assistMachine_eq, hhandler]
  refine ⟨_, rfl, ?_⟩
  simp only [hstores]
  split_ifs <;> rfl

/-- **The UTC model after a frame** that stores no entry: the frame's, if it has
UTC parameters. -/
theorem step_other_utc (fp : FixedPoint) {gps gps' : GpsAssistData} {f : AcceptedFrame} {ret : Int}
    (halm : ¬ f.StoresAlmanac) (heph : ¬ f.StoresEphemeris)
    (hstep : assistMachine (terminatedDt fp) gps f = some (gps', ret)) :
    gps'.utc = if f.StoresUtc then f.utcModel fp else gps.utc := by
  by_cases hhui : f.msgClass = UBX_CLASS_AID ∧ f.msgId = UBX_AID_HUI
  · obtain ⟨gps₁, hstep₁, hutc⟩ := aidHui_utc fp gps hhui.1 hhui.2
    rw [hstep₁] at hstep
    cases hstep
    exact hutc
  · rw [if_neg fun h => hhui ⟨h.1, h.2.1⟩]
    have hweek : f.msgClass = UBX_CLASS_AID → f.msgId = UBX_AID_ALM →
        uint32At f.mem (f.payload + 4) = 0#32 := by
      intro hcls hid
      by_contra hc
      exact halm ⟨hcls, hid, hc⟩
    have hpresent : f.msgClass = UBX_CLASS_AID → f.msgId = UBX_AID_EPH →
        uint32At f.mem (f.payload + 4) = 0#32 := by
      intro hcls hid
      by_contra hc
      exact heph ⟨hcls, hid, hc⟩
    rw [assistMachine_eq, entryFor_terminatedDt] at hstep
    split_ifs at hstep with h h h h h
    · cases hstep
      rfl
    · cases hstep
      rfl
    · exact absurd ⟨h.1.symm, h.2.symm⟩ hhui
    · simp only [Option.elim_some, ubxMsgParseAidAlm, hweek h.1.symm h.2.symm, ne_eq,
        not_true_eq_false, if_false, Option.map_some, Option.some.injEq, Prod.mk.injEq] at hstep
      rw [← hstep.1]
    · simp only [Option.elim_some, ubxMsgParseAidEph, hpresent h.1.symm h.2.symm, ne_eq,
        not_true_eq_false, if_false, Option.map_some, Option.some.injEq, Prod.mk.injEq] at hstep
      rw [← hstep.1]
    · cases hstep
      rfl

/-! ## Sequences -/

theorem lastUtc_concat (frames : List AcceptedFrame) (f : AcceptedFrame) :
    lastUtc (frames ++ [f]) = if f.StoresUtc then some f else lastUtc frames := by
  by_cases h : f.StoresUtc <;> simp [lastUtc, h]

/-- The tables are within the widths, and the UTC model is that of the last frame
that has one. -/
structure WidthInv (fp : FixedPoint) (gps : GpsAssistData) (frames : List AcceptedFrame) :
    Prop where
  wna : UnsignedBits 8 gps.almanac.wna
  almanac : ∀ i, (gps.almanac.svs i).InWidths
  ephemeris : ∀ i, (gps.ephemeris.svs i).InWidths
  utc : gps.utc = (lastUtc frames).elim GpsAssistData.zero.utc (·.utcModel fp)

theorem almanacZero_inWidths : GpsAlmanacSv.zero.InWidths := by
  constructor <;> decide

theorem ephemerisZero_inWidths : GpsEphemerisSv.zero.InWidths := by
  constructor <;> decide

theorem utcZero_inWidths : GpsAssistData.zero.utc.InWidths := by
  constructor <;> decide

theorem widthInv_zero (fp : FixedPoint) : WidthInv fp .zero [] where
  wna := by decide
  almanac := fun _ => almanacZero_inWidths
  ephemeris := fun _ => ephemerisZero_inWidths
  utc := rfl

/-- Every frame keeps the invariant. -/
theorem widthInv_step (fp : FixedPoint) {gps gps' : GpsAssistData} {frames : List AcceptedFrame}
    {f : AcceptedFrame} {ret : Int} (hinv : WidthInv fp gps frames)
    (hstep : assistMachine (terminatedDt fp) gps f = some (gps', ret)) :
    WidthInv fp gps' (frames ++ [f]) := by
  obtain ⟨hwna, halmanac, hephemeris, hutc⟩ := hinv
  by_cases halm : f.StoresAlmanac
  · rw [step_storesAlmanac fp gps halm] at hstep
    split at hstep
    · cases hstep
      refine ⟨unsignedBits_mask _, ?_, hephemeris, ?_⟩
      · rw [Function.forall_update_iff gps.almanac.svs fun _ sv => sv.InWidths]
        exact ⟨unpackSf45_inWidths _ _, fun i _ => halmanac i⟩
      · rw [lastUtc_concat, if_neg (not_storesUtc_of_almanac halm)]
        exact hutc
    · cases hstep
  · by_cases heph : f.StoresEphemeris
    · rw [step_storesEphemeris fp gps heph] at hstep
      split at hstep
      · cases hstep
        refine ⟨hwna, halmanac, ?_, ?_⟩
        · rw [Function.forall_update_iff gps.ephemeris.svs fun _ sv => sv.InWidths]
          exact ⟨unpackSf123_inWidths _ _, fun i _ => hephemeris i⟩
        · rw [lastUtc_concat, if_neg (not_storesUtc_of_ephemeris heph)]
          exact hutc
      · cases hstep
    · have hutc' := step_other_utc fp halm heph hstep
      obtain ⟨gps₁, hstep₁, ha, he, -⟩ := step_other fp gps halm heph
      rw [hstep₁] at hstep
      cases hstep
      refine ⟨by rwa [ha], by rwa [ha], by rwa [he], ?_⟩
      rw [hutc', lastUtc_concat]
      split
      · rfl
      · exact hutc

/-- Whatever a sequence leaves meets the invariant. -/
theorem assistData_widthInv {fp : FixedPoint} {frames : List AcceptedFrame} {gps : GpsAssistData}
    (h : assistData fp frames = some gps) : WidthInv fp gps frames := by
  obtain ⟨⟨gps', rets⟩, hrun, rfl⟩ := Option.map_eq_some_iff.mp h
  exact Machine.run_history (fun gps frames _ => WidthInv fp gps frames)
    (fun _ _ _ _ _ _ hinv hstep => widthInv_step fp hinv hstep) (widthInv_zero fp) hrun

/-- **The assist data is within its widths exactly when** the last frame with UTC
parameters carries values that are. No almanac or ephemeris frame can break
them. -/
theorem assistData_inWidths_iff (fp : FixedPoint) (frames : List AcceptedFrame)
    (halm : (almanacFrames frames).length ≤ MAX_SV)
    (heph : (ephemerisFrames frames).length ≤ MAX_SV) :
    (∃ gps, assistData fp frames = some gps ∧ gps.InWidths) ↔
      ∀ f, lastUtc frames = some f → f.UtcInRange := by
  obtain ⟨gps, hgps⟩ := (assistData_isSome_iff fp frames).mpr ⟨halm, heph⟩
  obtain ⟨hwna, halmanac, hephemeris, hutc⟩ := assistData_widthInv hgps
  constructor
  · rintro ⟨gps', hgps', hwidths⟩ f hlast
    rw [hgps] at hgps'
    cases hgps'
    have hmodel := hwidths.utc
    rw [hutc, hlast] at hmodel
    exact (utcModel_inWidths_iff fp f).mp hmodel
  · intro h
    refine ⟨gps, hgps, ?_, hwna, halmanac, hephemeris⟩
    rw [hutc]
    cases hlast : lastUtc frames with
    | none => exact utcZero_inWidths
    | some f => exact (utcModel_inWidths_iff fp f).mpr (h f hlast)

/-- An AID-HUI answer of full size with valid UTC parameters: the reference week
given, all other members 0. -/
def utcOfWeek (low high : UInt8) : UbxFrame where
  msgClass := UBX_CLASS_AID
  msgId := UBX_AID_HUI
  payload := List.replicate 24 0 ++ [low, high] ++ List.replicate 42 0 ++ [2, 0, 0, 0]
  payload_lt := by simp

/-- Week 59, which is 1851 without its upper bits. -/
theorem assistData_inWidths_iff_week59 :
    ∃ gps, assistData ⟨fun _ _ => 0, fun _ _ => 0⟩ [(utcOfWeek 59 0).alone] = some gps ∧
      gps.InWidths := by
  refine (assistData_inWidths_iff _ _ (by decide) (by decide)).mpr fun f hf => ?_
  have hlast : lastUtc [(utcOfWeek 59 0).alone] = some (utcOfWeek 59 0).alone :=
    (lastUtc_concat [] _).trans (if_pos (by decide))
  cases hlast.symm.trans hf
  constructor <;> decide

/-- **Week 1851 is stored whole** in the 8-bit `wn_t`. -/
theorem utc_week_out_of_width : ¬ ∀ (fp : FixedPoint) (frames : List AcceptedFrame),
    (almanacFrames frames).length < MAX_SV → (ephemerisFrames frames).length < MAX_SV →
      ∃ gps, assistData fp frames = some gps ∧ gps.InWidths := by
  intro h
  obtain ⟨gps, hgps, hwidths⟩ := h ⟨fun _ _ => 0, fun _ _ => 0⟩ [(utcOfWeek 59 7).alone]
    (by decide) (by decide)
  have hutc := (assistData_widthInv hgps).utc
  have hlast : lastUtc [(utcOfWeek 59 7).alone] = some (utcOfWeek 59 7).alone :=
    (lastUtc_concat [] _).trans (if_pos (by decide))
  have hweek := hwidths.utc.wnT
  rw [hutc, hlast] at hweek
  exact absurd hweek (by decide)

end UbloxRead
