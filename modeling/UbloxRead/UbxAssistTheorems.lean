/-
UbloxRead.UbxAssistTheorems — the handlers compute what the frames say.

`assistData_eq_assistOf`: the data after any sequence of dispatched frames are
`assistOf` of the sequence, with exact conversions, or a handler has written behind
a table. So the data do not depend on how frames of different kinds are
interleaved, and a frame that none of the handlers stores from leaves no trace.

The proof goes by the last frame. `assist_step` says what one more frame does to
data that already are `assistOf` of the others. It has a lemma for every kind of
frame: `assist_almanac`, `assist_ephemeris`, `assist_hui` and `step_silent`. None
of this looks at what the conversions to fixed point answer; `assistData_eq` is
for any, and the conversions of the code come in at the end.
-/
import UbloxRead.FixedPoint
import UbloxRead.UbxAssist

namespace UbloxRead

open Lib

/-! ## One more frame -/

theorem ofLast_concat {α : Type} (zero : α) (value : AcceptedFrame → α)
    (frames : List AcceptedFrame) (f : AcceptedFrame) :
    ofLast zero value (frames ++ [f]) = value f := by
  rw [ofLast, List.getLast?_concat, Option.elim_some]

/-- Behind the entries the table is zero. -/
theorem entries_length {α : Type} (zero : α) (entry : AcceptedFrame → α)
    {frames : List AcceptedFrame} (h : frames.length < MAX_SV) :
    entries zero entry frames ⟨frames.length, h⟩ = zero := by
  rw [entries, List.getElem?_eq_none (Nat.le_refl _), Option.elim_none]

/-- **One more frame is one more entry.** -/
theorem entries_concat {α : Type} (zero : α) (entry : AcceptedFrame → α)
    {frames : List AcceptedFrame} (h : frames.length < MAX_SV) (f : AcceptedFrame) :
    entries zero entry (frames ++ [f])
      = Function.update (entries zero entry frames) ⟨frames.length, h⟩ (entry f) := by
  funext i
  by_cases hi : i = ⟨frames.length, h⟩
  · subst hi
    rw [Function.update_self, entries, List.getElem?_concat_length, Option.elim_some]
  · have hne : i.val ≠ frames.length := fun heq => hi (Fin.ext heq)
    rw [Function.update_of_ne hi, entries, entries, List.getElem?_append]
    split
    · rfl
    · rw [List.getElem?_eq_none (l := [f]) (by rw [List.length_singleton]; omega),
        List.getElem?_eq_none (by omega)]

theorem fieldBits_ionosphere (ionosphere utc almanac ephemeris : Bool) :
    fieldBits ionosphere utc almanac ephemeris ||| GPS_FIELD_IONOSPHERE
      = fieldBits true utc almanac ephemeris := by
  revert ionosphere utc almanac ephemeris
  decide

theorem fieldBits_utc (ionosphere utc almanac ephemeris : Bool) :
    fieldBits ionosphere utc almanac ephemeris ||| GPS_FIELD_UTC
      = fieldBits ionosphere true almanac ephemeris := by
  revert ionosphere utc almanac ephemeris
  decide

theorem fieldBits_almanac (ionosphere utc almanac ephemeris : Bool) :
    fieldBits ionosphere utc almanac ephemeris ||| GPS_FIELD_ALMANAC
      = fieldBits ionosphere utc true ephemeris := by
  revert ionosphere utc almanac ephemeris
  decide

theorem fieldBits_ephemeris (ionosphere utc almanac ephemeris : Bool) :
    fieldBits ionosphere utc almanac ephemeris ||| GPS_FIELD_EPHEMERIS
      = fieldBits ionosphere utc almanac true := by
  revert ionosphere utc almanac ephemeris
  decide

/-- With one more there are some. -/
theorem decide_concat_ne_nil (frames : List AcceptedFrame) (f : AcceptedFrame) :
    decide (frames ++ [f] ≠ []) = true :=
  decide_eq_true (List.append_ne_nil_of_right_ne_nil _ (List.cons_ne_nil _ _))

theorem utcFrames_concat (frames : List AcceptedFrame) (f : AcceptedFrame) :
    utcFrames (frames ++ [f]) = if f.StoresUtc then utcFrames frames ++ [f] else utcFrames frames := by
  by_cases h : f.StoresUtc <;> simp [utcFrames, h]

theorem ionosphereFrames_concat (frames : List AcceptedFrame) (f : AcceptedFrame) :
    ionosphereFrames (frames ++ [f])
      = if f.StoresIonosphere then ionosphereFrames frames ++ [f] else ionosphereFrames frames := by
  by_cases h : f.StoresIonosphere <;> simp [ionosphereFrames, h]

/-- A frame stores entries of one table, or models. -/
theorem not_storesIonosphere_of_ne {f : AcceptedFrame} (h : f.msgId ≠ UBX_AID_HUI) :
    ¬ f.StoresIonosphere := fun h' => h h'.2.1

theorem not_storesUtc_of_ne {f : AcceptedFrame} (h : f.msgId ≠ UBX_AID_HUI) : ¬ f.StoresUtc :=
  fun h' => h h'.2.1

/-! ## What the handlers do to what the frames said -/

/-- **An almanac frame.** -/
theorem assist_almanac (fp : FixedPoint) (frames : List AcceptedFrame) {f : AcceptedFrame}
    (hf : f.StoresAlmanac) :
    assistMachine (terminatedDt fp) (assistOf fp frames) f =
      if (almanacFrames frames).length < MAX_SV then some (assistOf fp (frames ++ [f]), f.length)
      else none := by
  have hid : f.msgId ≠ UBX_AID_HUI := by
    rw [hf.2.1]
    decide
  rw [step_storesAlmanac fp _ hf]
  by_cases hlt : (almanacFrames frames).length < MAX_SV
  · rw [if_pos hlt, dif_pos (show (assistOf fp frames).almanac.nSv < MAX_SV from hlt)]
    simp only [assistOf, utcFrames_concat, ionosphereFrames_concat, almanacFrames_concat,
      ephemerisFrames_concat, if_pos hf, if_neg (not_storesEphemeris hf),
      if_neg (not_storesUtc_of_ne hid), if_neg (not_storesIonosphere_of_ne hid), ofLast_concat,
      entries_concat _ _ hlt, entries_length _ _ hlt, fieldBits_almanac, List.length_append,
      List.length_singleton, decide_concat_ne_nil]
    rfl
  · rw [if_neg hlt, dif_neg (show ¬ (assistOf fp frames).almanac.nSv < MAX_SV from hlt)]

/-- **An ephemeris frame.** -/
theorem assist_ephemeris (fp : FixedPoint) (frames : List AcceptedFrame) {f : AcceptedFrame}
    (hf : f.StoresEphemeris) :
    assistMachine (terminatedDt fp) (assistOf fp frames) f =
      if (ephemerisFrames frames).length < MAX_SV then some (assistOf fp (frames ++ [f]), f.length)
      else none := by
  have hid : f.msgId ≠ UBX_AID_HUI := by
    rw [hf.2.1]
    decide
  have halm : ¬ f.StoresAlmanac := fun h => not_storesEphemeris h hf
  rw [step_storesEphemeris fp _ hf]
  by_cases hlt : (ephemerisFrames frames).length < MAX_SV
  · rw [if_pos hlt, dif_pos (show (assistOf fp frames).ephemeris.nSv < MAX_SV from hlt)]
    simp only [assistOf, utcFrames_concat, ionosphereFrames_concat, almanacFrames_concat,
      ephemerisFrames_concat, if_pos hf, if_neg halm, if_neg (not_storesUtc_of_ne hid),
      if_neg (not_storesIonosphere_of_ne hid), entries_concat _ _ hlt, fieldBits_ephemeris,
      List.length_append, List.length_singleton, decide_concat_ne_nil]
  · rw [if_neg hlt, dif_neg (show ¬ (assistOf fp frames).ephemeris.nSv < MAX_SV from hlt)]

/-- What the handler of AID-HUI does, in terms of what the frame says. -/
theorem step_hui (fp : FixedPoint) (gps : GpsAssistData) {f : AcceptedFrame}
    (hcls : f.msgClass = UBX_CLASS_AID) (hid : f.msgId = UBX_AID_HUI) :
    assistMachine (terminatedDt fp) gps f =
      let gps := if f.StoresUtc then
          { gps with fields := gps.fields ||| GPS_FIELD_UTC, utc := f.utcModel fp } else gps
      let gps := if f.StoresIonosphere then
          { gps with fields := gps.fields ||| GPS_FIELD_IONOSPHERE
                     ionosphere := f.ionosphereModel fp } else gps
      some (gps, f.length) := by
  have hhandler : (entryFor (terminatedDt fp) f.msgClass f.msgId).bind (·.handler)
      = some (ubxMsgParseAidHui fp) := by
    rw [entryFor_terminatedDt, hcls, hid]
    rfl
  have hutc : f.StoresUtc ↔ uint32At f.mem (f.payload + 68) &&& 0x2#32 ≠ 0#32 :=
    ⟨fun h => h.2.2, fun h => ⟨hcls, hid, h⟩⟩
  have hion : f.StoresIonosphere ↔ uint32At f.mem (f.payload + 68) &&& 0x04#32 ≠ 0#32 :=
    ⟨fun h => h.2.2, fun h => ⟨hcls, hid, h⟩⟩
  rw [assistMachine_eq, hhandler]
  simp only [hutc, hion]
  rfl

/-- **An AID-HUI frame.** -/
theorem assist_hui (fp : FixedPoint) (frames : List AcceptedFrame) {f : AcceptedFrame}
    (hcls : f.msgClass = UBX_CLASS_AID) (hid : f.msgId = UBX_AID_HUI) :
    assistMachine (terminatedDt fp) (assistOf fp frames) f
      = some (assistOf fp (frames ++ [f]), f.length) := by
  have halm : ¬ f.StoresAlmanac := fun h => absurd (hid.symm.trans h.2.1) (by decide)
  have heph : ¬ f.StoresEphemeris := fun h => absurd (hid.symm.trans h.2.1) (by decide)
  rw [step_hui fp _ hcls hid]
  by_cases hutc : f.StoresUtc <;> by_cases hion : f.StoresIonosphere <;>
    simp only [assistOf, utcFrames_concat, ionosphereFrames_concat, almanacFrames_concat,
      ephemerisFrames_concat, hutc, hion, halm, heph, if_true, if_false, ofLast_concat,
      fieldBits_utc, fieldBits_ionosphere, decide_concat_ne_nil]

/-- A frame that stores nothing changes nothing. -/
theorem step_silent (fp : FixedPoint) (gps : GpsAssistData) {f : AcceptedFrame}
    (halm : ¬ f.StoresAlmanac) (heph : ¬ f.StoresEphemeris)
    (hhui : ¬ (f.msgClass = UBX_CLASS_AID ∧ f.msgId = UBX_AID_HUI)) :
    assistMachine (terminatedDt fp) gps f = some (gps, f.length) := by
  rw [assistMachine_eq, entryFor_terminatedDt]
  split_ifs with hpos hini hhui' halm' heph'
  · rfl
  · rfl
  · exact absurd ⟨hhui'.1.symm, hhui'.2.symm⟩ hhui
  · have hweek : uint32At f.mem (f.payload + 4) = 0#32 := by
      by_contra hc
      exact halm ⟨halm'.1.symm, halm'.2.symm, hc⟩
    simp [ubxMsgParseAidAlm, hweek, AcceptedFrame.length]
  · have hpresent : uint32At f.mem (f.payload + 4) = 0#32 := by
      by_contra hc
      exact heph ⟨heph'.1.symm, heph'.2.symm, hc⟩
    simp [ubxMsgParseAidEph, hpresent, AcceptedFrame.length]
  · rfl

/-- **Every frame adds what it says**, while there is room for it. -/
theorem assist_step (fp : FixedPoint) (frames : List AcceptedFrame) (f : AcceptedFrame)
    (hfit : EntriesFit frames) :
    assistMachine (terminatedDt fp) (assistOf fp frames) f =
      if EntriesFit (frames ++ [f]) then some (assistOf fp (frames ++ [f]), f.length) else none := by
  by_cases halm : f.StoresAlmanac
  · have hiff : EntriesFit (frames ++ [f]) ↔ (almanacFrames frames).length < MAX_SV := by
      rw [EntriesFit, almanacFrames_concat, ephemerisFrames_concat, if_pos halm,
        if_neg (not_storesEphemeris halm), List.length_append, List.length_singleton]
      exact ⟨fun h => h.1, fun h => ⟨h, hfit.2⟩⟩
    rw [assist_almanac fp frames halm]
    simp only [hiff]
  by_cases heph : f.StoresEphemeris
  · have hiff : EntriesFit (frames ++ [f]) ↔ (ephemerisFrames frames).length < MAX_SV := by
      rw [EntriesFit, almanacFrames_concat, ephemerisFrames_concat, if_neg halm, if_pos heph,
        List.length_append, List.length_singleton]
      exact ⟨fun h => h.2, fun h => ⟨hfit.1, h⟩⟩
    rw [assist_ephemeris fp frames heph]
    simp only [hiff]
  have hfit' : EntriesFit (frames ++ [f]) := by
    rw [EntriesFit, almanacFrames_concat, ephemerisFrames_concat, if_neg halm, if_neg heph]
    exact hfit
  rw [if_pos hfit']
  by_cases hhui : f.msgClass = UBX_CLASS_AID ∧ f.msgId = UBX_AID_HUI
  · exact assist_hui fp frames hhui.1 hhui.2
  · rw [step_silent fp _ halm heph hhui]
    have hutc : ¬ f.StoresUtc := fun h => hhui ⟨h.1, h.2.1⟩
    have hion : ¬ f.StoresIonosphere := fun h => hhui ⟨h.1, h.2.1⟩
    simp only [assistOf, utcFrames_concat, ionosphereFrames_concat, almanacFrames_concat,
      ephemerisFrames_concat, hutc, hion, halm, heph, if_false]

/-- Too many entries stay too many. -/
theorem EntriesFit.of_concat {frames : List AcceptedFrame} {f : AcceptedFrame}
    (h : EntriesFit (frames ++ [f])) : EntriesFit frames := by
  obtain ⟨halm, heph⟩ := h
  rw [almanacFrames_concat] at halm
  rw [ephemerisFrames_concat] at heph
  refine ⟨?_, ?_⟩
  · split at halm
    · rw [List.length_append] at halm
      omega
    · exact halm
  · split at heph
    · rw [List.length_append] at heph
      omega
    · exact heph

/-- The data are what the frames say, whatever the conversions to fixed point. -/
theorem assistData_eq (fp : FixedPoint) (frames : List AcceptedFrame) :
    assistData fp frames = if EntriesFit frames then some (assistOf fp frames) else none := by
  induction frames using List.reverseRecOn with
  | nil => rfl
  | append_singleton frames f ih =>
    rw [assistData, Machine.run_concat_map_fst]
    rw [assistData] at ih
    rw [ih]
    by_cases hfit : EntriesFit frames
    · rw [if_pos hfit, Option.bind_some, assist_step fp frames f hfit]
      split <;> rfl
    · rw [if_neg hfit, if_neg fun h => hfit h.of_concat]
      rfl

/-- **The handlers compute what the frames say.** Whatever frames are dispatched, in
whatever order, from zeroed data: when both tables have room for the entries the
data are `assistOf` of the frames, every member of them, and otherwise a handler
writes behind a table. A member that is converted from floating point is the integer
part of the exact product when that is an `int`, and what the machine makes of an
undefined conversion otherwise. -/
theorem assistData_eq_assistOf (undef : FixedPoint) (frames : List AcceptedFrame) :
    assistData (conversions undef) frames
      = if EntriesFit frames then some (assistOf (exactConversions undef) frames) else none := by
  rw [assistData_eq, conversions_eq]

end UbloxRead
