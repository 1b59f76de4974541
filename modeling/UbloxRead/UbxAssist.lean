/-
UbloxRead.UbxAssist — what a sequence of frames says about the satellites.

`assistData` runs the handlers one frame after the other on one `struct
gps_assist_data`. `assistOf` is the meaning of the sequence without that state:
each part of the data in terms of the frames that carry it. The tables have one
entry for a frame, in the order of the frames; the models and the week of the
almanac are those of the last frame that has them.
-/
import UbloxRead.UbxWidths

namespace UbloxRead

open Lib

namespace AcceptedFrame

/-- An AID-HUI frame whose flags say that its Klobuchar parameters are valid. -/
def StoresIonosphere (f : AcceptedFrame) : Prop :=
  f.msgClass = UBX_CLASS_AID ∧ f.msgId = UBX_AID_HUI ∧
    uint32At f.mem (f.payload + 68) &&& 0x04#32 ≠ 0#32

instance (f : AcceptedFrame) : Decidable f.StoresIonosphere := inferInstanceAs (Decidable (_ ∧ _))

/-- The ionosphere model its handler makes of an AID-HUI frame. -/
def ionosphereModel (fp : FixedPoint) (f : AcceptedFrame) : GpsIonosphereModel where
  alpha0 := fp.floatToFixedpoint (floatAt f.mem (f.payload + 36)) (-30)
  alpha1 := fp.floatToFixedpoint (floatAt f.mem (f.payload + 40)) (-27)
  alpha2 := fp.floatToFixedpoint (floatAt f.mem (f.payload + 44)) (-24)
  alpha3 := fp.floatToFixedpoint (floatAt f.mem (f.payload + 48)) (-24)
  beta0 := fp.floatToFixedpoint (floatAt f.mem (f.payload + 52)) 11
  beta1 := fp.floatToFixedpoint (floatAt f.mem (f.payload + 56)) 14
  beta2 := fp.floatToFixedpoint (floatAt f.mem (f.payload + 60)) 16
  beta3 := fp.floatToFixedpoint (floatAt f.mem (f.payload + 64)) 16

/-- The entry its handler makes of an AID-ALM frame. -/
def almanacSv (f : AcceptedFrame) : GpsAlmanacSv :=
  (gpsUnpackSf45Almanac (wordsAt f.mem (f.payload + 8)) .zero).2

/-- The week number of an AID-ALM frame, modulo 256. -/
def wna (f : AcceptedFrame) : Int := (uint32At f.mem (f.payload + 4) &&& 0xff#32).toInt

end AcceptedFrame

/-- The frames with UTC parameters. -/
def utcFrames (frames : List AcceptedFrame) : List AcceptedFrame :=
  frames.filter fun f => f.StoresUtc

/-- The frames with Klobuchar parameters. -/
def ionosphereFrames (frames : List AcceptedFrame) : List AcceptedFrame :=
  frames.filter fun f => f.StoresIonosphere

/-- `fields`, from what there is. -/
def fieldBits (ionosphere utc almanac ephemeris : Bool) : BitVec 32 :=
  (if ionosphere then GPS_FIELD_IONOSPHERE else 0#32) ||| (if utc then GPS_FIELD_UTC else 0#32) |||
    (if almanac then GPS_FIELD_ALMANAC else 0#32) ||| (if ephemeris then GPS_FIELD_EPHEMERIS else 0#32)

/-- A table with one entry for each frame, and zeros behind them. -/
def entries {α : Type} (zero : α) (entry : AcceptedFrame → α) (frames : List AcceptedFrame) :
    Fin MAX_SV → α :=
  fun i => (frames[i.val]?).elim zero entry

/-- What the last frame says, if there is one. -/
def ofLast {α : Type} (zero : α) (value : AcceptedFrame → α) (frames : List AcceptedFrame) : α :=
  frames.getLast?.elim zero value

/-- The assist data that a sequence of frames amounts to. -/
def assistOf (fp : FixedPoint) (frames : List AcceptedFrame) : GpsAssistData where
  fields := fieldBits (ionosphereFrames frames ≠ []) (utcFrames frames ≠ [])
    (almanacFrames frames ≠ []) (ephemerisFrames frames ≠ [])
  ionosphere := ofLast ⟨0, 0, 0, 0, 0, 0, 0, 0⟩ (·.ionosphereModel fp) (ionosphereFrames frames)
  utc := ofLast ⟨0, 0, 0, 0, 0, 0, 0, 0⟩ (·.utcModel fp) (utcFrames frames)
  almanac :=
    { wna := ofLast 0 (·.wna) (almanacFrames frames)
      nSv := (almanacFrames frames).length
      svs := entries .zero (·.almanacSv) (almanacFrames frames) }
  ephemeris :=
    { nSv := (ephemerisFrames frames).length
      svs := entries .zero (·.ephemerisSv) (ephemerisFrames frames) }

/-- Both kinds of entries have room in their tables. -/
def EntriesFit (frames : List AcceptedFrame) : Prop :=
  (almanacFrames frames).length ≤ MAX_SV ∧ (ephemerisFrames frames).length ≤ MAX_SV

instance (frames : List AcceptedFrame) : Decidable (EntriesFit frames) :=
  inferInstanceAs (Decidable (_ ∧ _))

end UbloxRead
