/-
UbloxRead.UbxParse — the handlers of `ubx-parse.c` and the assist data they
fill.

A payload is read where it stands, whatever length the frame declares. The
almanac and the ephemeris have room for `MAX_SV` entries; a handler that writes
behind them has no outcome. The handlers take the two conversions from floating
point to fixed point as an argument: those of the code are `conversions`, defined
with their loops in FixedPoint, and what is stated for any `fp` holds of them.
-/
import UbloxRead.Gps
import UbloxRead.UbxAck
import UbloxRead.UbxDispatch
import UbloxRead.Lib.Run

namespace UbloxRead

open Lib

/-! ## Little-endian payload members -/

/-- The number in `n` bytes from `p` on. -/
def leBytes (mem : Mem) : Nat → Nat → Nat
  | _, 0 => 0
  | p, n + 1 => (mem p).toNat + 256 * leBytes mem (p + 1) n

def uint32At (mem : Mem) (p : Nat) : BitVec 32 := BitVec.ofNat 32 (leBytes mem p 4)
def int32At (mem : Mem) (p : Nat) : BitVec 32 := BitVec.ofNat 32 (leBytes mem p 4)
def int16At (mem : Mem) (p : Nat) : BitVec 16 := BitVec.ofNat 16 (leBytes mem p 2)
def floatAt (mem : Mem) (p : Nat) : BitVec 32 := BitVec.ofNat 32 (leBytes mem p 4)
def doubleAt (mem : Mem) (p : Nat) : BitVec 64 := BitVec.ofNat 64 (leBytes mem p 8)

/-- An array of `uint32_t`. -/
def wordsAt (mem : Mem) (p : Nat) : Words := fun i => uint32At mem (p + 4 * i)

/-! ## The assist data -/

def MAX_SV : Nat := 64

def GPS_FIELD_IONOSPHERE : BitVec 32 := 1#32 <<< 0
def GPS_FIELD_UTC : BitVec 32 := 1#32 <<< 1
def GPS_FIELD_ALMANAC : BitVec 32 := 1#32 <<< 2
def GPS_FIELD_EPHEMERIS : BitVec 32 := 1#32 <<< 3

/-- `struct gps_ionosphere_model`. -/
structure GpsIonosphereModel where
  alpha0 : Int
  alpha1 : Int
  alpha2 : Int
  alpha3 : Int
  beta0 : Int
  beta1 : Int
  beta2 : Int
  beta3 : Int

/-- `struct gps_utc_model`. -/
structure GpsUtcModel where
  a0 : Int
  a1 : Int
  deltaTLs : Int
  tOt : Int
  wnT : Int
  wnLsf : Int
  dn : Int
  deltaTLsf : Int

/-- `struct gps_almanac`. -/
structure GpsAlmanac where
  wna : Int
  nSv : Nat
  svs : Fin MAX_SV → GpsAlmanacSv

/-- `struct gps_ephemeris`. -/
structure GpsEphemeris where
  nSv : Nat
  svs : Fin MAX_SV → GpsEphemerisSv

/-- `struct gps_assist_data`. -/
structure GpsAssistData where
  fields : BitVec 32
  ionosphere : GpsIonosphereModel
  utc : GpsUtcModel
  almanac : GpsAlmanac
  ephemeris : GpsEphemeris

def GpsAlmanacSv.zero : GpsAlmanacSv := ⟨0, 0, 0, 0, 0, 0, 0, 0, 0, 0, 0, 0⟩

def GpsEphemerisSv.zero : GpsEphemerisSv :=
  ⟨0, 0, 0, 0, 0, 0, 0, 0, 0, 0, 0, 0, 0, 0, 0, 0, 0, 0, 0, 0, 0, 0, 0, 0, 0, 0, 0, 0, 0, 0, 0, 0, 0, 0⟩

/-- A zeroed `struct gps_assist_data`. -/
def GpsAssistData.zero : GpsAssistData where
  fields := 0#32
  ionosphere := ⟨0, 0, 0, 0, 0, 0, 0, 0⟩
  utc := ⟨0, 0, 0, 0, 0, 0, 0, 0⟩
  almanac := ⟨0, 0, fun _ => .zero⟩
  ephemeris := ⟨0, fun _ => .zero⟩

/-- `gps->fields & field`. -/
def GpsAssistData.HasField (gps : GpsAssistData) (field : BitVec 32) : Prop :=
  gps.fields &&& field ≠ 0#32

/-! ## The handlers -/

/-- Two functions of the types of `float_to_fixedpoint` and `double_to_fixedpoint`,
from the bits of the number and a scale factor. -/
structure FixedPoint where
  floatToFixedpoint : BitVec 32 → Int → Int
  doubleToFixedpoint : BitVec 64 → Int → Int

/-- `ubx_msg_handler_t`: `hdr`, `payload`, `payload_len` and `userdata`. -/
abbrev UbxMsgHandler := Mem → Nat → Nat → Nat → GpsAssistData → Option GpsAssistData

/-- `_ubx_msg_parse_nav_posllh`. -/
def ubxMsgParseNavPosllh : UbxMsgHandler := fun _ _ _ _ gps => some gps

/-- `_ubx_msg_parse_aid_ini`. -/
def ubxMsgParseAidIni : UbxMsgHandler := fun _ _ _ _ gps => some gps

/-- `_ubx_msg_parse_aid_hui`. -/
def ubxMsgParseAidHui (fp : FixedPoint) : UbxMsgHandler := fun mem _ pl _ gps =>
  let flags := uint32At mem (pl + 68)
  let gps :=
    if flags &&& 0x2#32 ≠ 0#32 then
      { gps with
        fields := gps.fields ||| GPS_FIELD_UTC
        utc :=
          { a0 := fp.doubleToFixedpoint (doubleAt mem (pl + 12)) (-30)
            a1 := fp.doubleToFixedpoint (doubleAt mem (pl + 4)) (-50)
            deltaTLs := (int16At mem (pl + 26)).toInt
            tOt := ((int32At mem (pl + 20)).sshiftRight 12).toInt
            wnT := (int16At mem (pl + 24)).toInt
            wnLsf := (int16At mem (pl + 28)).toInt
            dn := (int16At mem (pl + 30)).toInt
            deltaTLsf := (int16At mem (pl + 32)).toInt } }
    else gps
  let gps :=
    if flags &&& 0x04#32 ≠ 0#32 then
      { gps with
        fields := gps.fields ||| GPS_FIELD_IONOSPHERE
        ionosphere :=
          { alpha0 := fp.floatToFixedpoint (floatAt mem (pl + 36)) (-30)
            alpha1 := fp.floatToFixedpoint (floatAt mem (pl + 40)) (-27)
            alpha2 := fp.floatToFixedpoint (floatAt mem (pl + 44)) (-24)
            alpha3 := fp.floatToFixedpoint (floatAt mem (pl + 48)) (-24)
            beta0 := fp.floatToFixedpoint (floatAt mem (pl + 52)) 11
            beta1 := fp.floatToFixedpoint (floatAt mem (pl + 56)) 14
            beta2 := fp.floatToFixedpoint (floatAt mem (pl + 60)) 16
            beta3 := fp.floatToFixedpoint (floatAt mem (pl + 64)) 16 } }
    else gps
  some gps

/-- `_ubx_msg_parse_aid_alm`. -/
def ubxMsgParseAidAlm : UbxMsgHandler := fun mem _ pl _ gps =>
  let gpsWeek := uint32At mem (pl + 4)
  if gpsWeek ≠ 0#32 then
    let gps := { gps with fields := gps.fields ||| GPS_FIELD_ALMANAC }
    if h : gps.almanac.nSv < MAX_SV then
      let i : Fin MAX_SV := ⟨gps.almanac.nSv, h⟩
      some { gps with
        almanac :=
          { wna := (gpsWeek &&& 0xff#32).toInt
            nSv := gps.almanac.nSv + 1
            svs := Function.update gps.almanac.svs i
              (gpsUnpackSf45Almanac (wordsAt mem (pl + 8)) (gps.almanac.svs i)).2 } }
    else none
  else some gps

/-- `_ubx_msg_parse_aid_eph`: what the unpacking returns is not looked at. -/
def ubxMsgParseAidEph : UbxMsgHandler := fun mem _ pl _ gps =>
  let present := uint32At mem (pl + 4)
  if present ≠ 0#32 then
    let gps := { gps with fields := gps.fields ||| GPS_FIELD_EPHEMERIS }
    if h : gps.ephemeris.nSv < MAX_SV then
      let i : Fin MAX_SV := ⟨gps.ephemeris.nSv, h⟩
      let sv := { gps.ephemeris.svs i with svId := (uint32At mem pl).toInt }
      some { gps with
        ephemeris :=
          { nSv := gps.ephemeris.nSv + 1
            svs := Function.update gps.ephemeris.svs i
              (gpsUnpackSf123 (wordsAt mem (pl + 8)) sv).2 } }
    else none
  else some gps

/-! ## The dispatch table -/

/-- `ubx_parse_dt`. -/
def ubxParseDt (fp : FixedPoint) : List (DispatchEntry UbxMsgHandler) :=
  [⟨UBX_CLASS_NAV, UBX_NAV_POSLLH, some ubxMsgParseNavPosllh⟩,
    ⟨UBX_CLASS_AID, UBX_AID_INI, some ubxMsgParseAidIni⟩,
    ⟨UBX_CLASS_AID, UBX_AID_HUI, some (ubxMsgParseAidHui fp)⟩,
    ⟨UBX_CLASS_AID, UBX_AID_ALM, some ubxMsgParseAidAlm⟩,
    ⟨UBX_CLASS_AID, UBX_AID_EPH, some ubxMsgParseAidEph⟩]

/-- The handlers of `ubx_parse_dt` as a table `ubx_find_handler` can search:
with an entry behind them whose handler is NULL. -/
def terminatedDt (fp : FixedPoint) : List (DispatchEntry UbxMsgHandler) :=
  ubxParseDt fp ++ [⟨0, 0, none⟩]

/-- Dispatch a frame and run the handler found on the assist data. -/
def assistMachine (dt : List (DispatchEntry UbxMsgHandler)) :
    Machine GpsAssistData AcceptedFrame Int := fun gps f =>
  match ubxMsgDispatch dt f.mem f.ptr f.left with
  | none => none
  | some (ret, none) => some (gps, ret)
  | some (ret, some call) =>
    (call.handler f.mem call.hdr call.payload call.payloadLen gps).map fun gps => (gps, ret)

/-! ## What the frames hold -/

namespace AcceptedFrame

/-- The payload starts behind the header. -/
def payload (f : AcceptedFrame) : Nat := f.ptr + 6

/-- An AID-ALM frame whose `gps_week` is not 0. -/
def StoresAlmanac (f : AcceptedFrame) : Prop :=
  f.msgClass = UBX_CLASS_AID ∧ f.msgId = UBX_AID_ALM ∧ uint32At f.mem (f.payload + 4) ≠ 0#32

/-- An AID-EPH frame whose `present` is not 0. -/
def StoresEphemeris (f : AcceptedFrame) : Prop :=
  f.msgClass = UBX_CLASS_AID ∧ f.msgId = UBX_AID_EPH ∧ uint32At f.mem (f.payload + 4) ≠ 0#32

/-- The words of its subframes 1 to 3. -/
def ephWords (f : AcceptedFrame) : Words := wordsAt f.mem (f.payload + 8)

/-- Its low byte of iodc and both iodes are equal: bits 16..23 of words 5, 8 and
23. -/
def IssuesAgree (f : AcceptedFrame) : Prop :=
  (f.ephWords 5).extractLsb' 16 8 = (f.ephWords 8).extractLsb' 16 8 ∧
    (f.ephWords 5).extractLsb' 16 8 = (f.ephWords 23).extractLsb' 16 8

instance (f : AcceptedFrame) : Decidable f.StoresAlmanac := inferInstanceAs (Decidable (_ ∧ _))

instance (f : AcceptedFrame) : Decidable f.StoresEphemeris := inferInstanceAs (Decidable (_ ∧ _))

instance (f : AcceptedFrame) : Decidable f.IssuesAgree := inferInstanceAs (Decidable (_ ∧ _))

/-- The entry its handler makes of an AID-EPH frame. -/
def ephemerisSv (f : AcceptedFrame) : GpsEphemerisSv :=
  (gpsUnpackSf123 f.ephWords { GpsEphemerisSv.zero with svId := (uint32At f.mem f.payload).toInt }).2

end AcceptedFrame

/-- The almanac frames of a sequence. -/
def almanacFrames (frames : List AcceptedFrame) : List AcceptedFrame :=
  frames.filter fun f => f.StoresAlmanac

/-- The ephemeris frames of a sequence. -/
def ephemerisFrames (frames : List AcceptedFrame) : List AcceptedFrame :=
  frames.filter fun f => f.StoresEphemeris

/-- Those whose issues of data agree. -/
def consistentFrames (frames : List AcceptedFrame) : List AcceptedFrame :=
  (ephemerisFrames frames).filter fun f => f.IssuesAgree

/-- Dispatching the frames one after the other from zeroed assist data: the data
afterwards. -/
def assistData (fp : FixedPoint) (frames : List AcceptedFrame) : Option GpsAssistData :=
  ((assistMachine (terminatedDt fp)).run .zero frames).map (·.1)

/-- Along the whole sequence no handler writes an entry outside its table, and
the counters stay within it. -/
def AssistStaysInside (fp : FixedPoint) (frames : List AcceptedFrame) : Prop :=
  ∀ n, ∃ gps, assistData fp (frames.take n) = some gps ∧
    gps.almanac.nSv ≤ MAX_SV ∧ gps.ephemeris.nSv ≤ MAX_SV

/-- The search for the handler of a frame ends inside `ubx_parse_dt`, the handler
of an entry with the frame's class and id is run, and a frame for which there is
none runs nothing, leaves the data alone and is answered with its length. -/
structure SearchStaysInTable (fp : FixedPoint) (f : AcceptedFrame) : Prop where
  inside : ∃ h, ubxFindHandler (ubxParseDt fp) f.msgClass f.msgId = some h
  listed : ∀ e ∈ ubxParseDt fp, e.msgClass = f.msgClass ∧ e.msgId = f.msgId →
    ubxMsgDispatch (ubxParseDt fp) f.mem f.ptr f.left =
      some (((8 + f.payloadLen : Nat) : Int),
        e.handler.map fun h => ⟨h, f.ptr, f.payload, f.payloadLen⟩)
  unlisted : (∀ e ∈ ubxParseDt fp, ¬ (e.msgClass = f.msgClass ∧ e.msgId = f.msgId)) →
    ubxMsgDispatch (ubxParseDt fp) f.mem f.ptr f.left
        = some (((8 + f.payloadLen : Nat) : Int), none) ∧
      ∀ gps, assistMachine (ubxParseDt fp) gps f = some (gps, ((8 + f.payloadLen : Nat) : Int))

/-- The ephemeris holds the consistent frames, in order, and nothing else; and a
frame whose issues of data disagree changes nothing. -/
structure EphemerisOfConsistent (fp : FixedPoint) (frames : List AcceptedFrame) : Prop where
  holds : ∃ gps, assistData fp frames = some gps ∧
    gps.ephemeris.nSv = (consistentFrames frames).length ∧
    (gps.HasField GPS_FIELD_EPHEMERIS ↔ consistentFrames frames ≠ []) ∧
    ∀ (i : Fin MAX_SV) f, (consistentFrames frames)[i.val]? = some f →
      gps.ephemeris.svs i = f.ephemerisSv
  unchanged : ∀ pre f post, frames = pre ++ f :: post → f.StoresEphemeris → ¬ f.IssuesAgree →
    assistData fp (pre ++ [f]) = assistData fp pre

end UbloxRead
