/-
UbloxRead.UbxReads — which bytes the handlers of `ubx-parse.c` read.

A handler lays a fixed-size structure over the payload and never looks at
`payload_len`. Each `…Access` below is the handler of the same name written with
one load for every byte of every member it reads, in the source's order; the
unpacking of a page of words is preceded by the loads of its words. What it
computes is the handler of `UbxParse`, and its log are the bytes the handler
touches. `handlerTouched` is the log of what `ubx_msg_dispatch` runs for a frame.
-/
import UbloxRead.UbxParse

namespace UbloxRead

open Lib

/-! ## Members, byte by byte -/

def leBytesAccess : Nat → Nat → MemAccess Nat
  | _, 0 => pure 0
  | p, n + 1 => do
    let b ← Access.load p
    let rest ← leBytesAccess (p + 1) n
    return b.toNat + 256 * rest

def uint32Access (p : Nat) : MemAccess (BitVec 32) := do
  return BitVec.ofNat 32 (← leBytesAccess p 4)

def int32Access (p : Nat) : MemAccess (BitVec 32) := do
  return BitVec.ofNat 32 (← leBytesAccess p 4)

def int16Access (p : Nat) : MemAccess (BitVec 16) := do
  return BitVec.ofNat 16 (← leBytesAccess p 2)

def floatAccess (p : Nat) : MemAccess (BitVec 32) := do
  return BitVec.ofNat 32 (← leBytesAccess p 4)

def doubleAccess (p : Nat) : MemAccess (BitVec 64) := do
  return BitVec.ofNat 64 (← leBytesAccess p 8)

/-- The first `n` words of an array of `uint32_t`. -/
def wordsAccess : Nat → Nat → MemAccess Words
  | _, 0 => return fun _ => 0#32
  | p, n + 1 => do
    let word ← uint32Access p
    let rest ← wordsAccess (p + 4) n
    return fun i => if i = 0 then word else rest (i - 1)

/-! ## The handlers, access by access -/

/-- `ubx_msg_handler_t` as a computation over the memory. -/
abbrev UbxMsgAccess := Nat → Nat → Nat → GpsAssistData → MemAccess (Option GpsAssistData)

/-- `_ubx_msg_parse_nav_posllh`. -/
def ubxMsgParseNavPosllhAccess : UbxMsgAccess := fun _ _ _ gps => return some gps

/-- `_ubx_msg_parse_aid_ini`. -/
def ubxMsgParseAidIniAccess : UbxMsgAccess := fun _ _ _ gps => return some gps

/-- The `if` of `_ubx_msg_parse_aid_hui` for the UTC parameters. -/
def huiUtcAccess (fp : FixedPoint) (pl : Nat) (gps : GpsAssistData) : MemAccess GpsAssistData := do
  let flags ← uint32Access (pl + 68)
  if flags &&& 0x2#32 ≠ 0#32 then
    let utcA0 ← doubleAccess (pl + 12)
    let utcA1 ← doubleAccess (pl + 4)
    let utcLs ← int16Access (pl + 26)
    let utcTot ← int32Access (pl + 20)
    let utcWnt ← int16Access (pl + 24)
    let utcWnf ← int16Access (pl + 28)
    let utcDn ← int16Access (pl + 30)
    let utcLsf ← int16Access (pl + 32)
    return { gps with
      fields := gps.fields ||| GPS_FIELD_UTC
      utc :=
        { a0 := fp.doubleToFixedpoint utcA0 (-30)
          a1 := fp.doubleToFixedpoint utcA1 (-50)
          deltaTLs := utcLs.toInt
          tOt := (utcTot.sshiftRight 12).toInt
          wnT := utcWnt.toInt
          wnLsf := utcWnf.toInt
          dn := utcDn.toInt
          deltaTLsf := utcLsf.toInt } }
  else return gps

/-- The `if` of `_ubx_msg_parse_aid_hui` for the Klobuchar parameters. -/
def huiIonosphereAccess (fp : FixedPoint) (pl : Nat) (gps : GpsAssistData) :
    MemAccess GpsAssistData := do
  let flags ← uint32Access (pl + 68)
  if flags &&& 0x04#32 ≠ 0#32 then
    let klobA0 ← floatAccess (pl + 36)
    let klobA1 ← floatAccess (pl + 40)
    let klobA2 ← floatAccess (pl + 44)
    let klobA3 ← floatAccess (pl + 48)
    let klobB0 ← floatAccess (pl + 52)
    let klobB1 ← floatAccess (pl + 56)
    let klobB2 ← floatAccess (pl + 60)
    let klobB3 ← floatAccess (pl + 64)
    return { gps with
      fields := gps.fields ||| GPS_FIELD_IONOSPHERE
      ionosphere :=
        { alpha0 := fp.floatToFixedpoint klobA0 (-30)
          alpha1 := fp.floatToFixedpoint klobA1 (-27)
          alpha2 := fp.floatToFixedpoint klobA2 (-24)
          alpha3 := fp.floatToFixedpoint klobA3 (-24)
          beta0 := fp.floatToFixedpoint klobB0 11
          beta1 := fp.floatToFixedpoint klobB1 14
          beta2 := fp.floatToFixedpoint klobB2 16
          beta3 := fp.floatToFixedpoint klobB3 16 } }
  else return gps

/-- `_ubx_msg_parse_aid_hui`. -/
def ubxMsgParseAidHuiAccess (fp : FixedPoint) : UbxMsgAccess := fun _ pl _ gps => do
  let gps ← huiUtcAccess fp pl gps
  let gps ← huiIonosphereAccess fp pl gps
  return some gps

/-- `_ubx_msg_parse_aid_alm`. -/
def ubxMsgParseAidAlmAccess : UbxMsgAccess := fun _ pl _ gps => do
  let gpsWeek ← uint32Access (pl + 4)
  if gpsWeek ≠ 0#32 then
    let gpsWeek ← uint32Access (pl + 4)
    let words ← wordsAccess (pl + 8) 8
    let gps := { gps with fields := gps.fields ||| GPS_FIELD_ALMANAC }
    return if h : gps.almanac.nSv < MAX_SV then
      let i : Fin MAX_SV := ⟨gps.almanac.nSv, h⟩
      some { gps with
        almanac :=
          { wna := (gpsWeek &&& 0xff#32).toInt
            nSv := gps.almanac.nSv + 1
            svs := Function.update gps.almanac.svs i
              (gpsUnpackSf45Almanac words (gps.almanac.svs i)).2 } }
    else none
  else return some gps

/-- `_ubx_msg_parse_aid_eph`. -/
def ubxMsgParseAidEphAccess : UbxMsgAccess := fun _ pl _ gps => do
  let present ← uint32Access (pl + 4)
  if present ≠ 0#32 then
    let svId ← uint32Access pl
    let words ← wordsAccess (pl + 8) 24
    let gps := { gps with fields := gps.fields ||| GPS_FIELD_EPHEMERIS }
    return if h : gps.ephemeris.nSv < MAX_SV then
      let i : Fin MAX_SV := ⟨gps.ephemeris.nSv, h⟩
      let sv := { gps.ephemeris.svs i with svId := svId.toInt }
      some { gps with
        ephemeris :=
          { nSv := gps.ephemeris.nSv + 1
            svs := Function.update gps.ephemeris.svs i (gpsUnpackSf123 words sv).2 } }
    else none
  else return some gps

/-- `ubx_parse_dt`. -/
def ubxParseDtAccess (fp : FixedPoint) : List (DispatchEntry UbxMsgAccess) :=
  [⟨UBX_CLASS_NAV, UBX_NAV_POSLLH, some ubxMsgParseNavPosllhAccess⟩,
    ⟨UBX_CLASS_AID, UBX_AID_INI, some ubxMsgParseAidIniAccess⟩,
    ⟨UBX_CLASS_AID, UBX_AID_HUI, some (ubxMsgParseAidHuiAccess fp)⟩,
    ⟨UBX_CLASS_AID, UBX_AID_ALM, some ubxMsgParseAidAlmAccess⟩,
    ⟨UBX_CLASS_AID, UBX_AID_EPH, some ubxMsgParseAidEphAccess⟩]

/-! ## A frame in memory, dispatched -/

/-- Dispatch what stands at `msg` and run the handler found on the assist data:
the data afterwards. -/
def dispatchedData (fp : FixedPoint) (mem : Mem) (msg : Nat) (len : Int) (gps : GpsAssistData) :
    Option GpsAssistData :=
  match ubxMsgDispatch (ubxParseDt fp) mem msg len with
  | none => none
  | some (_, none) => some gps
  | some (_, some call) => call.handler mem call.hdr call.payload call.payloadLen gps

/-- The bytes that the handler run for it touches. -/
def handlerTouched (fp : FixedPoint) (mem : Mem) (msg : Nat) (len : Int) (gps : GpsAssistData) :
    List Nat :=
  match ubxMsgDispatch (ubxParseDtAccess fp) mem msg len with
  | none => []
  | some (_, none) => []
  | some (_, some call) =>
    ((call.handler call.hdr call.payload call.payloadLen gps).run mem).touched

namespace AcceptedFrame

/-- The handler touches nothing but the declared payload. -/
def ReadsOnlyPayload (fp : FixedPoint) (f : AcceptedFrame) : Prop :=
  ∀ gps, ∀ o ∈ handlerTouched fp f.mem f.ptr f.left gps,
    f.payload ≤ o ∧ o < f.payload + f.payloadLen

/-- **The two-run law**: any memory with the same bytes of the frame gives the same
assist data. -/
def DecidedByFrame (fp : FixedPoint) (f : AcceptedFrame) : Prop :=
  ∀ mem : Mem, (∀ o, f.ptr ≤ o → o < f.ptr + 8 + f.payloadLen → mem o = f.mem o) →
    ∀ gps, dispatchedData fp mem f.ptr f.left gps = dispatchedData fp f.mem f.ptr f.left gps

/-- The payload is as long as its kind asks for: `hui` bytes of an AID-HUI frame; of
an AID-ALM and an AID-EPH frame `short` bytes, and `alm` or `eph` when the word
that announces the rest is not 0. -/
def HasBytes (hui short alm eph : Nat) (f : AcceptedFrame) : Prop :=
  f.msgClass = UBX_CLASS_AID →
    (f.msgId = UBX_AID_HUI → hui ≤ f.payloadLen) ∧
    (f.msgId = UBX_AID_ALM → short ≤ f.payloadLen ∧ (f.StoresAlmanac → alm ≤ f.payloadLen)) ∧
    (f.msgId = UBX_AID_EPH → short ≤ f.payloadLen ∧ (f.StoresEphemeris → eph ≤ f.payloadLen))

end AcceptedFrame

end UbloxRead
