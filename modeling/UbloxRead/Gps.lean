/-
UbloxRead.Gps — the GPS data of `gps.h` and the unpacking of `gps.c`.

A subframe is an array of 32-bit words of which the low 24 bits are used. The
two functions take its fields out one by one; the field of an `int` or an
`unsigned int` member holds the number. Left shifts drop what leaves the word,
right shifts of an `int` keep its sign.
-/
import Mathlib.Tactic.MkIffOfInductiveProp
import UbloxRead.Lib.BitField

namespace UbloxRead

open Lib

/-- A pointer to `uint32_t`. -/
abbrev Words := Nat → BitVec 32

abbrev GET_FIELD_U (w : BitVec 32) (nb pos : Nat) : BitVec 32 := fieldU w nb pos

abbrev GET_FIELD_S (w : BitVec 32) (nb pos : Nat) : BitVec 32 := fieldS w nb pos

/-! ## The structures -/

/-- `struct gps_almanac_sv`. -/
@[ext] structure GpsAlmanacSv where
  svId : Int
  svHealth : Int
  e : Int
  tOa : Int
  ksii : Int
  omegaDot : Int
  aPowhalf : Int
  omega0 : Int
  w : Int
  m0 : Int
  aF0 : Int
  aF1 : Int
  deriving DecidableEq

/-- `struct gps_ephemeris_sv`; `e` and `a_powhalf` are the unsigned members. -/
@[ext] structure GpsEphemerisSv where
  svId : Int
  codeOnL2 : Int
  weekNo : Int
  l2PFlag : Int
  svUra : Int
  svHealth : Int
  tGd : Int
  iodc : Int
  tOc : Int
  aF2 : Int
  aF1 : Int
  aF0 : Int
  cRs : Int
  deltaN : Int
  m0 : Int
  cUc : Int
  e : Int
  cUs : Int
  aPowhalf : Int
  tOe : Int
  fitFlag : Int
  cIc : Int
  omega0 : Int
  cIs : Int
  i0 : Int
  cRc : Int
  w : Int
  omegaDot : Int
  idot : Int
  rsvd1 : Int
  rsvd2 : Int
  rsvd3 : Int
  rsvd4 : Int
  aodo : Int
  deriving DecidableEq

/-! ## Unpacking -/

/-- `gps_unpack_sf123`: the return value and `*eph` afterwards. -/
def gpsUnpackSf123 (sf : Words) (eph : GpsEphemerisSv) : Int × GpsEphemerisSv :=
  let sf1 : Words := fun i => sf i
  let sf2 : Words := fun i => sf (8 + i)
  let sf3 : Words := fun i => sf (16 + i)
  let iode1 := (GET_FIELD_U (sf2 0) 8 16).toInt
  let iode2 := (GET_FIELD_U (sf3 7) 8 16).toInt
  let eph : GpsEphemerisSv :=
    { eph with
      weekNo := (GET_FIELD_U (sf1 0) 10 14).toInt
      codeOnL2 := (GET_FIELD_U (sf1 0) 2 12).toInt
      svUra := (GET_FIELD_U (sf1 0) 4 8).toInt
      svHealth := (GET_FIELD_U (sf1 0) 6 2).toInt
      l2PFlag := (GET_FIELD_U (sf1 1) 1 23).toInt
      tGd := (GET_FIELD_S (sf1 4) 8 0).toInt
      iodc := (GET_FIELD_U (sf1 0) 2 0 <<< 8 ||| GET_FIELD_U (sf1 5) 8 16).toInt
      tOc := (GET_FIELD_U (sf1 5) 16 0).toInt
      aF2 := (GET_FIELD_S (sf1 6) 8 16).toInt
      aF1 := (GET_FIELD_S (sf1 6) 16 0).toInt
      aF0 := (GET_FIELD_S (sf1 7) 22 2).toInt
      cRs := (GET_FIELD_S (sf2 0) 16 0).toInt
      deltaN := (GET_FIELD_S (sf2 1) 16 8).toInt
      m0 := (GET_FIELD_S (sf2 1) 8 0 <<< 24 ||| GET_FIELD_U (sf2 2) 24 0).toInt
      cUc := (GET_FIELD_S (sf2 3) 16 8).toInt
      e := (GET_FIELD_U (sf2 3) 8 0 <<< 24 ||| GET_FIELD_U (sf2 4) 24 0).toNat
      cUs := (GET_FIELD_S (sf2 5) 16 8).toInt
      aPowhalf := (GET_FIELD_U (sf2 5) 8 0 <<< 24 ||| GET_FIELD_U (sf2 6) 24 0).toNat
      tOe := (GET_FIELD_U (sf2 7) 16 8).toInt
      fitFlag := (GET_FIELD_U (sf2 7) 1 7).toInt
      cIc := (GET_FIELD_S (sf3 0) 16 8).toInt
      omega0 := (GET_FIELD_S (sf3 0) 8 0 <<< 24 ||| GET_FIELD_U (sf3 1) 24 0).toInt
      cIs := (GET_FIELD_S (sf3 2) 16 8).toInt
      i0 := (GET_FIELD_S (sf3 2) 8 0 <<< 24 ||| GET_FIELD_U (sf3 3) 24 0).toInt
      cRc := (GET_FIELD_S (sf3 4) 16 8).toInt
      w := (GET_FIELD_S (sf3 4) 8 0 <<< 24 ||| GET_FIELD_U (sf3 5) 24 0).toInt
      omegaDot := (GET_FIELD_S (sf3 6) 24 0).toInt
      idot := (GET_FIELD_S (sf3 7) 14 2).toInt
      rsvd1 := (GET_FIELD_U (sf1 1) 23 0).toInt
      rsvd2 := (GET_FIELD_U (sf1 2) 24 0).toInt
      rsvd3 := (GET_FIELD_U (sf1 3) 24 0).toInt
      rsvd4 := (GET_FIELD_U (sf1 4) 16 8).toInt
      aodo := (GET_FIELD_U (sf2 7) 5 2).toInt }
  if iode1 ≠ iode2 ∨ iode1 ≠ (BitVec.ofInt 32 eph.iodc &&& 0xff#32).toInt then (-1, eph)
  else (0, eph)

/-- `gps_unpack_sf45_almanac`. -/
def gpsUnpackSf45Almanac (sf : Words) (alm : GpsAlmanacSv) : Int × GpsAlmanacSv :=
  (0, { alm with
    svId := (GET_FIELD_U (sf 0) 6 16).toInt
    e := (GET_FIELD_U (sf 0) 16 0).toInt
    tOa := (GET_FIELD_U (sf 1) 8 16).toInt
    ksii := (GET_FIELD_S (sf 1) 16 0).toInt
    omegaDot := (GET_FIELD_S (sf 2) 16 8).toInt
    svHealth := (GET_FIELD_U (sf 2) 8 0).toInt
    aPowhalf := (GET_FIELD_U (sf 3) 24 0).toInt
    omega0 := (GET_FIELD_S (sf 4) 24 0).toInt
    w := (GET_FIELD_S (sf 5) 24 0).toInt
    m0 := (GET_FIELD_S (sf 6) 24 0).toInt
    aF0 := (GET_FIELD_S (sf 7) 8 16 <<< 3 ||| GET_FIELD_U (sf 7) 3 2).toInt
    aF1 := (GET_FIELD_S (sf 7) 11 5).toInt })

/-! ## The widths of `gps.h` -/

/-- `u n`: an unsigned number of `n` bits. -/
def UnsignedBits (n : Nat) (v : Int) : Prop := 0 ≤ v ∧ v < 2 ^ n

/-- `s n`: a signed number of `n` bits. -/
def SignedBits (n : Nat) (v : Int) : Prop := -2 ^ (n - 1) ≤ v ∧ v < 2 ^ (n - 1)

/-- The members of an ephemeris but `sv_id` are within the widths noted beside
them; `aodo` within the 5 bits it has. -/
@[mk_iff] structure GpsEphemerisSv.InWidths (eph : GpsEphemerisSv) : Prop where
  codeOnL2 : UnsignedBits 2 eph.codeOnL2
  weekNo : UnsignedBits 10 eph.weekNo
  l2PFlag : UnsignedBits 1 eph.l2PFlag
  svUra : UnsignedBits 4 eph.svUra
  svHealth : UnsignedBits 6 eph.svHealth
  tGd : SignedBits 8 eph.tGd
  iodc : UnsignedBits 10 eph.iodc
  tOc : UnsignedBits 16 eph.tOc
  aF2 : SignedBits 8 eph.aF2
  aF1 : SignedBits 16 eph.aF1
  aF0 : SignedBits 22 eph.aF0
  cRs : SignedBits 16 eph.cRs
  deltaN : SignedBits 16 eph.deltaN
  m0 : SignedBits 32 eph.m0
  cUc : SignedBits 16 eph.cUc
  e : UnsignedBits 32 eph.e
  cUs : SignedBits 16 eph.cUs
  aPowhalf : UnsignedBits 32 eph.aPowhalf
  tOe : UnsignedBits 16 eph.tOe
  fitFlag : UnsignedBits 1 eph.fitFlag
  cIc : SignedBits 16 eph.cIc
  omega0 : SignedBits 32 eph.omega0
  cIs : SignedBits 16 eph.cIs
  i0 : SignedBits 32 eph.i0
  cRc : SignedBits 16 eph.cRc
  w : SignedBits 32 eph.w
  omegaDot : SignedBits 24 eph.omegaDot
  idot : SignedBits 14 eph.idot
  rsvd1 : UnsignedBits 23 eph.rsvd1
  rsvd2 : UnsignedBits 24 eph.rsvd2
  rsvd3 : UnsignedBits 24 eph.rsvd3
  rsvd4 : UnsignedBits 16 eph.rsvd4
  aodo : UnsignedBits 5 eph.aodo

/-- The members of an almanac entry are within the widths noted beside them;
`sv_id` within 6 bits, `sv_health` within 8. -/
@[mk_iff] structure GpsAlmanacSv.InWidths (alm : GpsAlmanacSv) : Prop where
  svId : UnsignedBits 6 alm.svId
  svHealth : UnsignedBits 8 alm.svHealth
  e : UnsignedBits 16 alm.e
  tOa : UnsignedBits 8 alm.tOa
  ksii : SignedBits 16 alm.ksii
  omegaDot : SignedBits 16 alm.omegaDot
  aPowhalf : UnsignedBits 24 alm.aPowhalf
  omega0 : SignedBits 24 alm.omega0
  w : SignedBits 24 alm.w
  m0 : SignedBits 24 alm.m0
  aF0 : SignedBits 11 alm.aF0
  aF1 : SignedBits 11 alm.aF1

end UbloxRead
