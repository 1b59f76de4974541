/-
UbloxRead.GpsTheorems — the unpacking of `gps.c` loses nothing and overlaps
nowhere.

Each of the two functions is a layout in the sense of `Lib.BitField`:
`members_unpackSf123` and `members_unpackSf45` say that the members it stores
are the values of `ephemerisLayout` and `almanacLayout` in the array. What bits
a layout covers, and that no bit is covered twice, is decided on the table. The
library then gives both directions: equal structures mean equal bits, and every
structure within the widths is decoded from some array. The three copies of the
issue of data tie the subframes of an ephemeris together
(`unpackSf123_return`), so for it both hold on the arrays that agree on them.
-/
import UbloxRead.Gps

namespace UbloxRead

open Lib

/-! ## The members as a list -/

/-- The members `gps_unpack_sf123` stores, in the order of the struct. -/
def GpsEphemerisSv.members (eph : GpsEphemerisSv) : List Int :=
  [eph.codeOnL2, eph.weekNo, eph.l2PFlag, eph.svUra, eph.svHealth, eph.tGd, eph.iodc, eph.tOc,
    eph.aF2, eph.aF1, eph.aF0, eph.cRs, eph.deltaN, eph.m0, eph.cUc, eph.e, eph.cUs, eph.aPowhalf,
    eph.tOe, eph.fitFlag, eph.cIc, eph.omega0, eph.cIs, eph.i0, eph.cRc, eph.w, eph.omegaDot,
    eph.idot, eph.rsvd1, eph.rsvd2, eph.rsvd3, eph.rsvd4, eph.aodo]

/-- Where they stand. -/
def ephemerisLayout : List BitField :=
  [⟨[⟨0, 12, 2⟩], false⟩, ⟨[⟨0, 14, 10⟩], false⟩, ⟨[⟨1, 23, 1⟩], false⟩, ⟨[⟨0, 8, 4⟩], false⟩,
    ⟨[⟨0, 2, 6⟩], false⟩, ⟨[⟨4, 0, 8⟩], true⟩, ⟨[⟨5, 16, 8⟩, ⟨0, 0, 2⟩], false⟩,
    ⟨[⟨5, 0, 16⟩], false⟩, ⟨[⟨6, 16, 8⟩], true⟩, ⟨[⟨6, 0, 16⟩], true⟩, ⟨[⟨7, 2, 22⟩], true⟩,
    ⟨[⟨8, 0, 16⟩], true⟩, ⟨[⟨9, 8, 16⟩], true⟩, ⟨[⟨10, 0, 24⟩, ⟨9, 0, 8⟩], true⟩,
    ⟨[⟨11, 8, 16⟩], true⟩, ⟨[⟨12, 0, 24⟩, ⟨11, 0, 8⟩], false⟩, ⟨[⟨13, 8, 16⟩], true⟩,
    ⟨[⟨14, 0, 24⟩, ⟨13, 0, 8⟩], false⟩, ⟨[⟨15, 8, 16⟩], false⟩, ⟨[⟨15, 7, 1⟩], false⟩,
    ⟨[⟨16, 8, 16⟩], true⟩, ⟨[⟨17, 0, 24⟩, ⟨16, 0, 8⟩], true⟩, ⟨[⟨18, 8, 16⟩], true⟩,
    ⟨[⟨19, 0, 24⟩, ⟨18, 0, 8⟩], true⟩, ⟨[⟨20, 8, 16⟩], true⟩, ⟨[⟨21, 0, 24⟩, ⟨20, 0, 8⟩], true⟩,
    ⟨[⟨22, 0, 24⟩], true⟩, ⟨[⟨23, 2, 14⟩], true⟩, ⟨[⟨1, 0, 23⟩], false⟩, ⟨[⟨2, 0, 24⟩], false⟩,
    ⟨[⟨3, 0, 24⟩], false⟩, ⟨[⟨4, 8, 16⟩], false⟩, ⟨[⟨15, 2, 5⟩], false⟩]

/-- Where `iode1` and `iode2` stand. -/
def iodeLayout : List BitField := [⟨[⟨8, 16, 8⟩], false⟩, ⟨[⟨23, 16, 8⟩], false⟩]

/-- The members of an almanac entry, in the order of the struct. -/
def GpsAlmanacSv.members (alm : GpsAlmanacSv) : List Int :=
  [alm.svId, alm.svHealth, alm.e, alm.tOa, alm.ksii, alm.omegaDot, alm.aPowhalf, alm.omega0,
    alm.w, alm.m0, alm.aF0, alm.aF1]

/-- Where they stand. -/
def almanacLayout : List BitField :=
  [⟨[⟨0, 16, 6⟩], false⟩, ⟨[⟨2, 0, 8⟩], false⟩, ⟨[⟨0, 0, 16⟩], false⟩, ⟨[⟨1, 16, 8⟩], false⟩,
    ⟨[⟨1, 0, 16⟩], true⟩, ⟨[⟨2, 8, 16⟩], true⟩, ⟨[⟨3, 0, 24⟩], false⟩, ⟨[⟨4, 0, 24⟩], true⟩,
    ⟨[⟨5, 0, 24⟩], true⟩, ⟨[⟨6, 0, 24⟩], true⟩, ⟨[⟨7, 2, 3⟩, ⟨7, 16, 8⟩], true⟩,
    ⟨[⟨7, 5, 11⟩], true⟩]

/-- What `gps_unpack_sf123` stores are the values of its layout. -/
theorem members_unpackSf123 (sf : Words) (eph : GpsEphemerisSv) :
    (gpsUnpackSf123 sf eph).2.members = ephemerisLayout.map (·.value sf) := by
  have hsnd : ∀ (c : Prop) [Decidable c] (x : GpsEphemerisSv),
      (if c then ((-1 : Int), x) else (0, x)).2 = x := by
    intro c _ x
    split <;> rfl
  simp only [gpsUnpackSf123, hsnd]
  simp (disch := decide) only [GpsEphemerisSv.members, ephemerisLayout, List.map_cons, List.map_nil,
    Nat.reduceAdd, toInt_fieldU sf, toInt_fieldS sf, toInt_joinU sf, toInt_joinS sf,
    joinU_value sf]

theorem members_unpackSf45 (sf : Words) (alm : GpsAlmanacSv) :
    (gpsUnpackSf45Almanac sf alm).2.members = almanacLayout.map (·.value sf) := by
  simp (disch := decide) only [gpsUnpackSf45Almanac, GpsAlmanacSv.members, almanacLayout,
    List.map_cons, List.map_nil, toInt_fieldU sf, toInt_fieldS sf, toInt_joinS sf]

theorem GpsEphemerisSv.ext_members {a b : GpsEphemerisSv} (hid : a.svId = b.svId)
    (h : a.members = b.members) : a = b := by
  simp only [GpsEphemerisSv.members, List.cons.injEq] at h
  ext <;> simp only [h, hid]

/-- Equal but for `sv_id`. -/
theorem GpsEphemerisSv.eq_but_svId_iff (a b : GpsEphemerisSv) :
    { a with svId := 0 } = { b with svId := 0 } ↔ a.members = b.members := by
  constructor
  · intro h
    have hmembers := congrArg GpsEphemerisSv.members h
    exact hmembers
  · intro h
    have hmembers : GpsEphemerisSv.members { a with svId := 0 }
        = GpsEphemerisSv.members { b with svId := 0 } := h
    exact GpsEphemerisSv.ext_members rfl hmembers

theorem GpsAlmanacSv.ext_members {a b : GpsAlmanacSv} (h : a.members = b.members) : a = b := by
  simp only [GpsAlmanacSv.members, List.cons.injEq] at h
  ext <;> simp only [h]

/-- The unpacking never touches `sv_id`. -/
theorem unpackSf123_svId (sf : Words) (eph : GpsEphemerisSv) :
    (gpsUnpackSf123 sf eph).2.svId = eph.svId := by
  unfold gpsUnpackSf123
  simp only []
  split <;> rfl

/-! ## The issue of data -/

/-- Bits 16..23 of words 5, 8 and 23 are equal. -/
def SameIssue (sf : Words) : Prop :=
  (sf 5).extractLsb' 16 8 = (sf 8).extractLsb' 16 8 ∧
    (sf 5).extractLsb' 16 8 = (sf 23).extractLsb' 16 8

instance (sf : Words) : Decidable (SameIssue sf) := inferInstanceAs (Decidable (_ ∧ _))

theorem fieldU_eq_iff (x y : BitVec 32) (nb pos : Nat) :
    fieldU x nb pos = fieldU y nb pos ↔ x.extractLsb' pos nb = y.extractLsb' pos nb := by
  simp only [BitVec.eq_of_getLsbD_eq_iff, getLsbD_fieldU, BitVec.getLsbD_extractLsb']
  constructor
  · intro h i hi
    by_cases hw : i < 32
    · exact h i hw
    · rw [BitVec.getLsbD_of_ge x (pos + i) (by omega), BitVec.getLsbD_of_ge y (pos + i) (by omega)]
  · intro h i _
    by_cases hi : i < nb
    · exact h i hi
    · simp [hi]

/-- The low byte of `iodc` is the field it was joined from. -/
theorem iodc_low (x y : BitVec 32) :
    (fieldU x 2 0 <<< 8 ||| fieldU y 8 16) &&& 0xff#32 = fieldU y 8 16 := by
  have hmask : 0xff#32 = (1#32 <<< 8) - 1#32 := by decide
  apply BitVec.eq_of_getLsbD_eq
  intro i hi
  rw [hmask, BitVec.getLsbD_and, getLsbD_mask, getLsbD_join _ _ hi, getLsbD_fieldU y]
  by_cases h : i < 8 <;> simp only [h, hi, if_true, if_false, decide_true, decide_false,
    Bool.and_true, Bool.true_and, Bool.and_false, Bool.false_and]

theorem sameIssue_iff (sf : Words) :
    SameIssue sf ↔
      fieldU (sf 8) 8 16 = fieldU (sf 23) 8 16 ∧ fieldU (sf 8) 8 16 = fieldU (sf 5) 8 16 := by
  rw [fieldU_eq_iff, fieldU_eq_iff, SameIssue]
  constructor
  · rintro ⟨h1, h2⟩
    exact ⟨h1.symm.trans h2, h1.symm⟩
  · rintro ⟨h1, h2⟩
    exact ⟨h2.symm, h2.symm.trans h1⟩

/-- **The return value**: 0 when the three issues of data agree, -1 otherwise. -/
theorem unpackSf123_return (sf : Words) (eph : GpsEphemerisSv) :
    (gpsUnpackSf123 sf eph).1 = if SameIssue sf then 0 else -1 := by
  simp only [gpsUnpackSf123, Nat.add_zero, Nat.reduceAdd, BitVec.ofInt_toInt, iodc_low,
    sameIssue_iff, ne_eq, BitVec.toInt_inj, ← not_and_or, apply_ite Prod.fst, ite_not]

/-- An array whose iodes are the low byte of its iodc. -/
theorem sameIssue_of_values {sf : Words} {iodc : Int}
    (hiodc : (BitField.mk [⟨5, 16, 8⟩, ⟨0, 0, 2⟩] false).value sf = iodc)
    (hiode1 : (BitField.mk [⟨8, 16, 8⟩] false).value sf = iodc % 256)
    (hiode2 : (BitField.mk [⟨23, 16, 8⟩] false).value sf = iodc % 256) : SameIssue sf := by
  have hlow : (fieldU (sf 5) 8 16).toInt = iodc % 256 := by
    have hand := congrArg BitVec.toNat (iodc_low (sf 0) (sf 5))
    rw [BitVec.toNat_and, BitVec.toNat_ofNat] at hand
    have hmod := Nat.and_two_pow_sub_one_eq_mod
      (fieldU (sf 0) 2 0 <<< 8 ||| fieldU (sf 5) 8 16).toNat 8
    rw [← hiodc, toInt_fieldU sf 5 (by decide), BitField.value, BitField.value,
      if_neg Bool.false_ne_true, if_neg Bool.false_ne_true, ← toNat_fieldU sf 5 (by decide),
      ← toNat_joinU sf 0 5 (by decide), ← hand]
    simp only [Nat.reducePow, Nat.reduceSub, Nat.reduceMod] at hmod ⊢
    rw [hmod, Int.natCast_mod]
    rfl
  rw [sameIssue_iff, ← BitVec.toInt_inj, ← BitVec.toInt_inj, hlow, toInt_fieldU sf 8 (by decide),
    toInt_fieldU sf 23 (by decide), hiode1, hiode2]
  exact ⟨rfl, rfl⟩

/-! ## The bits that matter -/

/-- Bit `j` of word `i` is one of an ephemeris. -/
def EphemerisBit (i j : Nat) : Prop := i < 24 ∧ j < 24 ∧ ¬ (j < 2 ∧ (i = 7 ∨ i = 15 ∨ i = 23))

/-- Bit `j` of word `i` is one of an almanac entry. -/
def AlmanacBit (i j : Nat) : Prop :=
  i < 8 ∧ j < 24 ∧ ¬ (i = 0 ∧ 22 ≤ j) ∧ ¬ (i = 7 ∧ j < 2)

instance (i j : Nat) : Decidable (EphemerisBit i j) := inferInstanceAs (Decidable (_ ∧ _))

instance (i j : Nat) : Decidable (AlmanacBit i j) := inferInstanceAs (Decidable (_ ∧ _))

/-- No bit is under two members, nor under a member and one of the iodes. -/
theorem ephemerisLayout_apart :
    ((ephemerisLayout ++ iodeLayout).flatMap BitField.pieces).Pairwise Piece.Apart := by
  decide +kernel

theorem almanacLayout_apart : (almanacLayout.flatMap BitField.pieces).Pairwise Piece.Apart := by
  decide +kernel

/-- The members stand inside the bits of an ephemeris. -/
theorem ephemerisLayout_inside :
    ∀ p ∈ (ephemerisLayout ++ iodeLayout).flatMap BitField.pieces, ∀ k, k < p.width →
      EphemerisBit p.word (p.pos + k) := by
  decide +kernel

/-- The members and the iodes cover the bits of an ephemeris. -/
theorem ephemerisLayout_covers :
    ∀ i, i < 24 → ∀ j, j < 24 → EphemerisBit i j →
      ∃ p ∈ (ephemerisLayout ++ iodeLayout).flatMap BitField.pieces,
        p.word = i ∧ p.pos ≤ j ∧ j < p.pos + p.width := by
  decide +kernel

theorem almanacLayout_inside :
    ∀ p ∈ almanacLayout.flatMap BitField.pieces, ∀ k, k < p.width →
      AlmanacBit p.word (p.pos + k) := by
  decide +kernel

theorem almanacLayout_covers :
    ∀ i, i < 8 → ∀ j, j < 24 → AlmanacBit i j →
      ∃ p ∈ almanacLayout.flatMap BitField.pieces, p.word = i ∧ p.pos ≤ j ∧ j < p.pos + p.width := by
  decide +kernel

/-! ## Widths -/

theorem fits_unsigned_iff {ps : List Piece} {n : Nat} {v : Int}
    (hn : (BitField.mk ps false).cells.length = n) :
    (BitField.mk ps false).Fits v ↔ UnsignedBits n v := by
  rw [← hn]
  rfl

theorem fits_signed_iff {ps : List Piece} {n : Nat} {v : Int}
    (hn : (BitField.mk ps true).cells.length = n) (hpos : 0 < n) :
    (BitField.mk ps true).Fits v ↔ SignedBits n v := by
  obtain ⟨m, rfl⟩ := Nat.exists_eq_add_of_lt hpos
  unfold BitField.Fits SignedBits
  simp only [hn, if_true, Nat.zero_add, Nat.add_sub_cancel, Int.pow_succ]
  constructor <;> intro h <;> omega

/-- The widths of `gps.h` are those of the layout. -/
theorem ephemeris_inWidths_iff (eph : GpsEphemerisSv) :
    eph.InWidths ↔ List.Forall₂ BitField.Fits ephemerisLayout eph.members := by
  rw [GpsEphemerisSv.inWidths_iff]
  simp (disch := decide) only [ephemerisLayout, GpsEphemerisSv.members, List.forall₂_cons,
    List.forall₂_nil_left_iff, and_true, fits_unsigned_iff (length_cells_one ..),
    fits_unsigned_iff (length_cells_two ..), fits_signed_iff (length_cells_one ..),
    fits_signed_iff (length_cells_two ..), Nat.reduceAdd]

theorem almanac_inWidths_iff (alm : GpsAlmanacSv) :
    alm.InWidths ↔ List.Forall₂ BitField.Fits almanacLayout alm.members := by
  rw [GpsAlmanacSv.inWidths_iff]
  simp (disch := decide) only [almanacLayout, GpsAlmanacSv.members, List.forall₂_cons,
    List.forall₂_nil_left_iff, and_true, fits_unsigned_iff (length_cells_one ..),
    fits_signed_iff (length_cells_one ..), fits_signed_iff (length_cells_two ..), Nat.reduceAdd]

/-! ## Almanac entries -/

theorem unpackSf45_congr_iff (sf sf' : Words) (alm alm' : GpsAlmanacSv) :
    (gpsUnpackSf45Almanac sf alm).2 = (gpsUnpackSf45Almanac sf' alm').2 ↔
      ∀ i j, AlmanacBit i j → (sf i).getLsbD j = (sf' i).getLsbD j := by
  have hmembers : (gpsUnpackSf45Almanac sf alm).2 = (gpsUnpackSf45Almanac sf' alm').2 ↔
      (gpsUnpackSf45Almanac sf alm).2.members = (gpsUnpackSf45Almanac sf' alm').2.members :=
    ⟨congrArg _, GpsAlmanacSv.ext_members⟩
  rw [hmembers, members_unpackSf45, members_unpackSf45, map_value_congr_iff]
  constructor
  · intro h i j hbit
    obtain ⟨p, hp, rfl, h1, h2⟩ := almanacLayout_covers i hbit.1 j hbit.2.1 hbit
    have := h p hp (j - p.pos) (by omega)
    rwa [Nat.add_sub_cancel' h1] at this
  · intro h p hp k hk
    exact h _ _ (almanacLayout_inside p hp k hk)

theorem unpackSf45_inWidths (sf : Words) (alm : GpsAlmanacSv) :
    (gpsUnpackSf45Almanac sf alm).2.InWidths := by
  rw [almanac_inWidths_iff, members_unpackSf45, List.forall₂_map_right_iff, List.forall₂_same]
  intro f _
  exact value_fits f sf

theorem exists_unpackSf45 {v : GpsAlmanacSv} (hv : v.InWidths) :
    ∃ sf : Words, ∀ alm, (gpsUnpackSf45Almanac sf alm).2 = v := by
  obtain ⟨sf, hsf⟩ : ∃ sf : Words, almanacLayout.map (·.value sf) = v.members :=
    exists_values almanacLayout almanacLayout_apart (by decide +kernel) v.members
      ((almanac_inWidths_iff v).mp hv)
  refine ⟨sf, fun alm => GpsAlmanacSv.ext_members ?_⟩
  rw [members_unpackSf45, hsf]

/-- **The unpacking of an almanac page loses nothing and overlaps nowhere**: the
decoded entries are equal exactly when the arrays agree on bits 0..23 but 22..23
of word 0 and 0..1 of word 7, and they are exactly the entries within the
widths. -/
theorem unpackSf45_bijective :
    (∀ (sf sf' : Words) (alm alm' : GpsAlmanacSv),
      (gpsUnpackSf45Almanac sf alm).2 = (gpsUnpackSf45Almanac sf' alm').2 ↔
        ∀ i j, i < 8 → j < 24 → ¬ (i = 0 ∧ 22 ≤ j) → ¬ (i = 7 ∧ j < 2) →
          (sf i).getLsbD j = (sf' i).getLsbD j) ∧
    (∀ v : GpsAlmanacSv,
      (∃ (sf : Words) (alm : GpsAlmanacSv), (gpsUnpackSf45Almanac sf alm).2 = v) ↔ v.InWidths) := by
  constructor
  · intro sf sf' alm alm'
    rw [unpackSf45_congr_iff]
    unfold AlmanacBit
    constructor
    · intro h i j h1 h2 h3 h4
      exact h i j ⟨h1, h2, h3, h4⟩
    · intro h i j ⟨h1, h2, h3, h4⟩
      exact h i j h1 h2 h3 h4
  · intro v
    constructor
    · rintro ⟨sf, alm, rfl⟩
      exact unpackSf45_inWidths sf alm
    · intro hv
      obtain ⟨sf, hsf⟩ := exists_unpackSf45 hv
      exact ⟨sf, v, hsf v⟩

/-! ## Ephemerides -/

/-- Bits 16..23 of words 8 and 23 are those of word 5. -/
theorem SameIssue.bit {sf : Words} (h : SameIssue sf) {j : Nat} (h16 : 16 ≤ j) (h24 : j < 24) :
    (sf 8).getLsbD j = (sf 5).getLsbD j ∧ (sf 23).getLsbD j = (sf 5).getLsbD j := by
  have hbit : ∀ x y : BitVec 32, x.extractLsb' 16 8 = y.extractLsb' 16 8 →
      y.getLsbD j = x.getLsbD j := by
    intro x y hxy
    have := congrArg (·.getLsbD (j - 16)) hxy
    have hlt : j - 16 < 8 := by omega
    simpa [BitVec.getLsbD_extractLsb', hlt, Nat.add_sub_cancel' h16] using this.symm
  exact ⟨hbit _ _ h.1, hbit _ _ h.2⟩

/-- On arrays that unpack with 0, the members are equal exactly when the bits
of the ephemeris are. -/
theorem unpackSf123_congr_iff {sf sf' : Words} (hsf : SameIssue sf) (hsf' : SameIssue sf')
    (eph eph' : GpsEphemerisSv) :
    (gpsUnpackSf123 sf eph).2.members = (gpsUnpackSf123 sf' eph').2.members ↔
      ∀ i j, EphemerisBit i j → (sf i).getLsbD j = (sf' i).getLsbD j := by
  rw [members_unpackSf123, members_unpackSf123, map_value_congr_iff]
  constructor
  · intro h i j hbit
    obtain ⟨p, hp, rfl, h1, h2⟩ := ephemerisLayout_covers i hbit.1 j hbit.2.1 hbit
    rw [List.flatMap_append, List.mem_append] at hp
    rcases hp with hp | hp
    · have := h p hp (j - p.pos) (by omega)
      rwa [Nat.add_sub_cancel' h1] at this
    · -- the iodes are copies of the low byte of iodc
      have hiodc := h ⟨5, 16, 8⟩ (by decide) (j - 16)
      simp only [iodeLayout, List.flatMap_cons, List.flatMap_nil, List.append_nil,
        List.cons_append, List.nil_append, List.mem_cons, List.not_mem_nil, or_false] at hp
      rcases hp with rfl | rfl
      · simp only at h1 h2 hiodc ⊢
        rw [(hsf.bit h1 h2).1, (hsf'.bit h1 h2).1]
        simpa [Nat.add_sub_cancel' h1] using hiodc (by omega)
      · simp only at h1 h2 hiodc ⊢
        rw [(hsf.bit h1 h2).2, (hsf'.bit h1 h2).2]
        simpa [Nat.add_sub_cancel' h1] using hiodc (by omega)
  · intro h p hp k hk
    refine h _ _ (ephemerisLayout_inside p ?_ k hk)
    rw [List.flatMap_append]
    exact List.mem_append_left _ hp

theorem unpackSf123_inWidths (sf : Words) (eph : GpsEphemerisSv) :
    (gpsUnpackSf123 sf eph).2.InWidths := by
  rw [ephemeris_inWidths_iff, members_unpackSf123, List.forall₂_map_right_iff, List.forall₂_same]
  intro f _
  exact value_fits f sf

theorem exists_unpackSf123 {v : GpsEphemerisSv} (hv : v.InWidths) :
    ∃ sf : Words, ∀ eph, gpsUnpackSf123 sf eph = (0, { v with svId := eph.svId }) := by
  have hlow : UnsignedBits 8 (v.iodc % 256) := ⟨Int.emod_nonneg _ (by decide),
    Int.emod_lt_of_pos _ (by decide)⟩
  have hiodes : List.Forall₂ BitField.Fits iodeLayout [v.iodc % 256, v.iodc % 256] := by
    simp only [iodeLayout, List.forall₂_cons, List.forall₂_nil_left_iff, and_true,
      fits_unsigned_iff (length_cells_one ..), hlow]
  obtain ⟨sf, hsf⟩ : ∃ sf : Words, (ephemerisLayout ++ iodeLayout).map (·.value sf)
      = v.members ++ [v.iodc % 256, v.iodc % 256] :=
    exists_values _ ephemerisLayout_apart (by decide +kernel) _
      (List.rel_append ((ephemeris_inWidths_iff v).mp hv) hiodes)
  rw [List.map_append] at hsf
  obtain ⟨hmembers, hiode⟩ := List.append_inj hsf (by rw [List.length_map]; rfl)
  have hissue : SameIssue sf := by
    have h := hmembers
    simp only [ephemerisLayout, GpsEphemerisSv.members, List.map_cons, List.cons.injEq] at h
    simp only [iodeLayout, List.map_cons, List.cons.injEq] at hiode
    exact sameIssue_of_values h.2.2.2.2.2.2.1 hiode.1 hiode.2.1
  refine ⟨sf, fun eph => Prod.ext ?_ ?_⟩
  · rw [unpackSf123_return, if_pos hissue]
  · refine GpsEphemerisSv.ext_members (unpackSf123_svId sf eph) ?_
    rw [members_unpackSf123, hmembers]
    rfl

/-- **The unpacking of subframes 1 to 3 loses nothing and overlaps nowhere.** It
answers 0 when bits 16..23 of words 5, 8 and 23 are equal and -1 otherwise, and
leaves `sv_id` alone; on arrays it answers 0 for, the other members are equal
exactly when the arrays agree on bits 0..23 but 0..1 of words 7, 15 and 23; and
every assignment of the members within their widths is decoded from an array it
answers 0 for. -/
theorem unpackSf123_bijective :
    (∀ (sf : Words) (eph : GpsEphemerisSv),
      (gpsUnpackSf123 sf eph).1
          = (if (sf 5).extractLsb' 16 8 = (sf 8).extractLsb' 16 8 ∧
              (sf 5).extractLsb' 16 8 = (sf 23).extractLsb' 16 8 then 0 else -1) ∧
        (gpsUnpackSf123 sf eph).2.svId = eph.svId) ∧
    (∀ (sf sf' : Words) (eph eph' : GpsEphemerisSv),
      (gpsUnpackSf123 sf eph).1 = 0 → (gpsUnpackSf123 sf' eph').1 = 0 →
      ({ (gpsUnpackSf123 sf eph).2 with svId := 0 }
          = { (gpsUnpackSf123 sf' eph').2 with svId := 0 } ↔
        ∀ i j, i < 24 → j < 24 → ¬ (j < 2 ∧ (i = 7 ∨ i = 15 ∨ i = 23)) →
          (sf i).getLsbD j = (sf' i).getLsbD j)) ∧
    (∀ v : GpsEphemerisSv, v.InWidths →
      ∃ sf : Words, ∀ eph, gpsUnpackSf123 sf eph = (0, { v with svId := eph.svId })) := by
  refine ⟨?_, ?_, fun v => exists_unpackSf123⟩
  · intro sf eph
    exact ⟨unpackSf123_return sf eph, unpackSf123_svId sf eph⟩
  · intro sf sf' eph eph' h h'
    have hissue : ∀ {sf : Words} {eph}, (gpsUnpackSf123 sf eph).1 = 0 → SameIssue sf := by
      intro sf eph h
      rw [unpackSf123_return] at h
      by_contra hc
      simp [hc] at h
    rw [GpsEphemerisSv.eq_but_svId_iff, unpackSf123_congr_iff (hissue h) (hissue h')]
    unfold EphemerisBit
    constructor
    · intro h i j h1 h2 h3
      exact h i j ⟨h1, h2, h3⟩
    · intro h i j ⟨h1, h2, h3⟩
      exact h i j h1 h2 h3

end UbloxRead
