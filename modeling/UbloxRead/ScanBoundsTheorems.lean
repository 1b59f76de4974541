/-
UbloxRead.ScanBoundsTheorems — when the frame check of `ubx.c` stays inside the
scratchpad.

`run_parseAccess` evaluates the check access by access: it computes
`parseUartInput4UbxMsg`, and its log is `parseTouched`. The length field is read
and written back before anything is asked of the bytes left, so at the end of
the block the log runs over it (`parseTouched_lt_iff`). The rounds of the scan
loop start at the positions that no taken frame runs over
(`mem_scanStates_iff`), and the two together give `scanTouched_inside_iff`: the
loop stays inside exactly when it stops at no sync that the end of the
scratchpad cuts off from its header.
-/
import UbloxRead.ScanBounds
import UbloxRead.ScanLoopTheorems

namespace UbloxRead

open Lib

/-! ## One check -/

@[simp] theorem run_getUbxMsgLengthAccess (msg : Nat) (mem : Mem) :
    (getUbxMsgLengthAccess msg).run mem = ⟨payloadLen mem msg, mem, [msg + 4, msg + 5]⟩ := rfl

@[simp] theorem run_setPayloadLenAccess (msg len : Nat) (mem : Mem) :
    (setPayloadLenAccess msg len).run mem
      = ⟨⟨⟩, setPayloadLen mem msg len, [msg + 4, msg + 5]⟩ := by
  have hcells : Function.update (Function.update mem (msg + 4) (UInt8.ofNat len)) (msg + 5)
      (UInt8.ofNat (len / 256)) = setPayloadLen mem msg len := by
    funext i
    unfold setPayloadLen Function.update
    split
    · next h => simp [h]
    · next h => simp
  simp [setPayloadLenAccess, hcells]

@[simp] theorem run_ubxChecksumAccess (data len : Nat) (mem : Mem) :
    (ubxChecksumAccess data len).run mem
      = ⟨ubxChecksum mem data len, mem, List.range' data len⟩ := by
  rw [List.range'_eq_map_range]
  exact Access.run_foldlM_load (fun ck b => (ck.1 + b, ck.2 + (ck.1 + b))) (data + ·) mem _ _

/-- The accesses of the check, in order. -/
def parseTouched (mem : Mem) (msg : Nat) (left : Int) : List Nat :=
  let cksumPtr := msg + (UBX_HDR_SIZE + payloadLen mem msg)
  let bodyLen := UBX_HDR_SIZE + payloadLen mem msg - 2
  if mem msg ≠ UBX_SYNC0 then [msg]
  else if mem (msg + 1) ≠ UBX_SYNC1 then [msg, msg + 1]
  else [msg, msg + 1, msg + 4, msg + 5, msg + 4, msg + 5, msg + 4, msg + 5] ++
    if sizeOfInt left < UBX_HDR_SIZE + payloadLen mem msg + 2 then []
    else List.range' (msg + 2) bodyLen ++
      if mem cksumPtr ≠ (ubxChecksum mem (msg + 2) bodyLen).1 then [cksumPtr]
      else [cksumPtr, cksumPtr + 1]

/-- **The accesses compute the check.** -/
theorem run_parseAccess (mem : Mem) (msg : Nat) (left : Int) :
    (parseUartInput4UbxMsgAccess msg left).run mem
      = ⟨(parseUartInput4UbxMsg mem msg left).1, (parseUartInput4UbxMsg mem msg left).2,
          parseTouched mem msg left⟩ := by
  unfold parseUartInput4UbxMsgAccess parseUartInput4UbxMsg parseTouched
  by_cases h0 : mem msg = UBX_SYNC0
  · by_cases h1 : mem (msg + 1) = UBX_SYNC1
    · by_cases hfit : sizeOfInt left < UBX_HDR_SIZE + payloadLen mem msg + 2
      · simp [h0, h1, hfit, getUbxMsgLength, setPayloadLen_self]
      · by_cases hck0 : mem (msg + (UBX_HDR_SIZE + payloadLen mem msg))
            = (ubxChecksum mem (msg + 2) (UBX_HDR_SIZE + payloadLen mem msg - 2)).1
        · by_cases hck1 : mem (msg + (UBX_HDR_SIZE + payloadLen mem msg) + 1)
              = (ubxChecksum mem (msg + 2) (UBX_HDR_SIZE + payloadLen mem msg - 2)).2
          · simp [h0, h1, hfit, hck0, hck1, getUbxMsgLength, setPayloadLen_self]
          · simp [h0, h1, hfit, hck0, hck1, getUbxMsgLength, setPayloadLen_self]
        · simp [h0, h1, hfit, hck0, getUbxMsgLength, setPayloadLen_self]
    · simp [h0, h1]
  · simp [h0]

/-- The accesses end with the message the header announces. -/
theorem parseTouched_lt (mem : Mem) (msg : Nat) (left : Int) :
    ∀ o ∈ parseTouched mem msg left, o < msg + 8 + payloadLen mem msg := by
  intro o ho
  unfold parseTouched UBX_HDR_SIZE at ho
  dsimp only at ho
  split_ifs at ho <;> simp at ho <;> omega

/-- **Within the bytes there are, the check stays inside the block unless the
sync bytes are cut off from their header.** -/
theorem parseTouched_lt_iff {mem : Mem} {msg n cap : Nat} (hn : msg < n) (hcap : n ≤ cap) :
    (∀ o ∈ parseTouched mem msg (n - msg : Int), o < cap) ↔ ¬ CutOffSync mem cap msg := by
  have hleft : sizeOfInt (n - msg : Int) = n - msg := by
    rw [sizeOfInt_of_nonneg (by omega)]
    omega
  by_cases hfit : msg + 8 + payloadLen mem msg ≤ n
  · -- The whole message is among the bytes there are.
    refine iff_of_true (fun o ho => ?_) (fun hcut => ?_)
    · have := parseTouched_lt mem msg _ o ho
      omega
    · have := hcut.1
      unfold UBX_HDR_SIZE at this
      omega
  · have hshort : n - msg < UBX_HDR_SIZE + payloadLen mem msg + 2 := by
      unfold UBX_HDR_SIZE
      omega
    unfold parseTouched CutOffSync
    rw [hleft]
    by_cases h0 : mem msg = UBX_SYNC0
    · by_cases h1 : mem (msg + 1) = UBX_SYNC1
      · simp [h0, h1, hshort]
        unfold UBX_HDR_SIZE
        omega
      · simp [h0, h1, UBX_HDR_SIZE]
        omega
    · simp [h0]
      omega

/-! ## All rounds of the loop -/

/-- No round changes the scratchpad. -/
theorem scanStates_scratchpad (rbSize : Int) (fuel : Nat) (s : ScanState) :
    ∀ t ∈ whileStates (scanBody rbSize) fuel s, t.scratchpad = s.scratchpad := by
  refine whileStates_inv (fun t : ScanState => t.scratchpad = s.scratchpad) (fun t u ht hu => ?_) rfl
  rcases scanBody_cases rbSize t with ⟨-, hb⟩ | ⟨-, -, hb⟩ | ⟨l, -, -, -, hb⟩
  · rw [hb] at hu
    cases hu
  · rw [hb] at hu
    cases hu
    exact ht
  · rw [hb] at hu
    cases hu
    exact ht

/-- **The rounds start at the positions that no frame of the scan runs over.**
The induction is on the scan that is left. -/
theorem mem_scanStates_iff {mem : Mem} {n i : Nat} {found : List (Nat × Nat)}
    (h : Scan (frameItem mem) n i found) : ∀ (rbSize : Int) (fuel : Nat) (s : ScanState),
      rbSize.toNat = n → s.scratchpad = mem → s.i = i → n < i + fuel → ∀ p,
        p ∈ (whileStates (scanBody rbSize) fuel s).map ScanState.i ↔
          i ≤ p ∧ p < n ∧ ∀ f ∈ found, ¬ (f.1 < p ∧ p < f.1 + f.2) := by
  induction h with
  | @done i hn =>
    intro rbSize fuel s hrb hpad hi hfuel p
    rcases scanBody_cases rbSize s with ⟨-, hb⟩ | ⟨hlt, -⟩ | ⟨l, hlt, -⟩
    · simp [whileStates_exit hb]
      omega
    · omega
    · omega
  | @skip i found hlt hno hrest ih =>
    intro rbSize fuel s hrb hpad hi hfuel p
    obtain ⟨fuel, rfl⟩ : ∃ k, fuel = k + 1 := ⟨fuel - 1, by omega⟩
    rcases scanBody_cases rbSize s with ⟨hge, -⟩ | ⟨-, -, hb⟩ | ⟨l, -, hl, hfit, -⟩
    · omega
    · rw [whileStates_round hb, List.map_cons, List.mem_cons,
        ih rbSize fuel { s with i := s.i + 1 } hrb hpad (by simp [hi]) (by omega) p, hi]
      have hstart : ∀ f ∈ found, i + 1 ≤ f.1 := fun f hf => (hrest.sound f hf).2.1
      constructor
      · rintro (rfl | ⟨hip, hpn, hfree⟩)
        · exact ⟨le_rfl, hlt, fun f hf hin => by have := hstart f hf; omega⟩
        · exact ⟨by omega, hpn, hfree⟩
      · rintro ⟨hip, hpn, hfree⟩
        by_cases hp : p = i
        · exact Or.inl hp
        · exact Or.inr ⟨by omega, hpn, hfree⟩
    · rw [hpad, hi] at hl
      have := hno l hl
      omega
  | @take i l found hlt hl hfit hrest ih =>
    intro rbSize fuel s hrb hpad hi hfuel p
    have hpos := frameItem_pos hl
    obtain ⟨fuel, rfl⟩ : ∃ k, fuel = k + 1 := ⟨fuel - 1, by omega⟩
    rcases scanBody_cases rbSize s with ⟨hge, -⟩ | ⟨-, hno, -⟩ | ⟨l', -, hl', -, hb⟩
    · omega
    · rw [hpad, hi] at hno
      have := hno l hl
      omega
    · rw [hpad, hi, hl] at hl'
      cases hl'
      rw [whileStates_round hb, List.map_cons, List.mem_cons,
        ih rbSize fuel (s.take l) hrb hpad (by simp [ScanState.take, hi]) (by omega) p, hi]
      have hstart : ∀ f ∈ found, i + l ≤ f.1 := fun f hf => (hrest.sound f hf).2.1
      simp only [List.mem_cons, forall_eq_or_imp]
      constructor
      · rintro (rfl | ⟨hip, hpn, hfree⟩)
        · exact ⟨le_rfl, hlt, by omega, fun f hf hin => by have := hstart f hf; omega⟩
        · exact ⟨by omega, hpn, by omega, hfree⟩
      · rintro ⟨hip, hpn, hhere, hfree⟩
        by_cases hp : p = i
        · exact Or.inl hp
        · exact Or.inr ⟨by omega, hpn, hfree⟩

/-- **What the checks of all rounds touch lies inside exactly when no round
starts at sync bytes that are cut off from their header.** -/
theorem scanTouched_lt_iff (scratchpad : Mem) (rb : Ringbuffer) (chk : MsgStrmCheck)
    {rbSize : Int} {cap fuel : Nat} (hcap : rbSize ≤ cap) (hfuel : rbSize.toNat < fuel) :
    (∀ o ∈ scanTouched rbSize fuel (scanStart scratchpad rb chk), o < cap) ↔
      ∀ p, ScanStopsAt scratchpad rbSize.toNat p → ¬ CutOffSync scratchpad cap p := by
  obtain ⟨s, -, -, hscan, -⟩ :=
    scanLoop_total scratchpad rb chk rbSize (fun _ _ _ => True) trivial
      (fun _ _ _ _ _ _ => trivial)
  have hpos := mem_scanStates_iff hscan rbSize fuel (scanStart scratchpad rb chk) rfl rfl rfl
    (by omega)
  have hpad := scanStates_scratchpad rbSize fuel (scanStart scratchpad rb chk)
  have hstops : ∀ p, ScanStopsAt scratchpad rbSize.toNat p ↔
      p ∈ (whileStates (scanBody rbSize) fuel (scanStart scratchpad rb chk)).map ScanState.i := by
    intro p
    rw [hpos]
    constructor
    · rintro ⟨hp, found, hfound, hfree⟩
      rw [← hscan.unique hfound] at hfree
      exact ⟨Nat.zero_le p, hp, hfree⟩
    · rintro ⟨-, hp, hfree⟩
      exact ⟨hp, _, hscan, hfree⟩
  have hround : ∀ t ∈ whileStates (scanBody rbSize) fuel (scanStart scratchpad rb chk),
      ((∀ o ∈ touchedAt rbSize t, o < cap) ↔ ¬ CutOffSync scratchpad cap t.i) := by
    intro t ht
    have hlt : t.i < rbSize.toNat := ((hpos t.i).mp (List.mem_map_of_mem ht)).2.1
    have hn : ((rbSize.toNat : Nat) : Int) = rbSize := Int.toNat_of_nonneg (by omega)
    rw [touchedAt, run_parseAccess, hpad t ht, ← hn]
    exact parseTouched_lt_iff hlt (by omega)
  constructor
  · intro hin p hp
    obtain ⟨t, ht, rfl⟩ := List.mem_map.mp ((hstops p).mp hp)
    exact (hround t ht).mp fun o ho => hin o (List.mem_flatMap.mpr ⟨t, ht, ho⟩)
  · intro hsync o ho
    obtain ⟨t, ht, ho⟩ := List.mem_flatMap.mp ho
    exact (hround t ht).mpr (hsync _ ((hstops t.i).mpr (List.mem_map_of_mem ht))) o ho

/-- **Every byte the frame check touches when the scan loop calls it lies
inside the scratchpad, exactly when the scan stops at no sync that is cut off
by the scratchpad's end.** -/
theorem scanTouched_inside_iff (scratchpad : Mem) (rb : Ringbuffer) (chk : MsgStrmCheck)
    (rbSize : Int) (hsize : rbSize ≤ SCRATCHPAD_BUF_SIZE) (fuel : Nat)
    (hfuel : rbSize.toNat < fuel) :
    (∀ o ∈ scanTouched rbSize fuel (scanStart scratchpad rb chk), o < SCRATCHPAD_BUF_SIZE) ↔
      ∀ p, ScanStopsAt scratchpad rbSize.toNat p →
        ¬ CutOffSync scratchpad SCRATCHPAD_BUF_SIZE p :=
  scanTouched_lt_iff scratchpad rb chk hsize hfuel

/-- Zeros, and a `B5` in the last byte of the scratchpad. -/
def lastByteSync : Mem := fun i => if i = 4999 then UBX_SYNC0 else 0

/-- A full scratchpad with a `B5` in its last byte. -/
theorem scanTouched_inside_iff_last_byte :
    (∀ o ∈ scanTouched 5000 5001 (scanStart lastByteSync (ringbufferInit fun _ => 0) .zero),
        o < SCRATCHPAD_BUF_SIZE) ↔
      ∀ p, ScanStopsAt lastByteSync 5000 p → ¬ CutOffSync lastByteSync SCRATCHPAD_BUF_SIZE p :=
  scanTouched_inside_iff _ _ _ 5000 (by decide) 5001 (by decide)

/-- A `B5` in the last byte of a full scratchpad: the second sync byte is
looked for behind the end. -/
theorem scanTouched_last_byte :
    ¬ ∀ (scratchpad : Mem) (rb : Ringbuffer) (chk : MsgStrmCheck) (rbSize : Int) (fuel : Nat),
      0 ≤ rbSize → rbSize ≤ SCRATCHPAD_BUF_SIZE → rbSize.toNat < fuel →
      ∀ o ∈ scanTouched rbSize fuel (scanStart scratchpad rb chk), o < SCRATCHPAD_BUF_SIZE := by
  intro hall
  have hin := hall lastByteSync (ringbufferInit fun _ => 0) .zero 5000 5001 (by decide) (by decide)
    (by decide)
  rw [scanTouched_lt_iff _ _ _ (by decide) (by decide)] at hin
  have hno : ∀ p l, frameItem lastByteSync p ≠ some l := by
    intro p l hl
    have hsync1 : lastByteSync (p + 1) = UBX_SYNC1 := (frameItem_eq_some.mp hl).1.2
    unfold lastByteSync at hsync1
    split at hsync1
    · exact absurd hsync1 (by decide)
    · exact absurd hsync1 (by decide)
  have hscan : Scan (frameItem lastByteSync) 5000 0 [] :=
    Scan.skip_to (Nat.zero_le _) le_rfl (fun p _ _ l hl => absurd hl (hno p l)) (Scan.done le_rfl)
  exact hin 4999 ⟨by decide, [], hscan, by simp⟩ (by decide)

end UbloxRead
