/-
UbloxRead.ScanLoopTheorems — what the scan loop finds.

`scanBody_cases` says all that one round can do. From it `scanLoop_total`
follows: within any fuel above the number of bytes the loop ends, the
scratchpad is what it was, the ranges taken are the ones of `Lib.Scan` over
`frameItem`, and whatever a taken frame preserves of the ring buffer, the flags
and the frames so far holds at the end. Two results are read off it:

* `scanLoop_sound_maximal` — the ranges taken are valid frames, in order, and
  nothing valid is left outside them.
* `scanLoop_resynchronises` — on frames with gaps between them the loop takes
  exactly the frames. A gap may be anything without `B5 62` in it; that one
  may end in `B5` is harmless because no frame starts with `62`.
-/
import UbloxRead.ScanLoop
import UbloxRead.RingBufTheorems
import UbloxRead.UbxFrameTheorems
import UbloxRead.Lib.Scan

namespace UbloxRead

open Lib

/-! ## One round -/

/-- The state after a frame of `l` bytes is taken. -/
def ScanState.take (s : ScanState) (l : Nat) : ScanState where
  scratchpad := s.scratchpad
  rbUbxMsg := (ringbufferWrite s.rbUbxMsg (fun k => s.scratchpad (s.i + k)) l).rb
  msgChk := updateValidUbxMsgList s.scratchpad s.i s.msgChk
  i := s.i + l
  taken := s.taken ++ [{ pos := s.i, len := l,
                         ret := (ringbufferWrite s.rbUbxMsg
                           (fun k => s.scratchpad (s.i + k)) l).ret }]

/-- **What one round can do**: leave at the end of the bytes, step over a byte
where no frame fits, or take the frame that is there. -/
theorem scanBody_cases (rbSize : Int) (s : ScanState) :
    (rbSize.toNat ≤ s.i ∧ scanBody rbSize s = none) ∨
    (s.i < rbSize.toNat ∧ (∀ l, frameItem s.scratchpad s.i = some l → rbSize.toNat < s.i + l) ∧
      scanBody rbSize s = some { s with i := s.i + 1 }) ∨
    (∃ l, s.i < rbSize.toNat ∧ frameItem s.scratchpad s.i = some l ∧ s.i + l ≤ rbSize.toNat ∧
      scanBody rbSize s = some (s.take l)) := by
  by_cases hi : (s.i : Int) < rbSize
  · have hleft : 0 ≤ rbSize - s.i := by omega
    by_cases hrv : (parseUartInput4UbxMsg s.scratchpad s.i (rbSize - s.i)).1 < 0
    · refine Or.inr (Or.inl ⟨by omega, fun l hl => ?_, ?_⟩)
      · by_contra hc
        have := (parse_accepts_iff s.scratchpad s.i hleft l).mpr ⟨hl, by omega⟩
        omega
      · simp only [scanBody, hi, if_true, hrv, parse_snd]
    · obtain ⟨l, hl, hfit, hrv'⟩ := (parse_nonneg_iff s.scratchpad s.i hleft).mp (not_lt.mp hrv)
      refine Or.inr (Or.inr ⟨l, by omega, hl, by omega, ?_⟩)
      rw [hrv'] at hrv
      simp only [scanBody, hi, if_true, parse_snd, hrv', hrv, if_false, Int.toNat_natCast]
      rfl
  · exact Or.inl ⟨by omega, by simp only [scanBody, hi, if_false]⟩

/-! ## The whole loop -/

/-- **The loop's rule.** `P` is kept by every frame taken; then it holds at the
end, of what was taken by a scan of the whole range. -/
theorem scanLoop_total (scratchpad : Mem) (rb : Ringbuffer) (chk : MsgStrmCheck) (rbSize : Int)
    (P : Ringbuffer → MsgStrmCheck → List TakenFrame → Prop) (h0 : P rb chk [])
    (htake : ∀ s : ScanState, s.scratchpad = scratchpad →
      ∀ l, frameItem scratchpad s.i = some l → s.i + l ≤ rbSize.toNat →
        P s.rbUbxMsg s.msgChk s.taken →
        P (s.take l).rbUbxMsg (s.take l).msgChk (s.take l).taken) :
    ∃ s, (∀ fuel, rbSize.toNat < fuel →
        scanLoop rbSize fuel (scanStart scratchpad rb chk) = some s) ∧
      s.scratchpad = scratchpad ∧
      Scan (frameItem scratchpad) rbSize.toNat 0 (s.taken.map TakenFrame.span) ∧
      P s.rbUbxMsg s.msgChk s.taken := by
  -- What is taken so far is the start of a scan: any scan of the rest completes it.
  let Inv : ScanState → Prop := fun s =>
    s.scratchpad = scratchpad ∧ P s.rbUbxMsg s.msgChk s.taken ∧
      ∀ rest, Scan (frameItem scratchpad) rbSize.toNat s.i rest →
        Scan (frameItem scratchpad) rbSize.toNat 0 (s.taken.map TakenFrame.span ++ rest)
  have hbody : ∀ s t, Inv s → scanBody rbSize s = some t →
      Inv t ∧ rbSize.toNat - t.i < rbSize.toNat - s.i := by
    rintro s t ⟨hpad, hP, hscan⟩ hstep
    rcases scanBody_cases rbSize s with ⟨-, hb⟩ | ⟨hi, hno, hb⟩ | ⟨l, hi, hl, hfit, hb⟩
    · rw [hb] at hstep
      cases hstep
    · rw [hb] at hstep
      cases hstep
      rw [hpad] at hno
      exact ⟨⟨hpad, hP, fun rest hrest => hscan rest (Scan.skip hi hno hrest)⟩, by
        show rbSize.toNat - (s.i + 1) < _
        omega⟩
    · rw [hb] at hstep
      cases hstep
      rw [hpad] at hl
      have hpos := frameItem_pos hl
      refine ⟨⟨hpad, htake s hpad l hl hfit hP, fun rest hrest => ?_⟩, ?_⟩
      · have := hscan _ (Scan.take hi hl hfit hrest)
        simpa [ScanState.take, TakenFrame.span] using this
      · show rbSize.toNat - (s.i + l) < _
        omega
  have hinit : Inv (scanStart scratchpad rb chk) := ⟨rfl, h0, fun rest hrest => hrest⟩
  obtain ⟨s, hloop, ⟨hpad, hP, hscan⟩, hexit⟩ :=
    whileLoop_total Inv (fun s => rbSize.toNat - s.i) hbody hinit
      (show rbSize.toNat - 0 < rbSize.toNat + 1 by omega)
  have hend : rbSize.toNat ≤ s.i := by
    rcases scanBody_cases rbSize s with ⟨h, -⟩ | ⟨-, -, hb⟩ | ⟨l, -, -, -, hb⟩
    · exact h
    · rw [hb] at hexit
      cases hexit
    · rw [hb] at hexit
      cases hexit
  refine ⟨s, fun fuel hfuel => whileLoop_mono hfuel hloop, hpad, ?_, hP⟩
  simpa using hscan [] (Scan.done hend)

/-- **The loop ends, changes no byte of the scratchpad, and takes valid frames,
in order and disjoint; every valid position is taken or inside a taken frame.** -/
theorem scanLoop_sound_maximal (scratchpad : Mem) (rb : Ringbuffer) (chk : MsgStrmCheck)
    (rbSize : Int) :
    ∃ s, (∀ fuel, rbSize.toNat < fuel →
        scanLoop rbSize fuel (scanStart scratchpad rb chk) = some s) ∧
      s.scratchpad = scratchpad ∧
      (∀ f ∈ s.taken, ValidAt scratchpad rbSize.toNat f.pos ∧
        f.len = 8 + payloadLen scratchpad f.pos) ∧
      s.taken.Pairwise (fun f g => f.pos < g.pos ∧ f.pos + f.len ≤ g.pos) ∧
      (∀ p, ValidAt scratchpad rbSize.toNat p →
        (∃ f ∈ s.taken, f.pos = p) ∨ ∃ f ∈ s.taken, f.pos < p ∧ p < f.pos + f.len) := by
  obtain ⟨s, hloop, hpad, hscan, -⟩ :=
    scanLoop_total scratchpad rb chk rbSize (fun _ _ _ => True) trivial
      (fun _ _ _ _ _ _ => trivial)
  have hitem : ∀ f ∈ s.taken, frameItem scratchpad f.pos = some f.len ∧
      f.pos + f.len ≤ rbSize.toNat := fun f hf => by
    obtain ⟨h1, -, -, h4⟩ := hscan.sound _ (List.mem_map_of_mem hf)
    exact ⟨h1, h4⟩
  refine ⟨s, hloop, hpad, fun f hf => ?_, ?_, fun p hp => ?_⟩
  · obtain ⟨hf1, hf2⟩ := hitem f hf
    exact ⟨validAt_iff.mpr ⟨f.len, hf1, hf2⟩, (frameItem_eq_some.mp hf1).2.2⟩
  · refine (List.pairwise_map.mp hscan.ordered).imp_of_mem fun {f g} hf _ hfg => ?_
    have hpos := frameItem_pos (hitem f hf).1
    have hfg : f.pos + f.len ≤ g.pos := hfg
    exact ⟨by omega, hfg⟩
  · obtain ⟨l, hl, hfit⟩ := validAt_iff.mp hp
    have hl8 := frameItem_pos hl
    rcases hscan.maximal p l (Nat.zero_le p) (by omega) hl hfit with hmem | ⟨_, hmem, hlo, hhi⟩
    · obtain ⟨f, hf, heq⟩ := List.mem_map.mp hmem
      exact Or.inl ⟨f, hf, congrArg Prod.fst heq⟩
    · obtain ⟨f, hf, rfl⟩ := List.mem_map.mp hmem
      exact Or.inr ⟨f, hf, hlo, hhi⟩

/-! ## What becomes of the frames -/

/-- The frame went into the ring buffer. -/
def TakenFrame.Kept (f : TakenFrame) : Prop := f.ret = f.len

instance (f : TakenFrame) : Decidable f.Kept := inferInstanceAs (Decidable (_ = _))

/-- The bytes of the frames that were kept, in order. -/
def keptBytes (scratchpad : Mem) (taken : List TakenFrame) : List UInt8 :=
  (taken.filter fun f => f.Kept).flatMap fun f => slice scratchpad f.pos f.len

/-- The frames' total length. -/
def totalLen (spans : List (Nat × Nat)) : Nat := (spans.map Prod.snd).sum

/-- What the frames taken so far did to a ring buffer that held `before`. -/
structure KeptIn (scratchpad : Mem) (before : List UInt8) (rb : Ringbuffer)
    (taken : List TakenFrame) : Prop where
  wf : rb.Wf
  contents_eq : rb.contents = before ++ keptBytes scratchpad taken
  all_iff : (∀ f ∈ taken, f.Kept) ↔
    before.length + totalLen (taken.map TakenFrame.span) ≤ RINGBUFFER_SIZE

theorem keptBytes_append (scratchpad : Mem) (taken taken' : List TakenFrame) :
    keptBytes scratchpad (taken ++ taken')
      = keptBytes scratchpad taken ++ keptBytes scratchpad taken' := by
  simp [keptBytes]

/-- A frame that was kept adds its bytes, another none. -/
theorem keptBytes_singleton (scratchpad : Mem) (f : TakenFrame) :
    keptBytes scratchpad [f] = if f.Kept then slice scratchpad f.pos f.len else [] := by
  by_cases hf : f.Kept <;> simp [keptBytes, hf]

theorem length_keptBytes_le (scratchpad : Mem) (taken : List TakenFrame) :
    (keptBytes scratchpad taken).length ≤ totalLen (taken.map TakenFrame.span) := by
  induction taken with
  | nil => exact le_rfl
  | cons f taken ih =>
    have hcons := keptBytes_append scratchpad [f] taken
    rw [List.singleton_append, keptBytes_singleton] at hcons
    have htotal : totalLen ((f :: taken).map TakenFrame.span)
        = f.len + totalLen (taken.map TakenFrame.span) := by simp [totalLen, TakenFrame.span]
    rw [hcons, htotal, List.length_append]
    split <;> simp only [length_slice, List.length_nil] <;> omega

/-- When all frames were kept, their bytes are all there. -/
theorem keptBytes_of_all {taken : List TakenFrame} (h : ∀ f ∈ taken, f.Kept) (scratchpad : Mem) :
    keptBytes scratchpad taken = taken.flatMap fun f => slice scratchpad f.pos f.len := by
  rw [keptBytes, List.filter_eq_self.mpr fun f hf => decide_eq_true (h f hf)]

theorem length_keptBytes_of_all {taken : List TakenFrame} (h : ∀ f ∈ taken, f.Kept)
    (scratchpad : Mem) :
    (keptBytes scratchpad taken).length = totalLen (taken.map TakenFrame.span) := by
  rw [keptBytes_of_all h, totalLen]
  simp [List.length_flatMap, Function.comp_def, TakenFrame.span]

/-- One more frame: it is kept when it fits. -/
theorem KeptIn.write {scratchpad : Mem} {before : List UInt8} {rb : Ringbuffer}
    {taken : List TakenFrame} (h : KeptIn scratchpad before rb taken) (p : Nat) {l : Nat}
    (hl : 0 < l) :
    KeptIn scratchpad before (ringbufferWrite rb (fun k => scratchpad (p + k)) l).rb
      (taken ++ [{ pos := p, len := l,
                   ret := (ringbufferWrite rb (fun k => scratchpad (p + k)) l).ret }]) := by
  obtain ⟨hwf, hcont, hall⟩ := h
  have hsize := hwf.size_eq
  have hfull := hwf.fill_le
  have hfill : rb.fill = before.length + (keptBytes scratchpad taken).length := by
    rw [← length_contents, hcont, List.length_append]
  have hle := length_keptBytes_le scratchpad taken
  have htotal : ∀ f : TakenFrame, totalLen ((taken ++ [f]).map TakenFrame.span)
      = totalLen (taken.map TakenFrame.span) + f.len := fun f => by
    simp [TakenFrame.span, totalLen]
  have hmem : ∀ f, (∀ g ∈ taken ++ [f], g.Kept) ↔ (∀ g ∈ taken, g.Kept) ∧ f.Kept := fun f => by
    simp [or_imp, forall_and]
  by_cases hfit : l ≤ rb.size - rb.fill
  · obtain ⟨hret, hwf', hcont'⟩ := ringbufferWrite_spec hwf (fun k => scratchpad (p + k)) _ hfit
    rw [slice_shift, Nat.add_zero] at hcont'
    have hkept : TakenFrame.Kept { pos := p, len := l, ret := l } := rfl
    rw [hret]
    refine ⟨hwf', ?_, ?_⟩
    · rw [hcont', hcont, keptBytes_append, keptBytes_singleton, if_pos hkept, List.append_assoc]
    · rw [htotal, hmem]
      constructor
      · rintro ⟨hk, -⟩
        have := length_keptBytes_of_all hk scratchpad
        simp only
        omega
      · intro htot
        simp only at htot
        exact ⟨hall.mpr (by omega), hkept⟩
  · have hnot : ¬ TakenFrame.Kept { pos := p, len := l, ret := 0 } := by
      simp only [TakenFrame.Kept]
      omega
    rw [ringbufferWrite_refused _ (by omega)]
    refine ⟨hwf, ?_, ?_⟩
    · rw [hcont, keptBytes_append, keptBytes_singleton, if_neg hnot, List.append_nil]
    · rw [htotal, hmem]
      constructor
      · rintro ⟨-, hk⟩
        exact absurd hk hnot
      · intro htot
        simp only at htot
        omega

/-- **The ring buffer after the loop.** -/
theorem scanLoop_kept (scratchpad : Mem) (rb : Ringbuffer) (chk : MsgStrmCheck) (rbSize : Int) :
    ∃ s, (∀ fuel, rbSize.toNat < fuel →
        scanLoop rbSize fuel (scanStart scratchpad rb chk) = some s) ∧
      s.scratchpad = scratchpad ∧
      Scan (frameItem scratchpad) rbSize.toNat 0 (s.taken.map TakenFrame.span) ∧
      (rb.Wf → KeptIn scratchpad rb.contents s.rbUbxMsg s.taken) := by
  have h0 : rb.Wf → KeptIn scratchpad rb.contents rb [] := fun hwf =>
    ⟨hwf, by simp [keptBytes], by simpa [totalLen, ← hwf.size_eq] using hwf.fill_le⟩
  refine scanLoop_total _ _ _ rbSize
    (fun rb' _ taken => rb.Wf → KeptIn scratchpad rb.contents rb' taken) h0 ?_
  rintro s rfl l hl - hP hwf
  have := frameItem_pos hl
  exact (hP hwf).write s.i (by omega)

/-! ## Frames with gaps between them -/

/-- A gap: no `B5` directly followed by `62`. -/
def SyncFree (gap : List UInt8) : Prop := ¬ [UBX_SYNC0, UBX_SYNC1] <:+: gap

instance (gap : List UInt8) : Decidable (SyncFree gap) := inferInstanceAs (Decidable (¬ _))

/-- Frames, each with the gap behind it, on the wire. -/
def partsBytes (parts : List (UbxFrame × List UInt8)) : List UInt8 :=
  parts.flatMap fun part => part.1.bytes ++ part.2

/-- Where the frames stand when the first starts at `p`. -/
def partsSpans : Nat → List (UbxFrame × List UInt8) → List (Nat × Nat)
  | _, [] => []
  | p, part :: parts =>
      (p, part.1.bytes.length) :: partsSpans (p + part.1.bytes.length + part.2.length) parts

/-- No sync starts inside a gap that is laid down at `p`. -/
theorem not_syncAt_gap {mem : Mem} {p k : Nat} {gap : List UInt8} (hgap : SyncFree gap)
    (h : slice mem p gap.length = gap) (hk : k + 1 < gap.length) : ¬ SyncAt mem (p + k) := by
  rintro ⟨h0, h1⟩
  refine hgap ⟨gap.take k, gap.drop (k + 2), ?_⟩
  have hat0 := getElem?_of_slice h (show k < gap.length by omega)
  have hat1 := getElem?_of_slice h hk
  rw [h0] at hat0
  rw [← Nat.add_assoc, h1] at hat1
  have hdrop : gap.drop k = UBX_SYNC0 :: UBX_SYNC1 :: gap.drop (k + 2) := by
    rw [List.drop_eq_getElem?_toList_append, List.drop_eq_getElem?_toList_append, hat0, hat1]
    rfl
  rw [List.append_assoc]
  show gap.take k ++ UBX_SYNC0 :: UBX_SYNC1 :: gap.drop (k + 2) = gap
  rw [← hdrop, List.take_append_drop]

/-- The scan passes over a gap that ends at the end of the bytes, or before a
byte other than `62`. -/
theorem scan_gap {mem : Mem} {p n : Nat} {gap : List UInt8} {found : List (Nat × Nat)}
    (hgap : SyncFree gap) (h : slice mem p gap.length = gap) (hn : p + gap.length ≤ n)
    (hnext : p + gap.length < n → mem (p + gap.length) ≠ UBX_SYNC1)
    (hrest : Scan (frameItem mem) n (p + gap.length) found) : Scan (frameItem mem) n p found := by
  refine Scan.skip_to (by omega) hn (fun q hpq hqj l hl => ?_) hrest
  have hsync := (frameItem_eq_some.mp hl).1
  have hpos := frameItem_pos hl
  obtain ⟨k, rfl⟩ : ∃ k, q = p + k := ⟨q - p, by omega⟩
  by_cases hk : k + 1 < gap.length
  · exact absurd hsync (not_syncAt_gap hgap h hk)
  · have hjoin : p + k + 1 = p + gap.length := by omega
    by_contra hc
    refine hnext (by omega) ?_
    rw [← hjoin]
    exact hsync.2

/-- The first byte of a frame. -/
theorem mem_of_bytes {mem : Mem} {p : Nat} (f : UbxFrame)
    (h : slice mem p f.bytes.length = f.bytes) : mem p = UBX_SYNC0 :=
  (frameItem_eq_some.mp (frameItem_of_bytes f h)).1.1

/-- **A scan of frames with gaps takes the frames.** The induction is on the
frames; the gap in front of them is the one behind the frame before. -/
theorem scan_parts (mem : Mem) {n : Nat} (parts : List (UbxFrame × List UInt8)) :
    ∀ (gap : List UInt8) (p : Nat), SyncFree gap → (∀ part ∈ parts, SyncFree part.2) →
      slice mem p (gap ++ partsBytes parts).length = gap ++ partsBytes parts →
      p + (gap ++ partsBytes parts).length = n →
      Scan (frameItem mem) n p (partsSpans (p + gap.length) parts) := by
  induction parts with
  | nil =>
    intro gap p hgap _ hmem hn
    rw [partsBytes, List.flatMap_nil, List.append_nil] at hmem hn
    exact scan_gap hgap hmem (by omega) (by omega) (Scan.done (by omega))
  | cons part parts ih =>
    intro gap p hgap hgaps hmem hn
    have hcons : partsBytes (part :: parts) = part.1.bytes ++ (part.2 ++ partsBytes parts) := by
      rw [partsBytes, List.flatMap_cons, List.append_assoc]
      rfl
    rw [hcons] at hmem hn
    obtain ⟨hgapmem, hmem⟩ := slice_eq_append_iff.mp hmem
    obtain ⟨hframe, hmem⟩ := slice_eq_append_iff.mp hmem
    rw [List.length_append, List.length_append] at hn
    have hpos := length_bytes part.1
    refine scan_gap hgap hgapmem (by omega) (fun _ => ?_) ?_
    · rw [mem_of_bytes part.1 hframe]
      decide
    · have hrest := ih part.2 _ (hgaps part (List.mem_cons_self ..))
        (fun q hq => hgaps q (List.mem_cons_of_mem _ hq)) hmem (by omega)
      exact Scan.take (by omega) (frameItem_of_bytes part.1 hframe) (by omega) hrest

/-- The frames stand at their spans. -/
theorem map_slice_partsSpans {mem : Mem} (parts : List (UbxFrame × List UInt8)) :
    ∀ p : Nat, slice mem p (partsBytes parts).length = partsBytes parts →
      (partsSpans p parts).map (fun span => slice mem span.1 span.2)
        = parts.map fun part => part.1.bytes := by
  induction parts with
  | nil => exact fun _ _ => rfl
  | cons part parts ih =>
    intro p hmem
    have hcons : partsBytes (part :: parts) = (part.1.bytes ++ part.2) ++ partsBytes parts := by
      rw [partsBytes, List.flatMap_cons]
      rfl
    rw [hcons] at hmem
    obtain ⟨hpart, hrest⟩ := slice_eq_append_iff.mp hmem
    obtain ⟨hframe, -⟩ := slice_eq_append_iff.mp hpart
    rw [List.length_append, ← Nat.add_assoc] at hrest
    rw [partsSpans, List.map_cons, List.map_cons, ih _ hrest, hframe]

theorem totalLen_partsSpans (parts : List (UbxFrame × List UInt8)) : ∀ p : Nat,
    totalLen (partsSpans p parts) = (parts.map fun part => part.1.bytes.length).sum := by
  induction parts with
  | nil => exact fun _ => rfl
  | cons part parts ih =>
    intro p
    have hcons : totalLen (partsSpans p (part :: parts))
        = part.1.bytes.length + totalLen (partsSpans (p + part.1.bytes.length + part.2.length) parts) := by
      simp [partsSpans, totalLen]
    rw [hcons, ih, List.map_cons, List.sum_cons]

/-- **A scan of frames laid end to end takes the frames.** -/
theorem scan_frames {mem : Mem} (frames : List UbxFrame) {spans : List (Nat × Nat)}
    (hmem : slice mem 0 (frames.flatMap UbxFrame.bytes).length = frames.flatMap UbxFrame.bytes)
    (hscan : Scan (frameItem mem) (frames.flatMap UbxFrame.bytes).length 0 spans) :
    spans = partsSpans 0 (frames.map fun f => (f, [])) ∧
      spans.map (fun span => slice mem span.1 span.2) = frames.map UbxFrame.bytes := by
  have hparts : partsBytes (frames.map fun f => (f, [])) = frames.flatMap UbxFrame.bytes := by
    simp [partsBytes, List.flatMap_map]
  have hgaps : ∀ part ∈ frames.map fun f => (f, ([] : List UInt8)), SyncFree part.2 := by
    intro part hpart
    obtain ⟨f, -, rfl⟩ := List.mem_map.mp hpart
    show SyncFree []
    decide
  rw [← hparts] at hmem hscan
  have hspans : spans = partsSpans 0 (frames.map fun f => (f, [])) :=
    hscan.unique (scan_parts mem _ [] 0 (by decide) hgaps hmem (Nat.zero_add _))
  refine ⟨hspans, ?_⟩
  rw [hspans, map_slice_partsSpans _ _ hmem, List.map_map]
  rfl

/-- Their lengths add up to all there is. -/
theorem totalLen_of_frames {mem : Mem} (frames : List UbxFrame) {spans : List (Nat × Nat)}
    (hmem : slice mem 0 (frames.flatMap UbxFrame.bytes).length = frames.flatMap UbxFrame.bytes)
    (hscan : Scan (frameItem mem) (frames.flatMap UbxFrame.bytes).length 0 spans) :
    totalLen spans = (frames.flatMap UbxFrame.bytes).length := by
  rw [(scan_frames frames hmem hscan).1, totalLen_partsSpans, List.map_map, List.length_flatMap]
  rfl

/-- **The loop takes exactly the frames of a stream of frames and gaps**,
whatever follows the stream in memory. -/
theorem scanLoop_resynchronises (gap : List UInt8) (parts : List (UbxFrame × List UInt8))
    (hgap : SyncFree gap) (hgaps : ∀ part ∈ parts, SyncFree part.2) (scratchpad : Mem)
    (hpad : slice scratchpad 0 (gap ++ partsBytes parts).length = gap ++ partsBytes parts)
    (rb : Ringbuffer) (chk : MsgStrmCheck) :
    ∃ s, (∀ fuel, (gap ++ partsBytes parts).length < fuel →
        scanLoop (gap ++ partsBytes parts).length fuel (scanStart scratchpad rb chk) = some s) ∧
      s.taken.map TakenFrame.span = partsSpans gap.length parts ∧
      s.taken.map (fun f => slice s.scratchpad f.pos f.len) = parts.map fun part => part.1.bytes := by
  obtain ⟨s, hloop, hsame, hscan, -⟩ :=
    scanLoop_total scratchpad rb chk ((gap ++ partsBytes parts).length : Int)
      (fun _ _ _ => True) trivial (fun _ _ _ _ _ _ => trivial)
  rw [Int.toNat_natCast] at hloop hscan
  have hspans : s.taken.map TakenFrame.span = partsSpans gap.length parts := by
    have := scan_parts _ parts gap 0 hgap hgaps hpad (Nat.zero_add _)
    rw [Nat.zero_add] at this
    exact hscan.unique this
  refine ⟨s, hloop, hspans, ?_⟩
  have hrest := (slice_eq_append_iff.mp hpad).2
  rw [Nat.zero_add] at hrest
  rw [← map_slice_partsSpans parts _ hrest, ← hspans, List.map_map, hsame]
  rfl

/-- A line of noise that ends in `B5`, the poll message for AID-INI, and `B5`
again. -/
theorem scanLoop_resynchronises_noise :
    let poll : UbxFrame := ⟨UBX_CLASS_AID, UBX_AID_INI, [], by decide⟩
    let bytes := [0x24, UBX_SYNC0] ++ partsBytes [(poll, [UBX_SYNC0])]
    ∃ s, (∀ fuel, bytes.length < fuel →
        scanLoop bytes.length fuel
          (scanStart (memOfList bytes) (ringbufferInit fun _ => 0) .zero) = some s) ∧
      s.taken.map TakenFrame.span = [(2, 8)] ∧
      s.taken.map (fun f => slice s.scratchpad f.pos f.len) = [poll.bytes] :=
  scanLoop_resynchronises [0x24, UBX_SYNC0] [(_, [UBX_SYNC0])] (by decide) (by decide) _
    (slice_memOfList _) _ _

end UbloxRead
