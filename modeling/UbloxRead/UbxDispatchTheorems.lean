/-
UbloxRead.UbxDispatchTheorems — the dispatcher against the parser.

`ubxMsgDispatch_eq` unfolds the dispatcher: sync bytes and checksum decide, and
an accepted frame gets the call its table has for it. The parser asks one thing
more, that the frame ends in the bytes given. `framingAgrees_iff` is the exact
consequence: the two agree unless a frame with sync bytes and a right checksum
claims more bytes than there are, and then the dispatcher accepts it
(`framing_disagrees`).
-/
import UbloxRead.UbxDispatch
import UbloxRead.UbxFrameTheorems

namespace UbloxRead

open Lib

universe u

variable {H : Type u}

/-- The handler for a class and an id, entry by entry. -/
theorem entryFor_cons (c i : UInt8) (h : H) (dt : List (DispatchEntry H)) (msgClass msgId : UInt8) :
    (entryFor (⟨c, i, some h⟩ :: dt) msgClass msgId).bind (·.handler)
      = if c = msgClass ∧ i = msgId then some h
        else (entryFor dt msgClass msgId).bind (·.handler) := by
  by_cases hm : c = msgClass ∧ i = msgId <;> simp [entryFor, hm]

theorem entryFor_null (c i : UInt8) (dt : List (DispatchEntry H)) (msgClass msgId : UInt8) :
    entryFor (⟨c, i, none⟩ :: dt) msgClass msgId = none := by
  simp [entryFor]

/-- A table with a NULL handler answers with the first entry before it. -/
theorem ubxFindHandler_eq {dt : List (DispatchEntry H)} (hnull : ∃ e ∈ dt, e.handler = none)
    (msgClass msgId : UInt8) :
    ubxFindHandler dt msgClass msgId
      = some ((entryFor dt msgClass msgId).bind (·.handler)) := by
  induction dt with
  | nil => simp at hnull
  | cons e dt ih =>
    obtain ⟨c, i, handler⟩ := e
    unfold ubxFindHandler
    cases handler with
    | none =>
      rw [entryFor_null]
      rfl
    | some h =>
      have hrest : ∃ e ∈ dt, e.handler = none := by simpa using hnull
      rw [entryFor_cons]
      by_cases hm : c = msgClass ∧ i = msgId
      · simp only [hm, and_self, if_true]
      · simp only [hm, if_false]
        exact ih hrest

/-- A search that ends inside a table ends there whatever stands behind it. -/
theorem ubxFindHandler_append {dt rest : List (DispatchEntry H)} {msgClass msgId : UInt8}
    {h : Option H} (hfind : ubxFindHandler dt msgClass msgId = some h) :
    ubxFindHandler (dt ++ rest) msgClass msgId = some h := by
  induction dt with
  | nil => cases hfind
  | cons e dt ih =>
    rw [List.cons_append]
    unfold ubxFindHandler at hfind ⊢
    split
    · next he =>
      rw [he] at hfind
      exact hfind
    · next x he =>
      rw [he] at hfind
      split
      · next hm =>
        simp only [hm, and_self, if_true] at hfind
        exact hfind
      · next hm =>
        simp only [hm, if_false] at hfind
        exact ih hfind

/-- Without a NULL handler a search for an entry that is not listed goes on behind
the table. -/
theorem ubxFindHandler_past {dt : List (DispatchEntry H)} {msgClass msgId : UInt8}
    (hall : ∀ e ∈ dt, e.handler.isSome)
    (hno : ∀ e ∈ dt, ¬ (e.msgClass = msgClass ∧ e.msgId = msgId)) (rest : List (DispatchEntry H)) :
    ubxFindHandler (dt ++ rest) msgClass msgId = ubxFindHandler rest msgClass msgId := by
  induction dt with
  | nil => rfl
  | cons e dt ih =>
    rw [List.forall_mem_cons] at hall hno
    obtain ⟨h, hh⟩ := Option.isSome_iff_exists.mp hall.1
    rw [List.cons_append, ubxFindHandler, hh]
    simp only [hno.1, if_false]
    exact ih hall.2 hno.2

/-- A search for a listed entry ends in the table. -/
theorem ubxFindHandler_of_listed {dt : List (DispatchEntry H)} {msgClass msgId : UInt8}
    (hyes : ∃ e ∈ dt, e.msgClass = msgClass ∧ e.msgId = msgId) :
    ∃ h, ubxFindHandler dt msgClass msgId = some h := by
  induction dt with
  | nil => simp at hyes
  | cons e dt ih =>
    unfold ubxFindHandler
    split
    · exact ⟨none, rfl⟩
    · next h _ =>
      by_cases hm : e.msgClass = msgClass ∧ e.msgId = msgId
      · exact ⟨some h, if_pos hm⟩
      · simp only [hm, if_false]
        obtain ⟨e', he', hm'⟩ := hyes
        rcases List.mem_cons.mp he' with rfl | he'
        · exact absurd hm' hm
        · exact ih ⟨e', he', hm'⟩

/-- On a frame that stands in memory the dispatcher comes down to the search. -/
theorem ubxMsgDispatch_of_valid (dt : List (DispatchEntry H)) {mem : Mem} {msg : Nat}
    (hsync : SyncAt mem msg) (hck : ChecksumAt mem msg) (len : Int) :
    ubxMsgDispatch dt mem msg len =
      (ubxFindHandler dt (getUbxMsgClass mem msg) (getUbxMsgId mem msg)).map fun h =>
        (((8 + payloadLen mem msg : Nat) : Int),
          h.map fun h => ⟨h, msg, msg + 6, payloadLen mem msg⟩) := by
  have hpay : msg + UBX_HDR_SIZE = msg + 6 := rfl
  simp only [SyncAt, ChecksumAt, Prod.ext_iff] at hsync hck
  simp only [ubxMsgDispatch, frameLen_eq, bodyLen_eq, cksumPtr_eq, cksumPtr_succ, hpay,
    ubxChecksum_eq, hsync.1, hsync.2, hck.1, hck.2, ne_eq, not_true, or_self, if_false]
  cases ubxFindHandler dt (getUbxMsgClass mem msg) (getUbxMsgId mem msg) <;> rfl

/-- Anything else it rejects. -/
theorem ubxMsgDispatch_of_invalid (dt : List (DispatchEntry H)) {mem : Mem} {msg : Nat}
    (hbad : ¬ (SyncAt mem msg ∧ ChecksumAt mem msg)) (len : Int) :
    ubxMsgDispatch dt mem msg len = some (-1, none) := by
  simp only [SyncAt, ChecksumAt, Prod.ext_iff] at hbad
  simp only [ubxMsgDispatch, frameLen_eq, bodyLen_eq, cksumPtr_eq, cksumPtr_succ, ubxChecksum_eq,
    ne_eq, ← not_and_or, ite_not]
  split
  · next hsync => exact if_neg fun hck => hbad ⟨hsync, hck⟩
  · rfl

/-- **What the dispatcher does**, whatever the number of bytes it is given. -/
theorem ubxMsgDispatch_eq {dt : List (DispatchEntry H)} (hnull : ∃ e ∈ dt, e.handler = none)
    (mem : Mem) (msg : Nat) (len : Int) :
    ubxMsgDispatch dt mem msg len =
      if SyncAt mem msg ∧ ChecksumAt mem msg
      then some (((8 + payloadLen mem msg : Nat) : Int), callFor dt mem msg) else some (-1, none) := by
  split
  · next hgood =>
    rw [ubxMsgDispatch_of_valid dt hgood.1 hgood.2, ubxFindHandler_eq hnull]
    rfl
  · next hbad => exact ubxMsgDispatch_of_invalid dt hbad len

/-- **The dispatcher and the parser agree exactly unless** a frame with the sync
bytes and a right checksum claims more bytes than there are. -/
theorem framingAgrees_iff (dt : List (DispatchEntry H)) (hnull : ∃ e ∈ dt, e.handler = none)
    (mem : Mem) (msg : Nat) (len : Int) (hlen : 8 ≤ len) :
    FramingAgrees dt mem msg len ↔
      ¬ (SyncAt mem msg ∧ ChecksumAt mem msg ∧ len < 8 + payloadLen mem msg) := by
  have hdisp := ubxMsgDispatch_eq hnull mem msg len
  have hparse := parse_fst_eq mem msg len
  rw [sizeOfInt_of_nonneg (by omega)] at hparse
  by_cases hsync : SyncAt mem msg
  · by_cases hck : ChecksumAt mem msg
    · simp only [hsync, hck, and_self, if_true, not_true, if_false, true_and, not_lt] at hdisp hparse ⊢
      constructor
      · intro hagrees
        by_contra hlong
        rw [if_pos (by omega)] at hparse
        have := hagrees.rejects (by omega)
        rw [hdisp] at this
        simp at this
        omega
      · intro hin
        rw [if_neg (by omega)] at hparse
        refine ⟨?_, ?_, ?_⟩
        · intro k _
          simp [hdisp, hparse]
        · intro hneg
          omega
        · intro _
          rw [hdisp, hparse]
    · simp only [hsync, hck, and_false, if_false, not_true, not_false_eq_true, if_true, false_and,
        iff_true] at hdisp hparse ⊢
      have hneg : (parseUartInput4UbxMsg mem msg len).1 < 0 := by
        rw [hparse]
        split <;> omega
      refine ⟨?_, fun _ => hdisp, fun hpos => by omega⟩
      intro k hk
      simp [hdisp]
      omega
  · simp only [hsync, false_and, if_false, not_false_eq_true, if_true, iff_true] at hdisp hparse ⊢
    refine ⟨?_, fun _ => hdisp, fun hpos => by omega⟩
    intro k hk
    simp [hdisp]
    omega

/-- A frame that is all there; two entries stand for it. -/
theorem framingAgrees_iff_whole :
    FramingAgrees [⟨0x0b, 0x01, some 0⟩, ⟨0x0b, 0x01, some 1⟩, ⟨0, 0, none⟩]
        (memOfList [0xb5, 0x62, 0x0b, 0x01, 0x00, 0x00, 0x0c, 0x2f]) 0 8 :=
  (framingAgrees_iff _ ⟨⟨0, 0, none⟩, by decide, rfl⟩ _ 0 8 (by decide)).mpr (by decide)

/-- A frame of nine bytes of which eight are there: the parser waits for the
rest, the dispatcher runs the handler. -/
theorem framing_disagrees :
    ¬ FramingAgrees [⟨0x0b, 0x01, some 0⟩, ⟨0, 0, none⟩]
        (memOfList [0xb5, 0x62, 0x0b, 0x01, 0x01, 0x00, 0x05, 0x12, 0x43]) 0 8 := by
  intro h
  have := h.rejects (by decide)
  exact absurd this (by decide)

end UbloxRead
