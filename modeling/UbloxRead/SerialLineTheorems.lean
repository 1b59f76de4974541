/-
UbloxRead.SerialLineTheorems — when the serial line carries the queued messages
as they are.

`lineInv_snoc` is the step: whatever a step of the two threads shows, the writes
so far stay possible attempts for the messages pushed so far, and the bytes on
the line are what `Lib.Attempts` says. The message that is written is the first
that was not completely written yet (`TxProgress`). `serialLine_exact_iff` then
reads the rule of `Lib.Attempts` for every run: the line carries the messages
exactly as long as no write sends anything after a short write that did.
-/
import UbloxRead.SerialLine
import UbloxRead.SerialTheorems
import UbloxRead.UbxFrameTheorems

namespace UbloxRead

open Lib

/-! ## Complete and short writes -/

theorem writeLen_pos (msg : TxMsg) : 0 < msg.writeLen := by
  unfold TxMsg.writeLen
  omega

theorem writeLen_lt (msg : TxMsg) : msg.writeLen < 2 ^ 17 := by
  have hlen : msg.payloadLen < 2 ^ 16 := by
    unfold TxMsg.payloadLen getUbxMsgLength
    split
    · decide
    · exact payloadLen_lt _ _
  unfold TxMsg.writeLen UBX_HDR_SIZE
  omega

/-- An error is not taken for a complete write. -/
theorem not_fullWrite_error (msg : TxMsg) : ¬ FullWrite msg (-1) := by
  have := writeLen_lt msg
  unfold FullWrite sizeOfInt
  simp
  omega

/-- A complete write sends the whole message. -/
theorem fullWrite_toNat {msg : TxMsg} {t : Int} (ht : 0 ≤ t) (hle : t ≤ msg.wire.length)
    (h : FullWrite msg t) : t.toNat = msg.wire.length ∧ msg.wire ≠ [] := by
  have hpos := writeLen_pos msg
  have hwire : msg.wire.length ≤ msg.writeLen := by simp [TxMsg.wire]
  rw [FullWrite, sizeOfInt_of_nonneg ht] at h
  refine ⟨by omega, List.ne_nil_of_length_pos (by omega)⟩

/-- A write is a possible attempt to send its message. -/
theorem sends_writeAttempt {msg : TxMsg} {t : Int} (ht : t = -1 ∨ (0 ≤ t ∧ t ≤ msg.wire.length))
    (items : List (List UInt8)) : Attempt.Sends (msg.wire :: items) [writeAttempt (msg, t)] := by
  by_cases hfull : FullWrite msg t
  · rcases ht with rfl | ⟨hnonneg, hle⟩
    · exact absurd hfull (not_fullWrite_error msg)
    · obtain ⟨hlen, hne⟩ := fullWrite_toNat hnonneg hle hfull
      simp only [writeAttempt, hfull, decide_true, hlen]
      exact Attempt.Sends.next hne Attempt.Sends.nil
  · simp only [writeAttempt, hfull, decide_false]
    exact Attempt.Sends.retry (by omega) Attempt.Sends.nil

/-! ## What a step adds -/

/-- The completely written messages are those of the complete attempts. -/
theorem length_writtenMsgs (answers : List TxAnswer) :
    (((writes answers).map writeAttempt).filter Attempt.complete).length
      = (writtenMsgs answers).length := by
  induction answers with
  | nil => rfl
  | cons a answers ih =>
    cases a with
    | wrote msg t =>
      by_cases hfull : FullWrite msg t
      · simpa [writes, writtenMsgs, writeAttempt, hfull] using ih
      · simpa [writes, writtenMsgs, writeAttempt, hfull] using ih
    | quiet => exact ih
    | pushed msg => exact ih
    | saw n => exact ih
    | removed msgs => exact ih

/-- The writes are possible attempts to send what was pushed, and the line is
what those attempts put on it. -/
structure LineInv (answers : List TxAnswer) : Prop where
  sends : Attempt.Sends (wires answers) ((writes answers).map writeAttempt)
  line : lineBytes answers = Attempt.line (wires answers) ((writes answers).map writeAttempt)

/-- **One more answer.** A write is of the first message that was not completely
written yet, and returns what `write` can return. -/
theorem lineInv_snoc {answers : List TxAnswer} {a : TxAnswer} (h : LineInv answers)
    (hwrote : ∀ msg t, a = .wrote msg t → (t = -1 ∨ (0 ≤ t ∧ t ≤ msg.wire.length)) ∧
      ∃ rest, pushedMsgs answers = writtenMsgs answers ++ msg :: rest) :
    LineInv (answers ++ [a]) := by
  obtain ⟨hsends, hline⟩ := h
  -- most answers add neither a message nor a write
  have hsame : writes (answers ++ [a]) = writes answers → wires (answers ++ [a]) = wires answers →
      LineInv (answers ++ [a]) := fun hwrites hwires =>
    ⟨by rw [hwrites, hwires]; exact hsends, by rw [lineBytes, hwrites, hwires]; exact hline⟩
  cases a with
  | quiet => exact hsame (by simp [writes]) (by simp [wires, pushedMsgs])
  | saw n => exact hsame (by simp [writes]) (by simp [wires, pushedMsgs])
  | removed msgs => exact hsame (by simp [writes]) (by simp [wires, pushedMsgs])
  | pushed msg =>
    have hwires : wires (answers ++ [.pushed msg]) = wires answers ++ [msg.wire] := by
      simp [wires, pushedMsgs]
    have hwrites : writes (answers ++ [.pushed msg]) = writes answers := by simp [writes]
    refine ⟨?_, ?_⟩
    · rw [hwires, hwrites]
      exact hsends.more _
    · rw [hwires, hwrites, lineBytes, hwrites, Attempt.line_more hsends]
      exact hline
  | wrote msg t =>
    obtain ⟨ht, rest, hpushed⟩ := hwrote msg t rfl
    have hwires : wires (answers ++ [.wrote msg t])
        = (writtenMsgs answers).map TxMsg.wire ++ msg.wire :: rest.map TxMsg.wire := by
      rw [wires, pushedMsgs_append, hpushed]
      simp [pushedMsgs]
    have hwires' : wires answers
        = (writtenMsgs answers).map TxMsg.wire ++ msg.wire :: rest.map TxMsg.wire := by
      rw [wires, hpushed]
      simp
    have hwrites : writes (answers ++ [.wrote msg t]) = writes answers ++ [(msg, t)] := by
      simp [writes]
    have hdone : (((writes answers).map writeAttempt).filter Attempt.complete).length
        = ((writtenMsgs answers).map TxMsg.wire).length := by
      rw [length_writtenMsgs, List.length_map]
    have hone := sends_writeAttempt ht (rest.map TxMsg.wire)
    rw [hwires'] at hsends hline
    refine ⟨?_, ?_⟩
    · rw [hwires, hwrites, List.map_append]
      exact hsends.snoc hdone hone
    · rw [hwires, lineBytes, hwrites, List.flatMap_append, List.map_append, List.map_singleton,
        Attempt.line_snoc _ hsends hdone, ← hline, lineBytes]
      simp [writeAttempt]

/-! ## Whole runs -/

/-- Only `serial_f` writes, before `write`, and what it writes is what it has in
hand. -/
theorem write_of_step {c c' : TxState} {e : TxEvent} {msg : TxMsg} {t : Int}
    (h : txMachine c e = some (c', .wrote msg t)) :
    ∃ p, c.pc = .write p ∧ c.blocks.read p = some msg ∧ e = .serial t := by
  cases e with
  | push n msg' =>
    obtain ⟨ll, -, heq⟩ := Option.map_eq_some_iff.mp h
    cases heq
  | size => cases h
  | serial t' =>
    cases serialStep_inv h with
    | wrote hpc hread _ => exact ⟨_, hpc, hread, rfl⟩
    | short hpc hread _ => exact ⟨_, hpc, hread, rfl⟩

/-- `serial_f` writes the first message that was not completely written yet. -/
theorem wrote_of_progress {c c' : TxState} {answers : List TxAnswer} (h : TxProgress c answers)
    {e : TxEvent} (hok : WriteOk c e) {msg : TxMsg} {t : Int}
    (hstep : txMachine c e = some (c', .wrote msg t)) :
    (t = -1 ∨ (0 ≤ t ∧ t ≤ msg.wire.length)) ∧
      ∃ rest, pushedMsgs answers = writtenMsgs answers ++ msg :: rest := by
  obtain ⟨p, hpc, hread, rfl⟩ := write_of_step hstep
  refine ⟨hok p msg hpc hread, ?_⟩
  obtain ⟨queue, rest, hinv, hphase, hpushed⟩ := h
  rw [hpc] at hphase
  obtain ⟨rfl, -, front, hfront, rfl⟩ := hphase
  obtain ⟨queue', rfl⟩ := List.head?_eq_some_iff.mp hfront
  obtain ⟨hblock, hnull⟩ := hinv.live front (List.mem_cons_self ..)
  rw [read_of_live hblock hnull] at hread
  cases hread
  exact ⟨queue', hpushed⟩

/-- What a run so far keeps: the accounting of the queue, and the line at every
moment. -/
def LineProgress (c : TxState) (answers : List TxAnswer) : Prop :=
  TxProgress c answers ∧ ∀ sofar, sofar <+: answers → LineInv sofar

theorem line_step {c : TxState} {answers : List TxAnswer} (h : LineProgress c answers) {e : TxEvent}
    (hok : TxMallocOk c e ∧ WriteOk c e) :
    ∃ c' answer, txMachine c e = some (c', answer) ∧ LineProgress c' (answers ++ [answer]) := by
  obtain ⟨hprogress, hline⟩ := h
  obtain ⟨c', answer, hstep, hprogress'⟩ := tx_step hprogress hok.1
  refine ⟨c', answer, hstep, hprogress', fun sofar hsofar => ?_⟩
  rcases List.prefix_concat_iff.mp hsofar with rfl | hbefore
  · refine lineInv_snoc (hline answers (List.prefix_refl _)) fun msg t hwrote => ?_
    subst hwrote
    exact wrote_of_progress hprogress hok.2 hstep
  · exact hline sofar hbefore

/-- The condition in the terms of `Lib.Attempts`. -/
theorem onlyLastShort_iff (answers : List TxAnswer) :
    OnlyLastShort answers ↔ Attempt.NoRestart ((writes answers).map writeAttempt) := by
  rw [OnlyLastShort, Attempt.NoRestart, Attempt.sending, List.filter_map, List.pairwise_map]
  simp [writeAttempt, Function.comp_def]

/-- **The line is exact when, and only when, nothing is sent after a short
write.** -/
theorem LineInv.exact_iff {answers : List TxAnswer} (h : LineInv answers) :
    LineExact answers ↔ OnlyLastShort answers := by
  obtain ⟨hsends, hline⟩ := h
  have hplaced := Attempt.sends_placed hsends 0
  rw [onlyLastShort_iff]
  constructor
  · intro hexact
    exact (Attempt.line_prefix_iff hplaced (Attempt.nodup_placed 0 _)).mp hexact.places
  · intro hno
    refine ⟨?_, Attempt.line_prefix hplaced hno⟩
    rw [hline, List.flatMap_def]
    exact Attempt.line_prefix hsends hno

/-- The places are those of the bytes on the line. -/
theorem LineInv.map_linePlaces {answers : List TxAnswer} (h : LineInv answers) :
    (linePlaces answers).map Prod.snd = lineBytes answers := by
  rw [h.line, linePlaces, Attempt.map_line_placed]

/-- **The serial line carries the queued messages exactly, at every moment, if
and only if no write sends anything after a short write that did**, for every
interleaving of the two threads and every result of `write`. -/
theorem serialLine_exact_iff (heap : Heap Ptr) (events : List TxEvent)
    (hmalloc : Machine.Along txMachine TxMallocOk (txStart heap) events)
    (hwrite : Machine.Along txMachine WriteOk (txStart heap) events) :
    ∃ c answers, Machine.run txMachine (txStart heap) events = some (c, answers) ∧
      (linePlaces answers).map Prod.snd = lineBytes answers ∧
      ((∀ sofar, sofar <+: answers → LineExact sofar) ↔ OnlyLastShort answers) := by
  have h0 : LineProgress (txStart heap) [] := by
    refine ⟨⟨[], [], ⟨⟨[], createList_repr heap, rfl⟩, by simp, List.Pairwise.nil⟩, ⟨rfl, rfl⟩, rfl⟩,
      fun sofar hsofar => ?_⟩
    rw [List.prefix_nil.mp hsofar]
    exact ⟨Attempt.Sends.nil, rfl⟩
  obtain ⟨c, answers, hrun, -, hline⟩ :=
    Machine.run_history_along (fun c _ answers => LineProgress c answers) _
      (fun c _ answers e h hok => line_step h hok) h0 (Machine.along_and hmalloc hwrite)
  have hwhole := hline answers (List.prefix_refl _)
  refine ⟨c, answers, hrun, hwhole.map_linePlaces, ?_⟩
  constructor
  · intro hexact
    exact hwhole.exact_iff.mp (hexact answers (List.prefix_refl _))
  · intro hshort sofar hsofar
    refine (hline sofar hsofar).exact_iff.mpr (hshort.sublist ?_)
    exact ((hsofar.sublist.filterMap _).filter _)

/-! ## A short write, and then a complete one -/

/-- An answer shows whether its step met the condition on `write`. -/
def WroteOk : TxAnswer → Prop
  | .wrote msg t => t = -1 ∨ (0 ≤ t ∧ t ≤ msg.wire.length)
  | _ => True

instance : DecidablePred WroteOk := fun a =>
  match a with
  | .wrote msg t => inferInstanceAs (Decidable (t = -1 ∨ (0 ≤ t ∧ t ≤ msg.wire.length)))
  | .quiet => isTrue trivial
  | .pushed _ => isTrue trivial
  | .saw _ => isTrue trivial
  | .removed _ => isTrue trivial

theorem writeOk_iff {c c' : TxState} {e : TxEvent} {a : TxAnswer}
    (h : txMachine c e = some (c', a)) : WriteOk c e ↔ WroteOk a := by
  constructor
  · intro hok
    cases a with
    | wrote msg t =>
      obtain ⟨p, hpc, hread, rfl⟩ := write_of_step h
      exact hok p msg hpc hread
    | quiet => trivial
    | pushed _ => trivial
    | saw _ => trivial
    | removed _ => trivial
  · intro hwrote
    cases e with
    | push n msg => trivial
    | size => trivial
    | serial t =>
      intro p msg hpc hread
      simp only [txMachine, serialStep, hpc, hread, Option.map_some, Option.some.injEq] at h
      split at h <;> cases h <;> exact hwrote

/-- What `shortThenFull` shows. -/
def shortThenFullAnswers : List TxAnswer :=
  [.pushed huiPollMsg, .quiet, .quiet, .quiet, .quiet, .wrote huiPollMsg 3, .quiet, .quiet, .quiet,
    .wrote huiPollMsg 8, .removed [huiPollMsg], .saw 0]

theorem run_shortThenFull :
    ∃ c, Machine.run txMachine (txStart fun _ => none) shortThenFull
      = some (c, shortThenFullAnswers) := by
  have hanswers : (Machine.run txMachine (txStart fun _ => none) shortThenFull).map Prod.snd
      = some shortThenFullAnswers := by decide
  obtain ⟨⟨c, answers⟩, hrun, rfl⟩ := Option.map_eq_some_iff.mp hanswers
  exact ⟨c, hrun⟩

theorem shortThenFull_mallocOk :
    Machine.Along txMachine TxMallocOk (txStart fun _ => none) shortThenFull := by
  refine ⟨⟨⟨by decide, rfl⟩, by decide, rfl⟩, fun _ _ _ => ?_⟩
  repeat' first
    | exact Machine.along_nil ..
    | refine ⟨trivial, fun _ _ _ => ?_⟩

theorem shortThenFull_writeOk :
    Machine.Along txMachine WriteOk (txStart fun _ => none) shortThenFull := by
  obtain ⟨c, hrun⟩ := run_shortThenFull
  refine (Machine.along_iff_answers (fun _ => True) WriteOk WroteOk
    (fun _ _ _ _ _ hstep => ⟨trivial, writeOk_iff hstep⟩) trivial hrun).mpr ?_
  decide

theorem serialLine_exact_iff_short_then_full :
    ∃ c answers, Machine.run txMachine (txStart fun _ => none) shortThenFull = some (c, answers) ∧
      (linePlaces answers).map Prod.snd = lineBytes answers ∧
      ((∀ sofar, sofar <+: answers → LineExact sofar) ↔ OnlyLastShort answers) :=
  serialLine_exact_iff _ _ shortThenFull_mallocOk shortThenFull_writeOk

/-- **A command is cut by its own restart**: after three bytes of the poll message
the line carries it again from the start. -/
theorem serialLine_restarts :
    ¬ ∀ (heap : Heap Ptr) (events : List TxEvent),
      Machine.Along txMachine TxMallocOk (txStart heap) events →
      Machine.Along txMachine WriteOk (txStart heap) events →
      ∃ c answers, Machine.run txMachine (txStart heap) events = some (c, answers) ∧
        ∀ sofar, sofar <+: answers →
          lineBytes sofar <+: (pushedMsgs sofar).flatMap TxMsg.wire := by
  intro hall
  obtain ⟨c, answers, hrun, hline⟩ := hall _ _ shortThenFull_mallocOk shortThenFull_writeOk
  obtain ⟨c', hrun'⟩ := run_shortThenFull
  rw [hrun'] at hrun
  cases hrun
  exact absurd (hline _ (List.prefix_refl _)) (by decide)

end UbloxRead
