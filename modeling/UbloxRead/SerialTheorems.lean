/-
UbloxRead.SerialTheorems — the transmit queue loses and duplicates nothing.

`TxInv` ties the list of `Represents` to the messages: their blocks are live,
and no two of them share one. `serial_step` and `tx_step` keep it together with
`TxPhase`, which says for each place of `serial_f` how what is queued,
removed and written relate. `serialStep_inv` says once what a step of `serial_f`
can do. `txMachine_exact` is the result for every interleaving and every result
of `write`; `TxHistory` is what it is about, told by the events and the answers.
-/
import UbloxRead.Serial
import UbloxRead.LinkedListTheorems
import UbloxRead.UbxFrameTheorems

namespace UbloxRead

open Lib

/-- The list holds these messages, their blocks are live, and each has its own. -/
structure TxInv (ll : LList) (blocks : TxBlocks) (queue : List TxMsg) : Prop where
  list : Represents ll (queue.map TxMsg.ptr)
  live : ∀ msg ∈ queue, blocks msg.ptr = msg.block ∧ (msg.ptr = NULL ↔ msg.block = none)
  apart : queue.Pairwise fun msg msg' => msg.ptr = msg'.ptr → msg.ptr = NULL

theorem TxInv.queue {ll : LList} {blocks : TxBlocks} {queue : List TxMsg}
    (h : TxInv ll blocks queue) : TxQueue ll blocks queue := by
  obtain ⟨⟨cells, hrepr, hcells⟩, hlive, -⟩ := h
  exact ⟨hcells ▸ hrepr.holds, hlive⟩

theorem TxInv.size_eq {ll : LList} {blocks : TxBlocks} {queue : List TxMsg}
    (h : TxInv ll blocks queue) : size ll = queue.length := by
  obtain ⟨⟨cells, hrepr, hcells⟩, -, -⟩ := h
  rw [size, hrepr.size_eq, ← List.length_map (f := Prod.snd), hcells, List.length_map]

/-! ## What `serial_f` can do -/

/-- All that a step of the sending half can do. -/
inductive SendStep (c : TxState) (t : Int) : TxState → TxAnswer → Prop
  | idle : c.pc = .size → ¬ (0 < size c.ll ∧ c.pauseBtwSend ≥ 2) →
      SendStep c t { c with pauseBtwSend := c.pauseBtwSend + 1 } .quiet
  | next : c.pc = .size → c.pauseBtwSend ≥ 2 → SendStep c t { c with pc := .front } .quiet
  | front {p} : c.pc = .front → front c.ll = some p → SendStep c t { c with pc := .write p } .quiet
  | wrote {p msg} : c.pc = .write p → c.blocks.read p = some msg → FullWrite msg t →
      SendStep c t { c with pc := .remove } (.wrote msg t)
  | short {p msg} : c.pc = .write p → c.blocks.read p = some msg → ¬ FullWrite msg t →
      SendStep c t c.afterSend (.wrote msg t)
  | removed {ll answer blocks msgs} : c.pc = .remove → removeFront c.ll = some (ll, answer) →
      answer.passed.mapM c.blocks.read = some msgs →
      answer.passed.foldlM freeNode c.blocks = some blocks →
      SendStep c t ({ c with ll := ll, blocks := blocks } : TxState).afterSend (.removed msgs)

/-- **Inversion of a step of `serial_f`.** -/
theorem serialStep_inv {c c' : TxState} {t : Int} {answer : TxAnswer}
    (h : serialStep c t = some (c', answer)) : SendStep c t c' answer := by
  cases hpc : c.pc with
  | size =>
    simp only [serialStep, hpc] at h
    split at h
    · next hsend =>
      cases h
      exact .next hpc hsend.2
    · next hsend =>
      cases h
      have := SendStep.idle (t := t) hpc hsend
      rwa [hpc] at this
  | front =>
    simp only [serialStep, hpc] at h
    obtain ⟨p, hfront, heq⟩ := Option.map_eq_some_iff.mp h
    cases heq
    exact .front hpc hfront
  | write p =>
    simp only [serialStep, hpc] at h
    obtain ⟨msg, hread, heq⟩ := Option.map_eq_some_iff.mp h
    split at heq
    · next hfull =>
      cases heq
      exact .wrote hpc hread hfull
    · next hfull =>
      cases heq
      exact .short hpc hread hfull
  | remove =>
    simp only [serialStep, hpc, Option.bind_eq_bind, Option.bind_eq_some_iff] at h
    obtain ⟨⟨ll, _⟩, hremove, msgs, hmsgs, blocks, hblocks, heq⟩ := h
    cases heq
    exact .removed hpc hremove hmsgs hblocks

/-! ## Message blocks -/

/-- A queued message is read as it is. -/
theorem read_of_live {blocks : TxBlocks} {msg : TxMsg} (hblock : blocks msg.ptr = msg.block)
    (hnull : msg.ptr = NULL ↔ msg.block = none) : blocks.read msg.ptr = some msg := by
  obtain ⟨p, block⟩ := msg
  simp only at hblock hnull
  unfold TxBlocks.read
  by_cases hp : p = NULL
  · rw [if_pos hp, hnull.mp hp, hp]
  · rw [if_neg hp, hblock]
    cases block with
    | none => exact absurd (hnull.mpr rfl) hp
    | some f => rfl

/-- Freeing a queued message has an outcome and leaves the other blocks. -/
theorem freeNode_of_live {blocks : TxBlocks} {msg : TxMsg} (hblock : blocks msg.ptr = msg.block)
    (hnull : msg.ptr = NULL ↔ msg.block = none) :
    ∃ blocks', freeNode blocks msg.ptr = some blocks' ∧
      ∀ p, (p = msg.ptr → p = NULL) → blocks' p = blocks p := by
  unfold freeNode
  by_cases hp : msg.ptr = NULL
  · exact ⟨blocks, if_pos hp, fun _ _ => rfl⟩
  · rw [if_neg hp, hblock]
    cases hf : msg.block with
    | none => exact absurd (hnull.mpr hf) hp
    | some f =>
      refine ⟨_, rfl, fun p hother => ?_⟩
      have hne : p ≠ msg.ptr := fun heq => hp (heq ▸ hother heq)
      simp only [hne, if_false]

/-- `serial_f` asks for the whole of a message that holds a frame. -/
theorem writeLen_of_frame {msg : TxMsg} {f : UbxFrame} (h : msg.block = some f.bytes) :
    msg.writeLen = f.bytes.length := by
  have hbytes : msg.bytes = f.bytes := by rw [TxMsg.bytes, h]; rfl
  have hitem := frameItem_of_bytes f (slice_memOfList f.bytes)
  obtain ⟨-, -, hlen⟩ := frameItem_eq_some.mp hitem
  rw [TxMsg.writeLen, TxMsg.payloadLen, hbytes, h, UBX_HDR_SIZE, hlen]
  simp only [reduceCtorEq, if_false, getUbxMsgLength]
  omega

/-! ## Steps of `control_f` -/

/-- **A message pushed with fresh blocks is queued last**, and no node becomes live
but its own. -/
theorem TxInv.push {ll : LList} {blocks : TxBlocks} {queue : List TxMsg}
    (h : TxInv ll blocks queue) {n : Ptr} {msg : TxMsg} (hn : n ≠ NULL) (hfresh : ll.heap n = none)
    (hnull : msg.ptr = NULL ↔ msg.block = none) (hdead : blocks msg.ptr = none) :
    ∃ ll', pushBack ll n msg.ptr = some ll' ∧
      TxInv ll' (fun p => if p = msg.ptr then msg.block else blocks p) (queue ++ [msg]) ∧
      ∀ q, q ≠ n → ll.heap q = none → ll'.heap q = none := by
  obtain ⟨⟨cells, hrepr, hcells⟩, hlive, hapart⟩ := h
  obtain ⟨ll', hpush, hrepr', hex⟩ := pushBack_spec hrepr msg.ptr hn hfresh
  -- a queued message at the same address can only be another NULL
  have hsame : ∀ m ∈ queue, m.ptr = msg.ptr → m.ptr = NULL := by
    intro m hm heq
    obtain ⟨hblock, hiff⟩ := hlive m hm
    rw [heq, hdead] at hblock
    exact hiff.mpr hblock.symm
  refine ⟨ll', hpush, ⟨⟨_, hrepr', ?_⟩, ?_, ?_⟩, fun q hq hnone => hex.dead ?_ hnone⟩
  · rw [List.map_append, List.map_append, hcells]
    rfl
  · intro m hm
    rcases List.mem_append.mp hm with hm | hm
    · obtain ⟨hblock, hiff⟩ := hlive m hm
      refine ⟨?_, hiff⟩
      by_cases heq : m.ptr = msg.ptr
      · have hz := hsame m hm heq
        simp only [heq, if_true]
        rw [hiff.mp hz, hnull.mp (heq ▸ hz)]
      · simp only [heq, if_false]
        exact hblock
    · rw [List.mem_singleton.mp hm]
      exact ⟨if_pos rfl, hnull⟩
  · refine List.pairwise_append.mpr ⟨hapart, List.pairwise_singleton .., ?_⟩
    intro m hm m' hm' heq
    rw [List.mem_singleton.mp hm'] at heq
    exact hsame m hm heq
  · rw [List.map_append, List.mem_append]
    exact not_or.mpr ⟨hrepr.not_mem hnone, fun hin => hq (List.mem_singleton.mp hin)⟩

/-- `control_f` pushes without touching `serial_f`. -/
theorem controlPush_spec {c : TxState} {queue : List TxMsg} (h : TxInv c.ll c.blocks queue) {n : Ptr}
    {msg : TxMsg} (hok : TxMallocOk c (.push n msg)) :
    ∃ c', controlPush c n msg = some (c', .pushed msg) ∧ c'.pc = c.pc ∧
      TxInv c'.ll c'.blocks (queue ++ [msg]) := by
  obtain ⟨⟨hn, hfresh⟩, hnull, hdead⟩ := hok
  obtain ⟨ll, hpush, hinv, -⟩ := h.push hn hfresh hnull hdead
  exact ⟨{ c with ll := ll, blocks := fun p => if p = msg.ptr then msg.block else c.blocks p },
    by rw [controlPush, hpush]; rfl, rfl, hinv⟩

/-! ## Steps of `serial_f` -/

/-- **Removing the front message** frees its node and its block, and no other. -/
theorem serialRemove_spec {c : TxState} {msg : TxMsg} {rest : List TxMsg}
    (h : TxInv c.ll c.blocks (msg :: rest)) (hpc : c.pc = .remove) (t : Int) :
    ∃ c', serialStep c t = some (c', .removed [msg]) ∧ c'.pc = .size ∧ TxInv c'.ll c'.blocks rest := by
  obtain ⟨⟨cells, hrepr, hcells⟩, hlive, hapart⟩ := h
  obtain ⟨hblock, hnull⟩ := hlive msg (List.mem_cons_self ..)
  obtain ⟨hfirst, hapart⟩ := List.pairwise_cons.mp hapart
  cases cells with
  | nil => cases hcells
  | cons cell cells =>
    rw [List.map_cons, List.map_cons, List.cons.injEq] at hcells
    obtain ⟨ll, hremove, hrepr', -⟩ := removeFront_spec hrepr
    rw [hcells.1] at hremove
    obtain ⟨blocks, hfree, hkept⟩ := freeNode_of_live hblock hnull
    have hread := read_of_live hblock hnull
    refine ⟨({ c with ll := ll, blocks := blocks } : TxState).afterSend, ?_, rfl,
      ⟨cells, hrepr', hcells.2⟩, fun m hm => ?_, hapart⟩
    · simp only [serialStep, hpc, hremove, List.mapM_cons, List.mapM_nil, List.foldlM_cons,
        List.foldlM_nil, hread, hfree, Option.bind_eq_bind, Option.bind_some, Option.pure_def]
    · obtain ⟨hf, hn⟩ := hlive m (List.mem_cons_of_mem _ hm)
      refine ⟨?_, hn⟩
      rw [← hf]
      exact hkept m.ptr fun heq => heq ▸ hfirst m hm heq.symm

/-- What the two threads have done so far, and where they stand. -/
def TxProgress (c : TxState) (answers : List TxAnswer) : Prop :=
  ∃ queue rest, TxInv c.ll c.blocks queue ∧
    TxPhase queue (removedMsgs answers) (writtenMsgs answers) rest c.pc ∧
    pushedMsgs answers = writtenMsgs answers ++ rest

@[simp] theorem pushedMsgs_append (answers answers' : List TxAnswer) :
    pushedMsgs (answers ++ answers') = pushedMsgs answers ++ pushedMsgs answers' := by
  simp [pushedMsgs]

@[simp] theorem writtenMsgs_append (answers answers' : List TxAnswer) :
    writtenMsgs (answers ++ answers') = writtenMsgs answers ++ writtenMsgs answers' := by
  simp [writtenMsgs]

@[simp] theorem removedMsgs_append (answers answers' : List TxAnswer) :
    removedMsgs (answers ++ answers') = removedMsgs answers ++ removedMsgs answers' := by
  simp [removedMsgs]

/-- **A step of `serial_f` has an outcome and keeps everything accounted for.** -/
theorem serial_step {c : TxState} {answers : List TxAnswer} (h : TxProgress c answers) (t : Int) :
    ∃ c' answer, serialStep c t = some (c', answer) ∧ TxProgress c' (answers ++ [answer]) := by
  obtain ⟨queue, rest, hinv, hphase, hpushed⟩ := h
  have hsize := hinv.size_eq
  -- a quiet step adds to none of the three histories
  have hquiet : ∀ c' : TxState, TxInv c'.ll c'.blocks queue →
      TxPhase queue (removedMsgs answers) (writtenMsgs answers) rest c'.pc →
      TxProgress c' (answers ++ [.quiet]) := fun c' hinv' hphase' =>
    ⟨queue, rest, hinv', by simpa [removedMsgs, writtenMsgs] using hphase',
      by simpa [pushedMsgs, writtenMsgs] using hpushed⟩
  cases hpc : c.pc with
  | size =>
    rw [hpc] at hphase
    obtain ⟨hrest, hremoved⟩ := hphase
    by_cases hsend : 0 < size c.ll ∧ c.pauseBtwSend ≥ 2
    · refine ⟨_, _, by rw [serialStep, hpc]; simp only [if_pos hsend],
        hquiet { c with pc := .front } ⟨hinv.list, hinv.live, hinv.apart⟩ ⟨hrest, hremoved, ?_⟩⟩
      rintro rfl
      rw [hsize] at hsend
      exact absurd hsend.1 (Nat.lt_irrefl 0)
    · exact ⟨_, _, by rw [serialStep, hpc]; simp only [if_neg hsend],
        hquiet { c with pc := .size, pauseBtwSend := c.pauseBtwSend + 1 }
          ⟨hinv.list, hinv.live, hinv.apart⟩ ⟨hrest, hremoved⟩⟩
  | front =>
    rw [hpc] at hphase
    obtain ⟨hrest, hremoved, hne⟩ := hphase
    obtain ⟨msg, queue', rfl⟩ := List.exists_cons_of_ne_nil hne
    obtain ⟨cells, hrepr, hcells⟩ := hinv.list
    have hfront : front c.ll = some msg.ptr := by
      rw [front_spec hrepr, hcells]
      rfl
    exact ⟨_, _, by rw [serialStep, hpc]; simp only [hfront, Option.map_some],
      hquiet { c with pc := .write msg.ptr } ⟨hinv.list, hinv.live, hinv.apart⟩
        ⟨hrest, hremoved, msg, rfl, rfl⟩⟩
  | write p =>
    rw [hpc] at hphase
    obtain ⟨hrest, hremoved, msg, hhead, rfl⟩ := hphase
    obtain ⟨queue', rfl⟩ : ∃ queue', queue = msg :: queue' := by
      cases queue with
      | nil => cases hhead
      | cons m queue' => cases hhead; exact ⟨queue', rfl⟩
    obtain ⟨hblock, hnull⟩ := hinv.live msg (List.mem_cons_self ..)
    have hread := read_of_live hblock hnull
    subst hrest
    by_cases hfull : FullWrite msg t
    · refine ⟨{ c with pc := .remove }, .wrote msg t, ?_, msg :: queue', queue',
        ⟨hinv.list, hinv.live, hinv.apart⟩, ⟨msg, rfl, ?_⟩, ?_⟩
      · simp only [serialStep, hpc, hread, Option.map_some, if_pos hfull]
      · simp [writtenMsgs, removedMsgs, hfull] at hremoved ⊢
        rw [hremoved]
      · simp [pushedMsgs, writtenMsgs, hfull] at hpushed ⊢
        exact hpushed
    · refine ⟨c.afterSend, .wrote msg t, ?_, msg :: queue', msg :: queue',
        ⟨hinv.list, hinv.live, hinv.apart⟩, ⟨rfl, ?_⟩, ?_⟩
      · simp only [serialStep, hpc, hread, Option.map_some, if_neg hfull]
      · simpa [writtenMsgs, removedMsgs, hfull] using hremoved
      · simpa [pushedMsgs, writtenMsgs, hfull] using hpushed
  | remove =>
    rw [hpc] at hphase
    obtain ⟨msg, rfl, hwritten⟩ := hphase
    obtain ⟨c', hstep, hpc', hinv'⟩ := serialRemove_spec hinv hpc t
    refine ⟨c', _, hstep, rest, rest, hinv', ?_, ?_⟩
    · rw [hpc']
      refine ⟨rfl, ?_⟩
      simpa [writtenMsgs, removedMsgs] using hwritten.symm
    · simpa [pushedMsgs, writtenMsgs] using hpushed

/-- **A step of either thread keeps everything accounted for.** -/
theorem tx_step {c : TxState} {answers : List TxAnswer} (h : TxProgress c answers) {e : TxEvent}
    (hok : TxMallocOk c e) :
    ∃ c' answer, txMachine c e = some (c', answer) ∧ TxProgress c' (answers ++ [answer]) := by
  cases e with
  | serial t => exact serial_step h t
  | size =>
    obtain ⟨queue, rest, hinv, hphase, hpushed⟩ := h
    refine ⟨c, _, rfl, queue, rest, hinv, ?_, ?_⟩
    · simpa [removedMsgs, writtenMsgs] using hphase
    · simpa [pushedMsgs, writtenMsgs] using hpushed
  | push n msg =>
    obtain ⟨queue, rest, hinv, hphase, hpushed⟩ := h
    obtain ⟨c', hpush, hpc, hinv'⟩ := controlPush_spec hinv hok
    refine ⟨c', _, hpush, queue ++ [msg], rest ++ [msg], hinv', ?_, ?_⟩
    · rw [hpc]
      have hnone : removedMsgs [.pushed msg] = [] ∧ writtenMsgs [.pushed msg] = [] := ⟨rfl, rfl⟩
      rw [removedMsgs_append, writtenMsgs_append, hnone.1, hnone.2, List.append_nil, List.append_nil]
      cases hpc' : c.pc with
      | size =>
        rw [hpc'] at hphase
        exact ⟨by rw [hphase.1], hphase.2⟩
      | front =>
        rw [hpc'] at hphase
        exact ⟨by rw [hphase.1], hphase.2.1, by simp⟩
      | write p =>
        rw [hpc'] at hphase
        obtain ⟨hrest, hremoved, m, hhead, hm⟩ := hphase
        exact ⟨by rw [hrest], hremoved, m, by rw [List.head?_append, hhead]; rfl, hm⟩
      | remove =>
        rw [hpc'] at hphase
        obtain ⟨m, hqueue, hwritten⟩ := hphase
        exact ⟨m, by rw [hqueue]; rfl, hwritten⟩
    · have hone : pushedMsgs [.pushed msg] = [msg] ∧ writtenMsgs [.pushed msg] = [] := ⟨rfl, rfl⟩
      rw [pushedMsgs_append, writtenMsgs_append, hone.1, hone.2, hpushed, List.append_nil,
        List.append_assoc]

/-- With nothing queued `serial_f` is before `size`, and nothing is left to write. -/
theorem TxProgress.written_of_empty {c : TxState} {answers : List TxAnswer}
    (h : TxProgress c answers) (hzero : size c.ll = 0) :
    writtenMsgs answers = pushedMsgs answers := by
  obtain ⟨queue, rest, hinv, hphase, hpushed⟩ := h
  have hempty : queue = [] := by
    rw [hinv.size_eq] at hzero
    exact List.length_eq_zero_iff.mp hzero
  subst hempty
  have hrest : rest = [] := by
    cases hpc : c.pc with
    | size => rw [hpc] at hphase; exact hphase.1.symm
    | front => rw [hpc] at hphase; exact hphase.1.symm
    | write p => rw [hpc] at hphase; exact hphase.1.symm
    | remove =>
      rw [hpc] at hphase
      obtain ⟨msg, hcons, -⟩ := hphase
      cases hcons
  rw [hpushed, hrest, List.append_nil]

/-! ## What the answers tell of the events -/

/-- `serial_f` pushes nothing. -/
theorem pushedMsgs_serialStep {c c' : TxState} {t : Int} {answer : TxAnswer}
    (h : serialStep c t = some (c', answer)) : pushedMsgs [answer] = [] := by
  cases serialStep_inv h <;> rfl

theorem pushedMsgs_txMachine {c c' : TxState} {e : TxEvent} {answer : TxAnswer}
    (h : txMachine c e = some (c', answer)) : pushedMsgs [answer] = pushEvents [e] := by
  cases e with
  | push n msg =>
    obtain ⟨ll, -, heq⟩ := Option.map_eq_some_iff.mp h
    cases heq
    rfl
  | size =>
    cases h
    rfl
  | serial t => exact pushedMsgs_serialStep h

/-- What `control_f` sees is the count. -/
theorem size_of_saw {c c' : TxState} {e : TxEvent} {n : Nat}
    (h : txMachine c e = some (c', .saw n)) : size c.ll = n := by
  cases e with
  | push n msg =>
    obtain ⟨ll, -, heq⟩ := Option.map_eq_some_iff.mp h
    cases heq
  | size =>
    cases h
    rfl
  | serial t => cases serialStep_inv h

theorem WrittenAtZero.concat {answers : List TxAnswer} {answer : TxAnswer}
    (h : WrittenAtZero answers) (hzero : answer = .saw 0 → writtenMsgs answers = pushedMsgs answers) :
    WrittenAtZero (answers ++ [answer]) := by
  intro before after heq
  obtain rfl | ⟨after', last, rfl⟩ := List.eq_nil_or_concat after
  · obtain ⟨rfl, hlast⟩ := List.append_inj' heq rfl
    exact hzero (List.singleton_inj.mp hlast)
  · rw [List.concat_eq_append, ← List.cons_append, ← List.append_assoc] at heq
    obtain ⟨hfront, -⟩ := List.append_inj' heq rfl
    exact h before after' hfront

/-- What a run has done so far, told by its events and by its answers. -/
structure TxHistory (c : TxState) (events : List TxEvent) (answers : List TxAnswer) : Prop where
  progress : TxProgress c answers
  pushed : pushedMsgs answers = pushEvents events
  zero : WrittenAtZero answers

theorem history_step {c : TxState} {events : List TxEvent} {answers : List TxAnswer}
    (h : TxHistory c events answers) {e : TxEvent} (hok : TxMallocOk c e) :
    ∃ c' answer, txMachine c e = some (c', answer) ∧
      TxHistory c' (events ++ [e]) (answers ++ [answer]) := by
  obtain ⟨c', answer, hstep, hprogress⟩ := tx_step h.progress hok
  refine ⟨c', answer, hstep, hprogress, ?_, h.zero.concat fun hsaw => ?_⟩
  · rw [pushedMsgs_append, h.pushed, pushedMsgs_txMachine hstep, pushEvents, pushEvents, pushEvents,
      List.filterMap_append]
  · subst hsaw
    exact h.progress.written_of_empty (size_of_saw hstep)

/-- **Nothing is lost or duplicated**, for every interleaving of the two threads
and every result of `write`. Every step has an outcome, so no freed message or
node is used. The completely written messages are a prefix of the pushed ones
and the queue holds the rest in order, save that a message stays queued between
its complete write and its removal; what is removed is what was written; and
when `size` is 0 everything pushed has been written, at the end of the run and
wherever `control_f` saw it. What was pushed is what the events push, and a
message that holds a frame is completely written when all its bytes are. -/
theorem txMachine_exact (heap : Heap Ptr) (events : List TxEvent)
    (hok : Machine.Along txMachine TxMallocOk (txStart heap) events) :
    ∃ c answers queue rest, Machine.run txMachine (txStart heap) events = some (c, answers) ∧
      TxQueue c.ll c.blocks queue ∧
      TxPhase queue (removedMsgs answers) (writtenMsgs answers) rest c.pc ∧
      pushedMsgs answers = writtenMsgs answers ++ rest ∧
      (size c.ll = 0 → writtenMsgs answers = pushedMsgs answers) ∧
      pushedMsgs answers = pushEvents events ∧ WrittenAtZero answers ∧
      ∀ msg ∈ pushedMsgs answers, ∀ f : UbxFrame, msg.block = some f.bytes →
        msg.writeLen = f.bytes.length := by
  have h0 : TxHistory (txStart heap) [] [] := by
    refine ⟨⟨[], [], ⟨⟨[], createList_repr heap, rfl⟩, by simp, List.Pairwise.nil⟩, ⟨rfl, rfl⟩, rfl⟩,
      rfl, fun before after heq => ?_⟩
    exact absurd heq (by simp)
  obtain ⟨c, answers, hrun, hhistory⟩ :=
    Machine.run_history_along TxHistory TxMallocOk (fun _ _ _ _ h hok => history_step h hok) h0 hok
  obtain ⟨queue, rest, hinv, hphase, hpushed⟩ := hhistory.progress
  exact ⟨c, answers, queue, rest, hrun, hinv.queue, hphase, hpushed,
    hhistory.progress.written_of_empty, hhistory.pushed, hhistory.zero,
    fun _ _ _ hblock => writeLen_of_frame hblock⟩

/-- The poll message for AID-HUI, in a block at address 100. -/
def huiPollMsg : TxMsg where
  ptr := 100
  block := some [0xb5, 0x62, 0x0b, 0x02, 0, 0, 0x0d, 0x32]

/-- One push; then a short write of three bytes, and a complete one. -/
def shortThenFull : List TxEvent :=
  [.push 1 huiPollMsg, .serial 0, .serial 0, .serial 0, .serial 0, .serial 3, .serial 0, .serial 0,
    .serial 0, .serial 8, .serial 0, .size]

theorem txMachine_exact_short_then_full :
    ∃ c answers queue rest,
      Machine.run txMachine (txStart fun _ => none) shortThenFull = some (c, answers) ∧
      TxQueue c.ll c.blocks queue ∧
      TxPhase queue (removedMsgs answers) (writtenMsgs answers) rest c.pc ∧
      pushedMsgs answers = writtenMsgs answers ++ rest ∧
      (size c.ll = 0 → writtenMsgs answers = pushedMsgs answers) ∧
      pushedMsgs answers = pushEvents shortThenFull ∧ WrittenAtZero answers ∧
      ∀ msg ∈ pushedMsgs answers, ∀ f : UbxFrame, msg.block = some f.bytes →
        msg.writeLen = f.bytes.length := by
  refine txMachine_exact _ _ ⟨⟨⟨by decide, rfl⟩, by decide, rfl⟩, fun _ _ _ => ?_⟩
  -- only pushes ask anything of `malloc`
  repeat' first
    | exact Machine.along_nil ..
    | refine ⟨trivial, fun _ _ _ => ?_⟩

end UbloxRead
