/-
UbloxRead.ProgramScript — what the program sends, and when.

The rounds so far determine a script, `scriptOf`: the silencers, and for every
round the polls for everything or for what is missing. Four results hold in
every interleaving:

* `program_follows_script`. What is pushed is a prefix of the script, and at every
  access of the ring buffer all of the script up to there has been written
  completely. `OnScript` is the invariant, `onScript_step` the step lemma.
* `program_retries_forever`. Without an almanac frame for satellite 0 the script goes
  on in the full cycle, and asks for that almanac in every round but each fourth.
* `program_stops_at_null`. Behind a message for which `malloc` failed nothing is
  sent any more, and `control_f` makes no further access. `write` fails on NULL,
  `remove_front` does not happen, and the wait for an empty queue has no end.
* `program_on_the_wire`. When no `write` sends part of a message, the line carries
  the frames of a prefix of the script and nothing else, and the program's own
  scan loop finds exactly those frames in it. A partial write puts the beginning of
  a message on the line twice, and the result fails.
-/
import UbloxRead.ProgramTheorems
import UbloxRead.RoundsTheorems
import UbloxRead.SerialLineTheorems

namespace UbloxRead

open Lib

/-! ## The script -/

/-- All that is sent up to and including the round after `rounds`. -/
def scriptOf (rounds : List Round) : List MsgCall :=
  nmeaSilencers ++ polled .first rounds ++ (Turn.first.after rounds).polls

/-- The part of the script that belongs to where `control_f` stands. -/
def scriptTo (pc : ControlPc) (rounds : List Round) : List MsgCall :=
  match pc with
  | .silence => nmeaSilencers
  | .check _ => nmeaSilencers ++ polled .first rounds
  | _ => scriptOf rounds

/-- The calls still to make. -/
def PrepPc.todo : PrepPc → List MsgCall
  | .push calls => calls
  | _ => []

@[simp] theorem todo_push (calls : List MsgCall) : (PrepPc.push calls).todo = calls := rfl
@[simp] theorem todo_wait : PrepPc.wait.todo = [] := rfl
@[simp] theorem todo_ready : PrepPc.ready.todo = [] := rfl

/-- A message is one that the call gives. -/
def Gives (call : MsgCall) (msg : TxMsg) : Prop := msg = call.msg msg.ptr

theorem scriptTo_le_scriptOf (pc : ControlPc) (rounds : List Round) :
    scriptTo pc rounds <+: scriptOf rounds := by
  cases pc with
  | silence => exact ⟨_, (List.append_assoc ..).symm⟩
  | poll kind => exact List.prefix_refl _
  | read kind n => exact List.prefix_refl _
  | check j => exact List.prefix_append ..

/-- The batch before a sample is what the turn polls for. -/
theorem todo_prepFor_poll {c : Control} {kind : RoundKind} (hpc : c.pc = .poll kind) :
    (prepFor c).todo = Turn.polls { kind := kind, chk := c.msgChk } := by
  rw [prepFor, hpc]
  show batch c = _
  rw [batch, hpc]
  cases kind <;> rfl

/-- What was asked for so far, and what is still to ask for, is the script. -/
structure OnScript (s : Program) (answers : List ProgramAnswer) (asked : List MsgCall) : Prop where
  turn : OnTurn s.control (programRounds answers)
  gives : List.Forall₂ Gives asked (pushedMsgs (txAnswers answers))
  script : asked ++ s.prep.todo = scriptTo s.control.pc (programRounds answers)

theorem programRounds_concat (answers : List ProgramAnswer) (answer : ProgramAnswer) :
    programRounds (answers ++ [answer]) = programRounds answers ++ programRounds [answer] := by
  simp [programRounds]

theorem pushedMsgs_txAnswers_concat (answers : List ProgramAnswer) (answer : ProgramAnswer) :
    pushedMsgs (txAnswers (answers ++ [answer]))
      = pushedMsgs (txAnswers answers) ++ pushedMsgs (txAnswers [answer]) := by
  simp [pushedMsgs, txAnswers]

/-- An access of `control_f` turns the page. -/
theorem onScript_access {s : Program} {answers : List ProgramAnswer} {asked : List MsgCall}
    (h : OnScript s answers asked) (hready : s.prep = .ready) {c : Control} {round : Option Round}
    (hstep : controlStep s.control = some (c, round)) :
    OnScript { s with control := c, prep := prepFor c } (answers ++ [.control round]) asked := by
  obtain ⟨hturn, hgives, hscript⟩ := h
  have hround : programRounds [.control round] = roundsOf [round] := by
    cases round <;> rfl
  have hpushed : pushedMsgs (txAnswers [.control round]) = [] := rfl
  have hturn' := onTurn_step (e := .control) hturn hstep
  rw [hready, todo_ready, List.append_nil] at hscript
  refine ⟨?_, ?_, ?_⟩
  · rw [programRounds_concat, hround]
    exact hturn'
  · rw [pushedMsgs_txAnswers_concat, hpushed, List.append_nil]
    exact hgives
  · rw [programRounds_concat, hround]
    -- a quiet access leaves the rounds as they are
    have hquiet : programRounds answers ++ roundsOf [none] = programRounds answers :=
      List.append_nil _
    cases hpc : s.control.pc with
    | silence =>
      rw [controlStep, hpc] at hstep
      cases hstep
      rw [hpc, scriptTo] at hscript
      have hrounds := hturn.silent hpc
      rw [hquiet, hrounds, todo_prepFor_poll rfl, hscript]
      rfl
    | poll kind =>
      rw [controlStep, hpc] at hstep
      cases hstep
      rw [hpc] at hscript
      rw [hquiet, hscript]
      exact List.append_nil _
    | read kind n =>
      rw [controlStep, hpc] at hstep
      obtain ⟨⟨d, r⟩, hread, heq⟩ := Option.map_eq_some_iff.mp hstep
      cases heq
      obtain ⟨hpc', -, -, -⟩ := readAndScan_accepted hread
      have hone : roundsOf [some r] = [r] := by simp [roundsOf]
      rw [hpc] at hscript
      have hprep : prepFor c = .ready := by
        rw [prepFor, hpc']
      rw [hone, hprep, todo_ready, List.append_nil, hpc', hscript]
      show scriptOf _ = nmeaSilencers ++ polled .first (programRounds answers ++ [r])
      rw [scriptOf, polled_concat, List.append_assoc]
    | check j =>
      obtain ⟨scratchpad, hcheck⟩ := controlStep_check hpc
      rw [hcheck] at hstep
      cases hstep
      rw [hpc] at hscript
      have hnow := hturn.turn
      rw [hpc] at hnow
      rw [hquiet, todo_prepFor_poll rfl, hscript]
      show _ = scriptOf (programRounds answers)
      rw [scriptTo, scriptOf, hnow]
      rfl

/-- A step that concerns neither the script nor the turn. -/
theorem OnScript.keep {s s' : Program} {answers : List ProgramAnswer} {asked : List MsgCall}
    {answer : ProgramAnswer} (h : OnScript s answers asked) (hpc : s'.control.pc = s.control.pc)
    (hchk : s'.control.msgChk = s.control.msgChk) (htodo : s'.prep.todo = s.prep.todo)
    (hrounds : programRounds [answer] = []) (hpushed : pushedMsgs (txAnswers [answer]) = []) :
    OnScript s' (answers ++ [answer]) asked := by
  obtain ⟨⟨hturn, hsilent⟩, hgives, hscript⟩ := h
  have hsame : programRounds (answers ++ [answer]) = programRounds answers := by
    rw [programRounds_concat, hrounds, List.append_nil]
  refine ⟨⟨?_, ?_⟩, ?_, ?_⟩
  · rw [hsame, hpc, hchk]
    exact hturn
  · rw [hsame, hpc]
    exact hsilent
  · rw [pushedMsgs_txAnswers_concat, hpushed, List.append_nil]
    exact hgives
  · rw [hsame, hpc, htodo]
    exact hscript

/-- **A step follows the script.** -/
theorem onScript_step {s s' : Program} {e : ProgramEvent} {answers : List ProgramAnswer}
    {answer : ProgramAnswer} {asked : List MsgCall} (h : OnScript s answers asked)
    (hstep : ProgramStep s e s' answer) :
    ∃ asked', OnScript s' (answers ++ [answer]) asked' := by
  cases hstep with
  | @push call calls mallocs tx answer hprep hpush =>
    obtain ⟨ll, -, heq⟩ := Option.map_eq_some_iff.mp hpush
    cases heq
    have hone : pushedMsgs (txAnswers [.tx (.pushed (call.msg mallocs.message))])
        = [call.msg mallocs.message] := rfl
    have hrounds : programRounds [.tx (.pushed (call.msg mallocs.message))] = [] := rfl
    obtain ⟨hturn, hgives, hscript⟩ := h
    refine ⟨asked ++ [call], ?_, ?_, ?_⟩
    · rw [programRounds_concat, hrounds, List.append_nil]
      exact hturn
    · rw [pushedMsgs_txAnswers_concat, hone]
      exact List.rel_append hgives (.cons rfl .nil)
    · rw [programRounds_concat, hrounds, List.append_nil, ← hscript, hprep]
      simp
  | pushed hprep => exact ⟨asked, h.keep rfl rfl (by rw [hprep]; rfl) rfl rfl⟩
  | wait hprep _ => exact ⟨asked, h.keep rfl rfl (by rw [hprep]) rfl rfl⟩
  | sent hprep _ => exact ⟨asked, h.keep rfl rfl (by rw [hprep]; rfl) rfl rfl⟩
  | access hready hcontrol => exact ⟨asked, onScript_access h hready hcontrol⟩
  | send _ hsend => exact ⟨asked, h.keep rfl rfl rfl rfl (pushedMsgs_serialStep hsend)⟩
  | received _ => exact ⟨asked, h.keep rfl rfl rfl rfl rfl⟩
  | silent _ => exact ⟨asked, h.keep rfl rfl rfl rfl rfl⟩

theorem onScript_start (heap : Heap Ptr) (heapIn heapMsg stack : Mem) :
    OnScript (programStart heap heapIn heapMsg stack) [] [] where
  turn := onTurn_start heapIn heapMsg stack
  gives := .nil
  script := rfl

/-- **Every run is sound and follows the script**, and keeps what its steps keep under
a condition `ok` besides. -/
theorem program_run_along {heap : Heap Ptr} {heapIn heapMsg stack : Mem}
    {events : List ProgramEvent} (ok : Program → ProgramEvent → Prop)
    (P : List ProgramAnswer → Prop)
    (hmalloc : Machine.Along programMachine ProgramMallocOk (programStart heap heapIn heapMsg stack)
      events)
    (hok : Machine.Along programMachine ok (programStart heap heapIn heapMsg stack) events)
    (h0 : P [])
    (hkeep : ∀ {s s' e answers answer asked}, Sound s (txAnswers answers) →
      OnScript s answers asked → P answers → ok s e → ProgramStep s e s' answer →
      P (answers ++ [answer])) :
    ∃ s answers asked,
      Machine.run programMachine (programStart heap heapIn heapMsg stack) events = some (s, answers) ∧
      Sound s (txAnswers answers) ∧ OnScript s answers asked ∧ P answers := by
  obtain ⟨s, answers, hrun, hsound, ⟨asked, hscript⟩, hP⟩ := Machine.run_history_along
    (fun s _ answers => Sound s (txAnswers answers) ∧ (∃ asked, OnScript s answers asked) ∧
      P answers) _ (fun s _ answers e h hok => by
      obtain ⟨hsound, ⟨asked, hscript⟩, hP⟩ := h
      obtain ⟨s', answer, hstep, hsound'⟩ := sound_step hsound hok.1
      have hinv := programMachine_inv hsound.null hstep
      exact ⟨s', answer, hstep, hsound', onScript_step hscript hinv,
        hkeep hsound hscript hP hok.2 hinv⟩)
    ⟨sound_start heap heapIn heapMsg stack, ⟨[], onScript_start heap heapIn heapMsg stack⟩, h0⟩
    (Machine.along_and hmalloc hok)
  exact ⟨s, answers, asked, hrun, hsound, hscript, hP⟩

/-- **The program follows the script**, in every interleaving. What it has pushed
is, message by message, a prefix of the script that the rounds so far determine:
the silencers, and for every round the polls for everything or for exactly what
the frames accepted before it left unset. And whenever it accesses the ring
buffer, all that it has pushed has been completely written; when it samples or
reads a round, that is the whole script up to this round's polls. -/
theorem program_follows_script (heap : Heap Ptr) (heapIn heapMsg stack : Mem)
    (events : List ProgramEvent)
    (hok : Machine.Along programMachine ProgramMallocOk (programStart heap heapIn heapMsg stack)
      events) :
    ∃ s answers asked,
      Machine.run programMachine (programStart heap heapIn heapMsg stack) events = some (s, answers) ∧
      List.Forall₂ Gives asked (pushedMsgs (txAnswers answers)) ∧
      asked <+: scriptOf (programRounds answers) ∧
      (s.prep = .ready →
        writtenMsgs (txAnswers answers) = pushedMsgs (txAnswers answers) ∧
        asked = scriptTo s.control.pc (programRounds answers)) := by
  obtain ⟨s, answers, asked, hrun, hsound, hscript, -⟩ := program_run_along (fun _ _ => True)
    (fun _ => True) hok (Machine.along_of_forall (fun _ _ => trivial) _ _) trivial
    fun _ _ _ _ _ => trivial
  refine ⟨s, answers, asked, hrun, hscript.gives, ?_, fun hready => ⟨?_, ?_⟩⟩
  · refine List.IsPrefix.trans ⟨s.prep.todo, hscript.script⟩ (scriptTo_le_scriptOf ..)
  · have howed := hsound.owed
    rw [hready] at howed
    exact hsound.progress.written_eq howed
  · have := hscript.script
    rw [hready, todo_ready, List.append_nil] at this
    exact this

/-- One silencer is queued and written, with a `read` that returns nothing in
every round of `serial_f`. -/
def firstSilencer : List ProgramEvent :=
  [.control ⟨100, 1, 0xff⟩, .serial (-1) none, .serial (-1) none, .serial (-1) none,
    .serial (-1) none, .serial (-1) none, .serial (-1) none, .serial 11 none, .serial (-1) none]

theorem firstSilencer_mallocOk :
    Machine.Along programMachine ProgramMallocOk plainStart firstSilencer := by
  refine ⟨fun _ _ _ => ⟨⟨by decide, rfl⟩, fun _ => rfl⟩, fun s _ _ =>
    Machine.along_of_mem (fun e he _ => ?_) s⟩
  simp only [List.mem_cons, List.not_mem_nil, or_false] at he
  rcases he with rfl | rfl | rfl | rfl | rfl | rfl | rfl | rfl <;> trivial

theorem program_follows_script_first :
    ∃ s answers asked, Machine.run programMachine plainStart firstSilencer = some (s, answers) ∧
      List.Forall₂ Gives asked (pushedMsgs (txAnswers answers)) ∧
      asked <+: scriptOf (programRounds answers) ∧
      (s.prep = .ready →
        writtenMsgs (txAnswers answers) = pushedMsgs (txAnswers answers) ∧
        asked = scriptTo s.control.pc (programRounds answers)) :=
  program_follows_script _ _ _ _ _ firstSilencer_mallocOk

/-- **Without an almanac frame for satellite 0 the retries never stop.** In every
interleaving, as long as no such frame is accepted, the round that `control_f` is in
or comes to next is that of the full cycle: one for everything, then all three for
what is missing, over and over. And at the sample of each round all polls for that
almanac alone have been pushed that the rounds so far and this one ask for, one in
every round for what is missing. -/
theorem program_retries_forever (heap : Heap Ptr) (heapIn heapMsg stack : Mem)
    (events : List ProgramEvent)
    (hok : Machine.Along programMachine ProgramMallocOk (programStart heap heapIn heapMsg stack)
      events) :
    ∃ s answers asked,
      Machine.run programMachine (programStart heap heapIn heapMsg stack) events = some (s, answers) ∧
      List.Forall₂ Gives asked (pushedMsgs (txAnswers answers)) ∧
      ((∀ f ∈ acceptedFrames (programRounds answers), ¬ f.alone.Carries (.alm 0)) →
        s.control.pc.kind s.control.msgChk = fullCycle (programRounds answers).length ∧
        (s.prep = .ready → ∀ kind, s.control.pc = .poll kind →
          asked.count (.pollAlmanac (some 0))
            = (programRounds answers).length - (programRounds answers).length / 4)) := by
  obtain ⟨s, answers, asked, hrun, -, hscript, -⟩ := program_run_along (fun _ _ => True)
    (fun _ => True) hok (Machine.along_of_forall (fun _ _ => trivial) _ _) trivial
    fun _ _ _ _ _ => trivial
  refine ⟨s, answers, asked, hrun, hscript.gives, fun hnone =>
    ⟨onTurn_fullCycle hscript.turn hnone, fun hready kind hpc => ?_⟩⟩
  have hasked : asked = scriptOf (programRounds answers) := by
    have := hscript.script
    rw [hready, todo_ready, List.append_nil, hpc] at this
    exact this
  have hsilencers : nmeaSilencers.count (AckFlag.alm 0).call = 0 := by decide
  have hcount := count_polled_almZero hnone
  show asked.count (AckFlag.alm 0).call = _
  rw [hasked, scriptOf, List.append_assoc, List.count_append, hsilencers, hcount,
    Nat.zero_add]

theorem program_retries_forever_first :
    ∃ s answers asked, Machine.run programMachine plainStart firstSilencer = some (s, answers) ∧
      List.Forall₂ Gives asked (pushedMsgs (txAnswers answers)) ∧
      ((∀ f ∈ acceptedFrames (programRounds answers), ¬ f.alone.Carries (.alm 0)) →
        s.control.pc.kind s.control.msgChk = fullCycle (programRounds answers).length ∧
        (s.prep = .ready → ∀ kind, s.control.pc = .poll kind →
          asked.count (.pollAlmanac (some 0))
            = (programRounds answers).length - (programRounds answers).length / 4)) :=
  program_retries_forever _ _ _ _ _ firstSilencer_mallocOk

/-! ## What is written -/

/-- `write` fails, or sends all the bytes it is handed. -/
def WholeWrites (s : Program) : ProgramEvent → Prop
  | .serial t _ => s.reading = false → ∀ p msg, s.tx.pc = .write p → s.tx.blocks.read p = some msg →
      t = -1 ∨ t = msg.wire.length
  | .control _ => True

theorem programWriteOk_of_whole {s : Program} {e : ProgramEvent} (h : WholeWrites s e) :
    ProgramWriteOk s e := by
  cases e with
  | control mallocs => trivial
  | serial t r =>
    intro hreading p msg hpc hread
    rcases h hreading p msg hpc hread with ht | ht
    · exact Or.inl ht
    · exact Or.inr (by omega)

/-- Only the sending half of `serial_f` writes. -/
theorem write_of_programStep {s s' : Program} {e : ProgramEvent} {msg : TxMsg} {t : Int}
    (hstep : ProgramStep s e s' (.tx (.wrote msg t))) :
    ∃ p r, s.reading = false ∧ s.tx.pc = .write p ∧ s.tx.blocks.read p = some msg ∧
      e = .serial t r ∧ txMachine s.tx (.serial t) = some (s'.tx, .wrote msg t) := by
  cases hstep with
  | push _ hpush =>
    obtain ⟨ll, -, heq⟩ := Option.map_eq_some_iff.mp hpush
    cases heq
  | @send t' r _ _ hreading hsend =>
    obtain ⟨p, hpc, hread, heq⟩ := write_of_step (e := .serial t') hsend
    cases heq
    exact ⟨p, r, hreading, hpc, hread, rfl, hsend⟩

/-- What one more answer adds to the queue's part of the answers. -/
theorem txAnswers_concat (answers : List ProgramAnswer) (answer : ProgramAnswer) :
    txAnswers (answers ++ [answer]) = txAnswers answers ++ txAnswers [answer] := by
  simp [txAnswers]

/-- An answer that is no write adds nothing to the line, nor to what is
written. -/
theorem no_write {answer : ProgramAnswer} (h : ∀ msg t, answer ≠ .tx (.wrote msg t)) :
    writes (txAnswers [answer]) = [] ∧ writtenMsgs (txAnswers [answer]) = [] := by
  cases answer with
  | control round => exact ⟨rfl, rfl⟩
  | read r => exact ⟨rfl, rfl⟩
  | tx a =>
    cases a with
    | wrote msg t => exact absurd rfl (h msg t)
    | quiet => exact ⟨rfl, rfl⟩
    | pushed msg => exact ⟨rfl, rfl⟩
    | saw n => exact ⟨rfl, rfl⟩
    | removed msgs => exact ⟨rfl, rfl⟩

/-- **Only messages with bytes are completely written.** -/
theorem written_step {s s' : Program} {e : ProgramEvent} {answers : List ProgramAnswer}
    {answer : ProgramAnswer} (hwritten : ∀ msg ∈ writtenMsgs (txAnswers answers), msg.wire ≠ [])
    (hok : ProgramWriteOk s e) (hstep : ProgramStep s e s' answer) :
    ∀ msg ∈ writtenMsgs (txAnswers (answers ++ [answer])), msg.wire ≠ [] := by
  rw [txAnswers_concat, writtenMsgs_append]
  intro msg hmsg
  rcases List.mem_append.mp hmsg with hold | hnew
  · exact hwritten msg hold
  · by_cases hwrote : ∃ m t, answer = .tx (.wrote m t)
    · obtain ⟨m, t, rfl⟩ := hwrote
      obtain ⟨p, r, hreading, hpc, hread, rfl, -⟩ := write_of_programStep hstep
      by_cases hfull : FullWrite m t
      · have hone : writtenMsgs (txAnswers [.tx (.wrote m t)]) = [m] := by
          simp [writtenMsgs, txAnswers, hfull]
        rw [hone, List.mem_singleton] at hnew
        rcases hok hreading p m hpc hread with rfl | ⟨hnonneg, hle⟩
        · exact absurd hfull (not_fullWrite_error m)
        · rw [hnew]
          exact (fullWrite_toNat hnonneg hle hfull).2
      · have hnone : writtenMsgs (txAnswers [.tx (.wrote m t)]) = [] := by
          simp [writtenMsgs, txAnswers, hfull]
        rw [hnone] at hnew
        cases hnew
    · rw [(no_write fun m t heq => hwrote ⟨m, t, heq⟩).2] at hnew
      cases hnew

/-- NULL has no bytes. -/
theorem wire_of_null {call : MsgCall} {msg : TxMsg} (h : Gives call msg) (hptr : msg.ptr = NULL) :
    msg.wire = [] := by
  rw [h, hptr]
  simp [TxMsg.wire, TxMsg.bytes, MsgCall.msg]

/-- **A failed `malloc` stops the program.** Once NULL has been queued for a
message, nothing behind it is ever completely written, and `control_f` never
comes to its next access of the ring buffer, whatever happens: `serial_f` hands
NULL to `write` for ever. -/
theorem program_stops_at_null (heap : Heap Ptr) (heapIn heapMsg stack : Mem)
    (events : List ProgramEvent)
    (hmalloc : Machine.Along programMachine ProgramMallocOk (programStart heap heapIn heapMsg stack)
      events)
    (hwrite : Machine.Along programMachine ProgramWriteOk (programStart heap heapIn heapMsg stack)
      events) :
    ∃ s answers,
      Machine.run programMachine (programStart heap heapIn heapMsg stack) events = some (s, answers) ∧
      ∀ before msg later, pushedMsgs (txAnswers answers) = before ++ msg :: later →
        msg.ptr = NULL → writtenMsgs (txAnswers answers) <+: before ∧ s.prep ≠ .ready := by
  obtain ⟨s, answers, asked, hrun, hsound, hscript, hwritten⟩ := program_run_along ProgramWriteOk
    (fun answers => ∀ msg ∈ writtenMsgs (txAnswers answers), msg.wire ≠ []) hmalloc hwrite nofun
    fun _ _ hwritten hok hstep => written_step hwritten hok hstep
  refine ⟨s, answers, hrun, fun before msg later hpushed hptr => ?_⟩
  obtain ⟨queue, rest, hinv, hphase, hrest⟩ := hsound.progress
  -- the message is not among the written ones, which are the first of those pushed
  have hmem : msg ∈ pushedMsgs (txAnswers answers) := by
    rw [hpushed]
    simp
  obtain ⟨call, -, hgives⟩ : ∃ call ∈ asked, Gives call msg :=
    exists_of_forall₂ hscript.gives.flip hmem
  have hwire := wire_of_null hgives hptr
  have hnot : msg ∉ writtenMsgs (txAnswers answers) := fun hin => hwritten msg hin hwire
  refine ⟨?_, fun hready => ?_⟩
  · rw [hrest] at hpushed
    rcases List.append_eq_append_iff.mp hpushed with ⟨mid, hbefore, -⟩ | ⟨mid, hmid, hcons⟩
    · exact ⟨mid, hbefore.symm⟩
    · cases mid with
      | nil => rw [hmid, List.append_nil]
      | cons m mid =>
        rw [List.cons_append, List.cons.injEq] at hcons
        rw [hmid, hcons.1] at hnot
        simp at hnot
  · have howed := hsound.owed
    rw [hready] at howed
    rw [hsound.progress.written_eq howed] at hnot
    exact hnot hmem

/-- `malloc` fails, and `write` is handed NULL. -/
def nullSilencer : List ProgramEvent :=
  .control ⟨NULL, 1, 0⟩ :: List.replicate 9 (.serial (-1) none)

theorem program_stops_at_null_first :
    ∃ s answers, Machine.run programMachine plainStart nullSilencer = some (s, answers) ∧
      ∀ before msg later, pushedMsgs (txAnswers answers) = before ++ msg :: later →
        msg.ptr = NULL → writtenMsgs (txAnswers answers) <+: before ∧ s.prep ≠ .ready := by
  refine program_stops_at_null _ _ _ _ _ ⟨fun _ _ _ => ⟨⟨by decide, rfl⟩, fun h => absurd rfl h⟩,
    fun s _ _ => Machine.along_of_mem (fun e he _ => ?_) s⟩
    ⟨trivial, fun s _ _ => Machine.along_of_mem (fun e he _ => ?_) s⟩
  · rw [List.eq_of_mem_replicate he]
    trivial
  · rw [List.eq_of_mem_replicate he]
    exact fun _ _ _ _ _ => Or.inl rfl

/-! ## On the wire -/

/-- A message that holds a frame is written as the frame. -/
theorem wire_of_block {msg : TxMsg} {f : UbxFrame} (h : msg.block = some f.bytes) :
    msg.wire = f.bytes ∧ msg.writeLen = f.bytes.length := by
  have hbytes : msg.bytes = f.bytes := by rw [TxMsg.bytes, h]; rfl
  have hwrite := writeLen_of_frame h
  exact ⟨by rw [TxMsg.wire, hwrite, hbytes, List.take_length], hwrite⟩

/-- A message of the script that has bytes has those of its frame. -/
theorem wire_of_gives {call : MsgCall} {msg : TxMsg} (h : Gives call msg) (hwire : msg.wire ≠ []) :
    msg.wire = call.frame.bytes ∧ msg.writeLen = call.frame.bytes.length := by
  have hptr : msg.ptr ≠ NULL := fun hnull => hwire (wire_of_null h hnull)
  refine wire_of_block ?_
  rw [h]
  exact if_neg hptr

/-- The line carries the completely written messages, and nothing of the
others. -/
def LineWhole (answers : List TxAnswer) : Prop :=
  lineBytes answers = (writtenMsgs answers).flatMap TxMsg.wire

theorem lineBytes_append (answers answers' : List TxAnswer) :
    lineBytes (answers ++ answers') = lineBytes answers ++ lineBytes answers' := by
  simp [lineBytes, writes]

/-- **A step keeps the line whole.** -/
theorem lineWhole_step {s s' : Program} {e : ProgramEvent} {answers : List ProgramAnswer}
    {answer : ProgramAnswer} {asked : List MsgCall} (h : LineWhole (txAnswers answers))
    (hprogress : TxProgress s.tx (txAnswers answers)) (hscript : OnScript s answers asked)
    (hok : WholeWrites s e) (hstep : ProgramStep s e s' answer) :
    LineWhole (txAnswers (answers ++ [answer])) := by
  rw [LineWhole] at h ⊢
  rw [txAnswers_concat, writtenMsgs_append, List.flatMap_append, lineBytes_append, h]
  congr 1
  by_cases hwrote : ∃ m t, answer = .tx (.wrote m t)
  · obtain ⟨m, t, rfl⟩ := hwrote
    have hwrite := programWriteOk_of_whole hok
    obtain ⟨p, r, hreading, hpc, hread, rfl, htx⟩ := write_of_programStep hstep
    obtain ⟨-, rest, hpushed⟩ := wrote_of_progress hprogress (hwrite hreading) htx
    obtain ⟨call, -, hgives⟩ : ∃ call ∈ asked, Gives call m :=
      exists_of_forall₂ hscript.gives.flip (by rw [hpushed]; simp)
    have hline : lineBytes (txAnswers [.tx (.wrote m t)]) = m.wire.take t.toNat := by
      simp [lineBytes, writes, txAnswers]
    rw [hline]
    rcases hok hreading p m hpc hread with rfl | rfl
    · simp [writtenMsgs, txAnswers, not_fullWrite_error m]
    · rw [Int.toNat_natCast, List.take_length]
      by_cases hempty : m.wire = []
      · by_cases hfull : FullWrite m m.wire.length
        · simp [writtenMsgs, txAnswers, hfull]
        · simp [writtenMsgs, txAnswers, hempty]
      · obtain ⟨hwire, hlen⟩ := wire_of_gives hgives hempty
        have hfull : FullWrite m m.wire.length := by
          rw [FullWrite, sizeOfInt_of_nonneg (Int.natCast_nonneg _), Int.toNat_natCast, hlen, hwire]
        simp [writtenMsgs, txAnswers, hfull]
  · obtain ⟨hwrites, hwritten⟩ := no_write fun m t heq => hwrote ⟨m, t, heq⟩
    rw [lineBytes, hwrites, hwritten]
    rfl

/-- Messages of calls, written one after the other. -/
theorem flatMap_wire {calls : List MsgCall} {msgs : List TxMsg} (h : List.Forall₂ Gives calls msgs)
    (hwire : ∀ msg ∈ msgs, msg.wire ≠ []) :
    msgs.flatMap TxMsg.wire = (calls.map MsgCall.frame).flatMap UbxFrame.bytes := by
  induction h with
  | nil => rfl
  | @cons call msg calls msgs hgives _ ih =>
    rw [List.flatMap_cons, List.map_cons, List.flatMap_cons,
      ih fun m hm => hwire m (List.mem_cons_of_mem _ hm),
      (wire_of_gives hgives (hwire msg (List.mem_cons_self ..))).1]

/-- **What goes over the line can be read back.** When every `write` fails or
sends all of its message, the line carries the frames of a prefix of the script
and nothing else, the scan loop finds exactly these frames in it, and at every
access of the ring buffer they are all that the script asks for up to there. -/
theorem program_on_the_wire (heap : Heap Ptr) (heapIn heapMsg stack : Mem)
    (events : List ProgramEvent)
    (hmalloc : Machine.Along programMachine ProgramMallocOk (programStart heap heapIn heapMsg stack)
      events)
    (hwhole : Machine.Along programMachine WholeWrites (programStart heap heapIn heapMsg stack)
      events) :
    ∃ s answers sent,
      Machine.run programMachine (programStart heap heapIn heapMsg stack) events = some (s, answers) ∧
      sent <+: scriptOf (programRounds answers) ∧
      (s.prep = .ready → sent = scriptTo s.control.pc (programRounds answers)) ∧
      lineBytes (txAnswers answers) = (sent.map MsgCall.frame).flatMap UbxFrame.bytes ∧
      ∀ (rb : Ringbuffer) (chk : MsgStrmCheck), ∃ scan : ScanState,
        (∀ fuel, (lineBytes (txAnswers answers)).length < fuel →
          scanLoop (lineBytes (txAnswers answers)).length fuel
            (scanStart (memOfList (lineBytes (txAnswers answers))) rb chk) = some scan) ∧
        scan.taken.map (fun f => slice (memOfList (lineBytes (txAnswers answers))) f.pos f.len)
          = sent.map fun call => call.frame.bytes := by
  obtain ⟨s, answers, asked, hrun, hsound, hscript, hwritten, hline⟩ := program_run_along WholeWrites
    (fun answers => (∀ msg ∈ writtenMsgs (txAnswers answers), msg.wire ≠ []) ∧
      LineWhole (txAnswers answers)) hmalloc hwhole ⟨nofun, rfl⟩
    fun hsound hscript h hok hstep => ⟨written_step h.1 (programWriteOk_of_whole hok) hstep,
      lineWhole_step h.2 hsound.progress hscript hok hstep⟩
  obtain ⟨queue, rest, hinv, hphase, hrest⟩ := hsound.progress
  have hgives := List.forall₂_take (writtenMsgs (txAnswers answers)).length hscript.gives
  rw [hrest, List.take_left] at hgives
  rw [LineWhole, flatMap_wire hgives hwritten] at hline
  refine ⟨s, answers, _, hrun, (List.take_prefix ..).trans
    (List.IsPrefix.trans ⟨s.prep.todo, hscript.script⟩ (scriptTo_le_scriptOf ..)), fun hready => ?_,
    hline, fun rb chk => ?_⟩
  · have howed := hsound.owed
    rw [hready] at howed
    rw [hsound.progress.written_eq howed, ← hscript.gives.length_eq, List.take_length,
      ← hscript.script, hready, todo_ready, List.append_nil]
  · rw [hline]
    obtain ⟨scan, hloop, -, hscan, -⟩ := scanLoop_total (memOfList _) rb chk
      ((List.map MsgCall.frame (List.take (writtenMsgs (txAnswers answers)).length asked)).flatMap
        UbxFrame.bytes).length (fun _ _ _ => True) trivial (fun _ _ _ _ _ _ => trivial)
    rw [Int.toNat_natCast] at hloop hscan
    refine ⟨scan, hloop, ?_⟩
    have htaken := (scan_frames _ (slice_memOfList _) hscan).2
    rw [List.map_map, List.map_map] at htaken
    exact htaken

theorem firstSilencer_whole :
    Machine.Along programMachine WholeWrites plainStart firstSilencer := by
  have hfail : ∀ s r, WholeWrites s (.serial (-1) r) := fun s r _ _ _ _ _ => Or.inl rfl
  refine ⟨trivial, fun s o h => ?_⟩
  cases h
  refine ⟨hfail _ _, fun s o h => ?_⟩
  cases h
  refine ⟨hfail _ _, fun s o h => ?_⟩
  cases h
  refine ⟨hfail _ _, fun s o h => ?_⟩
  cases h
  refine ⟨hfail _ _, fun s o h => ?_⟩
  cases h
  refine ⟨hfail _ _, fun s o h => ?_⟩
  cases h
  refine ⟨hfail _ _, fun s o h => ?_⟩
  cases h
  -- only here is there a message in hand
  refine ⟨?_, fun s o h => ⟨hfail _ _, fun _ _ _ => trivial⟩⟩
  intro _ p msg hpc hread
  cases hpc
  cases hread
  exact Or.inr rfl

theorem program_on_the_wire_first :
    ∃ s answers sent, Machine.run programMachine plainStart firstSilencer = some (s, answers) ∧
      sent <+: scriptOf (programRounds answers) ∧
      (s.prep = .ready → sent = scriptTo s.control.pc (programRounds answers)) ∧
      lineBytes (txAnswers answers) = (sent.map MsgCall.frame).flatMap UbxFrame.bytes ∧
      ∀ (rb : Ringbuffer) (chk : MsgStrmCheck), ∃ scan : ScanState,
        (∀ fuel, (lineBytes (txAnswers answers)).length < fuel →
          scanLoop (lineBytes (txAnswers answers)).length fuel
            (scanStart (memOfList (lineBytes (txAnswers answers))) rb chk) = some scan) ∧
        scan.taken.map (fun f => slice (memOfList (lineBytes (txAnswers answers))) f.pos f.len)
          = sent.map fun call => call.frame.bytes :=
  program_on_the_wire _ _ _ _ _ firstSilencer_mallocOk firstSilencer_whole

end UbloxRead
