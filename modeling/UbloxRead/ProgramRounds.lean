/-
UbloxRead.ProgramRounds — the rounds go on.

`program_rounds_recur`: wherever a run has come to, as long as no write falls short,
`ROUND_LAPS` laps in which each of the two threads makes a step are enough for
`control_f` to end another round. A lap may hold any number of steps, in any order.

Most of the time it is `control_f` that has to make a step, and behind a batch it is
`serial_f` (`Program.needsSerial`). `Program.roundWork` counts what is left to do:
the calls of the batch, what `serial_f` has to send, and what comes before the end of
the round. `roundWork_step` says that a step of the thread that is needed does some
of it, and that a step of the other one does no harm.

There are such runs: with a `malloc` that never gives an address twice and with whole
writes the program can be led on for ever (`laps_go_on`).
-/
import UbloxRead.ProgramProgress

namespace UbloxRead

open Lib

/-- What is to do for a batch at most, before it is waited for. -/
def BATCH_WORK : Nat := 10 * ITEM_COUNT + 2

/-- What `control_f` has to do before its next access of the ring buffers. A message
more is up to nine steps more of `serial_f`, so a call counts for ten. -/
def PrepPc.work : PrepPc → Nat
  | .push calls => 10 * calls.length + 2
  | .wait => 1
  | .ready => 0

/-- The accesses up to the end of the round, with the batch that is queued between
them. -/
def ControlPc.ahead : ControlPc → Nat
  | .read _ _ => 1
  | .poll _ => 2
  | .silence => BATCH_WORK + 3
  | .check _ => BATCH_WORK + 3

/-- What is left to do until the end of the round. -/
def Program.roundWork (s : Program) : Nat := s.prep.work + s.control.pc.ahead + s.work

/-- `control_f` waits, and not in vain. -/
def Program.needsSerial (s : Program) : Bool := decide (s.prep = .wait ∧ 0 < size s.tx.ll)

/-- Laps that are enough, wherever the program stands. -/
def ROUND_LAPS : Nat := 2 * BATCH_WORK + 6

/-- Both threads make a step. -/
def Lap (events : List ProgramEvent) : Prop :=
  (∃ mallocs, .control mallocs ∈ events) ∧ ∃ t r, .serial t r ∈ events

/-- The step that ends a round. -/
def EndsRound (answer : ProgramAnswer) : Prop := ∃ round, answer = .control (some round)

/-! ## What is left to do -/

theorem size_of_pushBack {l l' : LList} {n data : Ptr} (h : pushBack l n data = some l') :
    size l' = size l + 1 := by
  unfold pushBack at h
  obtain ⟨heap, -, h⟩ := Option.bind_eq_some_iff.mp h
  split at h
  · obtain ⟨_, -, h⟩ := Option.bind_eq_some_iff.mp h
    obtain ⟨_, -, h⟩ := Option.bind_eq_some_iff.mp h
    cases h
    rfl
  · obtain ⟨_, -, h⟩ := Option.bind_eq_some_iff.mp h
    cases h
    rfl

/-- A message more is nine steps more at most. -/
theorem work_of_pushed {s s' : Program} (hsize : size s'.tx.ll = size s.tx.ll + 1)
    (hleg : s'.leg = s.leg) : s'.work ≤ s.work + 9 := by
  have hle := leg_le s
  unfold Program.work
  rw [hsize]
  cases size s.tx.ll with
  | zero =>
    simp only
    omega
  | succ n =>
    simp only
    omega

theorem work_controlPush {s : Program} {tx : TxState} {n : Ptr} {msg : TxMsg} {answer : TxAnswer}
    (prep : PrepPc) (h : controlPush s.tx n msg = some (tx, answer)) :
    ({ s with tx := tx, prep := prep } : Program).work ≤ s.work + 9 := by
  obtain ⟨ll, hll, heq⟩ := Option.map_eq_some_iff.mp h
  cases heq
  exact work_of_pushed (size_of_pushBack hll) rfl

/-- Any batch is a batch of polls for what is missing, or shorter. -/
theorem prepFor_work_le (c : Control) : (prepFor c).work ≤ BATCH_WORK := by
  have hlen := length_batch_le c
  unfold prepFor
  split
  · simp only [PrepPc.work, BATCH_WORK]
    omega
  · simp only [PrepPc.work, BATCH_WORK]
    omega
  · exact Nat.zero_le _

/-- **There is never more to do than `ROUND_LAPS`.** -/
theorem roundWork_lt {s : Program} (h : Accounted s) : s.roundWork < ROUND_LAPS := by
  obtain ⟨⟨answers, hsound⟩, -⟩ := h
  obtain ⟨queue, hinv, haccounts⟩ := hsound.progress.accounts
  have hsize := hinv.size_eq
  have hwork := work_le s
  have hlen := congrArg List.length haccounts
  rw [List.length_append] at hlen
  have howed := hsound.owed
  have hahead : s.control.pc.ahead ≤ BATCH_WORK + 3 := by
    cases s.control.pc with
    | silence => exact Nat.le_refl _
    | poll kind => exact Nat.le_add_left 2 _
    | read kind n => exact Nat.le_add_left 1 _
    | check j => exact Nat.le_refl _
  have hprep : s.prep.work + s.work ≤ BATCH_WORK + 2 := by
    unfold BATCH_WORK
    cases hprep : s.prep with
    | push calls =>
      rw [hprep] at howed
      simp only [Owed] at howed
      simp only [PrepPc.work]
      omega
    | wait =>
      rw [hprep] at howed
      simp only [Owed] at howed
      simp only [PrepPc.work]
      omega
    | ready =>
      rw [hprep] at howed
      have hequal := congrArg List.length howed
      simp only [PrepPc.work]
      omega
  unfold Program.roundWork ROUND_LAPS
  omega

/-! ## Steps -/

/-- An access that does not end the round is one access less. -/
theorem access_work {c c' : Control} (h : controlStep c = some (c', none)) :
    (prepFor c').work + c'.pc.ahead < c.pc.ahead := by
  have hprep := prepFor_work_le c'
  cases controlMachine_inv (show controlMachine c .control = some (c', none) from h) with
  | silence hpc =>
    rw [hpc]
    simp only [silenceNmea, ControlPc.ahead] at hprep ⊢
    omega
  | @sample kind hpc =>
    rw [hpc]
    exact Nat.lt_succ_self 1
  | @check j kind scratchpad hpc =>
    rw [hpc]
    simp only [ControlPc.ahead] at hprep ⊢
    omega

/-- **A step of `control_f`** ends the round, does some of the work, or waits for
`serial_f`. -/
theorem control_work {s s' : Program} {mallocs : Mallocs} {answer : ProgramAnswer}
    (h : Accounted s) (hone : programMachine s (.control mallocs) = some (s', answer)) :
    EndsRound answer ∨ s'.roundWork < s.roundWork ∨ s' = s ∧ s.needsSerial = true := by
  cases programMachine_inv h.rounding.null hone with
  | @push call calls _ tx answer hprep hpush =>
    have hwork := work_controlPush (.push calls) hpush
    refine Or.inr (Or.inl ?_)
    simp only [Program.roundWork, hprep, PrepPc.work, List.length_cons]
    omega
  | pushed hprep =>
    refine Or.inr (Or.inl ?_)
    have hwork : ({ s with prep := .wait } : Program).work = s.work := rfl
    simp only [Program.roundWork, hprep, PrepPc.work, hwork, List.length_nil]
    omega
  | wait hprep hsize =>
    refine Or.inr (Or.inr ⟨by rw [← hprep], decide_eq_true ⟨hprep, by omega⟩⟩)
  | sent hprep hzero =>
    refine Or.inr (Or.inl ?_)
    have hwork : ({ s with prep := .ready } : Program).work = s.work := rfl
    simp only [Program.roundWork, hprep, PrepPc.work, hwork]
    omega
  | @access _ c round hprep hstep =>
    cases round with
    | some round => exact Or.inl ⟨round, rfl⟩
    | none =>
      refine Or.inr (Or.inl ?_)
      have hless := access_work hstep
      have hwork : ({ s with control := c, prep := prepFor c } : Program).work = s.work := rfl
      have hready : s.prep.work = 0 := by
        rw [hprep]
        rfl
      simp only [Program.roundWork, hready, hwork]
      omega

/-- **A step of the thread that is needed does some of the work**, and a step of the
other one leaves it needed. -/
theorem roundWork_step {s s' : Program} {e : ProgramEvent} {answer : ProgramAnswer}
    (h : Accounted s) (hok : ProgramMallocOk s e)
    (hone : programMachine s e = some (s', answer)) (hwhole : WholeAnswer answer) :
    EndsRound answer ∨ Accounted s' ∧ (s'.roundWork < s.roundWork ∨
      s'.roundWork = s.roundWork ∧ isSerial e ≠ s.needsSerial ∧ s'.needsSerial = s.needsSerial) := by
  have haccounted := accounted_step h hok hone
  cases e with
  | control mallocs =>
    rcases control_work h hone with hdone | hless | ⟨rfl, hneeds⟩
    · exact Or.inl hdone
    · exact Or.inr ⟨haccounted, Or.inl hless⟩
    · exact Or.inr ⟨haccounted, Or.inr ⟨rfl, by simp [isSerial, hneeds], rfl⟩⟩
  | serial t r =>
    obtain ⟨hprep, hpc, hwork⟩ := serial_work h hone hwhole
    refine Or.inr ⟨haccounted, ?_⟩
    by_cases hzero : s.work = 0
    · -- nothing is queued, and nothing becomes of it
      have hnone : s'.work = 0 := by omega
      have hneeds : ∀ {u : Program}, u.work = 0 → u.needsSerial = false := fun hu => by
        simp [Program.needsSerial, size_of_work hu]
      refine Or.inr ⟨?_, ?_, ?_⟩
      · rw [Program.roundWork, Program.roundWork, hprep, hpc, hzero, hnone]
      · simp [isSerial, hneeds hzero]
      · rw [hneeds hzero, hneeds hnone]
    · refine Or.inl ?_
      rw [Program.roundWork, Program.roundWork, hprep, hpc]
      omega

/-! ## Rounds -/

/-- A lap has steps of both kinds. -/
theorem Lap.kinds {events : List ProgramEvent} (h : Lap events) :
    ∀ k, ∃ e ∈ events, isSerial e = k := by
  obtain ⟨⟨mallocs, hcontrol⟩, t, r, hserial⟩ := h
  intro k
  cases k with
  | false => exact ⟨_, hcontrol, rfl⟩
  | true => exact ⟨_, hserial, rfl⟩

/-- **The rounds go on.** Wherever a run has come to, when both threads keep making
steps and no write falls short, another round comes to its end within `ROUND_LAPS`
laps. -/
theorem program_rounds_recur (heap : Heap Ptr) (heapIn heapMsg stack : Mem)
    (before : List ProgramEvent) (laps : List (List ProgramEvent))
    (hok : Machine.Along programMachine ProgramMallocOk (programStart heap heapIn heapMsg stack)
      (before ++ laps.flatten)) :
    ∃ s answers s' answers',
      Machine.run programMachine (programStart heap heapIn heapMsg stack) before
        = some (s, answers) ∧
      Machine.run programMachine s laps.flatten = some (s', answers') ∧
      ((∀ lap ∈ laps, Lap lap) → ROUND_LAPS ≤ laps.length →
        (∀ msg t, .tx (.wrote msg t) ∈ answers' → FullWrite msg t) →
        ∃ round, .control (some round) ∈ answers') := by
  obtain ⟨s, answers, s', answers', hbefore, hlater, haccounted, hokLaps⟩ := accounted_run hok
  refine ⟨s, answers, s', answers', hbefore, hlater, fun hlaps henough hwhole => ?_⟩
  rcases Machine.run_finishes_laps Accounted ProgramMallocOk WholeAnswer EndsRound isSerial
    Program.needsSerial Program.roundWork (fun _ _ _ _ => roundWork_step)
    (fun lap hlap => (hlaps lap hlap).kinds) haccounted hokLaps hlater
    (wholeAnswers hwhole) with ⟨_, hround, round, rfl⟩ | ⟨-, hwork⟩
  · exact ⟨round, hround⟩
  · have hlt := roundWork_lt haccounted
    omega

/-! ## A run that goes on -/

/-- Nothing lives at `n` or behind it. -/
structure UnusedFrom (n : Nat) (s : Program) : Prop where
  nodes : ∀ p : Nat, n ≤ p → s.tx.ll.heap p = none
  blocks : ∀ p : Nat, n ≤ p → s.tx.blocks p = none

/-- What a `malloc` that never gives an address twice returns next. -/
def mallocsFrom (n : Nat) : Mallocs where
  message := n + 1
  node := n
  fill := 0

/-- `serial_f` makes no node live. -/
theorem serialStep_dead {c c' : TxState} {t : Int} {answer : TxAnswer} {answers : List TxAnswer}
    (hprogress : TxProgress c answers) (h : serialStep c t = some (c', answer)) {p : Ptr}
    (hp : c.ll.heap p = none) : c'.ll.heap p = none := by
  obtain ⟨queue, rest, hinv, hphase, -⟩ := hprogress
  cases serialStep_inv h with
  | idle _ _ => exact hp
  | next _ _ => exact hp
  | front _ _ => exact hp
  | wrote _ _ _ => exact hp
  | short _ _ _ => exact hp
  | removed hpc hremove _ _ =>
    rw [hpc] at hphase
    obtain ⟨msg, rfl, -⟩ := hphase
    obtain ⟨⟨cells, hrepr, hcells⟩, -, -⟩ := hinv
    cases cells with
    | nil => cases hcells
    | cons cell cells =>
      obtain ⟨ll, hremove', -, hex⟩ := removeFront_spec hrepr
      rw [hremove] at hremove'
      cases hremove'
      exact hex.dead (fun hin => hrepr.not_mem hp (List.mem_cons_of_mem _ hin)) hp

/-- `control_f` makes a step, with addresses that were never given. -/
theorem control_goes_on {s : Program} {n : Nat} (h : Accounted s) (hn : 0 < n)
    (hunused : UnusedFrom n s) :
    ProgramMallocOk s (.control (mallocsFrom n)) ∧
      ∃ s' answer, programMachine s (.control (mallocsFrom n)) = some (s', answer) ∧
        WholeAnswer answer ∧ Accounted s' ∧ UnusedFrom (n + 2) s' := by
  have hok : ProgramMallocOk s (.control (mallocsFrom n)) := fun _ _ _ =>
    ⟨⟨Nat.pos_iff_ne_zero.mp hn, hunused.nodes n (Nat.le_refl n)⟩,
      fun _ => hunused.blocks (n + 1) (Nat.le_succ n)⟩
  have hmore : UnusedFrom (n + 2) s :=
    ⟨fun p hp => hunused.nodes p (by omega), fun p hp => hunused.blocks p (by omega)⟩
  obtain ⟨answers, hsound⟩ := h.sound
  obtain ⟨s', answer, hone, -⟩ := sound_step hsound hok
  refine ⟨hok, s', answer, hone, ?_⟩
  have haccounted := accounted_step h hok hone
  cases programMachine_inv h.rounding.null hone with
  | @push call calls _ tx answer hprep hpush =>
    obtain ⟨queue, hinv, -⟩ := hsound.progress.accounts
    obtain ⟨⟨hnode, hfresh⟩, hnull, hdead⟩ := hok.tx h.rounding.null hprep
    obtain ⟨ll, hll, -, hkept⟩ := hinv.push hnode hfresh hnull hdead
    rw [controlPush, hll] at hpush
    cases hpush
    refine ⟨trivial, haccounted, fun p hp => hkept p ?_ (hmore.nodes p hp), fun p hp => ?_⟩
    · show p ≠ n
      omega
    · show (if p = n + 1 then _ else s.tx.blocks p) = none
      rw [if_neg (by omega), hmore.blocks p hp]
  | pushed _ => exact ⟨trivial, haccounted, hmore.nodes, hmore.blocks⟩
  | wait _ _ => exact ⟨trivial, haccounted, hmore.nodes, hmore.blocks⟩
  | sent _ _ => exact ⟨trivial, haccounted, hmore.nodes, hmore.blocks⟩
  | access _ _ => exact ⟨trivial, haccounted, hmore.nodes, hmore.blocks⟩

/-- A `write` can send all of the message. -/
theorem serialStep_whole {c : TxState} {answers : List TxAnswer} (h : TxProgress c answers) :
    ∃ t c' answer, serialStep c t = some (c', answer) ∧ WholeAnswer (.tx answer) := by
  cases hpc : c.pc with
  | write p =>
    obtain ⟨c₀, answer₀, hone, -⟩ := serial_step h 0
    simp only [serialStep, hpc] at hone
    obtain ⟨msg, hread, -⟩ := Option.map_eq_some_iff.mp hone
    have hfull : FullWrite msg msg.writeLen := by
      rw [FullWrite, sizeOfInt_of_nonneg (Int.natCast_nonneg _), Int.toNat_natCast]
    refine ⟨msg.writeLen, { c with pc := .remove }, .wrote msg msg.writeLen, ?_, hfull⟩
    simp only [serialStep, hpc, hread, Option.map_some, if_pos hfull]
  | size =>
    obtain ⟨c', answer, hone, -⟩ := serial_step h 0
    refine ⟨0, c', answer, hone, ?_⟩
    simp only [serialStep, hpc] at hone
    split at hone <;> cases hone <;> trivial
  | front =>
    obtain ⟨c', answer, hone, -⟩ := serial_step h 0
    refine ⟨0, c', answer, hone, ?_⟩
    simp only [serialStep, hpc] at hone
    obtain ⟨p, -, heq⟩ := Option.map_eq_some_iff.mp hone
    cases heq
    trivial
  | remove =>
    obtain ⟨c', answer, hone, -⟩ := serial_step h 0
    refine ⟨0, c', answer, hone, ?_⟩
    simp only [serialStep, hpc, Option.bind_eq_bind, Option.bind_eq_some_iff] at hone
    obtain ⟨_, -, _, -, _, -, heq⟩ := hone
    cases heq
    trivial

/-- `serial_f` makes a step, and sends all of a message if it is its `write`. -/
theorem serial_goes_on {s : Program} {n : Nat} (h : Accounted s) (hunused : UnusedFrom n s) :
    ∃ t s' answer, programMachine s (.serial t none) = some (s', answer) ∧
      WholeAnswer answer ∧ Accounted s' ∧ UnusedFrom n s' := by
  obtain ⟨answers, hsound⟩ := h.sound
  cases hreading : s.reading with
  | true =>
    have hone : programMachine s (.serial 0 none) = _ := if_pos hreading
    exact ⟨0, _, _, hone, trivial, accounted_step h (e := .serial 0 none) trivial hone,
      hunused.nodes, hunused.blocks⟩
  | false =>
    obtain ⟨t, tx, answer, hstep, hwhole⟩ := serialStep_whole hsound.progress
    have hone : programMachine s (.serial t none)
        = some ({ s with tx := tx, reading := decide (tx.pc = .size) }, .tx answer) := by
      rw [programMachine, serialFStep, hreading, if_neg Bool.false_ne_true, hstep]
      rfl
    exact ⟨t, _, _, hone, hwhole, accounted_step h (e := .serial t none) trivial hone,
      fun p hp => serialStep_dead hsound.progress hstep (hunused.nodes p hp),
      fun p hp => serialStep_none hstep (hunused.blocks p hp)⟩

/-- **As many laps as one likes**, without a short write. -/
theorem laps_go_on (k : Nat) {s : Program} {n : Nat} (h : Accounted s) (hn : 0 < n)
    (hunused : UnusedFrom n s) :
    ∃ (laps : List (List ProgramEvent)) (s' : Program) (answers : List ProgramAnswer),
      laps.length = k ∧ (∀ lap ∈ laps, Lap lap) ∧
      Machine.Along programMachine ProgramMallocOk s laps.flatten ∧
      Machine.run programMachine s laps.flatten = some (s', answers) ∧
      ∀ answer ∈ answers, WholeAnswer answer := by
  induction k generalizing s n with
  | zero => exact ⟨[], s, [], rfl, nofun, Machine.along_nil .., rfl, nofun⟩
  | succ k ih =>
    obtain ⟨hok, s₁, answer₁, hcontrol, hwhole₁, haccounted₁, hunused₁⟩ :=
      control_goes_on h hn hunused
    obtain ⟨t, s₂, answer₂, hserial, hwhole₂, haccounted₂, hunused₂⟩ :=
      serial_goes_on haccounted₁ hunused₁
    obtain ⟨laps, s', answers, hlen, hlaps, hoks, hrun, hwhole⟩ :=
      ih haccounted₂ (Nat.succ_pos _) hunused₂
    refine ⟨[.control (mallocsFrom n), .serial t none] :: laps, s', answer₁ :: answer₂ :: answers,
      congrArg Nat.succ hlen, List.forall_mem_cons.mpr ⟨⟨⟨_, List.mem_cons_self ..⟩, t, none, ?_⟩,
        hlaps⟩, ?_, ?_, ?_⟩
    · exact List.mem_cons_of_mem _ (List.mem_singleton_self _)
    · exact (Machine.along_cons_of_step hcontrol).mpr
        ⟨hok, (Machine.along_cons_of_step hserial).mpr ⟨trivial, hoks⟩⟩
    · exact Machine.run_cons_eq_some.mpr ⟨s₁, answer₁, _, hcontrol,
        Machine.run_cons_eq_some.mpr ⟨s₂, answer₂, answers, hserial, hrun, rfl⟩, rfl⟩
    · exact List.forall_mem_cons.mpr ⟨hwhole₁, List.forall_mem_cons.mpr ⟨hwhole₂, hwhole⟩⟩

theorem program_rounds_recur_once :
    ∃ (laps : List (List ProgramEvent)) (s : Program) (answers : List ProgramAnswer),
      (∀ lap ∈ laps, Lap lap) ∧
      Machine.run programMachine plainStart laps.flatten = some (s, answers) ∧
      ∃ round, .control (some round) ∈ answers := by
  have hstart : Accounted plainStart :=
    ⟨⟨[], sound_start _ _ _ _⟩, ⟨rfl, fun hreading => by cases hreading⟩⟩
  obtain ⟨laps, s, answers, hlen, hlaps, hok, hrun, hwhole⟩ :=
    laps_go_on ROUND_LAPS hstart Nat.one_pos ⟨fun _ _ => rfl, fun _ _ => rfl⟩
  obtain ⟨s₀, answers₀, s', answers', hnil, hlater, hround⟩ :=
    program_rounds_recur (fun _ => none) sevens sevens sevens [] laps hok
  cases hnil
  rw [show programStart _ _ _ _ = plainStart from rfl, hrun] at hlater
  cases hlater
  exact ⟨laps, s, answers, hlaps, hrun, hround hlaps hlen.ge fun msg t h => hwhole _ h⟩

end UbloxRead
