/-
UbloxRead.ProgramProgress — how fast the program goes.

`pauseBtwSend` keeps the writes of `serial_f` apart, and with them `control_f`,
which waits until the queue is empty. `program_spaces_writes` is the lower bound:
between two writes there are at least two reads, so the receiver has been
listened to twice, whether or not the first write was complete and whatever
`control_f` does meanwhile. `program_wait_ends` is the upper one: as long as no
write falls short, each queued message takes `serial_f` seven steps (four of the
sending half and, for the pause, a look at the queue and two reads), and two more
pass at the start; after so many `control_f` finds the queue empty.

The counter is a `uint8_t` and wraps, which neither bound notices: it passes 0 and
1 only after many more reads, and only while nothing is queued.
-/
import UbloxRead.ProgramTheorems
import UbloxRead.Lib.Progress

namespace UbloxRead

open Lib

def isWrite : ProgramAnswer → Bool
  | .tx (.wrote _ _) => true
  | _ => false

def isRead : ProgramAnswer → Bool
  | .read _ => true
  | _ => false

def isSerial : ProgramEvent → Bool
  | .serial _ _ => true
  | .control _ => false

/-! ## Between two writes -/

/-- How many reads there must have been since the last write. -/
def Program.credit (s : Program) : Nat :=
  match s.tx.pc with
  | .size =>
      if s.tx.pauseBtwSend = 1 then (if s.reading then 0 else 1)
      else if s.tx.pauseBtwSend = 2 then (if s.reading then 1 else 2)
      else 2
  | .front => 2
  | .write _ => 2
  | .remove => 0

theorem credit_le (s : Program) : s.credit ≤ 2 := by
  unfold Program.credit
  split
  · repeat' split
    all_goals omega
  all_goals omega

/-- Only the pause just after a write is short of credit. -/
theorem credit_of_pause {s : Program} (hpc : s.tx.pc = .size) (hreading : s.reading = false)
    (hpause : s.tx.pauseBtwSend ≠ 1) : s.credit = 2 := by
  simp [Program.credit, hpc, hreading, hpause]

/-- `serial_f` reads at the end of its sending half. -/
structure Rounding (s : Program) : Prop where
  null : s.tx.blocks NULL = none
  reads : s.reading = true → s.tx.pc = .size

theorem rounding_step {s s' : Program} {e : ProgramEvent} {answer : ProgramAnswer}
    (h : Rounding s) (hstep : ProgramStep s e s' answer) : Rounding s' := by
  refine ⟨null_step h.null hstep, fun hreading => ?_⟩
  cases hstep with
  | push _ hpush =>
    obtain ⟨ll, -, heq⟩ := Option.map_eq_some_iff.mp hpush
    cases heq
    exact h.reads hreading
  | pushed _ => exact h.reads hreading
  | wait _ _ => exact h.reads hreading
  | sent _ _ => exact h.reads hreading
  | access _ _ => exact h.reads hreading
  | send _ _ => exact of_decide_eq_true hreading
  | received _ => cases hreading
  | silent _ => cases hreading

theorem rounding_run {heap : Heap Ptr} {heapIn heapMsg stack : Mem} {events : List ProgramEvent}
    {s : Program} {answers : List ProgramAnswer}
    (hrun : Machine.run programMachine (programStart heap heapIn heapMsg stack) events
      = some (s, answers)) : Rounding s :=
  Machine.run_history (fun s _ _ => Rounding s)
    (fun _ _ _ _ _ _ h hone => rounding_step h (programMachine_inv h.null hone))
    ⟨rfl, fun hreading => by cases hreading⟩ hrun

/-- **What a step of the sending half does to the credit.** -/
theorem credit_send {s : Program} {tx : TxState} {t : Int} {answer : TxAnswer}
    (hreading : s.reading = false) (hsend : SendStep s.tx t tx answer) :
    let s' : Program := { s with tx := tx, reading := decide (tx.pc = .size) }
    if isWrite (.tx answer) then 2 ≤ s.credit ∧ s'.credit = 0 else s'.credit ≤ s.credit := by
  cases hsend with
  | idle hpc hidle =>
    show Program.credit _ ≤ _
    by_cases h1 : s.tx.pauseBtwSend = 1
    · simp [Program.credit, hpc, hreading, h1]
    · rw [credit_of_pause hpc hreading h1]
      exact credit_le _
  | next hpc hpause =>
    show Program.credit _ ≤ _
    rw [credit_of_pause hpc hreading (by rintro heq; rw [heq] at hpause; exact absurd hpause (by decide))]
    exact credit_le _
  | front hpc _ => simp [isWrite, Program.credit, hpc]
  | wrote hpc _ _ => simp [isWrite, Program.credit, hpc]
  | short hpc _ _ => simp [isWrite, Program.credit, hpc, TxState.afterSend]
  | removed hpc _ _ _ => simp [isWrite, Program.credit, hpc, TxState.afterSend]

/-- A `read` is worth one. -/
theorem credit_read {s s' : Program} (htx : s'.tx = s.tx) (hpc : s.tx.pc = .size)
    (hreading : s.reading = true) (hread : s'.reading = false) : s'.credit ≤ s.credit + 1 := by
  simp only [Program.credit, htx, hpc, hreading, hread, if_true, Bool.false_eq_true, if_false]
  by_cases h1 : s.tx.pauseBtwSend = 1
  · simp [h1]
  · by_cases h2 : s.tx.pauseBtwSend = 2 <;> simp [h1, h2]

/-- **What a step does to the credit.** -/
theorem credit_step {s s' : Program} {e : ProgramEvent} {answer : ProgramAnswer}
    (h : Rounding s) (hstep : ProgramStep s e s' answer) :
    if isWrite answer then 2 ≤ s.credit ∧ s'.credit = 0
    else s'.credit ≤ s.credit + if isRead answer then 1 else 0 := by
  cases hstep with
  | push _ hpush =>
    obtain ⟨ll, -, heq⟩ := Option.map_eq_some_iff.mp hpush
    cases heq
    exact Nat.le_refl s.credit
  | pushed _ => exact Nat.le_refl s.credit
  | wait _ _ => exact Nat.le_refl s.credit
  | sent _ _ => exact Nat.le_refl s.credit
  | access _ _ => exact Nat.le_refl s.credit
  | @send t r tx answer hreading hsend => exact credit_send hreading (serialStep_inv hsend)
  | received hreading => exact credit_read rfl (h.reads hreading) hreading rfl
  | silent hreading => exact credit_read rfl (h.reads hreading) hreading rfl

/-- **Between two writes there are at least two reads**, in every run. -/
theorem program_spaces_writes {heap : Heap Ptr} {heapIn heapMsg stack : Mem}
    {events : List ProgramEvent} {s : Program} {answers : List ProgramAnswer}
    (hrun : Machine.run programMachine (programStart heap heapIn heapMsg stack) events
      = some (s, answers)) :
    Spaced isWrite isRead 2 answers :=
  Machine.run_spaced Rounding isWrite isRead Program.credit 2
    (fun _ _ _ _ h hone =>
      have hstep := programMachine_inv h.null hone
      ⟨rounding_step h hstep, credit_step h hstep⟩)
    ⟨rfl, fun hreading => by cases hreading⟩ hrun

/-- The first write fails, and `serial_f` comes round to the message again. -/
def retriedSilencer : List ProgramEvent :=
  .control ⟨100, 1, 0⟩ :: (List.replicate 7 (.serial (-1) none) ++ List.replicate 6 (.serial 11 none))

theorem program_spaces_writes_retried :
    ∃ s answers, Machine.run programMachine plainStart retriedSilencer = some (s, answers) ∧
      Spaced isWrite isRead 2 answers := by
  have hok : Machine.Along programMachine ProgramMallocOk plainStart retriedSilencer := by
    refine ⟨fun _ _ _ => ⟨⟨by decide, rfl⟩, fun _ => rfl⟩, fun s _ _ =>
      Machine.along_of_mem (fun e he _ => ?_) s⟩
    rcases List.mem_append.mp he with he | he
    · rw [List.eq_of_mem_replicate he]
      trivial
    · rw [List.eq_of_mem_replicate he]
      trivial
  obtain ⟨s, answers, hrun, -⟩ := sound_run hok
  exact ⟨s, answers, hrun, program_spaces_writes hrun⟩

/-! ## Until the queue is empty -/

/-- The steps that pass until the counter allows a write. -/
def TxState.pauseLeft (c : TxState) : Nat :=
  if c.pauseBtwSend = 0 then 4 else if c.pauseBtwSend = 1 then 2 else 0

/-- The steps of `serial_f` until the front message is removed, when no write
falls short. -/
def Program.leg (s : Program) : Nat :=
  match s.tx.pc with
  | .size => s.tx.pauseLeft + (if s.reading then 1 else 0) + 4
  | .front => 3
  | .write _ => 2
  | .remove => 1

/-- The steps until the queue is empty: seven for every message behind the
first. -/
def Program.work (s : Program) : Nat :=
  match size s.tx.ll with
  | 0 => 0
  | n + 1 => 7 * n + s.leg

theorem leg_pos (s : Program) : 0 < s.leg := by
  unfold Program.leg
  split <;> omega

theorem pauseLeft_le (c : TxState) : c.pauseLeft ≤ 4 := by
  unfold TxState.pauseLeft
  split
  · exact Nat.le_refl 4
  · split <;> omega

theorem leg_le (s : Program) : s.leg ≤ 9 := by
  have hpause := pauseLeft_le s.tx
  unfold Program.leg
  split
  · split <;> omega
  all_goals omega

theorem work_le (s : Program) : s.work ≤ 7 * size s.tx.ll + 2 := by
  have hleg := leg_le s
  unfold Program.work
  split <;> omega

/-- With nothing left to do, nothing is queued. -/
theorem size_of_work {s : Program} (h : s.work = 0) : size s.tx.ll = 0 := by
  have hleg := leg_pos s
  unfold Program.work at h
  split at h
  · assumption
  · omega

/-- **A shorter leg is less work.** -/
theorem work_of_leg {s s' : Program} (hsize : size s'.tx.ll = size s.tx.ll)
    (hleg : 0 < size s.tx.ll → s'.leg ≤ s.leg - 1) : s'.work ≤ s.work - 1 := by
  have hpos := leg_pos s
  unfold Program.work
  rw [hsize]
  split
  · omega
  · next n hn =>
    have := hleg (by omega)
    omega

/-- A message less is a leg less. -/
theorem work_of_removed {s s' : Program} (hsize : size s.tx.ll = size s'.tx.ll + 1)
    (hleg' : s'.leg ≤ 7) (hleg : s.leg = 1) : s'.work ≤ s.work - 1 := by
  have hwork : s.work = 7 * size s'.tx.ll + 1 := by
    rw [Program.work, hsize, hleg]
  rw [hwork]
  unfold Program.work
  split <;> omega

/-- All is accounted for, as `sound_run` and `rounding_run` say. -/
structure Accounted (s : Program) : Prop where
  sound : ∃ answers, Sound s (txAnswers answers)
  rounding : Rounding s

theorem accounted_step {s s' : Program} {e : ProgramEvent} {answer : ProgramAnswer}
    (h : Accounted s) (hok : ProgramMallocOk s e) (hone : programMachine s e = some (s', answer)) :
    Accounted s' := by
  obtain ⟨⟨answers, hsound⟩, hrounding⟩ := h
  obtain ⟨_, _, hsome, hsound'⟩ := sound_step hsound hok
  rw [hone] at hsome
  cases hsome
  exact ⟨⟨_, hsound'⟩, rounding_step hrounding (programMachine_inv hrounding.null hone)⟩

/-- Wherever a run has come to, all is accounted for, and it goes on from there. -/
theorem accounted_run {heap : Heap Ptr} {heapIn heapMsg stack : Mem}
    {before later : List ProgramEvent}
    (hok : Machine.Along programMachine ProgramMallocOk (programStart heap heapIn heapMsg stack)
      (before ++ later)) :
    ∃ s answers s' answers',
      Machine.run programMachine (programStart heap heapIn heapMsg stack) before
        = some (s, answers) ∧
      Machine.run programMachine s later = some (s', answers') ∧
      Accounted s ∧ Machine.Along programMachine ProgramMallocOk s later := by
  obtain ⟨s', answers', hrun, -⟩ := sound_run hok
  obtain ⟨s, answers, later', hbefore, hlater, rfl⟩ := Machine.run_append_eq_some hrun
  obtain ⟨hokBefore, hokLater⟩ := Machine.along_append.mp hok
  obtain ⟨s₁, answers₁, hrun₁, hsound⟩ := sound_run hokBefore
  rw [hbefore] at hrun₁
  cases hrun₁
  exact ⟨s, answers, s', later', hbefore, hlater, ⟨⟨answers, hsound⟩, rounding_run hbefore⟩,
    hokLater s answers hbefore⟩

/-- `control_f` waits, and all is accounted for. -/
structure Waiting (s : Program) : Prop extends Accounted s where
  wait : s.prep = .wait

/-- No write falls short. -/
def WholeAnswer : ProgramAnswer → Prop
  | .tx (.wrote msg t) => FullWrite msg t
  | _ => True

theorem wholeAnswers {answers : List ProgramAnswer}
    (h : ∀ msg t, .tx (.wrote msg t) ∈ answers → FullWrite msg t) :
    ∀ answer ∈ answers, WholeAnswer answer := by
  intro answer hanswer
  match answer with
  | .tx (.wrote msg t) => exact h msg t hanswer
  | .tx .quiet | .tx (.pushed _) | .tx (.saw _) | .tx (.removed _) | .control _ | .read _ => trivial

/-- A removed message leaves the queue one shorter. -/
theorem size_of_removed {c c' : TxState} {answers : List TxAnswer} {t : Int} {answer : TxAnswer}
    (h : TxProgress c answers) (hpc : c.pc = .remove)
    (hstep : serialStep c t = some (c', answer)) : size c.ll = size c'.ll + 1 := by
  obtain ⟨queue, rest, hinv, hphase, -⟩ := h
  rw [hpc] at hphase
  obtain ⟨msg, rfl, -⟩ := hphase
  obtain ⟨c'', hremove, -, hinv'⟩ := serialRemove_spec hinv hpc t
  rw [hstep] at hremove
  cases hremove
  rw [hinv.size_eq, hinv'.size_eq, List.length_cons]

/-- **A step of the sending half is work done.** -/
theorem work_send {s : Program} {answers : List TxAnswer} {tx : TxState} {t : Int}
    {answer : TxAnswer} (hprogress : TxProgress s.tx answers) (hreading : s.reading = false)
    (hstep : serialStep s.tx t = some (tx, answer)) (hwhole : WholeAnswer (.tx answer)) :
    ({ s with tx := tx, reading := decide (tx.pc = .size) } : Program).work ≤ s.work - 1 := by
  cases serialStep_inv hstep with
  | idle hpc hidle =>
    refine work_of_leg rfl fun hsize => ?_
    -- a message is queued, so the counter is 0 or 1
    have hpause : s.tx.pauseBtwSend = 0 ∨ s.tx.pauseBtwSend = 1 := by
      have hlt : ¬ s.tx.pauseBtwSend ≥ 2 := fun h => hidle ⟨hsize, h⟩
      simp only [ge_iff_le, UInt8.le_iff_toNat_le, UInt8.reduceToNat, Nat.not_le] at hlt
      simp only [← UInt8.toNat_inj, UInt8.reduceToNat]
      omega
    rcases hpause with hpause | hpause <;>
      simp [Program.leg, hpc, hreading, TxState.pauseLeft, hpause]
  | next hpc hpause =>
    refine work_of_leg rfl fun _ => ?_
    simp only [Program.leg, hpc]
    omega
  | front hpc _ =>
    refine work_of_leg rfl fun _ => ?_
    simp [Program.leg, hpc]
  | wrote hpc _ _ =>
    refine work_of_leg rfl fun _ => ?_
    simp [Program.leg, hpc]
  | short _ _ hshort => exact absurd hwhole hshort
  | removed hpc _ _ _ =>
    have hsize := size_of_removed hprogress hpc hstep
    refine work_of_removed hsize ?_ ?_
    · exact Nat.le_refl 7
    · simp only [Program.leg, hpc]

/-- **A step of `serial_f`** is work done, and leaves `control_f` where it stands. -/
theorem serial_work {s s' : Program} {t : Int} {r : Option Chunk} {answer : ProgramAnswer}
    (h : Accounted s) (hone : programMachine s (.serial t r) = some (s', answer))
    (hwhole : WholeAnswer answer) :
    s'.prep = s.prep ∧ s'.control.pc = s.control.pc ∧ s'.work ≤ s.work - 1 := by
  obtain ⟨⟨answers, hsound⟩, hrounding⟩ := h
  cases programMachine_inv hrounding.null hone with
  | send hreading hsend => exact ⟨rfl, rfl, work_send hsound.progress hreading hsend hwhole⟩
  | received hreading =>
    refine ⟨rfl, rfl, work_of_leg rfl fun _ => ?_⟩
    simp [Program.leg, hrounding.reads hreading, hreading]
  | silent hreading =>
    refine ⟨rfl, rfl, work_of_leg rfl fun _ => ?_⟩
    simp [Program.leg, hrounding.reads hreading, hreading]

/-- A step of either thread while `control_f` waits: it sees an empty queue, or it
waits on. -/
theorem waiting_step {s s' : Program} {e : ProgramEvent} {answer : ProgramAnswer} (h : Waiting s)
    (hone : programMachine s e = some (s', answer)) (hwhole : WholeAnswer answer) :
    answer = .tx (.saw 0) ∨
      Waiting s' ∧ s'.work ≤ s.work - if isSerial e then 1 else 0 := by
  obtain ⟨haccounted, hwait⟩ := h
  -- no message is pushed, so nothing is asked of `malloc`
  have hok : ProgramMallocOk s e := by
    cases e with
    | control mallocs =>
      intro call calls hpush
      rw [hwait] at hpush
      cases hpush
    | serial t r => trivial
  have haccounted' := accounted_step haccounted hok hone
  cases e with
  | control mallocs =>
    simp only [programMachine, controlFStep, hwait] at hone
    cases hone
    by_cases hzero : size s.tx.ll = 0
    · exact Or.inl (by rw [hzero])
    · exact Or.inr ⟨⟨haccounted', if_neg hzero⟩, Nat.le_refl s.work⟩
  | serial t r =>
    obtain ⟨hprep, -, hwork⟩ := serial_work haccounted hone hwhole
    exact Or.inr ⟨⟨haccounted', hprep.trans hwait⟩, hwork⟩

/-- **Waiting ends.** When `control_f` waits with some messages queued, and no
write falls short, then after seven steps of `serial_f` for each of them and two
more, in any interleaving, `control_f` has seen that the queue is empty, or sees
it at its next step. -/
theorem program_wait_ends (heap : Heap Ptr) (heapIn heapMsg stack : Mem)
    (before later : List ProgramEvent)
    (hok : Machine.Along programMachine ProgramMallocOk (programStart heap heapIn heapMsg stack)
      (before ++ later)) :
    ∃ s answers s' answers',
      Machine.run programMachine (programStart heap heapIn heapMsg stack) before
        = some (s, answers) ∧
      Machine.run programMachine s later = some (s', answers') ∧
      (s.prep = .wait → 7 * size s.tx.ll + 2 ≤ later.countP isSerial →
        (∀ msg t, .tx (.wrote msg t) ∈ answers' → FullWrite msg t) →
        .tx (.saw 0) ∈ answers' ∨ s'.prep = .wait ∧ size s'.tx.ll = 0) := by
  obtain ⟨s, answers, s', answers', hbefore, hlater, haccounted, -⟩ := accounted_run hok
  refine ⟨s, answers, s', answers', hbefore, hlater, fun hwait henough hwhole => ?_⟩
  have hwaiting : Waiting s := ⟨haccounted, hwait⟩
  rcases Machine.run_finishes Waiting WholeAnswer (· = .tx (.saw 0)) isSerial Program.work
    (fun _ _ _ _ h hone => waiting_step h hone) hwaiting hlater (wholeAnswers hwhole) with
    ⟨_, hsaw, rfl⟩ | ⟨hwaiting', hwork⟩
  · exact Or.inl hsaw
  · have hle := work_le s
    exact Or.inr ⟨hwaiting'.wait, size_of_work (by omega)⟩

/-- The silencers are queued, and `serial_f` takes fifty-one steps. -/
theorem program_wait_ends_silencers :
    ∃ s answers s' answers',
      Machine.run programMachine plainStart allSilencers = some (s, answers) ∧
      Machine.run programMachine s (List.replicate 51 (.serial 11 none)) = some (s', answers') ∧
      (s.prep = .wait → 7 * size s.tx.ll + 2 ≤ (List.replicate 51 (.serial 11 none)).countP isSerial →
        (∀ msg t, .tx (.wrote msg t) ∈ answers' → FullWrite msg t) →
        .tx (.saw 0) ∈ answers' ∨ s'.prep = .wait ∧ size s'.tx.ll = 0) := by
  refine program_wait_ends _ _ _ _ _ _ (Machine.along_append.mpr
    ⟨allSilencers_mallocOk, fun s _ _ => Machine.along_of_mem (fun e he _ => ?_) s⟩)
  rw [List.eq_of_mem_replicate he]
  trivial

end UbloxRead
