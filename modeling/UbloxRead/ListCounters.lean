/-
UbloxRead.ListCounters — `list.c` counts with 32 bits.

A list whose nodes are counted in an `unsigned int` does what one does whose nodes
are counted without end, as long as the counters have room: `listMachine_counted`,
call by call. So a list from `create_list` refines a double-ended sequence in every
run whose calls are all `CountOk` (`listMachine_deque`).

The bounds are those of the code: no other call does (`counted_refines_iff`). The push
after `UINT_MAX` others sets `size` back to 0 with all nodes still linked
(`pushes_wrap`), and the list takes itself for empty.
-/
import UbloxRead.LinkedListTheorems

namespace UbloxRead

open Lib

/-! ## Numbers -/

theorem toNat_eq_zero {n : UInt32} : n.toNat = 0 ↔ n = 0 := UInt32.toNat_inj (b := 0)

theorem toNat_eq_one {n : UInt32} : n.toNat = 1 ↔ n = 1 := UInt32.toNat_inj (b := 1)

theorem toNat_succ {n : UInt32} (h : n.toNat < UINT_MAX) : (n + 1).toNat = n.toNat + 1 := by
  rw [UInt32.toNat_add, UInt32.toNat_one]
  rw [UINT_MAX] at h
  omega

theorem toNat_pred {n : UInt32} (h : n ≠ 0) : (n - 1).toNat = n.toNat - 1 := by
  have hpos : n.toNat ≠ 0 := fun hzero => h (toNat_eq_zero.mp hzero)
  rw [UInt32.toNat_sub_of_le]
  · rfl
  · rw [UInt32.le_iff_toNat_le, UInt32.toNat_one]
    omega

/-- The conversion to `int` keeps what an `int` can hold. -/
theorem toInt_of_le {n : UInt32} (h : n.toNat ≤ INT_MAX) : Counter.toInt n = n.toNat := by
  show n.toInt32.toInt = _
  rw [INT_MAX] at h
  rw [← Int32.toInt_toBitVec, UInt32.toBitVec_toInt32, BitVec.toInt_eq_toNat_of_lt]
  · rfl
  · show 2 * n.toNat < 2 ^ 32
    omega

/-- A loop over few enough nodes comes to its end. -/
theorem loop_of_le {σ : Type} {n : UInt32} (h : n.toNat ≤ INT_MAX) (body : Nat → σ → Option σ) :
    Counter.loop n body = forLoop n.toNat body :=
  funext (boundedLoop_eq (by omega) body)

/-! ## Calls -/

theorem pushBack_counted {l : LList UInt32} (n data : Ptr) (h : l.size.toNat < UINT_MAX) :
    (pushBack l n data).map LList.counted = pushBack l.counted n data := by
  have hsucc := toNat_succ h
  by_cases hsize : l.size = 0
  · simp [pushBack, Option.map_bind, LList.counted, hsize, Function.comp_def]
  · simp [pushBack, Option.map_bind, LList.counted, toNat_eq_zero, hsize, hsucc]

theorem pushFront_counted {l : LList UInt32} (n data : Ptr) (h : l.size.toNat < UINT_MAX) :
    (pushFront l n data).map LList.counted = pushFront l.counted n data := by
  have hsucc := toNat_succ h
  by_cases hsize : l.size = 0
  · simp [pushFront, Option.map_bind, LList.counted, hsize, Function.comp_def]
  · simp [pushFront, Option.map_bind, LList.counted, toNat_eq_zero, hsize, hsucc]

theorem removeFront_counted (l : LList UInt32) :
    (removeFront l).map (Prod.map LList.counted id) = removeFront l.counted := by
  by_cases hsize : l.size = 0
  · simp [removeFront, LList.counted, hsize]
  · have hpred := toNat_pred hsize
    by_cases hone : l.size = 1
    · simp [removeFront, Option.map_bind, LList.counted, hone]
    · simp [removeFront, Option.map_bind, LList.counted, toNat_eq_zero,
        toNat_eq_one, hsize, hone, hpred]

theorem removeBack_counted (l : LList UInt32) :
    (removeBack l).map (Prod.map LList.counted id) = removeBack l.counted := by
  by_cases hsize : l.size = 0
  · simp [removeBack, LList.counted, hsize]
  · have hpred := toNat_pred hsize
    by_cases hone : l.size = 1
    · simp [removeBack, Option.map_bind, LList.counted, hone]
    · simp [removeBack, Option.map_bind, LList.counted, toNat_eq_zero,
        toNat_eq_one, hsize, hone, hpred]

theorem emptyList_counted {l : LList UInt32} (h : l.size.toNat ≤ INT_MAX) :
    (emptyList l).map (Prod.map LList.counted id) = emptyList l.counted := by
  by_cases hsize : l.size = 0
  · simp [emptyList, LList.counted, hsize]
  · simp [emptyList, Option.map_bind, LList.counted, toNat_eq_zero, hsize,
      loop_of_le h]
    rfl

theorem traverse_counted {l : LList UInt32} (h : l.size.toNat ≤ INT_MAX) :
    traverse l = traverse l.counted := by
  rw [traverse, traverse, loop_of_le h]
  rfl

/-- **A call whose counters have room** does what it does on the list counted without
end. -/
theorem listMachine_counted {l : LList UInt32} {c : ListCall} (h : CountOk l c) :
    (listMachine l c).map (Prod.map LList.counted id) = listMachine l.counted c := by
  cases c with
  | pushFront n data =>
    rw [listMachine, listMachine, ← pushFront_counted n data h, Option.map_map, Option.map_map]
    rfl
  | pushBack n data =>
    rw [listMachine, listMachine, ← pushBack_counted n data h, Option.map_map, Option.map_map]
    rfl
  | removeFront => exact removeFront_counted l
  | removeBack => exact removeBack_counted l
  | emptyList => exact emptyList_counted h
  | front =>
    simp [listMachine, front, LList.counted, toNat_eq_zero, Function.comp_def]
  | back =>
    simp [listMachine, back, LList.counted, toNat_eq_zero, Function.comp_def]
  | isEmpty =>
    simp [listMachine, isEmpty, LList.counted, toNat_eq_zero]
  | size =>
    rw [listMachine, size, toInt_of_le h]
    rfl
  | traverse =>
    rw [listMachine, listMachine, ← traverse_counted h, Option.map_map]
    rfl

theorem mallocOk_counted {l : LList UInt32} {c : ListCall} : MallocOk l.counted c ↔ MallocOk l c := by
  cases c <;> exact Iff.rfl

/-- **One call refines one call of the double-ended sequence.** -/
theorem counted_refines {l : LList UInt32} {q : List Ptr} {call : ListCall}
    (h : Represents l.counted q) (hok : MallocOk l call ∧ CountOk l call) :
    ∃ l' q' answer, listMachine l call = some (l', answer) ∧
      dequeMachine q call = some (q', answer) ∧ Represents l'.counted q' := by
  obtain ⟨l', q', answer, hcall, hdeque, hrep⟩ := listCall_refines h (mallocOk_counted.mpr hok.1)
  rw [← listMachine_counted hok.2] at hcall
  obtain ⟨⟨l', answer⟩, hstep, heq⟩ := Option.map_eq_some_iff.mp hcall
  cases heq
  exact ⟨l', q', answer, hstep, hdeque, hrep⟩

/-! ## Runs -/

/-- **Every run of calls on a list from `create_list` is a run of the double-ended
sequence**, as long as the counters have room: the same answers, and the list holds
the sequence. -/
theorem listMachine_deque (heap : Heap Ptr) (calls : List ListCall)
    (hok : Machine.Along listMachine (fun l c => MallocOk l c ∧ CountOk l c) (createList heap)
      calls) :
    ∃ (l : LList UInt32) (q : List Ptr) (answers : List ListAnswer),
      Machine.run listMachine (createList heap) calls = some (l, answers) ∧
      Machine.run dequeMachine [] calls = some (q, answers) ∧ HoldsSequence l.counted q := by
  obtain ⟨l, q, answers, hrun, hdeque, cells, hrepr, rfl⟩ :=
    Machine.run_refines (m := listMachine) (a := dequeMachine) (f := id)
      (fun (l : LList UInt32) q => Represents l.counted q) _
      (fun l q call h hok => counted_refines h hok)
      (⟨[], createList_repr heap, rfl⟩ : Represents (createList heap : LList UInt32).counted []) hok
  rw [List.map_id] at hdeque
  exact ⟨l, _, answers, hrun, hdeque, hrepr.holds⟩

theorem listMachine_deque_both_ends :
    ∃ (l : LList UInt32) (q : List Ptr) (answers : List ListAnswer),
      Machine.run listMachine (createList fun _ => none)
        [.pushBack 1 10, .pushFront 2 20, .removeBack] = some (l, answers) ∧
      Machine.run dequeMachine [] [.pushBack 1 10, .pushFront 2 20, .removeBack]
        = some (q, answers) ∧ HoldsSequence l.counted q := by
  refine listMachine_deque _ _ ?_
  rw [Machine.along_cons_of_step
      (rfl : listMachine (createList (N := UInt32) _) (.pushBack 1 10) = some (_, _)),
    Machine.along_cons_of_step
      (rfl : listMachine (N := UInt32) _ (.pushFront 2 20) = some (_, _))]
  have hroom : (0 : Nat) < UINT_MAX ∧ (1 : Nat) < UINT_MAX := by decide
  exact ⟨⟨⟨by decide, rfl⟩, hroom.1⟩, ⟨⟨by decide, rfl⟩, hroom.2⟩, ⟨trivial, trivial⟩,
    fun _ _ _ => trivial⟩

/-! ## One node too many -/

/-- A push relinks the nodes whatever the counter does. -/
theorem pushBack_eq (l : LList UInt32) (n data : Ptr) :
    pushBack l n data = (pushBack l.counted n data).map fun l' =>
      { heap := l'.heap, head := l'.head, size := l.size + 1 } := by
  by_cases hsize : l.size = 0
  · simp [pushBack, Option.map_bind, LList.counted, hsize]
  · simp [pushBack, Option.map_bind, LList.counted, toNat_eq_zero, hsize]

theorem pushFront_eq (l : LList UInt32) (n data : Ptr) :
    pushFront l n data = (pushFront l.counted n data).map fun l' =>
      { heap := l'.heap, head := l'.head, size := l.size + 1 } := by
  by_cases hsize : l.size = 0
  · simp [pushFront, Option.map_bind, LList.counted, hsize]
  · simp [pushFront, Option.map_bind, LList.counted, toNat_eq_zero, hsize]

/-- A counter at its end starts again at 0. -/
theorem succ_wraps {n : UInt32} (h : ¬ n.toNat < UINT_MAX) : n + 1 = 0 := by
  have hmax : n.toNat = UINT_MAX := by
    have hlt := n.toNat_lt
    rw [UINT_MAX] at h ⊢
    omega
  rw [← UInt32.toNat_inj, UInt32.toNat_add, hmax]
  rfl

/-- A list with nodes has a count. -/
theorem Represents.size_ne_zero {l : LList UInt32} {q : List Ptr} (h : Represents l.counted q)
    (hq : q ≠ []) : l.size ≠ 0 := by
  obtain ⟨cells, hrepr, rfl⟩ := h
  intro hzero
  have hlen : l.size.toNat = cells.length := hrepr.size_eq
  rw [hzero] at hlen
  exact hq (by rw [List.length_eq_zero_iff.mp hlen.symm, List.map_nil])

/-- A loop over too many nodes has no outcome. -/
theorem loop_overflow {σ : Type} {n : UInt32} (h : ¬ n.toNat ≤ INT_MAX)
    (body : Nat → σ → Option σ) (s : σ) : Counter.loop n body s = none := by
  rw [INT_MAX] at h
  exact boundedLoop_overflow (by rw [INT_MAX]; omega) body s

/-- The conversion to `int` has no value above `INT_MAX`. -/
theorem toInt_le (n : UInt32) : Counter.toInt n ≤ INT_MAX := n.toInt32.toInt_le

/-- **The bounds are those of the code**: a call refines the call of the double-ended
sequence exactly when the counters have room. -/
theorem counted_refines_iff {l : LList UInt32} {q : List Ptr} {call : ListCall}
    (h : Represents l.counted q) (hok : MallocOk l call) :
    (∃ l' q' answer, listMachine l call = some (l', answer) ∧
      dequeMachine q call = some (q', answer) ∧ Represents l'.counted q') ↔ CountOk l call := by
  refine ⟨?_, fun hcount => counted_refines h ⟨hok, hcount⟩⟩
  rintro ⟨l', q', answer, hstep, hdeque, hrep⟩
  by_contra hfull
  cases call with
  | pushFront n data =>
    cases hdeque
    rw [listMachine, pushFront_eq] at hstep
    obtain ⟨l'', hpush, heq⟩ := Option.map_eq_some_iff.mp hstep
    obtain ⟨_, -, rfl⟩ := Option.map_eq_some_iff.mp hpush
    cases heq
    exact hrep.size_ne_zero (List.cons_ne_nil _ _) (succ_wraps hfull)
  | pushBack n data =>
    cases hdeque
    rw [listMachine, pushBack_eq] at hstep
    obtain ⟨l'', hpush, heq⟩ := Option.map_eq_some_iff.mp hstep
    obtain ⟨_, -, rfl⟩ := Option.map_eq_some_iff.mp hpush
    cases heq
    exact hrep.size_ne_zero (by simp) (succ_wraps hfull)
  | emptyList =>
    have hsize : l.size ≠ 0 := fun hzero => by
      rw [CountOk, hzero] at hfull
      exact hfull (by decide)
    rw [listMachine, emptyList, if_neg hsize] at hstep
    obtain ⟨_, -, hloop⟩ := Option.bind_eq_some_iff.mp hstep
    rw [loop_overflow hfull] at hloop
    cases hloop
  | traverse =>
    rw [listMachine, traverse, loop_overflow hfull] at hstep
    cases hstep
  | size =>
    cases hstep
    obtain ⟨cells, hrepr, rfl⟩ := h
    have hlen : l.size.toNat = cells.length := hrepr.size_eq
    have hret : Counter.toInt (size l) = ((cells.map Prod.snd).length : Int) := by
      simp only [dequeMachine, dequeCall, Option.some.injEq, Prod.mk.injEq, ListAnswer.mk.injEq]
        at hdeque
      exact hdeque.2.1.symm
    have hle := toInt_le (size l)
    rw [hret, List.length_map, ← hlen] at hle
    exact hfull hle
  | removeFront => exact hfull trivial
  | removeBack => exact hfull trivial
  | front => exact hfull trivial
  | back => exact hfull trivial
  | isEmpty => exact hfull trivial

/-- Pushes of the data 10; the nodes are at the addresses from 1 on. -/
def pushes (n : Nat) : List ListCall := (List.range n).map fun k => .pushBack (k + 1) 10

theorem pushes_succ (n : Nat) : pushes (n + 1) = pushes n ++ [.pushBack (n + 1) 10] := by
  rw [pushes, List.range_succ, List.map_append]
  rfl

/-- The list after `n` of these pushes. -/
structure AfterPushes (l : LList UInt32) (n : Nat) : Prop where
  ring : ∃ cells, l.counted.Repr cells ∧ cells.length = n
  unused : ∀ p, n < p → l.heap p = none

/-- **As many pushes as the counter has room for** give a list of as many nodes. -/
theorem pushes_run (n : Nat) (hn : n ≤ UINT_MAX) :
    ∃ l answers, Machine.run listMachine (createList fun _ => none) (pushes n) = some (l, answers) ∧
      Machine.Along listMachine MallocOk (createList (N := UInt32) fun _ => none) (pushes n) ∧
      AfterPushes l n := by
  induction n with
  | zero =>
    exact ⟨createList fun _ => none, [], rfl, trivial, ⟨[], createList_repr _, rfl⟩, fun _ _ => rfl⟩
  | succ n ih =>
    obtain ⟨l, answers, hrun, halong, ⟨cells, hrepr, hlen⟩, hunused⟩ := ih (by omega)
    have hfresh : l.heap (n + 1) = none := hunused (n + 1) (Nat.lt_succ_self n)
    have hsize : l.size.toNat = n := hrepr.size_eq.trans hlen
    have hok : MallocOk l (.pushBack (n + 1) 10) := ⟨Nat.succ_ne_zero n, hfresh⟩
    obtain ⟨l', hpush, hrepr', hex⟩ := pushBack_spec hrepr 10 hok.1 hfresh
    rw [← pushBack_counted _ _ (by omega)] at hpush
    obtain ⟨l', hstep, rfl⟩ := Option.map_eq_some_iff.mp hpush
    rw [pushes_succ]
    refine ⟨l', answers ++ [{}], Machine.run_append hrun (Machine.run_cons_eq_some.mpr
      ⟨l', {}, [], by rw [listMachine, hstep]; rfl, rfl, rfl⟩),
      Machine.along_concat halong hrun hok, ⟨_, hrepr', by simp [hlen]⟩, fun p hp => ?_⟩
    have hold : l.heap p = none := hunused p (Nat.lt_of_succ_lt hp)
    refine hex.dead ?_ hold
    rw [List.map_append, List.mem_append, not_or]
    exact ⟨hrepr.not_mem hold, fun hin => Nat.ne_of_gt hp (List.mem_singleton.mp hin)⟩

/-- **One more push sets the counter back** to 0, with all nodes still linked. -/
theorem pushes_wrap {n : Nat} (hn : n = UINT_MAX) :
    ∃ (l : LList UInt32) (answers : List ListAnswer),
      Machine.run listMachine (createList fun _ => none) (pushes (n + 1)) = some (l, answers) ∧
      Machine.Along listMachine MallocOk (createList (N := UInt32) fun _ => none) (pushes (n + 1)) ∧
      l.size = 0 ∧ l.head ≠ NULL ∧ (l.heap l.head).isSome := by
  obtain ⟨l, answers, hrun, halong, ⟨cells, hrepr, hlen⟩, hunused⟩ := pushes_run n hn.le
  have hfresh : l.heap (n + 1) = none := hunused _ (Nat.lt_succ_self _)
  have hsize : l.size.toNat = UINT_MAX := (hrepr.size_eq.trans hlen).trans hn
  have hok : MallocOk l (.pushBack (n + 1) 10) := ⟨Nat.succ_ne_zero n, hfresh⟩
  obtain ⟨l', hpush, hrepr', -⟩ := pushBack_spec hrepr 10 hok.1 hfresh
  have hwrap : l.size + 1 = 0 := succ_wraps (by omega)
  have hstep : listMachine l (.pushBack (n + 1) 10)
      = some (({ heap := l'.heap, head := l'.head, size := 0 } : LList UInt32), {}) := by
    rw [listMachine, pushBack_eq, hpush, hwrap]
    rfl
  rw [pushes_succ]
  refine ⟨_, answers ++ [{}], Machine.run_append hrun (Machine.run_cons_eq_some.mpr
    ⟨_, {}, [], hstep, rfl, rfl⟩), Machine.along_concat halong hrun hok, rfl, ?_⟩
  have hne : cells ++ [(n + 1, 10)] ≠ [] := by simp
  have hhead := headOr_mem hne NULL
  rw [← hrepr'.head_eq] at hhead
  exact ⟨hrepr'.ne_null _ hhead, hrepr'.ring.live _ hhead⟩

/-- **More nodes than the counter has room for** are no sequence: after 2^32 pushes
`size` is 0, and `head` is not NULL. -/
theorem listMachine_not_deque : ¬ ∀ (heap : Heap Ptr) (calls : List ListCall),
    Machine.Along listMachine MallocOk (createList (N := UInt32) heap) calls →
    ∃ (l : LList UInt32) (q : List Ptr) (answers : List ListAnswer),
      Machine.run listMachine (createList heap) calls = some (l, answers) ∧
      Machine.run dequeMachine [] calls = some (q, answers) ∧ HoldsSequence l.counted q := by
  intro h
  obtain ⟨n, hn⟩ : ∃ n, n = UINT_MAX := ⟨_, rfl⟩
  obtain ⟨l, answers, hrun, halong, hsize, hhead, -⟩ := pushes_wrap hn
  obtain ⟨l', q, answers', hrun', -, hholds⟩ := h _ _ halong
  rw [hrun] at hrun'
  cases hrun'
  exact hhead (hholds.head_null.mpr (toNat_eq_zero.mpr hsize))

end UbloxRead
