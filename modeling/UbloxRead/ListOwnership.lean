/-
UbloxRead.ListOwnership — who frees what on the list of `list.c`.

A pushed message is an `Item`: the count of pushes before it, the node that
`malloc` returned for it, and its data pointer. Two pushes are two items, also
when an address comes back from `malloc` or the same data is pushed again.
`ownedMachine` says which items each call lets go of; it knows nothing of links.

`listMachine_ownership` is the result for runs. Every item leaves exactly once
or is still in the list; in the call it leaves in, `free_func` gets its data,
in list order, and its node goes from live to freed, and no call frees or
passes on anything else. That the runs have an outcome says the rest: an access
to a freed node, and a second `free` of one, have none. The runs are those in
which the counters have room; `listMachine_not_owned` is what happens otherwise.
-/
import UbloxRead.ListCounters

namespace UbloxRead

open Lib

/-- One pushed message. -/
structure Item where
  nth : Nat
  node : Ptr
  data : Ptr
  deriving DecidableEq, Repr

def Item.cell (it : Item) : Ptr × Ptr := (it.node, it.data)

/-- The items in the list, and the number of pushes so far. -/
structure Owned where
  queue : List Item := []
  pushed : Nat := 0

/-- The node and the data that a call pushes. -/
def ListCall.push? : ListCall → Option (Ptr × Ptr)
  | .pushFront n data => some (n, data)
  | .pushBack n data => some (n, data)
  | _ => none

/-- The items that a run of calls pushes, in order. -/
def pushedItems (calls : List ListCall) : List Item :=
  (calls.filterMap ListCall.push?).zipIdx.map fun (cell, nth) => ⟨nth, cell.1, cell.2⟩

/-- One call on the items: what the list holds after it, and what leaves. -/
def ownedCall (o : Owned) : ListCall → Owned × List Item
  | .pushFront n data =>
      ({ queue := ⟨o.pushed, n, data⟩ :: o.queue, pushed := o.pushed + 1 }, [])
  | .pushBack n data =>
      ({ queue := o.queue ++ [⟨o.pushed, n, data⟩], pushed := o.pushed + 1 }, [])
  | .removeFront => ({ o with queue := o.queue.tail }, o.queue.take 1)
  | .removeBack => ({ o with queue := o.queue.dropLast }, o.queue.getLast?.toList)
  | .emptyList => ({ o with queue := [] }, o.queue)
  | _ => (o, [])

def ownedMachine : Machine Owned ListCall (List Item) := fun o c => some (ownedCall o c)

/-- What a call passed to `free_func`. `traverse` passes its data to `do_func`. -/
def freePassed : ListCall → ListAnswer → List Ptr
  | .removeFront, answer => answer.passed
  | .removeBack, answer => answer.passed
  | .emptyList, answer => answer.passed
  | _, _ => []

/-! ## The items of a run -/

theorem pushedItems_concat (calls : List ListCall) (c : ListCall) :
    pushedItems (calls ++ [c]) = pushedItems calls ++
      c.push?.toList.map fun cell => ⟨(calls.filterMap ListCall.push?).length, cell.1, cell.2⟩ := by
  rw [pushedItems, List.filterMap_append, List.zipIdx_append, List.map_append]
  congr 1
  cases hpush : c.push? with
  | none => simp [hpush]
  | some cell => simp [hpush]

/-- No two pushes are one item. -/
theorem pushedItems_nodup (calls : List ListCall) : (pushedItems calls).Nodup := by
  have hnth : (pushedItems calls).map Item.nth
      = List.range' 0 (calls.filterMap ListCall.push?).length := by
    rw [pushedItems, List.map_map, ← List.zipIdx_map_snd]
    rfl
  exact List.Nodup.of_map Item.nth (hnth ▸ List.nodup_range')

/-- A list is its last element, if it has one, and what is before it. -/
theorem getLast?_perm (q : List Item) : (q.getLast?.toList ++ q.dropLast).Perm q := by
  rcases List.eq_nil_or_concat q with rfl | ⟨q, it, rfl⟩
  · exact List.Perm.refl _
  · simpa using (List.perm_append_singleton it q).symm

/-- **One call neither loses nor doubles an item.** -/
theorem ownedCall_perm (o : Owned) (c : ListCall) :
    ((ownedCall o c).2 ++ (ownedCall o c).1.queue).Perm
      (o.queue ++ c.push?.toList.map fun cell => ⟨o.pushed, cell.1, cell.2⟩) := by
  cases c with
  | pushFront n data => exact (List.perm_append_singleton _ o.queue).symm
  | removeFront =>
    rw [ownedCall, List.take_one, ← List.drop_one]
    cases o.queue <;> simp [ListCall.push?]
  | removeBack => simpa [ownedCall, ListCall.push?] using getLast?_perm o.queue
  | _ => simp [ownedCall, ListCall.push?]

theorem ownedCall_pushed (o : Owned) (c : ListCall) :
    (ownedCall o c).1.pushed = o.pushed + c.push?.toList.length := by
  cases c <;> rfl

/-- Only what the list holds can leave it. -/
theorem ownedCall_gone {o : Owned} {c : ListCall} {it : Item} (h : it ∈ (ownedCall o c).2) :
    it ∈ o.queue := by
  cases c with
  | removeFront => exact List.mem_of_mem_take h
  | removeBack => exact List.mem_of_getLast? (Option.mem_toList.mp h)
  | emptyList => exact h
  | _ => cases h

/-- **What has left and what is held are what was pushed.** -/
theorem ownedMachine_perm {calls : List ListCall} {o : Owned} {gone : List (List Item)}
    (hrun : Machine.run ownedMachine {} calls = some (o, gone)) :
    (gone.flatten ++ o.queue).Perm (pushedItems calls) := by
  refine (Machine.run_history (m := ownedMachine)
    (fun o calls gone => (gone.flatten ++ o.queue).Perm (pushedItems calls) ∧
      o.pushed = (calls.filterMap ListCall.push?).length) ?_ ⟨List.Perm.refl _, rfl⟩ hrun).1
  rintro o calls gone c o' left ⟨hperm, hpushed⟩ hstep
  have hcall := ownedCall_perm o c
  have hcount := ownedCall_pushed o c
  rw [show ownedCall o c = (o', left) from Option.some.inj hstep] at hcall hcount
  constructor
  · rw [pushedItems_concat, ← hpushed, List.flatten_append, List.flatten_singleton,
      List.append_assoc]
    refine (hcall.append_left _).trans ?_
    rw [← List.append_assoc]
    exact hperm.append_right _
  · rw [hcount, hpushed, List.filterMap_append, List.length_append]
    cases hpush : c.push? <;> simp [hpush]

/-! ## The heap behind the items -/

/-- The list is the ring of the nodes of `queue`, these were not live before it
was made, and the heap is otherwise what it was. -/
structure Owns (heap : Heap Ptr) (l : LList) (queue : List Item) : Prop where
  repr : l.Repr (queue.map Item.cell)
  apart : ∀ it ∈ queue, heap it.node = none
  rest : ∀ p, p ∉ queue.map Item.node → l.heap p = heap p

@[simp] theorem map_fst_cell (queue : List Item) :
    (queue.map Item.cell).map Prod.fst = queue.map Item.node := by
  rw [List.map_map]
  rfl

@[simp] theorem map_snd_cell (queue : List Item) :
    (queue.map Item.cell).map Prod.snd = queue.map Item.data := by
  rw [List.map_map]
  rfl

/-- The nodes held are live. -/
theorem Owns.live {heap : Heap Ptr} {l : LList} {queue : List Item} (h : Owns heap l queue)
    {p : Ptr} (hp : p ∈ queue.map Item.node) : (l.heap p).isSome := by
  rw [← map_fst_cell] at hp
  exact h.repr.ring.live p hp

/-- The live nodes are those from before and those held. -/
theorem Owns.live_iff {heap : Heap Ptr} {l : LList} {queue : List Item} (h : Owns heap l queue)
    (p : Ptr) : (l.heap p).isSome ↔ (heap p).isSome ∨ p ∈ queue.map Item.node := by
  by_cases hp : p ∈ queue.map Item.node
  · simp [hp, h.live hp]
  · simp [hp, h.rest p hp]

/-- **Nodes change hands**: after an exchange of the nodes held, with the new
ones from `malloc`, the new items are owned. -/
theorem Owns.exchange {heap : Heap Ptr} {l l' : LList} {queue queue' : List Item}
    (h : Owns heap l queue) (hrepr : l'.Repr (queue'.map Item.cell))
    (hex : Heap.Exchange (queue.map Item.node) (queue'.map Item.node) l.heap l'.heap)
    (hnew : ∀ it ∈ queue', it ∈ queue ∨ l.heap it.node = none) : Owns heap l' queue' := by
  have hdead : ∀ p ∈ queue.map Item.node, heap p = none := by
    intro p hp
    obtain ⟨it, hit, rfl⟩ := List.mem_map.mp hp
    exact h.apart it hit
  refine ⟨hrepr, fun it hit => ?_, fun p hp => ?_⟩
  · rcases hnew it hit with hold | hfresh
    · exact h.apart it hold
    · have hnot : it.node ∉ queue.map Item.node := by
        intro hin
        have := h.live hin
        rw [hfresh] at this
        cases this
      rw [← h.rest _ hnot, hfresh]
  · by_cases hold : p ∈ queue.map Item.node
    · rw [hex.freed p hold hp, hdead p hold]
    · rw [hex.kept p hold hp, h.rest p hold]

/-- From one queue to another, what dies are the nodes no longer held. -/
theorem Owns.freed_iff {heap : Heap Ptr} {l l' : LList} {queue queue' : List Item}
    (h : Owns heap l queue) (h' : Owns heap l' queue') (p : Ptr) :
    ((l.heap p).isSome ∧ l'.heap p = none) ↔
      p ∈ queue.map Item.node ∧ p ∉ queue'.map Item.node := by
  constructor
  · rintro ⟨hlive, hdead⟩
    have hnot : p ∉ queue'.map Item.node := by
      intro hin
      have := h'.live hin
      rw [hdead] at this
      cases this
    refine ⟨?_, hnot⟩
    by_contra hout
    rw [h.rest p hout, ← h'.rest p hnot, hdead] at hlive
    cases hlive
  · rintro ⟨hin, hnot⟩
    obtain ⟨it, hit, rfl⟩ := List.mem_map.mp hin
    exact ⟨h.live hin, by rw [h'.rest _ hnot, h.apart it hit]⟩

/-- **One call hands over what leaves the list**: the data of these items goes to
`free_func`, in order, and the list owns the others. -/
theorem listCall_owned {heap : Heap Ptr} {l : LList} {o : Owned} {c : ListCall}
    (h : Owns heap l o.queue) (hok : MallocOk l c) :
    ∃ l' answer, listMachine l c = some (l', answer) ∧ Owns heap l' (ownedCall o c).1.queue ∧
      freePassed c answer = (ownedCall o c).2.map Item.data := by
  obtain ⟨queue, pushed⟩ := o
  dsimp only at h
  have hrepr := h.repr
  cases c with
  | pushFront n data =>
    obtain ⟨l', hpush, hrepr', hex⟩ := pushFront_spec hrepr data hok.1 hok.2
    rw [map_fst_cell] at hex
    refine ⟨l', {}, by rw [listMachine, hpush]; rfl, h.exchange hrepr' hex fun it hit => ?_, rfl⟩
    rcases List.mem_cons.mp hit with rfl | hit
    · exact Or.inr hok.2
    · exact Or.inl hit
  | pushBack n data =>
    obtain ⟨l', hpush, hrepr', hex⟩ := pushBack_spec hrepr data hok.1 hok.2
    have hcells : (queue.map Item.cell) ++ [(n, data)]
        = (queue ++ [(⟨pushed, n, data⟩ : Item)]).map Item.cell := by
      rw [List.map_append]
      rfl
    rw [hcells] at hrepr' hex
    rw [map_fst_cell, map_fst_cell] at hex
    refine ⟨l', {}, by rw [listMachine, hpush]; rfl, h.exchange hrepr' hex fun it hit => ?_, rfl⟩
    rcases List.mem_append.mp hit with hit | hit
    · exact Or.inl hit
    · rw [List.mem_singleton.mp hit]
      exact Or.inr hok.2
  | removeFront =>
    cases queue with
    | nil => exact ⟨l, _, removeFront_nil hrepr, h, rfl⟩
    | cons it queue =>
      obtain ⟨l', hremove, hrepr', hex⟩ := removeFront_spec hrepr
      rw [← List.map_cons, map_fst_cell, map_fst_cell] at hex
      exact ⟨l', _, hremove, h.exchange hrepr' hex fun _ hit => Or.inl (List.mem_cons_of_mem _ hit),
        rfl⟩
  | removeBack =>
    rcases List.eq_nil_or_concat queue with rfl | ⟨queue, it, rfl⟩
    · exact ⟨l, _, removeBack_nil hrepr, h, rfl⟩
    · rw [List.concat_eq_append] at h hrepr ⊢
      have hcells : (queue ++ [it]).map Item.cell = queue.map Item.cell ++ [it.cell] := by
        rw [List.map_append]
        rfl
      rw [hcells] at hrepr
      obtain ⟨l', hremove, hrepr', hex⟩ := removeBack_spec hrepr
      rw [← hcells, map_fst_cell, map_fst_cell] at hex
      refine ⟨l', _, hremove, ?_, by simp [freePassed, ownedCall, Item.cell]⟩
      simp only [ownedCall, List.dropLast_concat]
      exact h.exchange hrepr' hex fun _ hit => Or.inl (List.mem_append_left _ hit)
  | emptyList =>
    obtain ⟨l', hempty, hrepr', hex⟩ := emptyList_spec hrepr
    rw [map_fst_cell] at hex
    exact ⟨l', _, hempty, h.exchange hrepr' hex fun _ hit => absurd hit List.not_mem_nil,
      map_snd_cell queue⟩
  | front => exact ⟨l, _, by rw [listMachine, front_spec hrepr]; rfl, h, rfl⟩
  | back => exact ⟨l, _, by rw [listMachine, back_spec hrepr]; rfl, h, rfl⟩
  | isEmpty => exact ⟨l, _, rfl, h, rfl⟩
  | size => exact ⟨l, _, rfl, h, rfl⟩
  | traverse => exact ⟨l, _, by rw [listMachine, traverse_spec hrepr]; rfl, h, rfl⟩

/-- A call whose counters have room does so on the list of the code. -/
theorem counted_owned {heap : Heap Ptr} {l : LList UInt32} {o : Owned} {c : ListCall}
    (h : Owns heap l.counted o.queue) (hok : MallocOk l c ∧ CountOk l c) :
    ∃ l' answer, listMachine l c = some (l', answer) ∧
      Owns heap l'.counted (ownedCall o c).1.queue ∧
      freePassed c answer = (ownedCall o c).2.map Item.data := by
  obtain ⟨l', answer, hcall, howns, hpassed⟩ := listCall_owned h (mallocOk_counted.mpr hok.1)
  rw [← listMachine_counted hok.2] at hcall
  obtain ⟨⟨l', answer⟩, hstep, heq⟩ := Option.map_eq_some_iff.mp hcall
  cases heq
  exact ⟨l', answer, hstep, howns, hpassed⟩

/-- The nodes no longer held after a call are those of the items that left. -/
theorem ownedCall_left_iff {o : Owned} {c : ListCall}
    (hnodup : (((ownedCall o c).2 ++ (ownedCall o c).1.queue).map Item.node).Nodup) (p : Ptr) :
    (p ∈ o.queue.map Item.node ∧ p ∉ (ownedCall o c).1.queue.map Item.node) ↔
      p ∈ (ownedCall o c).2.map Item.node := by
  constructor
  · rintro ⟨hin, hnot⟩
    obtain ⟨it, hit, rfl⟩ := List.mem_map.mp hin
    have hmem := (ownedCall_perm o c).mem_iff.mpr (List.mem_append_left _ hit)
    rcases List.mem_append.mp hmem with hgone | hheld
    · exact List.mem_map_of_mem hgone
    · exact absurd (List.mem_map_of_mem hheld) hnot
  · intro hp
    obtain ⟨it, hgone, rfl⟩ := List.mem_map.mp hp
    rw [List.map_append] at hnodup
    exact ⟨List.mem_map_of_mem (ownedCall_gone hgone),
      fun hheld => (List.disjoint_of_nodup_append hnodup) hp hheld⟩

/-- The node that a call gets from `malloc` is not live. -/
theorem MallocOk.fresh {l : LList} {c : ListCall} {cell : Ptr × Ptr} (hok : MallocOk l c)
    (hpush : c.push? = some cell) : l.heap cell.1 = none := by
  cases c with
  | pushFront n data =>
    cases hpush
    exact hok.2
  | pushBack n data =>
    cases hpush
    exact hok.2
  | _ => cases hpush

/-- The nodes that leave and those held after a call are all different. -/
theorem Owns.nodup_after {heap : Heap Ptr} {l : LList} {o : Owned} {c : ListCall}
    (h : Owns heap l o.queue) (hok : MallocOk l c) :
    (((ownedCall o c).2 ++ (ownedCall o c).1.queue).map Item.node).Nodup := by
  have hnodup := h.repr.nodup
  rw [map_fst_cell] at hnodup
  rw [((ownedCall_perm o c).map Item.node).nodup_iff, List.map_append]
  cases hpush : c.push? with
  | none => simpa using hnodup
  | some cell =>
    refine List.nodup_append.mpr ⟨hnodup, List.nodup_singleton _, fun p hp q hq heq => ?_⟩
    have hlive := h.live hp
    rw [heq, List.mem_singleton.mp hq, hok.fresh hpush] at hlive
    cases hlive

/-- The calls and answers of a run against the items: the items that left, call
by call, and the data that `free_func` got. -/
structure Ledger (heap : Heap Ptr) (l : LList UInt32) (calls : List ListCall)
    (answers : List ListAnswer) (o : Owned) (gone : List (List Item)) : Prop where
  owns : Owns heap l.counted o.queue
  run : Machine.run ownedMachine {} calls = some (o, gone)
  length : calls.length = answers.length
  passed : List.zipWith freePassed calls answers = gone.map (List.map Item.data)

/-- A call adds its line to the ledger. -/
theorem ledger_step {heap : Heap Ptr} {l : LList UInt32} {calls : List ListCall}
    {answers : List ListAnswer} {o : Owned} {gone : List (List Item)} {c : ListCall}
    (h : Ledger heap l calls answers o gone) (hok : MallocOk l c ∧ CountOk l c) :
    ∃ l' answer, listMachine l c = some (l', answer) ∧
      Ledger heap l' (calls ++ [c]) (answers ++ [answer]) (ownedCall o c).1
        (gone ++ [(ownedCall o c).2]) := by
  obtain ⟨l', answer, hstep, howns, hpassed⟩ := counted_owned h.owns hok
  refine ⟨l', answer, hstep, howns, Machine.run_append h.run rfl, by simp [h.length], ?_⟩
  rw [List.zipWith_append h.length, h.passed, List.map_append]
  simp [hpassed]

/-- What a run from `create_list` has to do with the pushed items. The items `gone`,
call by call, and those still in the list are the pushed ones, each once; `free_func`
got the data of what left, call by call and in order; the live nodes are those from
before and those of the list; and the next call, if it meets `ok`, frees exactly the
nodes of the items that leave in it. -/
structure Ownership (ok : LList UInt32 → ListCall → Prop) (heap : Heap Ptr) (calls : List ListCall)
    (l : LList UInt32) (answers : List ListAnswer) (o : Owned) (gone : List (List Item)) : Prop where
  run : Machine.run listMachine (createList heap) calls = some (l, answers)
  owned : Machine.run ownedMachine {} calls = some (o, gone)
  items : (gone.flatten ++ o.queue).Perm (pushedItems calls)
  once : (gone.flatten ++ o.queue).Nodup
  passed : List.zipWith freePassed calls answers = gone.map (List.map Item.data)
  holds : HoldsSequence l.counted (o.queue.map Item.data)
  live : ∀ p, (l.heap p).isSome ↔ (heap p).isSome ∨ p ∈ o.queue.map Item.node
  next : ∀ c, ok l c → ∃ l' answer, listMachine l c = some (l', answer) ∧
    freePassed c answer = (ownedCall o c).2.map Item.data ∧
    ((ownedCall o c).2.map Item.node).Nodup ∧
    ∀ p, ((l.heap p).isSome ∧ l'.heap p = none) ↔ p ∈ (ownedCall o c).2.map Item.node

/-- **Ownership over runs**, as long as the counters have room. What has left the
list and what it holds are the pushed items, each once, and every call hands over
exactly what leaves in it. -/
theorem listMachine_ownership (heap : Heap Ptr) (calls : List ListCall)
    (hok : Machine.Along listMachine (fun l c => MallocOk l c ∧ CountOk l c) (createList heap)
      calls) :
    ∃ l answers o gone,
      Ownership (fun l c => MallocOk l c ∧ CountOk l c) heap calls l answers o gone := by
  have hstart : Ledger heap (createList heap) [] [] {} [] :=
    ⟨⟨createList_repr heap, by simp, fun _ _ => rfl⟩, rfl, rfl, rfl⟩
  obtain ⟨l, answers, hrun, o, gone, hledger⟩ := Machine.run_history_along (m := listMachine)
    (fun l calls answers => ∃ o gone, Ledger heap l calls answers o gone) _
    (fun l calls answers c ⟨o, gone, h⟩ hok => by
      obtain ⟨l', answer, hstep, h'⟩ := ledger_step h hok
      exact ⟨l', answer, hstep, _, _, h'⟩)
    ⟨_, _, hstart⟩ hok
  have howns := hledger.owns
  have hperm := ownedMachine_perm hledger.run
  have hholds := howns.repr.holds
  rw [map_snd_cell] at hholds
  refine ⟨l, answers, o, gone, hrun, hledger.run, hperm,
    hperm.nodup_iff.mpr (pushedItems_nodup calls), hledger.passed, hholds, howns.live_iff,
    fun c hc => ?_⟩
  obtain ⟨l', answer, hstep, howns', hpassed⟩ := counted_owned howns hc
  have hnodup := howns.nodup_after (mallocOk_counted.mpr hc.1)
  refine ⟨l', answer, hstep, hpassed, ?_, fun p => ?_⟩
  · rw [List.map_append] at hnodup
    exact (List.nodup_append.mp hnodup).1
  · have hfreed := howns.freed_iff howns' p
    rwa [ownedCall_left_iff hnodup] at hfreed

theorem listMachine_ownership_both_ends :
    ∃ l answers o gone, Ownership (fun l c => MallocOk l c ∧ CountOk l c) (fun _ => none)
      [.pushBack 1 10, .pushFront 2 20, .removeBack, .emptyList] l answers o gone := by
  refine listMachine_ownership _ _ ?_
  have hroom : (0 : Nat) < UINT_MAX ∧ (1 : Nat) < UINT_MAX ∧ ((1 : Nat) : Int) ≤ INT_MAX := by decide
  rw [Machine.along_cons_of_step
      (rfl : listMachine (createList (N := UInt32) _) (.pushBack 1 10) = some (_, _)),
    Machine.along_cons_of_step
      (rfl : listMachine (N := UInt32) _ (.pushFront 2 20) = some (_, _)),
    Machine.along_cons_of_step (rfl : listMachine (N := UInt32) _ .removeBack = some (_, _))]
  exact ⟨⟨⟨by decide, rfl⟩, hroom.1⟩, ⟨⟨by decide, rfl⟩, hroom.2.1⟩, ⟨trivial, trivial⟩,
    ⟨trivial, hroom.2.2⟩, fun _ _ _ => trivial⟩

/-- **More nodes than the counter has room for** are lost: after 2^32 pushes
`empty_list` finds an empty list, and `free_func` gets nothing. -/
theorem listMachine_not_owned : ¬ ∀ (heap : Heap Ptr) (calls : List ListCall),
    Machine.Along listMachine MallocOk (createList (N := UInt32) heap) calls →
    ∃ l answers o gone, Ownership MallocOk heap calls l answers o gone := by
  intro h
  obtain ⟨n, hn⟩ : ∃ n, n = UINT_MAX := ⟨_, rfl⟩
  obtain ⟨l, answers, hrun, halong, hsize, -, hlive⟩ := pushes_wrap hn
  obtain ⟨l', answers', o, gone, howned⟩ := h _ _ halong
  have hsame := howned.run
  rw [hrun] at hsame
  cases hsame
  -- the list takes itself for empty, though it holds what was pushed
  have hempty : listMachine l .emptyList = some (l, {}) := by
    rw [listMachine, emptyList, if_pos hsize]
  obtain ⟨l', answer, hstep, hpassed, -⟩ := howned.next .emptyList trivial
  rw [hempty] at hstep
  cases hstep
  have hqueue : o.queue = [] := List.map_eq_nil_iff.mp hpassed.symm
  rw [howned.live, hqueue] at hlive
  rcases hlive with hbefore | hheld
  · cases hbefore
  · cases hheld

end UbloxRead
