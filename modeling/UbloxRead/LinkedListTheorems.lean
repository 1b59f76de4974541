/-
UbloxRead.LinkedListTheorems — `list.c` refines a double-ended sequence.

`Repr l cells` is the invariant: the nodes are `cells`, linked in a ring that
starts at `head`. Every mutator is a segment relinked by `seg_relink`:

* both insertions hang the old ring between the new node and itself
  (`linkNode_spec`), and differ in which end the new node counts as;
* both removals close the ring over what is left with `seg_close`, and free the
  node that is out of it (`repr_of_freed`).

Each operation also says what becomes of the heap: it frees the nodes it takes
out, and leaves what is neither in the list nor new alone (`Heap.Exchange`).

Sizes 1 and 2, where several of the pointers coincide, are not told apart in
these proofs beyond what the code does. `listCall_refines` is the result for one
call. The nodes are counted without end here; `ListCounters` puts the 32 bits in.
-/
import UbloxRead.LinkedList

namespace UbloxRead

open Lib

/-- The list is the ring of these cells. -/
structure LList.Repr (l : LList) (cells : List (Ptr × Ptr)) : Prop where
  ring : Ring l.heap cells
  nodup : (cells.map Prod.fst).Nodup
  head_eq : l.head = headOr cells NULL
  size_eq : l.size = cells.length
  ne_null : ∀ p ∈ cells.map Prod.fst, p ≠ NULL

theorem createList_repr (heap : Heap Ptr) : (createList heap).Repr [] where
  ring := trivial
  nodup := List.nodup_nil
  head_eq := rfl
  size_eq := rfl
  ne_null := by simp

/-- An address where nothing lives is not one of the list's. -/
theorem LList.Repr.not_mem {l : LList} {cells : List (Ptr × Ptr)} (h : l.Repr cells) {n : Ptr}
    (hfresh : l.heap n = none) : n ∉ cells.map Prod.fst := by
  intro hmem
  have := h.ring.live n hmem
  rw [hfresh] at this
  cases this

theorem LList.Repr.size_ne_zero {l : LList} {cells : List (Ptr × Ptr)} (h : l.Repr cells)
    (hne : cells ≠ []) : l.size ≠ 0 := by
  rw [h.size_eq]
  exact fun hzero => hne (List.length_eq_zero_iff.mp hzero)

/-- **What the invariant says to a reader of the heap.** -/
theorem LList.Repr.holds {l : LList} {cells : List (Ptr × Ptr)} (h : l.Repr cells) :
    HoldsSequence l (cells.map Prod.snd) := by
  obtain ⟨hring, hnodup, hhead, hsize, hnull⟩ := h
  refine ⟨⟨cells, ?_, hnodup, rfl, hsize.symm, fun hpos p => ?_, fun p hp => ?_⟩, ?_⟩
  · have hwalk := hring.walk_eq
    cases cells with
    | nil =>
      rw [hsize, hhead]
      rfl
    | cons c cells =>
      rw [hsize, hhead]
      exact hwalk
  · rw [hhead]
    refine hring.reach_iff ?_
    rintro rfl
    rw [hsize] at hpos
    exact absurd hpos (Nat.lt_irrefl 0)
  · obtain ⟨c, hc, rfl⟩ := List.mem_map.mp hp
    obtain ⟨node, nx, hnode, -, hnx, hback⟩ := hring.next_prev hc
    obtain ⟨node', pv, hnode', -, hpv, hforth⟩ := hring.prev_next hc
    rw [hnode] at hnode'
    cases hnode'
    exact ⟨node, nx, pv, hnode, hnx, hback, hpv, hforth⟩
  · rw [hhead, hsize]
    cases cells with
    | nil => exact ⟨fun _ => rfl, fun _ => rfl⟩
    | cons c cells =>
      have := hnull c.1 (List.mem_cons_self ..)
      simpa using this

/-! ## Insertion -/

/-- **Linking a node in** hangs the ring between the node and itself. -/
theorem linkNode_spec {h : Heap Ptr} {cells : List (Ptr × Ptr)} (hring : Ring h cells)
    (hne : cells ≠ []) (hnodup : (cells.map Prod.fst).Nodup) {n : Ptr}
    (hn : n ∉ cells.map Prod.fst) {node : DNode Ptr} (hnode : h n = some node) :
    ∃ h', linkNode h (headOr cells NULL) n = some h' ∧ Seg h' n cells n ∧
      h' n = some { prev := lastOr cells NULL, next := headOr cells NULL, data := node.data } ∧
      Heap.EqOutside (n :: cells.map Prod.fst) h h' := by
  have hhead : ∃ hd, h (headOr cells NULL) = some hd ∧ hd.prev = lastOr cells NULL := by
    cases cells with
    | nil => exact absurd rfl hne
    | cons c cells => exact ⟨_, hring.1, rfl⟩
  obtain ⟨hd, hhd, hprev⟩ := hhead
  have hheadn : headOr cells NULL ≠ n := fun heq => hn (heq ▸ headOr_mem hne NULL)
  -- the two assignments to the new node do not touch the ring
  obtain ⟨h₁, hset₁, hnode₁, hoff₁⟩ := Heap.setNext_live hnode (headOr cells NULL)
  obtain ⟨h₂, hset₂, hnode₂, hoff₂⟩ := Heap.setPrev_live hnode₁ (lastOr cells NULL)
  have hseg : Seg h₂ (lastOr cells NULL) cells (headOr cells NULL) :=
    (hring.frame_off hoff₁ hn).frame_off hoff₂ hn
  obtain ⟨h₃, h₄, hset₃, hset₄, hseg₄, hsame⟩ := seg_relink hseg hne hnodup n n
  rw [headOr_of_ne hne _ NULL] at hset₃
  rw [lastOr_of_ne hne _ NULL] at hset₄
  have hself : n ∈ n :: cells.map Prod.fst := List.mem_cons_self ..
  refine ⟨h₄, ?_, hseg₄, by rw [hsame n hn, hnode₂], ((hoff₁.trans hoff₂).outside hself).trans
    (hsame.mono (List.subset_cons_self ..))⟩
  have hhd₁ := hoff₁ _ hheadn
  simp only [linkNode, hhd, hset₁, hhd₁, hprev, hset₂, hset₃, hset₄, Option.bind_eq_bind,
    Option.bind_some]

/-- The first node of a list. -/
theorem pushEmpty_spec {l : LList} (h : l.Repr []) {n : Ptr} (data : Ptr) (hn : n ≠ NULL) :
    ∃ h₁ h₂ h₃, createNode l.heap n data = some h₁ ∧ h₁.setNext n n = some h₂ ∧
      h₂.setPrev n n = some h₃ ∧
      ({ heap := h₃, head := n, size := l.size + 1 } : LList).Repr [(n, data)] ∧
      Heap.EqOff n l.heap h₃ := by
  obtain ⟨h₂, hset₂, hnode₂, hoff₂⟩ := Heap.setNext_live
    (Heap.put_self l.heap n { prev := NULL, next := NULL, data := data }) n
  obtain ⟨h₃, hset₃, hnode₃, hoff₃⟩ := Heap.setPrev_live hnode₂ n
  refine ⟨_, h₂, h₃, by rw [createNode, if_neg hn], hset₂, hset₃, ⟨⟨hnode₃, trivial⟩, by simp, rfl,
    ?_, by simpa using hn⟩, (Heap.eqOff_put l.heap n _).trans (hoff₂.trans hoff₃)⟩
  simp only [h.size_eq, List.length_nil, List.length_singleton]

/-- A further node, before it is told which end it is. -/
theorem pushNode_spec {l : LList} {cells : List (Ptr × Ptr)} (h : l.Repr cells) (hne : cells ≠ [])
    {n : Ptr} (data : Ptr) (hn : n ≠ NULL) (hfresh : l.heap n = none) :
    ∃ h₁ h₂, createNode l.heap n data = some h₁ ∧ linkNode h₁ l.head n = some h₂ ∧
      Seg h₂ n cells n ∧
      h₂ n = some { prev := lastOr cells NULL, next := headOr cells NULL, data := data } ∧
      Heap.EqOutside (n :: cells.map Prod.fst) l.heap h₂ := by
  have hmem := h.not_mem hfresh
  have hput := Heap.eqOff_put l.heap n { prev := NULL, next := NULL, data := data }
  obtain ⟨h₂, hlink, hseg, hnode, hout⟩ :=
    linkNode_spec (h.ring.frame_off hput hmem) hne h.nodup hmem (Heap.put_self ..)
  rw [← h.head_eq] at hlink
  exact ⟨_, h₂, by rw [createNode, if_neg hn], hlink, hseg, hnode,
    (hput.outside (List.mem_cons_self ..)).trans hout⟩

/-- **`push_back` appends.** -/
theorem pushBack_spec {l : LList} {cells : List (Ptr × Ptr)} (h : l.Repr cells) {n : Ptr}
    (data : Ptr) (hn : n ≠ NULL) (hfresh : l.heap n = none) :
    ∃ l', pushBack l n data = some l' ∧ l'.Repr (cells ++ [(n, data)]) ∧
      Heap.Exchange (cells.map Prod.fst) ((cells ++ [(n, data)]).map Prod.fst) l.heap l'.heap := by
  have hmem := h.not_mem hfresh
  by_cases hne : cells = []
  · subst hne
    obtain ⟨h₁, h₂, h₃, hcreate, hnext, hprev, hrepr, hoff⟩ := pushEmpty_spec h data hn
    refine ⟨_, ?_, hrepr,
      .of_subset (List.nil_subset _) (hoff.outside (List.mem_singleton_self n))⟩
    have hzero : l.size = 0 := h.size_eq
    simp only [pushBack, hcreate, hzero, if_true, hnext, hprev, Option.bind_eq_bind,
      Option.bind_some]
  · obtain ⟨h₁, h₂, hcreate, hlink, hseg, hnode, hout⟩ := pushNode_spec h hne data hn hfresh
    have hsize := h.size_ne_zero hne
    have hperm := (List.perm_append_singleton (n, data) cells).map Prod.fst
    refine ⟨{ heap := h₂, head := l.head, size := l.size + 1 }, ?_, ⟨?_, ?_, ?_, ?_, ?_⟩,
      .of_subset ?_ (hout.mono fun _ hin => hperm.mem_iff.mpr hin)⟩
    · simp only [pushBack, hcreate, hsize, if_false, hlink, Option.bind_eq_bind, Option.bind_some]
    · exact ring_concat (c := (n, data)) hseg hne hnode
    · exact hperm.nodup_iff.mpr (List.nodup_cons.mpr ⟨hmem, h.nodup⟩)
    · rw [headOr_append, headOr_of_ne hne _ NULL]
      exact h.head_eq
    · rw [List.length_append, ← h.size_eq]
      rfl
    · intro p hp
      rw [List.map_append, List.mem_append] at hp
      rcases hp with hp | hp
      · exact h.ne_null p hp
      · rw [List.mem_singleton.mp hp]
        exact hn
    · rw [List.map_append]
      exact List.subset_append_left _ _

/-- **`push_front` prepends.** -/
theorem pushFront_spec {l : LList} {cells : List (Ptr × Ptr)} (h : l.Repr cells) {n : Ptr}
    (data : Ptr) (hn : n ≠ NULL) (hfresh : l.heap n = none) :
    ∃ l', pushFront l n data = some l' ∧ l'.Repr ((n, data) :: cells) ∧
      Heap.Exchange (cells.map Prod.fst) (n :: cells.map Prod.fst) l.heap l'.heap := by
  have hmem := h.not_mem hfresh
  by_cases hne : cells = []
  · subst hne
    obtain ⟨h₁, h₂, h₃, hcreate, hnext, hprev, hrepr, hoff⟩ := pushEmpty_spec h data hn
    refine ⟨_, ?_, hrepr,
      .of_subset (List.nil_subset _) (hoff.outside (List.mem_singleton_self n))⟩
    have hzero : l.size = 0 := h.size_eq
    simp only [pushFront, hcreate, hzero, if_true, hnext, hprev, Option.bind_eq_bind,
      Option.bind_some]
  · obtain ⟨h₁, h₂, hcreate, hlink, hseg, hnode, hout⟩ := pushNode_spec h hne data hn hfresh
    have hsize := h.size_ne_zero hne
    refine ⟨{ heap := h₂, head := n, size := l.size + 1 }, ?_, ⟨?_, ?_, rfl, ?_, ?_⟩,
      .of_subset (List.subset_cons_self _ _) hout⟩
    · simp only [pushFront, hcreate, hsize, if_false, hlink, Option.bind_eq_bind, Option.bind_some]
    · exact ring_cons (c := (n, data)) hseg hne hnode
    · exact List.nodup_cons.mpr ⟨hmem, h.nodup⟩
    · rw [List.length_cons, ← h.size_eq]
    · intro p hp
      rcases List.mem_cons.mp hp with rfl | hp
      · exact hn
      · exact h.ne_null p hp

/-! ## Removal -/

/-- Both removals refuse an empty list. -/
theorem removeFront_nil {l : LList} (h : l.Repr []) : removeFront l = some (l, { ret := -1 }) := by
  have hzero : l.size = 0 := h.size_eq
  rw [removeFront, if_pos hzero]

theorem removeBack_nil {l : LList} (h : l.Repr []) : removeBack l = some (l, { ret := -1 }) := by
  have hzero : l.size = 0 := h.size_eq
  rw [removeBack, if_pos hzero]

/-- What is left of a list, and of the heap, when one of its nodes is unlinked and
freed. -/
theorem repr_of_freed {l : LList} {cells rest : List (Ptr × Ptr)} (h : l.Repr cells) {c : Ptr × Ptr}
    (hperm : cells.Perm (c :: rest)) {heap heap' : Heap Ptr} (hring : Ring heap rest)
    (hout : Heap.EqOutside (rest.map Prod.fst) l.heap heap) (hnone : heap' c.1 = none)
    (hoff : Heap.EqOff c.1 heap heap') :
    ({ heap := heap', head := headOr rest NULL, size := l.size - 1 } : LList).Repr rest ∧
      Heap.Exchange (cells.map Prod.fst) (rest.map Prod.fst) l.heap heap' := by
  have hfst := hperm.map Prod.fst
  have hsub : rest.map Prod.fst ⊆ cells.map Prod.fst := fun p hp =>
    hfst.mem_iff.mpr (List.mem_cons_of_mem _ hp)
  have hnodup := hfst.nodup_iff.mp h.nodup
  rw [List.map_cons, List.nodup_cons] at hnodup
  refine ⟨⟨hring.frame_off hoff hnodup.1, hnodup.2, rfl, ?_, fun p hp => h.ne_null p (hsub hp)⟩, ?_⟩
  · simp only [h.size_eq, hperm.length_eq, List.length_cons, Nat.add_sub_cancel]
  · exact .of_freed hfst hnone
      ((hout.mono hsub).trans (hoff.outside (hfst.mem_iff.mpr (List.mem_cons_self ..))))

/-- The first node's `prev` is the last node. -/
theorem LList.Repr.head_prev {l : LList} {cells : List (Ptr × Ptr)} {c : Ptr × Ptr}
    (h : l.Repr (cells ++ [c])) : ∃ hd, l.heap l.head = some hd ∧ hd.prev = c.1 := by
  rw [h.head_eq]
  cases cells with
  | nil => exact ⟨_, h.ring.1, rfl⟩
  | cons d cells => exact ⟨_, h.ring.1, lastOr_append (d :: cells) [c] 0⟩

/-- **`remove_front` removes the first node** and passes its data to `free_func`. -/
theorem removeFront_spec {l : LList} {c : Ptr × Ptr} {cells : List (Ptr × Ptr)}
    (h : l.Repr (c :: cells)) :
    ∃ l', removeFront l = some (l', { ret := 0, passed := [c.2] }) ∧ l'.Repr cells ∧
      Heap.Exchange ((c :: cells).map Prod.fst) (cells.map Prod.fst) l.heap l'.heap := by
  have hhead : l.head = c.1 := h.head_eq
  obtain ⟨hnode, hseg⟩ := h.ring
  have hnodup := h.nodup
  rw [List.map_cons, List.nodup_cons] at hnodup
  by_cases hne : cells = []
  · subst hne
    have hone : l.size = 1 := h.size_eq
    obtain ⟨h', hfree, hnone, hoff⟩ := Heap.free_live hnode
    refine ⟨_, ?_, repr_of_freed h (List.Perm.refl _) trivial (fun _ _ => rfl) hnone hoff⟩
    simp only [removeFront, hone, Nat.one_ne_zero, if_false, if_true, hhead, hnode, hfree,
      Option.bind_eq_bind, Option.bind_some]
    rfl
  · have hsize : l.size ≠ 0 ∧ l.size ≠ 1 := by
      have := List.length_pos_of_ne_nil hne
      rw [h.size_eq, List.length_cons]
      omega
    obtain ⟨h₁, h₂, hset₁, hset₂, hring, hsame⟩ := seg_close hseg hne hnodup.2
    have hnode₂ : h₂ c.1 = l.heap c.1 := hsame c.1 hnodup.1
    rw [hnode] at hnode₂
    obtain ⟨h₃, hfree, hnone, hoff⟩ := Heap.free_live hnode₂
    refine ⟨_, ?_, repr_of_freed h (List.Perm.refl _) hring hsame hnone hoff⟩
    have hprev : lastOr (c :: cells) 0 = lastOr cells 0 := lastOr_of_ne hne c.1 0
    have hnext : headOr cells (headOr (c :: cells) 0) = headOr cells 0 := headOr_of_ne hne _ 0
    rw [hprev, hnext] at hnode hnode₂
    simp only [removeFront, hsize.1, hsize.2, if_false, hhead, hnode, hset₁, hset₂, hnode₂, hfree,
      Option.bind_eq_bind, Option.bind_some]
    rfl

/-- **`remove_back` removes the last node** and passes its data to `free_func`. -/
theorem removeBack_spec {l : LList} {c : Ptr × Ptr} {cells : List (Ptr × Ptr)}
    (h : l.Repr (cells ++ [c])) :
    ∃ l', removeBack l = some (l', { ret := 0, passed := [c.2] }) ∧ l'.Repr cells ∧
      Heap.Exchange ((cells ++ [c]).map Prod.fst) (cells.map Prod.fst) l.heap l'.heap := by
  have hperm : (cells ++ [c]).Perm (c :: cells) := List.perm_append_singleton c cells
  have hnodup := (hperm.map Prod.fst).nodup_iff.mp h.nodup
  rw [List.map_cons, List.nodup_cons] at hnodup
  obtain ⟨hd, hhd, hprev⟩ := h.head_prev
  by_cases hne : cells = []
  · subst hne
    have hhead : l.head = c.1 := h.head_eq
    have hone : l.size = 1 := h.size_eq
    obtain ⟨hnode, -⟩ := h.ring
    obtain ⟨h', hfree, hnone, hoff⟩ := Heap.free_live hnode
    refine ⟨_, ?_, repr_of_freed h hperm trivial (fun _ _ => rfl) hnone hoff⟩
    simp only [removeBack, hone, Nat.one_ne_zero, if_false, if_true, hhd, hprev, hnode, hfree,
      Option.bind_eq_bind, Option.bind_some]
    rfl
  · have hsize : l.size ≠ 0 ∧ l.size ≠ 1 := by
      have := List.length_pos_of_ne_nil hne
      rw [h.size_eq, List.length_append, List.length_singleton]
      omega
    have hhead : l.head = headOr cells 0 := by
      rw [h.head_eq, headOr_append, headOr_of_ne hne _ 0]
    rw [hhead] at hhd
    obtain ⟨hseg, hlast, -⟩ := seg_append.mp h.ring
    obtain ⟨h₁, h₂, hset₁, hset₂, hring, hsame⟩ := seg_close hseg hne hnodup.2
    have hlast₂ : h₂ c.1 = l.heap c.1 := hsame c.1 hnodup.1
    rw [hlast] at hlast₂
    obtain ⟨h₃, hfree, hnone, hoff⟩ := Heap.free_live hlast₂
    refine ⟨_, ?_, repr_of_freed h hperm hring hsame hnone hoff⟩
    rw [lastOr_of_ne hne (lastOr (cells ++ [c]) 0) 0] at hlast hlast₂
    simp only [removeBack, hsize.1, hsize.2, if_false, hhead, hhd, hprev, hlast, hset₁, hset₂,
      hlast₂, hfree, Option.bind_eq_bind, Option.bind_some]
    rfl

/-! ## The loops -/

/-- After as many rounds as there are nodes none is left. -/
theorem rest_eq_nil {cells done rest : List (Ptr × Ptr)} (hcells : cells = done ++ rest)
    (hdone : done.length = cells.length) : rest = [] := by
  have := congrArg List.length hcells
  rw [List.length_append, hdone] at this
  exact List.length_eq_zero_iff.mp (by omega)

/-- The loop of `empty_list` after some of its rounds: `rest` is still linked and
`current` is its first node; `next` is read ahead by one. -/
structure Emptying (cells : List (Ptr × Ptr)) (i : Nat) (s : EmptyState) : Prop where
  rest : ∃ done rest before, cells = done ++ rest ∧ done.length = i ∧
    s.passed = done.map Prod.snd ∧ Seg s.heap before rest (headOr cells 0) ∧
    s.current = headOr rest (headOr cells 0) ∧
    ∀ c rest', rest = c :: rest' → s.next = headOr rest' (headOr cells 0)

/-- **A round of `empty_list`** frees the first of the nodes left. -/
theorem emptying_step {cells : List (Ptr × Ptr)} (hnodup : (cells.map Prod.fst).Nodup) {i : Nat}
    {s : EmptyState} (hi : i < cells.length) (h : Emptying cells i s) :
    ∃ t, emptyBody cells.length i s = some t ∧ Emptying cells (i + 1) t := by
  obtain ⟨done, rest, before, hcells, hdone, hpassed, hseg, hcurrent, hnext⟩ := h
  have hlen : cells.length = done.length + rest.length := by rw [hcells, List.length_append]
  cases rest with
  | nil =>
    rw [List.length_nil] at hlen
    omega
  | cons c rest =>
    obtain ⟨hnode, hseg⟩ := hseg
    rw [headOr_cons] at hcurrent
    have hnext' := hnext c rest rfl
    have hfresh : c.1 ∉ rest.map Prod.fst := by
      rw [hcells, List.map_append, List.map_cons] at hnodup
      exact (List.nodup_cons.mp (List.nodup_append.mp hnodup).2.1).1
    obtain ⟨heap, hfree, -, hoff⟩ := Heap.free_live hnode
    have hseg' : Seg heap c.1 rest (headOr cells 0) := hseg.frame_off hoff hfresh
    have hround : ∀ next, (∀ d rest', rest = d :: rest' → next = headOr rest' (headOr cells 0)) →
        Emptying cells (i + 1)
          { heap := heap, current := s.next, next := next, passed := s.passed ++ [c.2] } := by
      intro next hahead
      refine ⟨done ++ [c], rest, c.1, by rw [hcells]; simp, by simp [hdone], ?_, hseg', hnext', hahead⟩
      rw [hpassed, List.map_append]
      rfl
    rw [List.length_cons] at hlen
    cases rest with
    | nil =>
      rw [List.length_nil] at hlen
      have hlast : ¬ i < cells.length - 1 := by omega
      refine ⟨_, ?_, hround s.next (by simp)⟩
      simp only [emptyBody, hcurrent, hnode, hfree, hlast, if_false, Option.bind_eq_bind,
        Option.bind_some]
    | cons d rest =>
      rw [List.length_cons] at hlen
      have hmore : i < cells.length - 1 := by omega
      obtain ⟨hd, -⟩ := hseg'
      rw [headOr_cons] at hnext'
      refine ⟨_, ?_, hround (headOr rest (headOr cells 0)) ?_⟩
      · simp only [emptyBody, hcurrent, hnode, hfree, hmore, if_true, hnext', hd, Option.map_some,
          Option.bind_eq_bind, Option.bind_some]
      · rintro _ _ ⟨⟩
        rfl

/-- After some rounds of `empty_list` the first nodes are freed, and nothing
else on the heap is touched. -/
structure EmptyFrees (cells : List (Ptr × Ptr)) (heap : Heap Ptr) (i : Nat) (s : EmptyState) :
    Prop where
  freed : ∀ p ∈ (cells.take i).map Prod.fst, s.heap p = none
  kept : Heap.EqOutside (cells.map Prod.fst) heap s.heap

/-- The node freed in a round is the one `current` stands at. -/
theorem emptyBody_heap {size i : Nat} {s t : EmptyState} (hbody : emptyBody size i s = some t) :
    t.heap = s.heap.erase s.current := by
  simp only [emptyBody, Option.bind_eq_bind] at hbody
  obtain ⟨_, -, hbody⟩ := Option.bind_eq_some_iff.mp hbody
  obtain ⟨heap, hfree, hbody⟩ := Option.bind_eq_some_iff.mp hbody
  obtain ⟨_, -, rfl⟩ := Option.map_eq_some_iff.mp hfree
  split at hbody <;>
  · obtain ⟨_, -, hbody⟩ := Option.bind_eq_some_iff.mp hbody
    cases hbody
    rfl

theorem emptyFrees_step {cells : List (Ptr × Ptr)} {heap : Heap Ptr} {i : Nat} {s t : EmptyState}
    (hi : i < cells.length) (h : Emptying cells i s) (hfrees : EmptyFrees cells heap i s)
    (hbody : emptyBody cells.length i s = some t) : EmptyFrees cells heap (i + 1) t := by
  obtain ⟨done, rest, -, hcells, hdone, -, -, hcurrent, -⟩ := h
  have hheap := emptyBody_heap hbody
  have hget : s.current = cells[i].1 := by
    subst hcells hdone
    cases rest with
    | nil => simp at hi
    | cons c rest => simpa using hcurrent
  refine ⟨fun p hp => ?_, fun p hp => ?_⟩
  · rw [hheap]
    by_cases heq : p = s.current
    · rw [heq, Heap.erase_self]
    · rw [Heap.erase_of_ne _ heq]
      rw [List.take_succ_eq_append_getElem hi, List.map_append, List.mem_append] at hp
      rcases hp with hp | hp
      · exact hfrees.freed p hp
      · exact absurd (List.mem_singleton.mp hp) (hget ▸ heq)
  · have hne : p ≠ s.current := by
      rintro rfl
      rw [hget] at hp
      exact hp (List.mem_map_of_mem (List.getElem_mem hi))
    rw [hheap, Heap.erase_of_ne _ hne]
    exact hfrees.kept p hp

/-- **`empty_list` frees every node** and passes all data on, in order. -/
theorem emptyList_spec {l : LList} {cells : List (Ptr × Ptr)} (h : l.Repr cells) :
    ∃ l', emptyList l = some (l', { passed := cells.map Prod.snd }) ∧ l'.Repr [] ∧
      Heap.Exchange (cells.map Prod.fst) [] l.heap l'.heap := by
  cases cells with
  | nil =>
    have hzero : l.size = 0 := h.size_eq
    exact ⟨l, by simp [emptyList, hzero], h, by simp, fun _ _ _ => rfl⟩
  | cons c cells =>
    have hhead : l.head = c.1 := h.head_eq
    have hsize := h.size_ne_zero (List.cons_ne_nil c cells)
    obtain ⟨hnode, hseg⟩ := h.ring
    have hstart : Emptying (c :: cells) 0
        { heap := l.heap, current := l.head,
          next := headOr cells (headOr (c :: cells) 0), passed := [] } :=
      ⟨[], c :: cells, _, rfl, rfl, rfl, h.ring, hhead, by rintro _ _ ⟨⟩; rfl⟩
    obtain ⟨s, hloop, ⟨done, rest, -, hcells, hdone, hpassed, -⟩, hfrees⟩ := forLoop_total _
      (fun i s => Emptying (c :: cells) i s ∧ EmptyFrees (c :: cells) l.heap i s)
      (fun i s hi hinv => by
        obtain ⟨t, hbody, hinv'⟩ := emptying_step h.nodup hi hinv.1
        exact ⟨t, hbody, hinv', emptyFrees_step hi hinv.1 hinv.2 hbody⟩)
      ⟨hstart, by simp, fun _ _ => rfl⟩
    rw [rest_eq_nil hcells hdone, List.append_nil] at hcells
    rw [← hcells] at hpassed
    have hfreed := hfrees.freed
    rw [List.take_length] at hfreed
    refine ⟨{ heap := s.heap, head := NULL, size := 0 }, ?_, createList_repr s.heap,
      fun p hp _ => hfreed p hp, fun p hp _ => hfrees.kept p hp⟩
    rw [← h.size_eq, hhead] at hloop
    simp only [emptyList, hsize, if_false, hhead, hnode, toNat_nat, loop_nat, hloop, hpassed,
      Option.bind_eq_bind, Option.bind_some]

/-- The loop of `traverse` after some of its rounds: the data of the nodes behind
it was passed on, and it stands at the first of the others. -/
def Traversing (heap : Heap Ptr) (cells : List (Ptr × Ptr)) (i : Nat) (s : Ptr × List Ptr) : Prop :=
  ∃ done rest before, cells = done ++ rest ∧ done.length = i ∧ s.2 = done.map Prod.snd ∧
    Seg heap before rest (headOr cells 0) ∧ s.1 = headOr rest (headOr cells 0)

/-- A round of `traverse` passes on the data of the node it stands at. -/
theorem traversing_step {heap : Heap Ptr} {cells : List (Ptr × Ptr)} {i : Nat}
    {s : Ptr × List Ptr} (hi : i < cells.length) (h : Traversing heap cells i s) :
    ∃ t, ((heap s.1).map fun current => (current.next, s.2 ++ [current.data])) = some t ∧
      Traversing heap cells (i + 1) t := by
  obtain ⟨done, rest, before, hcells, hdone, hpassed, hseg, hcurrent⟩ := h
  cases rest with
  | nil =>
    rw [hcells, List.append_nil, hdone] at hi
    exact absurd hi (Nat.lt_irrefl i)
  | cons c rest =>
    obtain ⟨hnode, hseg⟩ := hseg
    refine ⟨_, by rw [hcurrent, headOr_cons, hnode]; rfl, done ++ [c], rest, c.1, by simp [hcells],
      by simp [hdone], ?_, hseg, rfl⟩
    rw [List.map_append, hpassed]
    rfl

/-- **`traverse` passes all data on, in order.** -/
theorem traverse_spec {l : LList} {cells : List (Ptr × Ptr)} (h : l.Repr cells) :
    traverse l = some (cells.map Prod.snd) := by
  have hstart : Traversing l.heap cells 0 (l.head, []) :=
    ⟨[], cells, _, rfl, rfl, rfl, h.ring, by rw [h.head_eq]; cases cells <;> rfl⟩
  obtain ⟨s, hloop, done, rest, -, hcells, hdone, hpassed, -⟩ := forLoop_total
    _ (Traversing l.heap cells) (fun i s hi hinv => traversing_step hi hinv) hstart
  rw [rest_eq_nil hcells hdone, List.append_nil] at hcells
  rw [← h.size_eq] at hloop
  rw [traverse, loop_nat, hloop, Option.map_some, hpassed, hcells]

/-! ## Queries -/

theorem front_spec {l : LList} {cells : List (Ptr × Ptr)} (h : l.Repr cells) :
    front l = some ((cells.map Prod.snd).head?.getD NULL) := by
  cases cells with
  | nil =>
    have hzero : l.size = 0 := h.size_eq
    simp [front, hzero]
  | cons c cells =>
    have hsize := h.size_ne_zero (List.cons_ne_nil c cells)
    have hhead : l.head = c.1 := h.head_eq
    rw [front, if_pos hsize, hhead, h.ring.1]
    rfl

theorem back_spec {l : LList} {cells : List (Ptr × Ptr)} (h : l.Repr cells) :
    back l = some ((cells.map Prod.snd).getLast?.getD NULL) := by
  rcases List.eq_nil_or_concat cells with rfl | ⟨cells, c, rfl⟩
  · have hzero : l.size = 0 := h.size_eq
    simp [back, hzero]
  · rw [List.concat_eq_append] at h ⊢
    have hsize := h.size_ne_zero (List.append_ne_nil_of_right_ne_nil cells (List.cons_ne_nil c []))
    obtain ⟨hd, hhd, hprev⟩ := h.head_prev
    have hlast := h.ring.node
    simp [back, hsize, hhd, hprev, hlast]

theorem isEmpty_spec {l : LList} {cells : List (Ptr × Ptr)} (h : l.Repr cells) :
    isEmpty l = if cells.map Prod.snd = [] then 1 else 0 := by
  have hnull := h.holds.head_null
  by_cases hcells : cells = []
  · subst hcells
    have hzero : l.size = 0 := h.size_eq
    simp [isEmpty, hzero, hnull.mpr hzero]
  · simp [isEmpty, h.size_ne_zero hcells, hcells]

/-! ## Runs -/

/-- The list represents the sequence `q`. -/
def Represents (l : LList) (q : List Ptr) : Prop := ∃ cells, l.Repr cells ∧ cells.map Prod.snd = q

/-- **One call refines one call of the double-ended sequence.** -/
theorem listCall_refines {l : LList} {q : List Ptr} {call : ListCall} (h : Represents l q)
    (hok : MallocOk l call) :
    ∃ l' q' answer, listMachine l call = some (l', answer) ∧
      dequeMachine q call = some (q', answer) ∧ Represents l' q' := by
  obtain ⟨cells, hrepr, rfl⟩ := h
  cases call with
  | pushFront n data =>
    obtain ⟨l', hpush, hrepr', -⟩ := pushFront_spec hrepr data hok.1 hok.2
    exact ⟨l', _, {}, by rw [listMachine, hpush]; rfl, rfl, _, hrepr', rfl⟩
  | pushBack n data =>
    obtain ⟨l', hpush, hrepr', -⟩ := pushBack_spec hrepr data hok.1 hok.2
    exact ⟨l', _, {}, by rw [listMachine, hpush]; rfl, rfl, _, hrepr', List.map_append ..⟩
  | removeFront =>
    cases cells with
    | nil => exact ⟨l, [], _, removeFront_nil hrepr, rfl, [], hrepr, rfl⟩
    | cons c cells =>
      obtain ⟨l', hremove, hrepr', -⟩ := removeFront_spec hrepr
      exact ⟨l', _, _, hremove, rfl, cells, hrepr', rfl⟩
  | removeBack =>
    rcases List.eq_nil_or_concat cells with rfl | ⟨cells, c, rfl⟩
    · exact ⟨l, [], _, removeBack_nil hrepr, rfl, [], hrepr, rfl⟩
    · rw [List.concat_eq_append] at hrepr ⊢
      obtain ⟨l', hremove, hrepr', -⟩ := removeBack_spec hrepr
      refine ⟨l', _, _, hremove, ?_, cells, hrepr', rfl⟩
      simp [dequeMachine, dequeCall]
  | emptyList =>
    obtain ⟨l', hempty, hrepr', -⟩ := emptyList_spec hrepr
    exact ⟨l', [], _, hempty, rfl, [], hrepr', rfl⟩
  | front =>
    exact ⟨l, _, _, by rw [listMachine, front_spec hrepr]; rfl, rfl, cells, hrepr, rfl⟩
  | back =>
    exact ⟨l, _, _, by rw [listMachine, back_spec hrepr]; rfl, rfl, cells, hrepr, rfl⟩
  | isEmpty =>
    exact ⟨l, _, _, by rw [listMachine, isEmpty_spec hrepr], rfl, cells, hrepr, rfl⟩
  | size =>
    refine ⟨l, _, { ret := l.size }, rfl, ?_, cells, hrepr, rfl⟩
    rw [dequeMachine, dequeCall, hrepr.size_eq, List.length_map]
  | traverse =>
    exact ⟨l, _, _, by rw [listMachine, traverse_spec hrepr]; rfl, rfl, cells, hrepr, rfl⟩

end UbloxRead
