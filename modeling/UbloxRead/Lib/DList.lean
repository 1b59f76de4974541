/-
UbloxRead.Lib.DList — doubly linked cells in a heap.

A heap maps an address to the node that lives there, if one does; reading or
changing a field where none lives has no outcome. `Seg h before cells after`
says that `cells` — addresses with the data at them — are linked in order, that
the first cell's `prev` is `before` and the last cell's `next` is `after`. A
circular list is a segment whose `before` is its own last cell and whose
`after` is its own first.

`EqOutside` and `Exchange` say what an operation leaves alone and what it frees.
`seg_relink` changes what a segment hangs between, whatever its length. A
segment of one cell has both ends in the same node; the lemma does not tell
that case apart, because each of the two assignments changes one field. The
section on rings says what a circular list looks like to a reader of the heap.
-/
import Mathlib.Data.List.Nodup

namespace UbloxRead.Lib

universe u

/-- Addresses. -/
abbrev Ptr := Nat

/-- A node. -/
structure DNode (α : Type u) where
  prev : Ptr
  next : Ptr
  data : α
  deriving DecidableEq, Repr

/-- The live nodes. -/
abbrev Heap (α : Type u) := Ptr → Option (DNode α)

namespace Heap

variable {α : Type u}

/-- Put a node at an address. -/
def put (h : Heap α) (p : Ptr) (node : DNode α) : Heap α :=
  fun q => if q = p then some node else h q

/-- Take the node away. -/
def erase (h : Heap α) (p : Ptr) : Heap α := fun q => if q = p then none else h q

/-- `p->prev = q`. -/
def setPrev (h : Heap α) (p q : Ptr) : Option (Heap α) :=
  (h p).map fun node => h.put p { node with prev := q }

/-- `p->next = q`. -/
def setNext (h : Heap α) (p q : Ptr) : Option (Heap α) :=
  (h p).map fun node => h.put p { node with next := q }

/-- `free(p)`: only a live node can be freed. -/
def free (h : Heap α) (p : Ptr) : Option (Heap α) := (h p).map fun _ => h.erase p

@[simp] theorem put_self (h : Heap α) (p : Ptr) (node : DNode α) : h.put p node p = some node := by
  simp [put]

theorem put_of_ne (h : Heap α) {p q : Ptr} (node : DNode α) (hne : q ≠ p) : h.put p node q = h q := by
  simp [put, hne]

@[simp] theorem erase_self (h : Heap α) (p : Ptr) : h.erase p p = none := by simp [erase]

theorem erase_of_ne (h : Heap α) {p q : Ptr} (hne : q ≠ p) : h.erase p q = h q := by
  simp [erase, hne]

/-- Two heaps agree at all addresses but one. -/
def EqOff (p : Ptr) (h h' : Heap α) : Prop := ∀ q, q ≠ p → h' q = h q

theorem eqOff_put (h : Heap α) (p : Ptr) (node : DNode α) : EqOff p h (h.put p node) :=
  fun _ hne => put_of_ne h node hne

theorem EqOff.trans {h h' h'' : Heap α} {p : Ptr} (heq : EqOff p h h') (heq' : EqOff p h' h'') :
    EqOff p h h'' := fun q hne => (heq' q hne).trans (heq q hne)

/-- Two heaps agree at all addresses but some. -/
def EqOutside (ps : List Ptr) (h h' : Heap α) : Prop := ∀ q, q ∉ ps → h' q = h q

theorem EqOff.outside {h h' : Heap α} {p : Ptr} {ps : List Ptr} (heq : EqOff p h h')
    (hp : p ∈ ps) : EqOutside ps h h' := fun q hq => heq q fun hqp => hq (hqp ▸ hp)

theorem EqOutside.mono {h h' : Heap α} {ps qs : List Ptr} (heq : EqOutside ps h h')
    (hsub : ps ⊆ qs) : EqOutside qs h h' := fun q hq => heq q fun hin => hq (hsub hin)

theorem EqOutside.trans {h h' h'' : Heap α} {ps : List Ptr} (heq : EqOutside ps h h')
    (heq' : EqOutside ps h' h'') : EqOutside ps h h'' := fun q hq => (heq' q hq).trans (heq q hq)

/-- What becomes of the heap when a structure over the nodes `before` becomes
one over the nodes `after`: what is left out is freed, and nothing else is
touched. -/
structure Exchange (before after : List Ptr) (h h' : Heap α) : Prop where
  freed : ∀ p ∈ before, p ∉ after → h' p = none
  kept : ∀ p, p ∉ before → p ∉ after → h' p = h p

theorem Exchange.of_subset {before after : List Ptr} {h h' : Heap α} (hsub : before ⊆ after)
    (heq : EqOutside after h h') : Exchange before after h h' :=
  ⟨fun _ hp hnot => absurd (hsub hp) hnot, fun p _ hnot => heq p hnot⟩

/-- An exchange makes nothing live but the new nodes. -/
theorem Exchange.dead {before after : List Ptr} {h h' : Heap α} (hex : Exchange before after h h')
    {p : Ptr} (hp : p ∉ after) (hdead : h p = none) : h' p = none := by
  by_cases hold : p ∈ before
  · exact hex.freed p hold hp
  · rw [hex.kept p hold hp, hdead]

theorem Exchange.of_freed {before after : List Ptr} {h h' : Heap α} {p : Ptr}
    (hperm : before.Perm (p :: after)) (hnone : h' p = none) (heq : EqOutside before h h') :
    Exchange before after h h' := by
  refine ⟨fun q hq hnot => ?_, fun q hq _ => heq q hq⟩
  rcases List.mem_cons.mp (hperm.mem_iff.mp hq) with rfl | hin
  · exact hnone
  · exact absurd hin hnot

/-- Assigning `prev` of a live node. -/
theorem setPrev_live {h : Heap α} {p : Ptr} {node : DNode α} (hlive : h p = some node) (q : Ptr) :
    ∃ h', h.setPrev p q = some h' ∧ h' p = some { node with prev := q } ∧ EqOff p h h' :=
  ⟨_, by rw [setPrev, hlive]; rfl, put_self .., eqOff_put h p _⟩

/-- Assigning `next` of a live node. -/
theorem setNext_live {h : Heap α} {p : Ptr} {node : DNode α} (hlive : h p = some node) (q : Ptr) :
    ∃ h', h.setNext p q = some h' ∧ h' p = some { node with next := q } ∧ EqOff p h h' :=
  ⟨_, by rw [setNext, hlive]; rfl, put_self .., eqOff_put h p _⟩

/-- Freeing a live node. -/
theorem free_live {h : Heap α} {p : Ptr} {node : DNode α} (hlive : h p = some node) :
    ∃ h', h.free p = some h' ∧ h' p = none ∧ EqOff p h h' :=
  ⟨_, by rw [free, hlive]; rfl, erase_self .., fun _ hne => erase_of_ne h hne⟩

end Heap

/-! ## Segments -/

section Seg

variable {α : Type u}

/-- The address of the first cell, or `after` when there is none. -/
def headOr (cells : List (Ptr × α)) (after : Ptr) : Ptr :=
  match cells with
  | [] => after
  | c :: _ => c.1

/-- The address of the last cell, or `before` when there is none. -/
def lastOr (cells : List (Ptr × α)) (before : Ptr) : Ptr :=
  match cells with
  | [] => before
  | c :: cells => lastOr cells c.1

@[simp] theorem headOr_nil (after : Ptr) : headOr ([] : List (Ptr × α)) after = after := rfl

@[simp] theorem headOr_cons (c : Ptr × α) (cells : List (Ptr × α)) (after : Ptr) :
    headOr (c :: cells) after = c.1 := rfl

@[simp] theorem lastOr_nil (before : Ptr) : lastOr ([] : List (Ptr × α)) before = before := rfl

theorem headOr_append (xs ys : List (Ptr × α)) (after : Ptr) :
    headOr (xs ++ ys) after = headOr xs (headOr ys after) := by
  cases xs <;> rfl

@[simp] theorem lastOr_append (xs ys : List (Ptr × α)) (before : Ptr) :
    lastOr (xs ++ ys) before = lastOr ys (lastOr xs before) := by
  induction xs generalizing before with
  | nil => rfl
  | cons c xs ih => exact ih c.1

@[simp] theorem lastOr_singleton (c : Ptr × α) (before : Ptr) : lastOr [c] before = c.1 := rfl

theorem headOr_of_ne {cells : List (Ptr × α)} (h : cells ≠ []) (p q : Ptr) :
    headOr cells p = headOr cells q := by
  cases cells with
  | nil => exact absurd rfl h
  | cons c cells => rfl

theorem lastOr_of_ne {cells : List (Ptr × α)} (h : cells ≠ []) (p q : Ptr) :
    lastOr cells p = lastOr cells q := by
  cases cells with
  | nil => exact absurd rfl h
  | cons c cells => rfl

theorem headOr_mem {cells : List (Ptr × α)} (h : cells ≠ []) (after : Ptr) :
    headOr cells after ∈ cells.map Prod.fst := by
  cases cells with
  | nil => exact absurd rfl h
  | cons c cells => exact List.mem_cons_self ..

theorem lastOr_mem {cells : List (Ptr × α)} (h : cells ≠ []) (before : Ptr) :
    lastOr cells before ∈ cells.map Prod.fst := by
  induction cells generalizing before with
  | nil => exact absurd rfl h
  | cons c cells ih =>
    cases cells with
    | nil => exact List.mem_cons_self ..
    | cons d cells => exact List.mem_cons_of_mem _ (ih (by simp) c.1)

/-- `cells` are linked in order between `before` and `after`. -/
def Seg (h : Heap α) : Ptr → List (Ptr × α) → Ptr → Prop
  | _, [], _ => True
  | before, c :: cells, after =>
      h c.1 = some { prev := before, next := headOr cells after, data := c.2 } ∧
        Seg h c.1 cells after

variable {h h' : Heap α} {before after : Ptr} {c : Ptr × α} {cells xs ys : List (Ptr × α)}

@[simp] theorem seg_nil : Seg h before [] after := trivial

theorem seg_cons : Seg h before (c :: cells) after ↔
    h c.1 = some { prev := before, next := headOr cells after, data := c.2 } ∧
      Seg h c.1 cells after := Iff.rfl

/-- **Segments join** where the one's end is the other's start. -/
theorem seg_append : Seg h before (xs ++ ys) after ↔
    Seg h before xs (headOr ys after) ∧ Seg h (lastOr xs before) ys after := by
  induction xs generalizing before with
  | nil => simp
  | cons c xs ih =>
    rw [List.cons_append, seg_cons, seg_cons, ih, headOr_append, and_assoc]
    rfl

/-- A segment depends only on its own nodes. -/
theorem Seg.frame (hseg : Seg h before cells after)
    (hsame : ∀ p ∈ cells.map Prod.fst, h' p = h p) : Seg h' before cells after := by
  induction cells generalizing before with
  | nil => trivial
  | cons c cells ih =>
    obtain ⟨hc, hrest⟩ := hseg
    refine ⟨(hsame c.1 (List.mem_cons_self ..)).trans hc, ih hrest fun p hp => ?_⟩
    exact hsame p (List.mem_cons_of_mem _ hp)

theorem Seg.frame_off {p : Ptr} (hseg : Seg h before cells after) (heq : Heap.EqOff p h h')
    (hp : p ∉ cells.map Prod.fst) : Seg h' before cells after :=
  hseg.frame fun q hq => heq q fun hqp => hp (hqp ▸ hq)

/-- The cells of a segment are live. -/
theorem Seg.live (hseg : Seg h before cells after) :
    ∀ p ∈ cells.map Prod.fst, (h p).isSome := by
  induction cells generalizing before with
  | nil => simp
  | cons c cells ih =>
    intro p hp
    rcases List.mem_cons.mp hp with rfl | hp
    · rw [hseg.1]
      rfl
    · exact ih hseg.2 p hp

/-- **Relinking the front**: the first cell's `prev` can be set to any address. -/
theorem seg_setPrev (hseg : Seg h before cells after) (hne : cells ≠ [])
    (hnodup : (cells.map Prod.fst).Nodup) (q : Ptr) :
    ∃ h', h.setPrev (headOr cells after) q = some h' ∧ Seg h' q cells after ∧
      Heap.EqOff (headOr cells after) h h' := by
  cases cells with
  | nil => exact absurd rfl hne
  | cons c cells =>
    obtain ⟨hc, hrest⟩ := hseg
    rw [List.map_cons, List.nodup_cons] at hnodup
    obtain ⟨h', hset, hnode, hoff⟩ := Heap.setPrev_live hc q
    exact ⟨h', hset, ⟨hnode, hrest.frame_off hoff hnodup.1⟩, hoff⟩

/-- **Relinking the back**: the last cell's `next` can be set to any address. -/
theorem seg_setNext (hseg : Seg h before cells after) (hne : cells ≠ [])
    (hnodup : (cells.map Prod.fst).Nodup) (q : Ptr) :
    ∃ h', h.setNext (lastOr cells before) q = some h' ∧ Seg h' before cells q ∧
      Heap.EqOff (lastOr cells before) h h' := by
  induction cells generalizing before with
  | nil => exact absurd rfl hne
  | cons c cells ih =>
    obtain ⟨hc, hrest⟩ := hseg
    rw [List.map_cons, List.nodup_cons] at hnodup
    cases cells with
    | nil =>
      obtain ⟨h', hset, hnode, hoff⟩ := Heap.setNext_live hc q
      exact ⟨h', hset, ⟨hnode, trivial⟩, hoff⟩
    | cons d cells =>
      obtain ⟨h', hset, hseg', hoff⟩ := ih hrest (by simp) hnodup.2
      refine ⟨h', hset, ⟨?_, hseg'⟩, hoff⟩
      have hlast : lastOr (d :: cells) c.1 ≠ c.1 := fun heq =>
        hnodup.1 (heq ▸ lastOr_mem (by simp) c.1)
      rw [hoff c.1 hlast.symm, hc]
      rfl

/-- **Relinking**: the two assignments at the ends of a segment, in this order,
hang it between any two addresses and touch nothing else. -/
theorem seg_relink (hseg : Seg h before cells after) (hne : cells ≠ [])
    (hnodup : (cells.map Prod.fst).Nodup) (q r : Ptr) :
    ∃ h₁ h₂, h.setPrev (headOr cells after) q = some h₁ ∧
      h₁.setNext (lastOr cells before) r = some h₂ ∧ Seg h₂ q cells r ∧
      Heap.EqOutside (cells.map Prod.fst) h h₂ := by
  obtain ⟨h₁, hset₁, hseg₁, hoff₁⟩ := seg_setPrev hseg hne hnodup q
  obtain ⟨h₂, hset₂, hseg₂, hoff₂⟩ := seg_setNext hseg₁ hne hnodup r
  rw [lastOr_of_ne hne q before] at hset₂ hoff₂
  exact ⟨h₁, h₂, hset₁, hset₂, hseg₂,
    (hoff₁.outside (headOr_mem hne after)).trans (hoff₂.outside (lastOr_mem hne before))⟩

/-- The node at a cell in the middle of a segment. -/
theorem Seg.node (xs : List (Ptr × α)) (c : Ptr × α) (ys : List (Ptr × α))
    (hseg : Seg h before (xs ++ c :: ys) after) :
    h c.1 = some { prev := lastOr xs before, next := headOr ys after, data := c.2 } :=
  (seg_append.mp hseg).2.1

/-! ## Rings -/

/-- `cells` are linked in order, round and round. -/
def Ring (h : Heap α) (cells : List (Ptr × α)) : Prop :=
  Seg h (lastOr cells 0) cells (headOr cells 0)

/-- Follow `next` for `n` nodes: the nodes met, and where they lead. -/
def walk (h : Heap α) : Nat → Ptr → Option (List (Ptr × α) × Ptr)
  | 0, p => some ([], p)
  | n + 1, p =>
      match h p with
      | none => none
      | some node => (walk h n node.next).map fun (cells, last) => ((p, node.data) :: cells, last)

/-- A walk goes over a live node and on from where its `next` leads. -/
theorem walk_succ_eq_some {h : Heap α} {n : Nat} {p last : Ptr} {cells : List (Ptr × α)} :
    walk h (n + 1) p = some (cells, last) ↔ ∃ node rest, h p = some node ∧
      walk h n node.next = some (rest, last) ∧ cells = (p, node.data) :: rest := by
  rw [walk]
  cases hnode : h p with
  | none => simp
  | some node =>
    simp only [Option.map_eq_some_iff, Prod.exists, Prod.mk.injEq]
    constructor
    · rintro ⟨rest, last', hwalk, rfl, rfl⟩
      exact ⟨node, rest, rfl, hwalk, rfl⟩
    · rintro ⟨_, rest, ⟨⟩, hwalk, rfl⟩
      exact ⟨rest, last, hwalk, rfl, rfl⟩

/-- `q` is met when following `next` from `p`. -/
inductive Reach (h : Heap α) (p : Ptr) : Ptr → Prop
  | refl : Reach h p p
  | next {q node} : Reach h p q → h q = some node → Reach h p node.next

/-- A segment that hangs between one node and itself makes a ring with the node
at its end, -/
theorem ring_concat (hseg : Seg h c.1 cells c.1) (hne : cells ≠ [])
    (hnode : h c.1 = some { prev := lastOr cells 0, next := headOr cells 0, data := c.2 }) :
    Ring h (cells ++ [c]) := by
  rw [Ring, lastOr_append, headOr_append, lastOr_singleton]
  refine seg_append.mpr ⟨hseg, ?_, trivial⟩
  rw [hnode, lastOr_of_ne hne c.1 0, headOr_nil, headOr_of_ne hne (headOr [c] 0) 0]

/-- and with the node at its start. -/
theorem ring_cons (hseg : Seg h c.1 cells c.1) (hne : cells ≠ [])
    (hnode : h c.1 = some { prev := lastOr cells 0, next := headOr cells 0, data := c.2 }) :
    Ring h (c :: cells) := by
  refine ⟨?_, hseg⟩
  rw [hnode, headOr_of_ne hne (headOr (c :: cells) 0) 0, lastOr, lastOr_of_ne hne c.1 0]

/-- **Closing a segment** over itself makes it a ring. -/
theorem seg_close (hseg : Seg h before cells after) (hne : cells ≠ [])
    (hnodup : (cells.map Prod.fst).Nodup) :
    ∃ h₁ h₂, h.setPrev (headOr cells 0) (lastOr cells 0) = some h₁ ∧
      h₁.setNext (lastOr cells 0) (headOr cells 0) = some h₂ ∧ Ring h₂ cells ∧
      Heap.EqOutside (cells.map Prod.fst) h h₂ := by
  obtain ⟨h₁, h₂, hset₁, hset₂, hring, hsame⟩ :=
    seg_relink hseg hne hnodup (lastOr cells 0) (headOr cells 0)
  rw [headOr_of_ne hne after 0] at hset₁
  rw [lastOr_of_ne hne before 0] at hset₂
  exact ⟨h₁, h₂, hset₁, hset₂, hring, hsame⟩

/-- Walking along a segment meets its cells and comes out behind it. -/
theorem Seg.walk_eq (hseg : Seg h before cells after) :
    walk h cells.length (headOr cells after) = some (cells, after) := by
  induction cells generalizing before with
  | nil => rfl
  | cons c cells ih =>
    obtain ⟨hc, hrest⟩ := hseg
    simp only [List.length_cons, headOr_cons, walk, hc, ih hrest, Option.map_some]

/-- In a ring, `prev` undoes `next`. -/
theorem Ring.next_prev (hring : Ring h cells) (hc : c ∈ cells) :
    ∃ node nx, h c.1 = some node ∧ node.next ∈ cells.map Prod.fst ∧ h node.next = some nx ∧
      nx.prev = c.1 := by
  obtain ⟨xs, ys, rfl⟩ := List.append_of_mem hc
  have hnode := hring.node
  cases ys with
  | cons d ys =>
    have hnext := Seg.node (xs ++ [c]) d ys (by
      rw [List.append_assoc]; exact hring)
    exact ⟨_, _, hnode, by simp, hnext, by simp⟩
  | nil =>
    -- the last cell leads back to the first
    cases xs with
    | nil => exact ⟨_, _, hnode, by simp, hnode, rfl⟩
    | cons d xs =>
      have hfirst := Seg.node [] d (xs ++ [c]) hring
      exact ⟨_, _, hnode, by simp, hfirst, by simp [lastOr]⟩

/-- In a ring, `next` undoes `prev`. -/
theorem Ring.prev_next (hring : Ring h cells) (hc : c ∈ cells) :
    ∃ node pv, h c.1 = some node ∧ node.prev ∈ cells.map Prod.fst ∧ h node.prev = some pv ∧
      pv.next = c.1 := by
  obtain ⟨xs, ys, rfl⟩ := List.append_of_mem hc
  have hnode := hring.node
  rcases List.eq_nil_or_concat xs with rfl | ⟨xs, d, rfl⟩
  · -- the first cell leads back to the last
    rcases List.eq_nil_or_concat ys with rfl | ⟨ys, d, rfl⟩
    · exact ⟨_, _, hnode, by simp, hnode, rfl⟩
    · rw [List.concat_eq_append] at hring ⊢
      have hlast := Seg.node (c :: ys) d [] hring
      exact ⟨_, _, hnode, by simp [lastOr], by simpa [lastOr] using hlast, rfl⟩
  · have hprev := Seg.node xs d (c :: ys) (by
      rw [← List.concat_append]; exact hring)
    exact ⟨_, _, hnode, by simp, by simpa using hprev, rfl⟩

/-- What is met from a ring's first node is the ring. -/
theorem Ring.reach_iff (hring : Ring h cells) (hne : cells ≠ []) {p : Ptr} :
    Reach h (headOr cells 0) p ↔ p ∈ cells.map Prod.fst := by
  constructor
  · intro hp
    induction hp with
    | refl => exact headOr_mem hne 0
    | next _ hq ih =>
      obtain ⟨c, hc, rfl⟩ := List.mem_map.mp ih
      obtain ⟨node, _, hnode, hmem, -⟩ := hring.next_prev hc
      rw [hq] at hnode
      cases hnode
      exact hmem
  · -- along a segment every cell is met, one after the other
    have along : ∀ (cells : List (Ptr × α)) (before after start : Ptr),
        Seg h before cells after → Reach h start (headOr cells after) →
        ∀ p ∈ cells.map Prod.fst, Reach h start p := by
      intro cells
      induction cells with
      | nil => simp
      | cons c cells ih =>
        intro before after start hseg hstart p hp
        rcases List.mem_cons.mp hp with rfl | hp
        · exact hstart
        · exact ih c.1 after start hseg.2 (hstart.next hseg.1) p hp
    refine along cells _ _ _ hring ?_ p
    rw [headOr_of_ne hne (headOr cells 0) 0]
    exact .refl

end Seg

end UbloxRead.Lib
