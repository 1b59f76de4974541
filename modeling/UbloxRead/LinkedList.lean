/-
UbloxRead.LinkedList — `list.c`: the circular doubly linked list behind the
transmit queue.

Each operation runs under the list's mutex, so it is one atomic step on the
heap of nodes. A step has no outcome when it would use a node that is not live.
`malloc` is outside the list: an insertion is given the address it returned.
What `free_func` and `do_func` do with the data is outside, too: an operation
reports the data pointers it passed to them, in order.

The code counts the nodes with 32 bits: `llist->size` is an `unsigned int`, `size`
returns an `int`, and the loops have an `int` for their counter. The functions are
written over the type of the counter. `LList UInt32` is `struct llist`; `LList`
alone counts without end, as the lists do that never grow long. `LList.counted`
goes from the one to the other, and `CountOk` says what calls they agree on.
-/
import UbloxRead.Lib.DList
import UbloxRead.Lib.Loop
import UbloxRead.Lib.Run
import UbloxRead.Memory

namespace UbloxRead

open Lib

def NULL : Ptr := 0

/-- `struct llist`, without its mutex, and the nodes it is made of; `N` is the type
of `size`. -/
structure LList (N : Type := Nat) where
  heap : Heap Ptr
  head : Ptr
  size : N

/-- How a counter is read. -/
class Counter (N : Type) where
  /-- The number that `i` is compared with in `i < llist->size`. -/
  toNat : N → Nat
  /-- The conversion to `int`. -/
  toInt : N → Int
  /-- `for(int i=0; i < llist->size; i++)`. -/
  loop {σ : Type} : N → (Nat → σ → Option σ) → σ → Option σ

/-- Counting without end. -/
instance : Counter Nat where
  toNat n := n
  toInt n := n
  loop := forLoop

@[simp] theorem toNat_nat (n : Nat) : Counter.toNat n = n := rfl
@[simp] theorem toInt_nat (n : Nat) : Counter.toInt n = n := rfl
@[simp] theorem loop_nat {σ : Type} (n : Nat) (body : Nat → σ → Option σ) :
    Counter.loop n body = forLoop n body := rfl

/-- `unsigned int`, and `int` for what it is converted to and counts the rounds. The
conversion of a number above `INT_MAX` wraps around. -/
instance : Counter UInt32 where
  toNat n := n.toNat
  toInt n := n.toInt32.toInt
  loop n := boundedLoop INT_MAX.toNat n.toNat

variable {N : Type} [OfNat N 0] [OfNat N 1] [Add N] [Sub N] [DecidableEq N] [Counter N]

/-- `create_list`, whatever else lives on the heap. -/
def createList (heap : Heap Ptr) : LList N where
  heap := heap
  head := NULL
  size := 0

/-! ## Insertion -/

/-- `create_node`; `n` is what `malloc` returned. -/
def createNode (heap : Heap Ptr) (n data : Ptr) : Option (Heap Ptr) :=
  if n = NULL then none else some (heap.put n { prev := NULL, next := NULL, data := data })

/-- The `else` branch that `push_front` and `push_back` share: link `n` in
between the last node and the first. -/
def linkNode (heap : Heap Ptr) (llistHead n : Ptr) : Option (Heap Ptr) := do
  let head ← heap llistHead
  let prev := head.prev
  let heap ← heap.setNext n llistHead
  let head ← heap llistHead
  let heap ← heap.setPrev n head.prev
  let heap ← heap.setPrev llistHead n
  heap.setNext prev n

/-- `push_front`. -/
def pushFront (l : LList N) (n data : Ptr) : Option (LList N) := do
  let heap ← createNode l.heap n data
  if l.size = 0 then
    let heap ← heap.setNext n n
    let heap ← heap.setPrev n n
    some { heap := heap, head := n, size := l.size + 1 }
  else
    let heap ← linkNode heap l.head n
    some { heap := heap, head := n, size := l.size + 1 }

/-- `push_back`. -/
def pushBack (l : LList N) (n data : Ptr) : Option (LList N) := do
  let heap ← createNode l.heap n data
  if l.size = 0 then
    let heap ← heap.setNext n n
    let heap ← heap.setPrev n n
    some { heap := heap, head := n, size := l.size + 1 }
  else
    let heap ← linkNode heap l.head n
    some { heap := heap, head := l.head, size := l.size + 1 }

/-! ## Removal -/

/-- The result of a call: what it returned and what it passed on. -/
structure ListAnswer where
  ret : Int := 0
  ptr : Ptr := NULL
  passed : List Ptr := []
  deriving DecidableEq, Repr

/-- `remove_front`. -/
def removeFront (l : LList N) : Option (LList N × ListAnswer) :=
  if l.size = 0 then some (l, { ret := -1 })
  else do
    let (heap, llistHead) ←
      if l.size = 1 then some (l.heap, NULL)
      else do
        let head ← l.heap l.head
        let heap ← l.heap.setPrev head.next head.prev
        let heap ← heap.setNext head.prev head.next
        some (heap, head.next)
    let data := (← heap l.head).data
    let heap ← heap.free l.head
    some ({ heap := heap, head := llistHead, size := l.size - 1 },
      { ret := 0, passed := [data] })

/-- `remove_back`. -/
def removeBack (l : LList N) : Option (LList N × ListAnswer) :=
  if l.size = 0 then some (l, { ret := -1 })
  else do
    let head ← l.heap l.head
    let tbr ← l.heap head.prev
    let (heap, llistHead) ←
      if l.size = 1 then some (l.heap, NULL)
      else do
        let heap ← l.heap.setPrev l.head tbr.prev
        let heap ← heap.setNext tbr.prev l.head
        some (heap, l.head)
    let data := (← heap head.prev).data
    let heap ← heap.free head.prev
    some ({ heap := heap, head := llistHead, size := l.size - 1 },
      { ret := 0, passed := [data] })

/-- The variables of the loop in `empty_list`. -/
structure EmptyState where
  heap : Heap Ptr
  current : Ptr
  next : Ptr
  passed : List Ptr

/-- The body of the loop in `empty_list`. There is a node, so `size - 1` does not
wrap around. -/
def emptyBody (size i : Nat) (s : EmptyState) : Option EmptyState := do
  let current ← s.heap s.current
  let heap ← s.heap.free s.current
  let next ← if i < size - 1 then (heap s.next).map DNode.next else some s.next
  some { heap := heap, current := s.next, next := next, passed := s.passed ++ [current.data] }

/-- `empty_list`. -/
def emptyList (l : LList N) : Option (LList N × ListAnswer) :=
  if l.size = 0 then some (l, {})
  else do
    let current ← l.heap l.head
    let s ← Counter.loop l.size (emptyBody (Counter.toNat l.size))
      { heap := l.heap, current := l.head, next := current.next, passed := [] }
    some ({ heap := s.heap, head := NULL, size := 0 }, { passed := s.passed })

/-! ## Queries -/

/-- `front`. -/
def front (l : LList N) : Option Ptr :=
  if l.size ≠ 0 then (l.heap l.head).map DNode.data else some NULL

/-- `back`. -/
def back (l : LList N) : Option Ptr :=
  if l.size = 0 then some NULL
  else do
    let head ← l.heap l.head
    let last ← l.heap head.prev
    some last.data

/-- `is_empty`. -/
def isEmpty (l : LList N) : Int := if l.size = 0 ∧ l.head = NULL then 1 else 0

/-- `size`, up to the conversion to `int`. -/
def size (l : LList N) : N := l.size

/-- `traverse`: the data pointers passed to `do_func`. -/
def traverse (l : LList N) : Option (List Ptr) :=
  (Counter.loop l.size (fun _ (s : Ptr × List Ptr) =>
    (l.heap s.1).map fun current => (current.next, s.2 ++ [current.data])) (l.head, [])).map Prod.snd

/-! ## The list as a machine -/

/-- A call on the list. `n` is the address that `malloc` returns inside it. -/
inductive ListCall where
  | pushFront (n data : Ptr)
  | pushBack (n data : Ptr)
  | removeFront
  | removeBack
  | emptyList
  | front
  | back
  | isEmpty
  | size
  | traverse
  deriving DecidableEq, Repr

def listMachine : Machine (LList N) ListCall ListAnswer
  | l, .pushFront n data => (pushFront l n data).map fun l => (l, {})
  | l, .pushBack n data => (pushBack l n data).map fun l => (l, {})
  | l, .removeFront => removeFront l
  | l, .removeBack => removeBack l
  | l, .emptyList => emptyList l
  | l, .front => (front l).map fun p => (l, { ptr := p })
  | l, .back => (back l).map fun p => (l, { ptr := p })
  | l, .isEmpty => some (l, { ret := isEmpty l })
  | l, .size => some (l, { ret := Counter.toInt (size l) })
  | l, .traverse => (traverse l).map fun passed => (l, { passed := passed })

/-- `malloc` succeeds: the address is not NULL, and no node lives there. -/
def MallocOk (l : LList N) : ListCall → Prop
  | .pushFront n _ => n ≠ NULL ∧ l.heap n = none
  | .pushBack n _ => n ≠ NULL ∧ l.heap n = none
  | _ => True

/-! ## Counting with 32 bits -/

/-- The list with its nodes counted without end. -/
def LList.counted (l : LList UInt32) : LList where
  heap := l.heap
  head := l.head
  size := l.size.toNat

/-- The counters have room: a push finds fewer than `UINT_MAX` nodes, and the calls
that return the count, or go through the list, find at most `INT_MAX`. -/
def CountOk (l : LList UInt32) : ListCall → Prop
  | .pushFront _ _ => l.size.toNat < UINT_MAX
  | .pushBack _ _ => l.size.toNat < UINT_MAX
  | .emptyList => l.size.toNat ≤ INT_MAX
  | .size => l.size.toNat ≤ INT_MAX
  | .traverse => l.size.toNat ≤ INT_MAX
  | _ => True

/-! ## What the list is for -/

/-- A double-ended sequence of data pointers: the purpose of the list. -/
def dequeCall (q : List Ptr) : ListCall → List Ptr × ListAnswer
  | .pushFront _ data => (data :: q, {})
  | .pushBack _ data => (q ++ [data], {})
  | .removeFront =>
      match q with
      | [] => ([], { ret := -1 })
      | data :: q => (q, { ret := 0, passed := [data] })
  | .removeBack =>
      match q.getLast? with
      | none => (q, { ret := -1 })
      | some data => (q.dropLast, { ret := 0, passed := [data] })
  | .emptyList => ([], { passed := q })
  | .front => (q, { ptr := q.head?.getD NULL })
  | .back => (q, { ptr := q.getLast?.getD NULL })
  | .isEmpty => (q, { ret := if q = [] then 1 else 0 })
  | .size => (q, { ret := q.length })
  | .traverse => (q, { passed := q })

def dequeMachine : Machine (List Ptr) ListCall ListAnswer := fun q c => some (dequeCall q c)

/-- The list holds the sequence `q`: following `next` from `head` for `size`
nodes meets distinct nodes with the data `q` and leads back to `head`, nothing
else is met from there, `prev` and `next` undo each other on them, and `head` is
NULL exactly when the list is empty. -/
structure HoldsSequence (l : LList) (q : List Ptr) : Prop where
  cycle : ∃ cells, walk l.heap l.size l.head = some (cells, l.head) ∧
    (cells.map Prod.fst).Nodup ∧ cells.map Prod.snd = q ∧ cells.length = l.size ∧
    (0 < l.size → ∀ p, Reach l.heap l.head p ↔ p ∈ cells.map Prod.fst) ∧
    ∀ p ∈ cells.map Prod.fst, ∃ node nx pv, l.heap p = some node ∧
      l.heap node.next = some nx ∧ nx.prev = p ∧ l.heap node.prev = some pv ∧ pv.next = p
  head_null : l.head = NULL ↔ l.size = 0

end UbloxRead
