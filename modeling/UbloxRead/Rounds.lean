/-
UbloxRead.Rounds — the conversation that `control_f` holds with the receiver.

The frames a round takes decide the flags, and the flags decide which round
comes next and what it polls for. A `Turn` is the kind of a round and the flags
at its start; `Turn.next` is the one rule. From the rounds alone `polled` is what
was polled for so far: the purpose of `control_f`'s loop, without its threads and
buffers.
-/
import UbloxRead.Control
import UbloxRead.UbxCommands
import UbloxRead.UbxAckTheorems

namespace UbloxRead

open Lib

/-- The frames that a round took. -/
def Round.accepted (r : Round) : List UbxFrame := r.taken.map fun f => frameAt r.scratchpad f.pos

/-- The flags after the frames of a round. -/
def Round.update (r : Round) (chk : MsgStrmCheck) : MsgStrmCheck :=
  updateAll (r.accepted.map UbxFrame.alone) chk

/-- All frames of successive rounds. -/
def acceptedFrames (rounds : List Round) : List UbxFrame := rounds.flatMap Round.accepted

/-- A round and the flags at its start. -/
structure Turn where
  kind : RoundKind
  chk : MsgStrmCheck

/-- The round behind the test of the `for` loop with this `j`: one more for what
is missing, at most three in a row, or the next one for everything. -/
def kindAt (j : Nat) (chk : MsgStrmCheck) : RoundKind :=
  if j < 3 ∧ areThereMissingMessages chk ≠ 0 then .missing j else .aid

namespace Turn

/-- The first round asks for everything, with no flag set. -/
def first : Turn := { kind := .aid, chk := .zero }

/-- What a round polls for. -/
def polls (turn : Turn) : List MsgCall :=
  match turn.kind with
  | .aid => aidPolls
  | .missing _ => missingPolls turn.chk

/-- The round after a round with the frames `r`. -/
def next (turn : Turn) (r : Round) : Turn where
  kind := kindAt turn.kind.next (r.update turn.chk)
  chk := r.update turn.chk

/-- The round after some rounds. -/
def after (turn : Turn) (rounds : List Round) : Turn := rounds.foldl next turn

end Turn

/-- What successive rounds polled for. -/
def polled : Turn → List Round → List MsgCall
  | _, [] => []
  | turn, r :: rounds => turn.polls ++ polled (turn.next r) rounds

/-- The kind of the round with number `i`, when every round finds something
missing: one round for everything and three for what is missing, over and
over. -/
def fullCycle (i : Nat) : RoundKind := if i % 4 = 0 then .aid else .missing (i % 4 - 1)

/-- The round that `control_f` is in or comes to next. -/
def ControlPc.kind (chk : MsgStrmCheck) : ControlPc → RoundKind
  | .silence => .aid
  | .poll kind => kind
  | .read kind _ => kind
  | .check j => kindAt j chk

/-- A frame answers a poll: the same class and id and, where the poll names a
satellite, the same first payload byte. -/
def UbxFrame.Answers (f poll : UbxFrame) : Prop :=
  f.msgClass = poll.msgClass ∧ f.msgId = poll.msgId ∧
    ∀ b ∈ poll.payload.head?, f.payload.head? = some b

end UbloxRead
