/-
UbloxRead.Lib.Access — computations that note the cells they touch.

An `Access ι β α` runs over cells `ι → β` and gives a value, the cells
afterwards, and the list of the cells it loaded from or stored to, in order.
`load` and `store` are the only ways to touch a cell, so the list of a
computation that is written with them is complete by construction. The
lemmas say how `pure`, `bind` and a branch compose, and what a loop of loads
touches.
-/
import Mathlib.Logic.Function.Basic

namespace UbloxRead.Lib

universe u

/-- What a run leaves: a value, the cells, and the cells touched on the way. -/
structure Accessed (ι β α : Type u) where
  value : α
  cells : ι → β
  touched : List ι

/-- A computation over cells that notes which ones it touches. -/
structure Access (ι β α : Type u) where
  run : (ι → β) → Accessed ι β α

namespace Access

variable {ι β α γ σ κ : Type u}

/-- Read one cell. -/
def load (i : ι) : Access ι β β := ⟨fun cells => ⟨cells i, cells, [i]⟩⟩

/-- Write one cell. -/
def store [DecidableEq ι] (i : ι) (b : β) : Access ι β PUnit :=
  ⟨fun cells => ⟨⟨⟩, Function.update cells i b, [i]⟩⟩

instance : Monad (Access ι β) where
  pure a := ⟨fun cells => ⟨a, cells, []⟩⟩
  bind x f := ⟨fun cells =>
    let first := x.run cells
    let second := (f first.value).run first.cells
    ⟨second.value, second.cells, first.touched ++ second.touched⟩⟩

-- `(rfl)` keeps these proper rewrites: as definitional steps they would leave the
-- `Decidable` instances of the branches behind.
@[simp] theorem run_load (i : ι) (cells : ι → β) :
    (load i).run cells = ⟨cells i, cells, [i]⟩ := (rfl)

@[simp] theorem run_store [DecidableEq ι] (i : ι) (b : β) (cells : ι → β) :
    (store i b).run cells = ⟨⟨⟩, Function.update cells i b, [i]⟩ := (rfl)

@[simp] theorem run_pure (a : α) (cells : ι → β) :
    (pure a : Access ι β α).run cells = ⟨a, cells, []⟩ := (rfl)

@[simp] theorem run_bind (x : Access ι β α) (f : α → Access ι β γ) (cells : ι → β) :
    (x >>= f).run cells =
      ⟨((f (x.run cells).value).run (x.run cells).cells).value,
       ((f (x.run cells).value).run (x.run cells).cells).cells,
       (x.run cells).touched ++ ((f (x.run cells).value).run (x.run cells).cells).touched⟩ := (rfl)

@[simp] theorem run_ite (c : Prop) [Decidable c] (x y : Access ι β α) (cells : ι → β) :
    (if c then x else y).run cells = if c then x.run cells else y.run cells := by
  split <;> rfl

/-- **A loop of loads** folds over the cells it reads, changes none of them,
and touches exactly those. -/
theorem run_foldlM_load (f : σ → β → σ) (cell : κ → ι) (cells : ι → β) (ks : List κ) (s : σ) :
    (ks.foldlM (fun s k => do
      let b ← load (cell k)
      return f s b) s : Access ι β σ).run cells
      = ⟨ks.foldl (fun s k => f s (cells (cell k))) s, cells, ks.map cell⟩ := by
  induction ks generalizing s with
  | nil => simp
  | cons k ks ih => simp [ih]

end Access

end UbloxRead.Lib
