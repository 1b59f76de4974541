/-
UbloxRead.Lib.Window — lists of cells read off an indexed memory.

`slice mem start n` is the `n` cells from `start` on; `window mem cap start n`
is the `n` cells met going round a store of `cap` cells from `start`. A circular
buffer's contents are a window, and every fact its operations need is about
how windows split (`window_add`, `drop_window`) and what a write beyond their
end does to them (`window_of_stored`). Positions are not kept below `cap`:
`start` may be `cap` itself, which is the same place as `0`.
-/
import Mathlib.Data.List.Basic
import Mathlib.Data.List.Range
import Mathlib.Logic.Function.Basic

namespace UbloxRead.Lib

universe u

variable {α : Type u}

/-! ## Slices -/

/-- The `n` cells of `mem` from `start` on. -/
def slice (mem : Nat → α) (start n : Nat) : List α :=
  (List.range n).map fun k => mem (start + k)

@[simp] theorem length_slice (mem : Nat → α) (start n : Nat) : (slice mem start n).length = n := by
  simp [slice]

@[simp] theorem getElem_slice (mem : Nat → α) (start n k : Nat) (h : k < (slice mem start n).length) :
    (slice mem start n)[k] = mem (start + k) := by
  simp [slice]

theorem getElem?_slice (mem : Nat → α) (start : Nat) {n k : Nat} (h : k < n) :
    (slice mem start n)[k]? = some (mem (start + k)) := by
  simp [slice, h]

/-- Two slices are equal when their cells are. -/
theorem slice_congr {mem mem' : Nat → α} {start start' n : Nat}
    (h : ∀ k, k < n → mem (start + k) = mem' (start' + k)) :
    slice mem start n = slice mem' start' n :=
  List.map_congr_left fun k hk => h k (List.mem_range.mp hk)

/-- Equal slices have equal cells. -/
theorem slice_inj {mem mem' : Nat → α} {start start' n : Nat}
    (h : slice mem start n = slice mem' start' n) {k : Nat} (hk : k < n) :
    mem (start + k) = mem' (start' + k) := by
  have := congrArg (·[k]?) h
  simpa [getElem?_slice, hk] using this

theorem slice_add (mem : Nat → α) (start m n : Nat) :
    slice mem start (m + n) = slice mem start m ++ slice mem (start + m) n := by
  simp [slice, List.range_add, Function.comp_def, Nat.add_assoc]

theorem slice_succ (mem : Nat → α) (start n : Nat) :
    slice mem start (n + 1) = mem start :: slice mem (start + 1) n := by
  rw [Nat.add_comm n 1, slice_add]
  simp [slice]

theorem take_slice (mem : Nat → α) (start : Nat) {m n : Nat} (h : m ≤ n) :
    (slice mem start n).take m = slice mem start m := by
  obtain ⟨r, rfl⟩ := Nat.exists_eq_add_of_le h
  rw [slice_add, List.take_left' (length_slice ..)]

theorem drop_slice (mem : Nat → α) (start : Nat) {m n : Nat} (h : m ≤ n) :
    (slice mem start n).drop m = slice mem (start + m) (n - m) := by
  obtain ⟨r, rfl⟩ := Nat.exists_eq_add_of_le h
  rw [slice_add, List.drop_left' (length_slice ..), Nat.add_sub_cancel_left]

/-- A list is laid down at `start` when its two parts are, one behind the
other. -/
theorem slice_eq_append_iff {mem : Nat → α} {start : Nat} {as bs : List α} :
    slice mem start (as ++ bs).length = as ++ bs ↔
      slice mem start as.length = as ∧ slice mem (start + as.length) bs.length = bs := by
  rw [List.length_append, slice_add]
  constructor
  · intro h
    exact List.append_inj h (length_slice ..)
  · rintro ⟨h1, h2⟩
    rw [h1, h2]

/-- Reading a slice of a shifted memory. -/
theorem slice_shift (mem : Nat → α) (base start n : Nat) :
    slice (fun k => mem (base + k)) start n = slice mem (base + start) n := by
  simp [slice, Nat.add_assoc]

/-- Writing a cell at or behind the start of a slice. -/
theorem slice_update (mem : Nat → α) (start n k : Nat) (v : α) :
    slice (Function.update mem (start + k) v) start n = (slice mem start n).set k v := by
  apply List.ext_getElem
  · simp
  · intro i h1 h2
    rw [getElem_slice, List.getElem_set]
    split
    · next h => rw [h, Function.update_self]
    · next h => rw [Function.update_of_ne (by omega), getElem_slice]

/-- Writing a cell outside a slice. -/
theorem slice_update_outside (mem : Nat → α) (start : Nat) {n p : Nat}
    (hp : p < start ∨ start + n ≤ p) (v : α) :
    slice (Function.update mem p v) start n = slice mem start n :=
  slice_congr fun _ _ => Function.update_of_ne (by omega) ..

/-! ## Windows -/

/-- The `n` cells met going round a store of `cap` cells from `start`. -/
def window (mem : Nat → α) (cap start n : Nat) : List α :=
  (List.range n).map fun k => mem ((start + k) % cap)

@[simp] theorem length_window (mem : Nat → α) (cap start n : Nat) :
    (window mem cap start n).length = n := by
  simp [window]

theorem window_congr {mem mem' : Nat → α} {cap start start' n : Nat}
    (h : ∀ k, k < n → mem ((start + k) % cap) = mem' ((start' + k) % cap)) :
    window mem cap start n = window mem' cap start' n :=
  List.map_congr_left fun k hk => h k (List.mem_range.mp hk)

/-- A window and the one after it make the longer window. -/
theorem window_add (mem : Nat → α) (cap start m n : Nat) :
    window mem cap start (m + n) = window mem cap start m ++ window mem cap (start + m) n := by
  simp [window, List.range_add, Function.comp_def, Nat.add_assoc]

theorem drop_window (mem : Nat → α) (cap start : Nat) {m n : Nat} (h : m ≤ n) :
    (window mem cap start n).drop m = window mem cap (start + m) (n - m) := by
  obtain ⟨r, rfl⟩ := Nat.exists_eq_add_of_le h
  rw [window_add, List.drop_left' (length_window ..), Nat.add_sub_cancel_left]

/-- A window depends on its start only modulo the capacity. -/
theorem window_start_mod (mem : Nat → α) {cap start start' : Nat} (n : Nat)
    (h : start % cap = start' % cap) : window mem cap start n = window mem cap start' n := by
  refine window_congr fun k _ => ?_
  rw [Nat.add_mod, h, ← Nat.add_mod]

/-- `mem'` is `mem` with the first `n` cells of `src` laid down going round
from `start`. Nothing is said of how the copy was split. -/
structure Stored (cap : Nat) (mem mem' : Nat → α) (start : Nat) (src : Nat → α) (n : Nat) : Prop where
  laid : ∀ k, k < n → mem' ((start + k) % cap) = src k
  kept : ∀ i, (∀ k, k < n → (start + k) % cap ≠ i) → mem' i = mem i

/-- Two places going round from `r`, less than one turn apart, differ. -/
theorem add_mod_ne_add_mod {cap r j k : Nat} (hj : j < k) (hk : k < j + cap) :
    (r + j) % cap ≠ (r + k) % cap := by
  intro h
  have hdvd : cap ∣ r + k - (r + j) :=
    Nat.dvd_of_mod_eq_zero (Nat.sub_mod_eq_zero_of_mod_eq h.symm)
  have := Nat.le_of_dvd (by omega) hdvd
  omega

/-- **Laying `n` cells down behind a window makes the window that much longer**
and keeps the cells it had, as long as the two fit in the store together. -/
theorem window_of_stored {cap fill r w n : Nat} {mem mem' src : Nat → α}
    (hst : Stored cap mem mem' w src n) (hw : (r + fill) % cap = w % cap)
    (hfit : fill + n ≤ cap) :
    window mem' cap r (fill + n) = window mem cap r fill ++ slice src 0 n := by
  have hplace : ∀ k, (w + k) % cap = (r + (fill + k)) % cap := by
    intro k
    rw [Nat.add_mod, ← hw, ← Nat.add_mod, Nat.add_assoc]
  rw [window_add]
  congr 1
  · refine window_congr fun j hj => hst.kept _ fun k hk => ?_
    rw [hplace]
    exact (add_mod_ne_add_mod (by omega) (by omega)).symm
  · refine List.map_congr_left fun k hk => ?_
    have := hst.laid k (List.mem_range.mp hk)
    rw [hplace, ← Nat.add_assoc] at this
    simpa using this

end UbloxRead.Lib
