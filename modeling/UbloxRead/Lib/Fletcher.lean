/-
UbloxRead.Lib.Fletcher — the running double sum of a list.

`fletcher xs` is the pair of the sum of `xs` and the sum of all its running
sums, over any type that adds. The definition is the loop; `fletcher_eq` is its
closed form, in which the element at place `k` of a list of `n` counts `n - k`
times. What a change of the list does to the sums is read off the closed form:
`fletcher_set` for one element, `fletcher_set_set_eq_iff` for when a change of
two goes unnoticed.
-/
import Mathlib.Algebra.Order.Group.Nat
import Mathlib.Algebra.BigOperators.Group.List.Basic
import Mathlib.Tactic.Abel

namespace UbloxRead.Lib

universe u

section Loop

variable {α : Type u} [Add α] [Zero α]

/-- One step: add the next element, then add the new sum. -/
def fletcherStep (ck : α × α) (x : α) : α × α := (ck.1 + x, ck.2 + (ck.1 + x))

/-- The double sum of a list. -/
def fletcher (xs : List α) : α × α := xs.foldl fletcherStep (0, 0)

end Loop

/-! ## The closed form -/

section ClosedForm

variable {α : Type u} [AddCommGroup α]

/-- The sum in which an element counts once for itself and once for each one
behind it. -/
def weightedSum : List α → α
  | [] => 0
  | x :: xs => (xs.length + 1) • x + weightedSum xs

/-- The loop from any running sums. -/
theorem foldl_fletcherStep (xs : List α) (a b : α) :
    xs.foldl fletcherStep (a, b) = (a + xs.sum, b + xs.length • a + weightedSum xs) := by
  induction xs generalizing a b with
  | nil => simp [weightedSum]
  | cons x xs ih =>
    rw [List.foldl_cons, fletcherStep, ih, Prod.mk.injEq]
    constructor
    · rw [List.sum_cons, add_assoc]
    · rw [weightedSum, List.length_cons, succ_nsmul, succ_nsmul, nsmul_add]
      abel

/-- **The double sum in closed form.** -/
theorem fletcher_eq (xs : List α) : fletcher xs = (xs.sum, weightedSum xs) := by
  rw [fletcher, foldl_fletcherStep]
  simp

/-! ## Changing elements -/

theorem weightedSum_set {xs : List α} {k : Nat} {x : α} (h : xs[k]? = some x) (d : α) :
    weightedSum (xs.set k (x + d)) = weightedSum xs + (xs.length - k) • d := by
  induction xs generalizing k with
  | nil => simp at h
  | cons y xs ih =>
    cases k with
    | zero =>
      have hx : y = x := by simpa using h
      simp only [List.set_cons_zero, weightedSum, List.length_cons, Nat.sub_zero, nsmul_add, hx]
      abel
    | succ k =>
      have hk : xs[k]? = some x := by simpa using h
      simp only [List.set_cons_succ, weightedSum, List.length_set, List.length_cons,
        Nat.add_sub_add_right, ih hk, add_assoc]

theorem sum_set_add {xs : List α} {k : Nat} {x : α} (h : xs[k]? = some x) (d : α) :
    (xs.set k (x + d)).sum = xs.sum + d := by
  induction xs generalizing k with
  | nil => simp at h
  | cons y xs ih =>
    cases k with
    | zero =>
      have hx : y = x := by simpa using h
      simp only [List.set_cons_zero, List.sum_cons, hx]
      abel
    | succ k =>
      have hk : xs[k]? = some x := by simpa using h
      simp only [List.set_cons_succ, List.sum_cons, ih hk, add_assoc]

/-- What a change of one element does to the two sums. -/
theorem fletcher_set {xs : List α} {k : Nat} {x : α} (h : xs[k]? = some x) (d : α) :
    fletcher (xs.set k (x + d))
      = ((fletcher xs).1 + d, (fletcher xs).2 + (xs.length - k) • d) := by
  simp only [fletcher_eq, weightedSum_set h, sum_set_add h]

/-- A change of one element shows in the first sum. -/
theorem fletcher_set_ne {xs : List α} {k : Nat} {x : α} (h : xs[k]? = some x) {d : α}
    (hd : d ≠ 0) : fletcher (xs.set k (x + d)) ≠ fletcher xs := by
  rw [fletcher_set h]
  intro hc
  have := congrArg Prod.fst hc
  exact hd (by simpa using this)

/-- What a change of two elements does to the two sums. -/
theorem fletcher_set_set {xs : List α} {i j : Nat} {x y : α} (hij : i < j) (hi : xs[i]? = some x)
    (hj : xs[j]? = some y) (d e : α) :
    fletcher ((xs.set i (x + d)).set j (y + e))
      = ((fletcher xs).1 + d + e,
        (fletcher xs).2 + (xs.length - i) • d + (xs.length - j) • e) := by
  have hj' : (xs.set i (x + d))[j]? = some y := by
    rw [List.getElem?_set_ne (by omega), hj]
  rw [fletcher_set hj', fletcher_set hi, List.length_set]

/-- **A change of two elements leaves the double sum as it was** exactly when
the two amounts cancel and the distance times the first is nothing. -/
theorem fletcher_set_set_eq_iff {xs : List α} {i j : Nat} {x y : α} (hij : i < j)
    (hi : xs[i]? = some x) (hj : xs[j]? = some y) (d e : α) :
    fletcher ((xs.set i (x + d)).set j (y + e)) = fletcher xs
      ↔ d + e = 0 ∧ (j - i) • d = 0 := by
  have hlt : j < xs.length := (List.getElem?_eq_some_iff.mp hj).1
  have hsplit : (xs.length - i) • d = (xs.length - j) • d + (j - i) • d := by
    rw [← add_nsmul]
    congr 1
    omega
  rw [fletcher_set_set hij hi hj, Prod.ext_iff]
  simp only [add_assoc, add_eq_left]
  constructor
  · rintro ⟨h1, h2⟩
    refine ⟨h1, ?_⟩
    rw [hsplit, add_right_comm, ← nsmul_add, h1, nsmul_zero, zero_add] at h2
    exact h2
  · rintro ⟨h1, h2⟩
    refine ⟨h1, ?_⟩
    rw [hsplit, add_right_comm, ← nsmul_add, h1, nsmul_zero, zero_add, h2]

end ClosedForm

end UbloxRead.Lib
