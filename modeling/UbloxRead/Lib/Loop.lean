/-
UbloxRead.Lib.Loop — the two loops of a C program, and their total-correctness
rules.

`whileLoop body` repeats `body` until it gives `none`; the fuel bounds the
number of rounds, and `none` as a RESULT means the fuel ran out.
`whileLoop_total` says when it does not: an invariant, and a variant that
every round lowers. `whileStates` are the states that the rounds of the loop
start in. `forLoop n body` runs `body 0`, …, `body (n - 1)`; `none`
means a round had no outcome. `boundedLoop max n body` is the same loop with a
counter that has no value above `max`.
-/
import Mathlib.Data.List.Range

namespace UbloxRead.Lib

universe u

variable {σ : Type u}

/-! ## While loops -/

/-- Repeat `body` until it gives `none`, for at most `fuel` tests of it. -/
def whileLoop (body : σ → Option σ) : Nat → σ → Option σ
  | 0, _ => none
  | fuel + 1, s =>
      match body s with
      | none => some s
      | some t => whileLoop body fuel t

/-- **While rule.** Under an invariant and a variant the loop ends, within any
fuel above the variant, in a state that has the invariant and leaves the loop. -/
theorem whileLoop_total {body : σ → Option σ} (Inv : σ → Prop) (variant : σ → Nat)
    (hbody : ∀ s t, Inv s → body s = some t → Inv t ∧ variant t < variant s) {fuel : Nat} {s : σ}
    (h0 : Inv s) (hfuel : variant s < fuel) :
    ∃ t, whileLoop body fuel s = some t ∧ Inv t ∧ body t = none := by
  induction fuel generalizing s with
  | zero => omega
  | succ fuel ih =>
    unfold whileLoop
    cases hb : body s with
    | none => exact ⟨s, rfl, h0, hb⟩
    | some t =>
      obtain ⟨hinv, hlt⟩ := hbody s t h0 hb
      exact ih hinv (by omega)

/-- The outcome of a loop that ended does not depend on the fuel. -/
theorem whileLoop_mono {body : σ → Option σ} {m n : Nat} {s t : σ} (hmn : m ≤ n)
    (h : whileLoop body m s = some t) : whileLoop body n s = some t := by
  induction m generalizing n s with
  | zero => cases h
  | succ m ih =>
    obtain ⟨n, rfl⟩ : ∃ k, n = k + 1 := ⟨n - 1, by omega⟩
    unfold whileLoop at h ⊢
    cases hb : body s with
    | none => simpa [hb] using h
    | some u =>
      simp only [hb] at h
      exact ih (by omega) h

/-- The states that the rounds of a loop start in, in order. -/
def whileStates (body : σ → Option σ) : Nat → σ → List σ
  | 0, _ => []
  | fuel + 1, s =>
      match body s with
      | none => []
      | some t => s :: whileStates body fuel t

theorem whileStates_exit {body : σ → Option σ} {s : σ} (h : body s = none) (fuel : Nat) :
    whileStates body fuel s = [] := by
  cases fuel with
  | zero => rfl
  | succ fuel => simp [whileStates, h]

theorem whileStates_round {body : σ → Option σ} {s t : σ} (h : body s = some t) (fuel : Nat) :
    whileStates body (fuel + 1) s = s :: whileStates body fuel t := by
  simp [whileStates, h]

/-- What every round keeps holds in every state that a round starts in. -/
theorem whileStates_inv {body : σ → Option σ} (Inv : σ → Prop)
    (hbody : ∀ s t, Inv s → body s = some t → Inv t) {fuel : Nat} {s : σ} (h0 : Inv s) :
    ∀ t ∈ whileStates body fuel s, Inv t := by
  induction fuel generalizing s with
  | zero => simp [whileStates]
  | succ fuel ih =>
    cases hb : body s with
    | none => simp [whileStates_exit hb]
    | some t =>
      rw [whileStates_round hb]
      simp only [List.mem_cons, forall_eq_or_imp]
      exact ⟨h0, ih (hbody s t h0 hb)⟩

/-! ## Counted loops -/

/-- Run `body 0`, …, `body (n - 1)` one after the other. -/
def forLoop (n : Nat) (body : Nat → σ → Option σ) (s : σ) : Option σ :=
  (List.range n).foldlM (fun s i => body i s) s

theorem forLoop_succ (n : Nat) (body : Nat → σ → Option σ) (s : σ) :
    forLoop (n + 1) body s = (forLoop n body s).bind (body n) := by
  simp [forLoop, List.range_succ, List.foldlM_append]

/-- **For rule.** What holds before the first round and is carried from each
round to the next holds after the last, and every round has an outcome. -/
theorem forLoop_total {n : Nat} (body : Nat → σ → Option σ) (Inv : Nat → σ → Prop)
    (hbody : ∀ i s, i < n → Inv i s → ∃ t, body i s = some t ∧ Inv (i + 1) t) {s : σ}
    (h0 : Inv 0 s) : ∃ t, forLoop n body s = some t ∧ Inv n t := by
  have gen : ∀ k, k ≤ n → ∃ t, forLoop k body s = some t ∧ Inv k t := by
    intro k
    induction k with
    | zero => exact fun _ => ⟨s, rfl, h0⟩
    | succ k ih =>
      intro hk
      obtain ⟨t, hloop, hinv⟩ := ih (by omega)
      obtain ⟨u, hstep, hinv'⟩ := hbody k t (by omega) hinv
      exact ⟨u, by rw [forLoop_succ, hloop]; exact hstep, hinv'⟩
  exact gen n le_rfl

/-- `for (i = 0; i < n; i++)` where `i` has no value above `max`: the increment there
has no outcome. -/
def boundedLoop (max n : Nat) (body : Nat → σ → Option σ) (s : σ) : Option σ :=
  forLoop n (fun i s => (body i s).bind fun t => if i = max then none else some t) s

/-- Where the counter has room for all rounds its bound does not show. -/
theorem boundedLoop_eq {max n : Nat} (h : n ≤ max) (body : Nat → σ → Option σ) (s : σ) :
    boundedLoop max n body s = forLoop n body s := by
  have gen : ∀ k, k ≤ n → boundedLoop max k body s = forLoop k body s := by
    intro k
    induction k with
    | zero => exact fun _ => rfl
    | succ k ih =>
      intro hk
      have hne : k ≠ max := by omega
      rw [forLoop_succ, ← ih (by omega), boundedLoop, forLoop_succ]
      simp only [hne, if_false, Option.bind_fun_some]
      rfl
  exact gen n le_rfl

/-- Where it has not, the loop has no outcome. -/
theorem boundedLoop_overflow {max n : Nat} (h : max < n) (body : Nat → σ → Option σ) (s : σ) :
    boundedLoop max n body s = none := by
  obtain ⟨k, rfl⟩ : ∃ k, n = max + 1 + k := ⟨n - (max + 1), by omega⟩
  induction k with
  | zero =>
    rw [boundedLoop, Nat.add_zero, forLoop_succ]
    simp
  | succ k ih =>
    rw [boundedLoop, ← Nat.add_assoc, forLoop_succ]
    exact congrArg (Option.bind · _) (ih (by omega))

end UbloxRead.Lib
