/-
UbloxRead.Lib.Progress — counting in a run: how far apart two answers are, and
how long an answer can be put off.

Both rules keep a number in the state. A credit is how many ticks there must
have been since the last mark, and `Machine.run_spaced` reads off it that two
marks are so many ticks apart. Work is how many ticks are still needed, and
`Machine.run_finishes` reads off it that after so many the run has given the
answer it works for. Where different kinds of calls are needed at different times,
`Machine.run_finishes_laps` counts laps, each with a call of every kind.
-/
import UbloxRead.Lib.Run
import Mathlib.Data.List.Count

namespace UbloxRead.Lib

universe u v w

/-- Between two marks there are at least `n` ticks. -/
def Spaced {ω : Type w} (mark tick : ω → Bool) (n : Nat) (os : List ω) : Prop :=
  ∀ before o between o' after, os = before ++ o :: (between ++ o' :: after) → mark o → mark o' →
    n ≤ between.countP tick

/-- Behind every mark there are at least `n` ticks. -/
def Rested {ω : Type w} (mark tick : ω → Bool) (n : Nat) (os : List ω) : Prop :=
  ∀ before o between, os = before ++ o :: between → mark o → n ≤ between.countP tick

section
variable {ω : Type w} {mark tick : ω → Bool} {n k : Nat} {os : List ω} {o : ω}

theorem Rested.mono (h : Rested mark tick n os) (hle : k ≤ n) : Rested mark tick k os :=
  fun before o between heq hmark => Nat.le_trans hle (h before o between heq hmark)

/-- One more answer is one more tick, if it is one. -/
theorem Rested.concat (h : Rested mark tick n os) (hmark : mark o = false) :
    Rested mark tick (n + if tick o then 1 else 0) (os ++ [o]) := by
  intro before m between heq hm
  rcases List.eq_nil_or_concat between with rfl | ⟨front, last, rfl⟩
  · -- the last answer is no mark
    obtain ⟨-, hlast⟩ := List.append_inj' heq rfl
    cases hlast
    rw [hmark] at hm
    cases hm
  · rw [List.concat_eq_append, ← List.cons_append, ← List.append_assoc] at heq
    obtain ⟨hos, hlast⟩ := List.append_inj' heq rfl
    cases hlast
    have := h before m front hos hm
    rw [List.concat_eq_append, List.countP_append, List.countP_singleton]
    omega

/-- Behind the last answer there is nothing yet. -/
theorem rested_zero : Rested mark tick 0 os := fun _ _ _ _ _ => Nat.zero_le _

/-- An answer that is no mark leaves the marks as they are. -/
theorem Spaced.concat (h : Spaced mark tick n os) (hmark : mark o → Rested mark tick n os) :
    Spaced mark tick n (os ++ [o]) := by
  intro before m between m' after heq hm hm'
  rcases List.eq_nil_or_concat after with rfl | ⟨front, last, rfl⟩
  · rw [← List.cons_append, ← List.append_assoc] at heq
    obtain ⟨hos, hlast⟩ := List.append_inj' heq rfl
    cases hlast
    exact hmark hm' before m between hos hm
  · have hsplit : os ++ [o] = (before ++ m :: (between ++ m' :: front)) ++ [last] := by
      rw [heq, List.concat_eq_append]
      simp
    obtain ⟨hos, -⟩ := List.append_inj' hsplit rfl
    exact h before m between m' front hos hm hm'

end

namespace Machine

variable {σ : Type u} {ι : Type v} {ω : Type w}

/-- **Spacing rule.** When a mark is given only on a credit of `n`, and leaves
none, and any other step adds to the credit no more than its tick, then two
marks of a run are at least `n` ticks apart. -/
theorem run_spaced {m : Machine σ ι ω} (Inv : σ → Prop) (mark tick : ω → Bool) (credit : σ → Nat)
    (n : Nat)
    (hstep : ∀ s i t o, Inv s → m s i = some (t, o) → Inv t ∧
      if mark o then n ≤ credit s ∧ credit t = 0
      else credit t ≤ credit s + if tick o then 1 else 0)
    {s t : σ} {is : List ι} {os : List ω} (h0 : Inv s) (hrun : run m s is = some (t, os)) :
    Spaced mark tick n os := by
  have hall : Inv t ∧ Rested mark tick (credit t) os ∧ Spaced mark tick n os := by
    refine run_history (fun t _ os => Inv t ∧ Rested mark tick (credit t) os ∧ Spaced mark tick n os)
      (fun s is os i t o h hone => ?_) ⟨h0, ?_, ?_⟩ hrun
    · obtain ⟨hinv, hrested, hspaced⟩ := h
      obtain ⟨hinv', hcredit⟩ := hstep s i t o hinv hone
      refine ⟨hinv', ?_⟩
      cases hmark : mark o with
      | true =>
        rw [hmark, if_pos rfl] at hcredit
        obtain ⟨henough, hnone⟩ := hcredit
        refine ⟨?_, hspaced.concat fun _ => hrested.mono henough⟩
        rw [hnone]
        exact rested_zero
      | false =>
        rw [hmark, if_neg Bool.false_ne_true] at hcredit
        refine ⟨(hrested.concat hmark).mono hcredit, hspaced.concat fun h => ?_⟩
        rw [hmark] at h
        cases h
    · intro before o between heq _
      cases (List.append_eq_nil_iff.mp heq.symm).2
    · intro before o between o' after heq _ _
      cases (List.append_eq_nil_iff.mp heq.symm).2
  exact hall.2.2

/-- **Progress rule.** When every step, of those that give a `good` answer, gives
the one worked for, or leaves no more work than before and less on a tick, then
after a run of `is` that answer has been given, or as much work is done as `is`
has ticks. -/
theorem run_finishes {m : Machine σ ι ω} (Inv : σ → Prop) (good done : ω → Prop) (tick : ι → Bool)
    (work : σ → Nat)
    (hstep : ∀ s i t o, Inv s → m s i = some (t, o) → good o →
      done o ∨ Inv t ∧ work t ≤ work s - if tick i then 1 else 0)
    {s t : σ} {is : List ι} {os : List ω} (h0 : Inv s) (hrun : run m s is = some (t, os))
    (hgood : ∀ o ∈ os, good o) :
    (∃ o ∈ os, done o) ∨ Inv t ∧ work t ≤ work s - is.countP tick := by
  induction is generalizing s os with
  | nil =>
    cases hrun
    exact Or.inr ⟨h0, Nat.le_refl _⟩
  | cons i is ih =>
    obtain ⟨u, o, os', hone, hrest, rfl⟩ := run_cons_eq_some.mp hrun
    obtain ⟨ho, hos⟩ := List.forall_mem_cons.mp hgood
    rcases hstep s i u o h0 hone ho with hdone | ⟨hinv, hwork⟩
    · exact Or.inl ⟨o, List.mem_cons_self .., hdone⟩
    · rcases ih hinv hrest hos with ⟨p, hp, hdone⟩ | ⟨hinv', hwork'⟩
      · exact Or.inl ⟨p, List.mem_cons_of_mem _ hp, hdone⟩
      · refine Or.inr ⟨hinv', ?_⟩
        rw [List.countP_cons]
        omega

/-! ## Laps -/

section
variable {κ : Type*} {m : Machine σ ι ω} (Inv : σ → Prop) (ok : σ → ι → Prop)
  (good done : ω → Prop) (kind : ι → κ) (needs : σ → κ) (work : σ → Nat)

/-- Until the kind of call that a state needs is made, the work stays as it is. -/
theorem run_lap
    (hstep : ∀ s i t o, Inv s → ok s i → m s i = some (t, o) → good o →
      done o ∨ Inv t ∧ (work t < work s ∨
        work t = work s ∧ kind i ≠ needs s ∧ needs t = needs s))
    {s t : σ} {is : List ι} {os : List ω} (h0 : Inv s) (hok : Along m ok s is)
    (hrun : run m s is = some (t, os)) (hgood : ∀ o ∈ os, good o) :
    (∃ o ∈ os, done o) ∨ Inv t ∧ (work t < work s ∨
      work t = work s ∧ (∀ i ∈ is, kind i ≠ needs s) ∧ needs t = needs s) := by
  induction is generalizing s os with
  | nil =>
    cases hrun
    exact Or.inr ⟨h0, Or.inr ⟨rfl, nofun, rfl⟩⟩
  | cons i is ih =>
    obtain ⟨u, o, os', hone, hrest, rfl⟩ := run_cons_eq_some.mp hrun
    obtain ⟨ho, hos⟩ := List.forall_mem_cons.mp hgood
    rcases hstep s i u o h0 hok.1 hone ho with hdone | ⟨hinv, hwork⟩
    · exact Or.inl ⟨o, List.mem_cons_self .., hdone⟩
    rcases ih hinv (hok.2 u o hone) hrest hos with ⟨p, hp, hdone⟩ | ⟨hinv', hwork'⟩
    · exact Or.inl ⟨p, List.mem_cons_of_mem _ hp, hdone⟩
    refine Or.inr ⟨hinv', ?_⟩
    rcases hwork with hless | ⟨heq, hkind, hneeds⟩
    · exact Or.inl (by omega)
    · rcases hwork' with hless | ⟨heq', hkinds, hneeds'⟩
      · exact Or.inl (by omega)
      · rw [hneeds] at hkinds
        exact Or.inr ⟨by omega, List.forall_mem_cons.mpr ⟨hkind, hkinds⟩, hneeds'.trans hneeds⟩

/-- **Rule of fair laps.** When a call of the kind that the state needs does some of
the work, and any other call does some or leaves the state in the same need, then
every lap with calls of all kinds does some of the work, unless the run gives the
answer worked for. -/
theorem run_finishes_laps
    (hstep : ∀ s i t o, Inv s → ok s i → m s i = some (t, o) → good o →
      done o ∨ Inv t ∧ (work t < work s ∨
        work t = work s ∧ kind i ≠ needs s ∧ needs t = needs s))
    {s t : σ} {laps : List (List ι)} {os : List ω}
    (hlaps : ∀ lap ∈ laps, ∀ k, ∃ i ∈ lap, kind i = k) (h0 : Inv s)
    (hok : Along m ok s laps.flatten) (hrun : run m s laps.flatten = some (t, os))
    (hgood : ∀ o ∈ os, good o) :
    (∃ o ∈ os, done o) ∨ Inv t ∧ work t + laps.length ≤ work s := by
  induction laps generalizing s os with
  | nil =>
    cases hrun
    exact Or.inr ⟨h0, Nat.le_refl _⟩
  | cons lap laps ih =>
    obtain ⟨hlap, hlaps⟩ := List.forall_mem_cons.mp hlaps
    rw [List.flatten_cons] at hok hrun
    obtain ⟨u, os₁, os₂, hfirst, hrest, rfl⟩ := run_append_eq_some hrun
    obtain ⟨hokFirst, hokRest⟩ := along_append.mp hok
    obtain ⟨hgood₁, hgood₂⟩ := List.forall_mem_append.mp hgood
    rcases run_lap Inv ok good done kind needs work hstep h0 hokFirst hfirst hgood₁ with
      ⟨o, ho, hdone⟩ | ⟨hinv, hwork⟩
    · exact Or.inl ⟨o, List.mem_append_left _ ho, hdone⟩
    have hless : work u < work s := by
      rcases hwork with hless | ⟨-, hkinds, -⟩
      · exact hless
      · obtain ⟨i, hi, hkind⟩ := hlap (needs s)
        exact absurd hkind (hkinds i hi)
    rcases ih hlaps hinv (hokRest u os₁ hfirst) hrest hgood₂ with ⟨o, ho, hdone⟩ | ⟨hinv', hwork'⟩
    · exact Or.inl ⟨o, List.mem_append_right _ ho, hdone⟩
    · refine Or.inr ⟨hinv', ?_⟩
      rw [List.length_cons]
      omega

end

end Machine

end UbloxRead.Lib
