/-
UbloxRead.Lib.Run — machines that answer calls, and their runs.

A `Machine` takes a state and a call to the next state and an answer, or to
`none` where the call has no defined outcome in that state. `Machine.run`
folds a list of calls. These rules carry every whole-run result of the
development:

* `Machine.run_history` — an invariant over the state AND the calls and answers
  so far, kept by every step, holds at the end of every run.
* `Machine.ghost` — a value that the states and calls of a run determine.
* `Machine.Along` — every call of a run is made in a state that meets a
  condition. The condition is about the state BEFORE the call.
  `Machine.run_history_along` is the invariant rule for such runs.
* `Machine.run_refines` — a forward simulation along such a run: both machines
  give the same answers and end in related states.
* `Machine.along_iff_answers` — a condition on states that every answer shows.
-/
import Mathlib.Logic.Basic

namespace UbloxRead.Lib

universe u v w

/-- A machine over states `σ`, calls `ι` and answers `ω`. -/
abbrev Machine (σ : Type u) (ι : Type v) (ω : Type w) := σ → ι → Option (σ × ω)

namespace Machine

variable {σ : Type u} {ι : Type v} {ω : Type w}

/-- Make the calls one after the other and collect the answers. -/
def run (m : Machine σ ι ω) : σ → List ι → Option (σ × List ω)
  | s, [] => some (s, [])
  | s, i :: is =>
      match m s i with
      | none => none
      | some (t, o) =>
          match run m t is with
          | none => none
          | some (u, os) => some (u, o :: os)

/-- A run of `i :: is` is a step for `i` followed by a run of `is`. -/
theorem run_cons_eq_some {m : Machine σ ι ω} {s u : σ} {i : ι} {is : List ι} {os : List ω} :
    run m s (i :: is) = some (u, os) ↔
      ∃ t o os', m s i = some (t, o) ∧ run m t is = some (u, os') ∧ os = o :: os' := by
  constructor
  · intro h
    unfold run at h
    split at h
    · cases h
    · next t o hstep =>
      split at h
      · cases h
      · next u' os' hrest =>
        cases h
        exact ⟨t, o, os', hstep, hrest, rfl⟩
  · rintro ⟨t, o, os', hstep, hrest, rfl⟩
    simp [run, hstep, hrest]

/-- The state after a run of `i :: is` is that after a run of `is` from the state
after `i`. -/
theorem run_cons_map_fst (m : Machine σ ι ω) (s : σ) (i : ι) (is : List ι) :
    (run m s (i :: is)).map Prod.fst = (m s i).bind fun r => (run m r.1 is).map Prod.fst := by
  rw [run]
  cases m s i with
  | none => rfl
  | some r =>
    rw [Option.bind_some]
    cases hrest : run m r.1 is with
    | none => simp only [hrest, Option.map_none]
    | some q => simp only [hrest, Option.map_some]

/-- The state after a run of `is` and `i` is that after `i` from the state after
`is`. -/
theorem run_concat_map_fst (m : Machine σ ι ω) (s : σ) (is : List ι) (i : ι) :
    (run m s (is ++ [i])).map Prod.fst
      = ((run m s is).map Prod.fst).bind fun t => (m t i).map Prod.fst := by
  induction is generalizing s with
  | nil =>
    rw [List.nil_append, run_cons_map_fst, run, Option.map_some, Option.bind_some,
      Option.map_eq_bind]
    rfl
  | cons j is ih =>
    rw [List.cons_append, run_cons_map_fst, run_cons_map_fst, Option.bind_assoc]
    exact congrArg (Option.bind (m s j)) (funext fun r => ih r.1)

/-- A run of an append is a run of the one list and then of the other. -/
theorem run_append {m : Machine σ ι ω} {s t u : σ} {is js : List ι} {os ps : List ω}
    (h1 : run m s is = some (t, os)) (h2 : run m t js = some (u, ps)) :
    run m s (is ++ js) = some (u, os ++ ps) := by
  induction is generalizing s os with
  | nil =>
    cases h1
    exact h2
  | cons i is ih =>
    obtain ⟨t', o, os', hstep, hrest, rfl⟩ := run_cons_eq_some.mp h1
    exact run_cons_eq_some.mpr ⟨t', o, os' ++ ps, hstep, ih hrest, rfl⟩

/-- A run of an append splits at the join. -/
theorem run_append_eq_some {m : Machine σ ι ω} {s u : σ} {is js : List ι} {os : List ω}
    (h : run m s (is ++ js) = some (u, os)) :
    ∃ t os₁ os₂, run m s is = some (t, os₁) ∧ run m t js = some (u, os₂) ∧ os = os₁ ++ os₂ := by
  induction is generalizing s os with
  | nil => exact ⟨s, [], os, rfl, h, rfl⟩
  | cons i is ih =>
    obtain ⟨t', o, os', hstep, hrest, rfl⟩ := run_cons_eq_some.mp h
    obtain ⟨t, os₁, os₂, h1, h2, rfl⟩ := ih hrest
    exact ⟨t, o :: os₁, os₂, run_cons_eq_some.mpr ⟨t', o, os₁, hstep, h1, rfl⟩, h2, rfl⟩

/-! ## A value beside a run -/

/-- A value that the states and the calls of a run determine: `f` renews it with every
call. -/
def ghost {β : Type*} (m : Machine σ ι ω) (f : σ → β → ι → β) : σ → β → List ι → β
  | _, b, [] => b
  | s, b, i :: is =>
      match m s i with
      | none => f s b i
      | some (t, _) => ghost m f t (f s b i) is

/-- One more call renews the value once more. -/
theorem ghost_concat {β : Type*} {m : Machine σ ι ω} {f : σ → β → ι → β} {s t : σ} {is : List ι}
    {os : List ω} (hrun : run m s is = some (t, os)) (b : β) (i : ι) :
    ghost m f s b (is ++ [i]) = f t (ghost m f s b is) i := by
  induction is generalizing s os b with
  | nil =>
    cases hrun
    rw [List.nil_append, ghost, ghost]
    split <;> rfl
  | cons j is ih =>
    obtain ⟨u, o, os', hstep, hrest, -⟩ := run_cons_eq_some.mp hrun
    simp only [List.cons_append, ghost, hstep]
    exact ih hrest (f s b j)

/-! ## Invariants -/

/-- **Invariant rule with history.** What holds of the start, no calls and no
answers, and is kept when a step adds its call and its answer, holds of every
run. -/
theorem run_history {m : Machine σ ι ω} (Inv : σ → List ι → List ω → Prop)
    (hstep : ∀ s is os i t o, Inv s is os → m s i = some (t, o) → Inv t (is ++ [i]) (os ++ [o]))
    {s t : σ} {is : List ι} {os : List ω} (h0 : Inv s [] [])
    (hrun : run m s is = some (t, os)) : Inv t is os := by
  -- The calls and answers so far move from the run into the invariant's arguments.
  have gen : ∀ (is : List ι) (s : σ) (calls : List ι) (pre os : List ω), Inv s calls pre →
      run m s is = some (t, os) → Inv t (calls ++ is) (pre ++ os) := by
    intro is
    induction is with
    | nil =>
      intro s calls pre os hinv hrun
      cases hrun
      simpa using hinv
    | cons i is ih =>
      intro s calls pre os hinv hrun
      obtain ⟨t', o, os', hs, hrest, rfl⟩ := run_cons_eq_some.mp hrun
      have := ih t' (calls ++ [i]) (pre ++ [o]) os' (hstep s calls pre i t' o hinv hs) hrest
      simpa using this
  simpa using gen is s [] [] os h0 hrun

/-! ## Runs whose calls all meet a condition -/

/-- Every call of the run is made in a state that meets `ok`. -/
def Along (m : Machine σ ι ω) (ok : σ → ι → Prop) : σ → List ι → Prop
  | _, [] => True
  | s, i :: is => ok s i ∧ ∀ t o, m s i = some (t, o) → Along m ok t is

@[simp] theorem along_nil (m : Machine σ ι ω) (ok : σ → ι → Prop) (s : σ) : Along m ok s [] :=
  trivial

theorem along_cons {m : Machine σ ι ω} {ok : σ → ι → Prop} {s : σ} {i : ι} {is : List ι} :
    Along m ok s (i :: is) ↔ ok s i ∧ ∀ t o, m s i = some (t, o) → Along m ok t is := Iff.rfl

/-- On a call that has an outcome, the rest of the run starts there. -/
theorem along_cons_of_step {m : Machine σ ι ω} {ok : σ → ι → Prop} {s t : σ} {i : ι} {o : ω}
    {is : List ι} (hstep : m s i = some (t, o)) :
    Along m ok s (i :: is) ↔ ok s i ∧ Along m ok t is := by
  rw [along_cons, hstep]
  constructor
  · rintro ⟨hok, h⟩
    exact ⟨hok, h t o rfl⟩
  · rintro ⟨hok, h⟩
    refine ⟨hok, fun t' o' heq => ?_⟩
    cases heq
    exact h

theorem along_of_forall {m : Machine σ ι ω} {ok : σ → ι → Prop} (h : ∀ s i, ok s i) (s : σ)
    (is : List ι) : Along m ok s is := by
  induction is generalizing s with
  | nil => exact along_nil m ok s
  | cons i is ih => exact ⟨h s i, fun t _ _ => ih t⟩

theorem along_of_mem {m : Machine σ ι ω} {ok : σ → ι → Prop} {is : List ι}
    (h : ∀ i ∈ is, ∀ s, ok s i) (s : σ) : Along m ok s is := by
  induction is generalizing s with
  | nil => exact along_nil m ok s
  | cons i is ih =>
    exact ⟨h i (List.mem_cons_self ..) s,
      fun t _ _ => ih (fun j hj => h j (List.mem_cons_of_mem _ hj)) t⟩

/-- A run of an append meets a condition where both its parts do. -/
theorem along_append {m : Machine σ ι ω} {ok : σ → ι → Prop} {s : σ} {is js : List ι} :
    Along m ok s (is ++ js) ↔
      Along m ok s is ∧ ∀ t os, run m s is = some (t, os) → Along m ok t js := by
  induction is generalizing s with
  | nil =>
    constructor
    · intro h
      refine ⟨along_nil m ok s, fun t os hrun => ?_⟩
      cases hrun
      exact h
    · rintro ⟨-, h⟩
      exact h s [] rfl
  | cons i is ih =>
    rw [List.cons_append, along_cons, along_cons]
    constructor
    · rintro ⟨hi, hrest⟩
      refine ⟨⟨hi, fun t o hstep => (ih.mp (hrest t o hstep)).1⟩, fun u os hrun => ?_⟩
      obtain ⟨t, o, os', hstep, hrest', -⟩ := run_cons_eq_some.mp hrun
      exact (ih.mp (hrest t o hstep)).2 u os' hrest'
    · rintro ⟨⟨hi, hfront⟩, hback⟩
      exact ⟨hi, fun t o hstep => ih.mpr ⟨hfront t o hstep, fun u os hrun =>
        hback u (o :: os) (run_cons_eq_some.mpr ⟨t, o, os, hstep, hrun, rfl⟩)⟩⟩

/-- A run that meets a condition, and another from where it ends. -/
theorem along_append_of_run {m : Machine σ ι ω} {ok : σ → ι → Prop} {s t : σ} {is js : List ι}
    {os : List ω} (h : Along m ok s is) (hrun : run m s is = some (t, os)) (h' : Along m ok t js) :
    Along m ok s (is ++ js) := by
  refine along_append.mpr ⟨h, fun t' os' hrun' => ?_⟩
  rw [hrun] at hrun'
  cases hrun'
  exact h'

/-- One more call that meets the condition. -/
theorem along_concat {m : Machine σ ι ω} {ok : σ → ι → Prop} {s t : σ} {is : List ι} {os : List ω}
    {i : ι} (h : Along m ok s is) (hrun : run m s is = some (t, os)) (hi : ok t i) :
    Along m ok s (is ++ [i]) :=
  along_append_of_run h hrun ⟨hi, fun u _ _ => along_nil m ok u⟩

theorem along_and {m : Machine σ ι ω} {ok ok' : σ → ι → Prop} {s : σ} {is : List ι}
    (h : Along m ok s is) (h' : Along m ok' s is) : Along m (fun s i => ok s i ∧ ok' s i) s is := by
  induction is generalizing s with
  | nil => exact along_nil m _ s
  | cons i is ih => exact ⟨⟨h.1, h'.1⟩, fun t o hstep => ih (h.2 t o hstep) (h'.2 t o hstep)⟩

/-- **Refinement rule.** When every call made under `ok` keeps the two
machines related and gives the same answer, whole runs under `ok` do. -/
theorem run_refines {τ : Type u} {κ : Type v} {m : Machine σ ι ω} {a : Machine τ κ ω} {f : ι → κ}
    (R : σ → τ → Prop) (ok : σ → ι → Prop)
    (hstep : ∀ s x i, R s x → ok s i →
      ∃ t y o, m s i = some (t, o) ∧ a x (f i) = some (y, o) ∧ R t y)
    {s : σ} {x : τ} {is : List ι} (h0 : R s x) (hok : Along m ok s is) :
    ∃ t y os, run m s is = some (t, os) ∧ run a x (is.map f) = some (y, os) ∧ R t y := by
  induction is generalizing s x with
  | nil => exact ⟨s, x, [], rfl, rfl, h0⟩
  | cons i is ih =>
    obtain ⟨hi, hrest⟩ := hok
    obtain ⟨t, y, o, hm, ha, hR⟩ := hstep s x i h0 hi
    obtain ⟨t', y', os, hm', ha', hR'⟩ := ih hR (hrest t o hm)
    exact ⟨t', y', o :: os, run_cons_eq_some.mpr ⟨t, o, os, hm, hm', rfl⟩,
      run_cons_eq_some.mpr ⟨y, o, os, ha, ha', rfl⟩, hR'⟩

/-- **Invariant rule under a condition.** An invariant over the state, the calls
and the answers that every call made under `ok` keeps, and under which every
such call has an outcome, holds at the end of every run under `ok`, and the run
has an outcome. -/
theorem run_history_along {m : Machine σ ι ω} (Inv : σ → List ι → List ω → Prop)
    (ok : σ → ι → Prop)
    (hstep : ∀ s is os i, Inv s is os → ok s i →
      ∃ t o, m s i = some (t, o) ∧ Inv t (is ++ [i]) (os ++ [o]))
    {s : σ} {is : List ι} (h0 : Inv s [] []) (hok : Along m ok s is) :
    ∃ t os, run m s is = some (t, os) ∧ Inv t is os := by
  have gen : ∀ (is : List ι) (s : σ) (calls : List ι) (pre : List ω), Inv s calls pre →
      Along m ok s is → ∃ t os, run m s is = some (t, os) ∧ Inv t (calls ++ is) (pre ++ os) := by
    intro is
    induction is with
    | nil =>
      intro s calls pre hinv _
      exact ⟨s, [], rfl, by simpa using hinv⟩
    | cons i is ih =>
      intro s calls pre hinv hok
      obtain ⟨t, o, hm, hinv'⟩ := hstep s calls pre i hinv hok.1
      obtain ⟨t', os, hrun, hinv''⟩ := ih t _ _ hinv' (hok.2 t o hm)
      exact ⟨t', o :: os, run_cons_eq_some.mpr ⟨t, o, os, hm, hrun, rfl⟩, by simpa using hinv''⟩
  exact gen is s [] [] h0 hok

/-- The rule under a condition for the state alone. -/
theorem run_inv_along {m : Machine σ ι ω} (Inv : σ → Prop) (ok : σ → ι → Prop)
    (hstep : ∀ s i, Inv s → ok s i → ∃ t o, m s i = some (t, o) ∧ Inv t)
    {s : σ} {is : List ι} (h0 : Inv s) (hok : Along m ok s is) :
    ∃ t os, run m s is = some (t, os) ∧ Inv t :=
  run_history_along (fun s _ _ => Inv s) ok (fun s _ _ i hinv hi => hstep s i hinv hi) h0 hok

/-- A machine that has an outcome for every call under an invariant runs. -/
theorem run_total {m : Machine σ ι ω} (Inv : σ → Prop)
    (hstep : ∀ s i, Inv s → ∃ t o, m s i = some (t, o) ∧ Inv t) {s : σ} (h0 : Inv s)
    (is : List ι) : ∃ t os, run m s is = some (t, os) ∧ Inv t :=
  run_inv_along Inv (fun _ _ => True) (fun s i hinv _ => hstep s i hinv) h0
    (along_of_forall (fun _ _ => trivial) s is)

/-- **A condition on states that the answers show.** When every step meets `ok`
exactly if its answer meets `good`, a run meets `ok` throughout exactly if all
its answers are good. -/
theorem along_iff_answers {m : Machine σ ι ω} (Inv : σ → Prop) (ok : σ → ι → Prop)
    (good : ω → Prop)
    (hstep : ∀ s i t o, Inv s → m s i = some (t, o) → Inv t ∧ (ok s i ↔ good o))
    {s t : σ} {is : List ι} {os : List ω} (h0 : Inv s) (hrun : run m s is = some (t, os)) :
    Along m ok s is ↔ ∀ o ∈ os, good o := by
  induction is generalizing s os with
  | nil =>
    cases hrun
    simp
  | cons i is ih =>
    obtain ⟨t', o, os', hs, hrest, rfl⟩ := run_cons_eq_some.mp hrun
    obtain ⟨hinv, hiff⟩ := hstep s i t' o h0 hs
    rw [along_cons_of_step hs, hiff, ih hinv hrest, List.forall_mem_cons]

end Machine

end UbloxRead.Lib
