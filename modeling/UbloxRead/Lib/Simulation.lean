/-
UbloxRead.Lib.Simulation — what a part of a system does, seen from a machine
for that part alone.

A system of several parts takes steps that concern one part and not another.
`Machine.run_shows` is the rule for such a part: when every step of the system
is a run of the part's machine, none, one or more of its steps, then so is every
run of the system, and what the two have in common to show is the same. A run of
the system that meets a condition throughout gives a run of the part that meets
what the condition says about it.
-/
import UbloxRead.Lib.Run

namespace UbloxRead.Lib

universe u v w

namespace Machine

variable {σ : Type u} {ι : Type v} {ω : Type w} {τ : Type u} {κ : Type v} {χ : Type w}

/-- What the answers of a system have to do with the calls and the answers of a
part, one run after the other. -/
structure Showing (Sees : List ω → List κ → List χ → Prop) : Prop where
  nil : Sees [] [] []
  append : ∀ {os os' ks ks' cs cs'}, Sees os ks cs → Sees os' ks' cs' →
    Sees (os ++ os') (ks ++ ks') (cs ++ cs')

/-- **Simulation rule for a part.** When every step of `m` is a run of `a` for
its part of the state, and shows what that run shows, whole runs are. `oks` are
conditions on the calls of `m`, each with what it says about the calls of `a`. -/
theorem run_shows {m : Machine σ ι ω} {a : Machine τ κ χ} (part : σ → τ)
    {Sees : List ω → List κ → List χ → Prop} (hsees : Showing Sees) (Inv : σ → Prop)
    (oks : List ((σ → ι → Prop) × (τ → κ → Prop)))
    (hstep : ∀ s i t o, Inv s → m s i = some (t, o) →
      Inv t ∧ ∃ ks cs, run a (part s) ks = some (part t, cs) ∧ Sees [o] ks cs ∧
        ∀ ok ∈ oks, ok.1 s i → Along a ok.2 (part s) ks)
    {s t : σ} {is : List ι} {os : List ω} (h0 : Inv s) (hrun : run m s is = some (t, os)) :
    Inv t ∧ ∃ ks cs, run a (part s) ks = some (part t, cs) ∧ Sees os ks cs ∧
      ∀ ok ∈ oks, Along m ok.1 s is → Along a ok.2 (part s) ks := by
  induction is generalizing s os with
  | nil =>
    cases hrun
    exact ⟨h0, [], [], rfl, hsees.nil, fun ok _ _ => along_nil a ok.2 _⟩
  | cons i is ih =>
    obtain ⟨u, o, os', hone, hrest, rfl⟩ := run_cons_eq_some.mp hrun
    obtain ⟨hinv, ks, cs, hks, hshow, hoks⟩ := hstep s i u o h0 hone
    obtain ⟨hinv', ks', cs', hks', hshow', hoks'⟩ := ih hinv hrest
    refine ⟨hinv', ks ++ ks', cs ++ cs', run_append hks hks', hsees.append hshow hshow', ?_⟩
    intro ok hmem hok
    exact along_append_of_run (hoks ok hmem hok.1) hks (hoks' ok hmem (hok.2 u o hone))

end Machine

end UbloxRead.Lib
