/-
UbloxRead.Lib.Scan — resynchronising scans.

`item p` is the length of the item that starts at position `p`, if one does.
A scan of the first `n` positions goes from left to right: where an item
starts and ends inside, it is taken and the scan goes on behind it; everywhere
else the scan goes on one position later. `Scan item n i found` is the
derivation of such a scan from `i`.

What the scan finds is determined (`Scan.unique`), and it is sound, ordered and
maximal (`Scan.sound`, `Scan.ordered`, `Scan.maximal`). Two ways of putting scans together serve the
results about streams: `Scan.skip_to` passes over a stretch where no item
starts, and `SegScan.eq_iff` compares the scan of a whole range with scans of
consecutive pieces of it — they find the same exactly when no cut falls
inside an item that the whole scan takes.
-/
import Mathlib.Data.List.Range

namespace UbloxRead.Lib

/-- A scan of the positions below `n`, from `i` on, that takes `found`: pairs
of a position and the length of the item there. -/
inductive Scan (item : Nat → Option Nat) (n : Nat) : Nat → List (Nat × Nat) → Prop
  | done {i} : n ≤ i → Scan item n i []
  | skip {i found} : i < n → (∀ l, item i = some l → n < i + l) → Scan item n (i + 1) found →
      Scan item n i found
  | take {i l found} : i < n → item i = some l → i + l ≤ n → Scan item n (i + l) found →
      Scan item n i ((i, l) :: found)

namespace Scan

variable {item : Nat → Option Nat} {n i : Nat} {found : List (Nat × Nat)}

/-- A scan finds one list. -/
theorem unique (h : Scan item n i found) : ∀ {found'}, Scan item n i found' → found = found' := by
  induction h with
  | done hn =>
    intro found' h'
    cases h' with
    | done _ => rfl
    | skip hlt _ _ => omega
    | take hlt _ _ _ => omega
  | skip hlt hno _ ih =>
    intro found' h'
    cases h' with
    | done hn => omega
    | skip _ _ hrest => exact ih hrest
    | take _ hit hfit _ =>
      have := hno _ hit
      omega
  | take hlt hit hfit _ ih =>
    intro found' h'
    cases h' with
    | done hn => omega
    | skip _ hno _ =>
      have := hno _ hit
      omega
    | take _ hit' _ hrest =>
      rw [hit] at hit'
      cases hit'
      rw [ih hrest]

/-! ## What a scan finds -/

/-- Everything found is an item that lies between the start and the end. -/
theorem sound (h : Scan item n i found) :
    ∀ f ∈ found, item f.1 = some f.2 ∧ i ≤ f.1 ∧ f.1 < n ∧ f.1 + f.2 ≤ n := by
  induction h with
  | done _ => simp
  | skip _ _ _ ih =>
    intro f hf
    obtain ⟨h1, h2, h3⟩ := ih f hf
    exact ⟨h1, by omega, h3⟩
  | take hlt hit hfit _ ih =>
    intro f hf
    rcases List.mem_cons.mp hf with rfl | hf
    · exact ⟨hit, le_rfl, hlt, hfit⟩
    · obtain ⟨h1, h2, h3⟩ := ih f hf
      exact ⟨h1, by omega, h3⟩

/-- What is found is in order and does not overlap. -/
theorem ordered (h : Scan item n i found) : found.Pairwise fun f g => f.1 + f.2 ≤ g.1 := by
  induction h with
  | done _ => exact List.Pairwise.nil
  | skip _ _ _ ih => exact ih
  | take _ _ _ hrest ih =>
    exact List.pairwise_cons.mpr ⟨fun g hg => (hrest.sound g hg).2.1, ih⟩

/-- An item inside the range is found, or starts strictly inside a found one. -/
theorem maximal (h : Scan item n i found) :
    ∀ p l, i ≤ p → p < n → item p = some l → p + l ≤ n →
      (p, l) ∈ found ∨ ∃ f ∈ found, f.1 < p ∧ p < f.1 + f.2 := by
  induction h with
  | done hn =>
    intro p l hip hpn
    omega
  | @skip i found hlt hno _ ih =>
    intro p l hip hpn hit hfit
    by_cases hp : p = i
    · subst hp
      have := hno l hit
      omega
    · exact ih p l (by omega) hpn hit hfit
  | @take i l' found hlt hit' _ _ ih =>
    intro p l hip hpn hit hfit
    by_cases hp : p = i
    · subst hp
      rw [hit] at hit'
      cases hit'
      exact Or.inl (List.mem_cons_self ..)
    · by_cases hin : p < i + l'
      · exact Or.inr ⟨(i, l'), List.mem_cons_self .., by omega, hin⟩
      · rcases ih p l (by omega) hpn hit hfit with hmem | ⟨f, hf, hlo, hhi⟩
        · exact Or.inl (List.mem_cons_of_mem _ hmem)
        · exact Or.inr ⟨f, List.mem_cons_of_mem _ hf, hlo, hhi⟩

/-! ## Putting scans together -/

/-- A stretch where no item starts is passed over. -/
theorem skip_to {j : Nat} (hij : i ≤ j) (hjn : j ≤ n)
    (hno : ∀ p, i ≤ p → p < j → ∀ l, item p = some l → n < p + l) (h : Scan item n j found) :
    Scan item n i found := by
  induction hk : j - i generalizing i with
  | zero =>
    obtain rfl : i = j := by omega
    exact h
  | succ k ih =>
    have hrest := ih (i := i + 1) (by omega) (fun p hp => hno p (by omega)) (by omega)
    exact skip (by omega) (hno i le_rfl (by omega)) hrest

/-- The scan depends only on which items there are below the bound. -/
theorem congr (item' : Nat → Option Nat)
    (hitem : ∀ p l, p + l ≤ n → (item p = some l ↔ item' p = some l)) (h : Scan item n i found) :
    Scan item' n i found := by
  induction h with
  | done hn => exact done hn
  | skip hlt hno _ ih =>
    refine skip hlt (fun l hl => ?_) ih
    by_contra hc
    have := hno l ((hitem _ l (by omega)).mpr hl)
    omega
  | take hlt hit hfit _ ih => exact take hlt ((hitem _ _ hfit).mp hit) hfit ih

/-- Moving the origin moves what is found. -/
theorem shift {d : Nat} (h : Scan (fun p => item (d + p)) n i found) :
    Scan item (d + n) (d + i) (found.map fun f => (d + f.1, f.2)) := by
  induction h with
  | done hn => exact done (by omega)
  | skip hlt hno _ ih =>
    refine skip (by omega) (fun l hl => ?_) ih
    have := hno l hl
    omega
  | take hlt hit hfit _ ih =>
    refine take (by omega) hit (by omega) ?_
    rw [Nat.add_assoc]
    exact ih

/-- No item of the list straddles position `c`. -/
def Uncut (c : Nat) (found : List (Nat × Nat)) : Prop := ∀ f ∈ found, ¬ (f.1 < c ∧ c < f.1 + f.2)

/-- **A scan splits at a position that no found item straddles.** -/
theorem split {c : Nat} (h : Scan item n i found) (hic : i ≤ c) (hcn : c ≤ n)
    (hcut : Uncut c found) :
    ∃ found₁ found₂, found = found₁ ++ found₂ ∧ Scan item c i found₁ ∧ Scan item n c found₂ := by
  induction h with
  | @done i hn =>
    obtain rfl : i = c := by omega
    exact ⟨[], [], rfl, done le_rfl, done hn⟩
  | @skip i found hlt hno hrest ih =>
    by_cases hc : i = c
    · subst hc
      exact ⟨[], found, rfl, done le_rfl, skip hlt hno hrest⟩
    · obtain ⟨found₁, found₂, rfl, h1, h2⟩ := ih (by omega) hcut
      refine ⟨found₁, found₂, rfl, skip (by omega) (fun l hl => ?_) h1, h2⟩
      have := hno l hl
      omega
  | @take i l found hlt hit hfit hrest ih =>
    by_cases hc : i = c
    · subst hc
      exact ⟨[], _, rfl, done le_rfl, take hlt hit hfit hrest⟩
    · have hhere : ¬ (i < c ∧ c < i + l) := hcut (i, l) (List.mem_cons_self ..)
      obtain ⟨found₁, found₂, rfl, h1, h2⟩ :=
        ih (by omega) fun f hf => hcut f (List.mem_cons_of_mem _ hf)
      exact ⟨(i, l) :: found₁, found₂, rfl, take (by omega) hit (by omega) h1, h2⟩

end Scan

/-! ## Scans of consecutive pieces -/

/-- Scans of the consecutive pieces that end at `bounds`, starting at `i`, and
everything they find. -/
inductive SegScan (item : Nat → Option Nat) : Nat → List Nat → List (Nat × Nat) → Prop
  | nil {i} : SegScan item i [] []
  | cons {i b bounds found rest} : i ≤ b → Scan item b i found → SegScan item b bounds rest →
      SegScan item i (b :: bounds) (found ++ rest)

namespace SegScan

variable {item : Nat → Option Nat} {i n : Nat} {bounds : List Nat} {found rest : List (Nat × Nat)}

theorem le_bounds (h : SegScan item i bounds found) : ∀ b ∈ bounds, i ≤ b := by
  induction h with
  | nil => simp
  | cons hib _ _ ih =>
    intro b hb
    rcases List.mem_cons.mp hb with rfl | hb
    · exact hib
    · exact le_trans hib (ih b hb)

theorem start_le (h : SegScan item i bounds found) : ∀ f ∈ found, i ≤ f.1 := by
  induction h with
  | nil => simp
  | cons hib hscan _ ih =>
    intro f hf
    rcases List.mem_append.mp hf with hf | hf
    · exact (hscan.sound f hf).2.1
    · exact le_trans hib (ih f hf)

/-- An item found in a piece lies inside it, so no bound cuts it. -/
theorem uncut (h : SegScan item i bounds found) : ∀ b ∈ bounds, Scan.Uncut b found := by
  induction h with
  | nil => simp
  | cons hib hscan hseg ih =>
    intro b hb f hf
    rcases List.mem_cons.mp hb with rfl | hb
    · rcases List.mem_append.mp hf with hf | hf
      · have := (hscan.sound f hf).2.2
        omega
      · have := hseg.start_le f hf
        omega
    · rcases List.mem_append.mp hf with hf | hf
      · have := (hscan.sound f hf).2.2
        have := hseg.le_bounds b hb
        omega
      · exact ih b hb f hf

/-- Pieces whose bounds cut no item of the whole scan find what it finds. -/
theorem eq_of_uncut (h : SegScan item i bounds found) : ∀ {whole}, Scan item n i whole →
    bounds.getLastD i = n → (∀ b ∈ bounds, Scan.Uncut b whole) → found = whole := by
  induction h with
  | nil =>
    intro whole hwhole hlast _
    obtain rfl : _ = n := hlast
    exact (Scan.done le_rfl).unique hwhole
  | @cons i b bounds found rest hib hscan hseg ih =>
    intro whole hwhole hlast huncut
    have hbn : b ≤ n := by
      rw [List.getLastD_cons] at hlast
      cases bounds with
      | nil => exact hlast.le
      | cons b' bs =>
        rw [← hlast]
        have : (b' :: bs).getLastD b ∈ b' :: bs := by
          rw [List.getLastD_eq_getLast?, List.getLast?_eq_some_getLast (by simp), Option.getD_some]
          exact List.getLast_mem _
        exact hseg.le_bounds _ this
    obtain ⟨w₁, w₂, rfl, h1, h2⟩ := hwhole.split hib hbn (huncut b (List.mem_cons_self ..))
    rw [hscan.unique h1, ih h2 (by rwa [List.getLastD_cons] at hlast) fun b' hb' f hf =>
      huncut b' (List.mem_cons_of_mem _ hb') f (List.mem_append_right _ hf)]

/-- **Scanning in pieces finds what the whole scan finds exactly when no piece
ends inside an item that the whole scan takes.** -/
theorem eq_iff {whole : List (Nat × Nat)} (h : SegScan item i bounds found)
    (hwhole : Scan item n i whole) (hlast : bounds.getLastD i = n) :
    found = whole ↔ ∀ b ∈ bounds, Scan.Uncut b whole := by
  constructor
  · rintro rfl
    exact h.uncut
  · exact h.eq_of_uncut hwhole hlast

end SegScan

end UbloxRead.Lib
