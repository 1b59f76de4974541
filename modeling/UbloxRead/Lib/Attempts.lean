/-
UbloxRead.Lib.Attempts — sending a queue over a line, every attempt from the
start of the front item.

An attempt puts the first `count` symbols of the front item on the line. A
complete one removes the item; after any other the next attempt begins with
the item's first symbol again. `Sends items attempts` says that the attempts
are possible for the queue, `line` is what they put on the line.

When all attempts that send anything are complete, save the last, the line is a
prefix of the queue (`line_prefix`). For a queue whose symbols all differ
nothing else will do (`line_prefix_iff`); `placed` makes the symbols of any
queue differ by giving each its item's number and its offset.
-/
import Mathlib.Data.List.Basic
import Mathlib.Data.List.Nodup
import Mathlib.Data.List.Flatten

namespace UbloxRead.Lib

universe u

/-- How many symbols an attempt sent, and whether the item is done with it. -/
structure Attempt where
  count : Nat
  complete : Bool

namespace Attempt

variable {β : Type u}

/-- The attempts are possible for the queue: none sends more than there is, and
a complete one sends the whole item. -/
inductive Sends : List (List β) → List Attempt → Prop
  | nil {items} : Sends items []
  | retry {item items n attempts} : n ≤ item.length → Sends (item :: items) attempts →
      Sends (item :: items) (⟨n, false⟩ :: attempts)
  | next {item items attempts} : item ≠ [] → Sends items attempts →
      Sends (item :: items) (⟨item.length, true⟩ :: attempts)

/-- What the attempts put on the line. -/
def line : List (List β) → List Attempt → List β
  | item :: items, a :: attempts =>
      item.take a.count ++ line (if a.complete then items else item :: items) attempts
  | _, _ => []

variable {item : List β} {items : List (List β)} {attempts : List Attempt}

/-- The attempts that send anything. -/
def sending (attempts : List Attempt) : List Attempt := attempts.filter fun a => 0 < a.count

/-- No attempt that sends anything follows one that left an item half sent. -/
def NoRestart (attempts : List Attempt) : Prop :=
  (sending attempts).Pairwise fun a _ => a.complete = true

@[simp] theorem line_nil (items : List (List β)) : line items [] = [] := by
  cases items <;> rfl

/-- Attempts that send nothing leave the line empty. -/
theorem line_eq_nil (h : Sends items attempts) (hnone : sending attempts = []) :
    line items attempts = [] := by
  induction h with
  | nil => exact line_nil _
  | @retry item items n attempts hn _ ih =>
    have hzero : n = 0 := by
      by_contra hpos
      simp [sending, Nat.pos_of_ne_zero hpos] at hnone
    subst hzero
    simpa [line] using ih (by simpa [sending] using hnone)
  | @next item items attempts hne _ _ =>
    have := List.length_pos_iff.mpr hne
    simp [sending, this] at hnone

/-- The first attempt that sends anything sends the first symbol. -/
theorem line_head {x : β} (h : Sends ((x :: item) :: items) attempts)
    (hsome : sending attempts ≠ []) : ∃ rest, line ((x :: item) :: items) attempts = x :: rest := by
  induction attempts with
  | nil => exact absurd rfl hsome
  | cons a attempts ih =>
    cases h with
    | @retry _ _ n _ hn hrest =>
      cases n with
      | zero => simpa [line] using ih hrest (by simpa [sending] using hsome)
      | succ n => exact ⟨_, rfl⟩
    | next _ _ => exact ⟨_, rfl⟩

/-! ## When the line is a prefix of the queue -/

/-- **Without restarts the line is a prefix of the queue.** -/
theorem line_prefix (h : Sends items attempts) (hno : NoRestart attempts) :
    line items attempts <+: items.flatten := by
  induction h with
  | nil => simp
  | @retry item items n attempts hn hrest ih =>
    by_cases hpos : 0 < n
    · -- nothing more is sent
      have hnone : sending attempts = [] := by
        rw [NoRestart, sending, List.filter_cons_of_pos (by simpa using hpos)] at hno
        refine List.eq_nil_iff_forall_not_mem.mpr fun a ha => ?_
        exact absurd ((List.pairwise_cons.mp hno).1 a ha) (by simp)
      simp only [line, Bool.false_eq_true, if_false, line_eq_nil hrest hnone, List.append_nil,
        List.flatten_cons]
      exact (List.take_prefix n item).trans (List.prefix_append ..)
    · obtain rfl : n = 0 := by omega
      simpa [line] using ih (by simpa [NoRestart, sending] using hno)
  | @next item items attempts hne hrest ih =>
    have hpos := List.length_pos_iff.mpr hne
    rw [NoRestart, sending, List.filter_cons_of_pos (by simpa using hpos)] at hno
    simp only [line, if_true, List.take_length, List.flatten_cons]
    exact (List.prefix_append_right_inj item).mpr (ih (List.pairwise_cons.mp hno).2)

/-- **Where the symbols all differ, a restart is always seen.** -/
theorem line_prefix_iff (h : Sends items attempts) (hnodup : items.flatten.Nodup) :
    line items attempts <+: items.flatten ↔ NoRestart attempts := by
  refine ⟨fun hpre => ?_, line_prefix h⟩
  induction h with
  | nil => exact List.Pairwise.nil
  | @retry item items n attempts hn hrest ih =>
    by_cases hpos : 0 < n
    · rw [NoRestart, sending, List.filter_cons_of_pos (by simpa using hpos)]
      have hnone : sending attempts = [] := by
        by_contra hsome
        obtain ⟨x, item, rfl⟩ : ∃ x rest, item = x :: rest :=
          List.exists_cons_of_length_pos (by omega)
        obtain ⟨rest, hline⟩ := line_head hrest hsome
        -- the item's first symbol is on the line twice
        simp only [line, Bool.false_eq_true, if_false, hline] at hpre
        have htwice := hpre.sublist.nodup hnodup
        have hmem : x ∈ (x :: item).take n := by
          obtain ⟨k, rfl⟩ : ∃ k, n = k + 1 := ⟨n - 1, by omega⟩
          simp
        exact (List.nodup_append.mp htwice).2.2 x hmem x (List.mem_cons_self ..) rfl
      rw [← sending, hnone]
      exact List.pairwise_singleton ..
    · obtain rfl : n = 0 := by omega
      simpa [NoRestart, sending] using ih hnodup (by simpa [line] using hpre)
  | @next item items attempts hne hrest ih =>
    have hpos := List.length_pos_iff.mpr hne
    rw [NoRestart, sending, List.filter_cons_of_pos (by simpa using hpos)]
    simp only [line, if_true, List.take_length, List.flatten_cons] at hpre hnodup
    exact List.pairwise_cons.mpr ⟨fun _ _ => rfl,
      ih (List.nodup_append.mp hnodup).2.1 ((List.prefix_append_right_inj item).mp hpre)⟩

/-! ## How possible attempts grow -/

/-- More items in the queue. -/
theorem Sends.more (h : Sends items attempts) (items' : List (List β)) :
    Sends (items ++ items') attempts := by
  induction h with
  | nil => exact Sends.nil
  | retry hn _ ih => exact Sends.retry hn ih
  | next hne _ ih => exact Sends.next hne ih

/-- They change nothing about the line. -/
theorem line_more (h : Sends items attempts) (items' : List (List β)) :
    line (items ++ items') attempts = line items attempts := by
  induction h with
  | nil => simp
  | retry _ _ ih => simpa [line] using ih
  | next _ _ ih => simpa [line] using ih

/-- One more attempt, at the item that the complete attempts have come to. -/
theorem Sends.snoc {done : List (List β)} {a : Attempt} (h : Sends (done ++ item :: items) attempts)
    (hdone : (attempts.filter Attempt.complete).length = done.length)
    (hone : Sends (item :: items) [a]) : Sends (done ++ item :: items) (attempts ++ [a]) := by
  induction attempts generalizing done with
  | nil =>
    obtain rfl : done = [] := List.length_eq_zero_iff.mp hdone.symm
    exact hone
  | cons b attempts ih =>
    cases done with
    | nil =>
      cases h with
      | retry hn hrest => exact Sends.retry hn (@ih [] hrest (by simpa using hdone))
      | next _ _ => simp at hdone
    | cons d done =>
      cases h with
      | retry hn hrest => exact Sends.retry hn (@ih (d :: done) hrest (by simpa using hdone))
      | next hne hrest => exact Sends.next hne (@ih done hrest (by simpa using hdone))

/-- It adds its part of that item to the line. -/
theorem line_snoc {done : List (List β)} (a : Attempt) (h : Sends (done ++ item :: items) attempts)
    (hdone : (attempts.filter Attempt.complete).length = done.length) :
    line (done ++ item :: items) (attempts ++ [a])
      = line (done ++ item :: items) attempts ++ item.take a.count := by
  induction attempts generalizing done with
  | nil =>
    obtain rfl : done = [] := List.length_eq_zero_iff.mp hdone.symm
    simp [line]
  | cons b attempts ih =>
    cases done with
    | nil =>
      cases h with
      | retry hn hrest => simpa [line] using @ih [] hrest (by simpa using hdone)
      | next _ _ => simp at hdone
    | cons d done =>
      cases h with
      | retry hn hrest => simpa [line] using @ih (d :: done) hrest (by simpa using hdone)
      | next hne hrest => simpa [line] using @ih done hrest (by simpa using hdone)

/-! ## Symbols with their places -/

/-- Every symbol with the number of its item, from `k` on, and its offset. -/
def placed : Nat → List (List β) → List (List ((Nat × Nat) × β))
  | _, [] => []
  | k, item :: items => item.mapIdx (fun j x => ((k, j), x)) :: placed (k + 1) items

theorem le_of_mem_placed {k : Nat} {items : List (List β)} :
    ∀ x ∈ (placed k items).flatten, k ≤ x.1.1 := by
  induction items generalizing k with
  | nil => simp [placed]
  | cons item items ih =>
    intro x hx
    rw [placed, List.flatten_cons, List.mem_append] at hx
    rcases hx with hx | hx
    · obtain ⟨j, hj, rfl⟩ := List.mem_mapIdx.mp hx
      exact Nat.le_refl k
    · exact Nat.le_trans (Nat.le_succ k) (ih x hx)

/-- No two placed symbols are the same. -/
theorem nodup_placed (k : Nat) (items : List (List β)) : (placed k items).flatten.Nodup := by
  induction items generalizing k with
  | nil => exact List.nodup_nil
  | cons item items ih =>
    rw [placed, List.flatten_cons]
    refine List.nodup_append.mpr ⟨?_, ih (k + 1), fun x hx y hy hxy => ?_⟩
    · -- the offsets are `0`, `1`, …
      have hoffsets : (item.mapIdx fun j x => ((k, j), x)).map (fun y => y.1.2)
          = List.range item.length := List.ext_getElem (by simp) (by simp)
      exact List.Nodup.of_map _ (hoffsets ▸ List.nodup_range)
    · obtain ⟨j, hj, rfl⟩ := List.mem_mapIdx.mp hx
      have := le_of_mem_placed y hy
      rw [← hxy] at this
      exact absurd this (Nat.not_succ_le_self k)

/-- What is possible for a queue is possible for the queue with places. -/
theorem sends_placed (h : Sends items attempts) (k : Nat) : Sends (placed k items) attempts := by
  induction h generalizing k with
  | nil => exact Sends.nil
  | retry hn _ ih => exact Sends.retry (by simpa using hn) (ih k)
  | @next item items attempts hne _ ih =>
    have := @Sends.next _ (item.mapIdx fun j x => ((k, j), x)) _ _ (by simpa using hne) (ih (k + 1))
    rw [List.length_mapIdx] at this
    exact this

/-- The line of the queue with places shows the line of the queue. -/
theorem map_line_placed (k : Nat) (items : List (List β)) (attempts : List Attempt) :
    (line (placed k items) attempts).map Prod.snd = line items attempts := by
  induction attempts generalizing k items with
  | nil => simp
  | cons a attempts ih =>
    cases items with
    | nil => rfl
    | cons item items =>
      have hitem : (item.mapIdx fun j x => ((k, j), x)).map Prod.snd = item :=
        List.ext_getElem (by simp) (by simp)
      rw [placed, line, line, List.map_append, List.map_take, hitem]
      congr 1
      split
      · exact ih (k + 1) items
      · exact ih k (item :: items)

end Attempt

end UbloxRead.Lib
