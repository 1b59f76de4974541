/-
UbloxRead.Lib.Codec — values at the front of a list of symbols.

A `Codec` writes a value as symbols and reads one off the front of a list, and
the two are inverse: `decode` finds `a` exactly where `encode a` stands.

`deframe` reads values from a list that may hold other symbols too: where one
stands it is taken (`deframe_encode_append`), everywhere else a symbol is dropped
(`deframe_cons`, `deframe_append`). So it makes nothing up (`deframe_sublist`).
-/
import Mathlib.Data.List.Basic

namespace UbloxRead.Lib

universe u v

/-- Values of `α` as symbols of `β`. -/
structure Codec (α : Type u) (β : Type v) where
  encode : α → List β
  decode : List β → Option (α × List β)
  encode_ne_nil : ∀ a, encode a ≠ []
  decode_eq_some : ∀ {bs a rest}, decode bs = some (a, rest) ↔ bs = encode a ++ rest

namespace Codec

variable {α : Type u} {β : Type v} (c : Codec α β)

theorem decode_encode_append (a : α) (rest : List β) :
    c.decode (c.encode a ++ rest) = some (a, rest) := c.decode_eq_some.mpr rfl

/-! ## Values among other symbols -/

/-- Read behind the next `k` symbols. -/
def deframeFrom : Nat → List β → List α
  | _, [] => []
  | k + 1, _ :: bs => deframeFrom k bs
  | 0, b :: bs =>
      match c.decode (b :: bs) with
      | some (a, _) => a :: deframeFrom ((c.encode a).length - 1) bs
      | none => deframeFrom 0 bs

/-- The values in a list, from left to right. -/
def deframe (bs : List β) : List α := c.deframeFrom 0 bs

theorem deframeFrom_eq (k : Nat) (bs : List β) : c.deframeFrom k bs = c.deframe (bs.drop k) := by
  induction bs generalizing k with
  | nil =>
    rw [List.drop_nil]
    cases k <;> rfl
  | cons b bs ih =>
    cases k with
    | zero => rfl
    | succ k => exact ih k

/-- Where a value stands it is taken. -/
theorem deframe_encode_append (a : α) (rest : List β) :
    c.deframe (c.encode a ++ rest) = a :: c.deframe rest := by
  have hdecode := c.decode_encode_append a rest
  obtain ⟨b, bs, hcons⟩ := List.exists_cons_of_ne_nil (c.encode_ne_nil a)
  rw [hcons, List.cons_append] at hdecode ⊢
  simp only [deframe, deframeFrom, hdecode]
  rw [deframeFrom_eq, hcons, List.length_cons, Nat.add_sub_cancel, List.drop_left]
  rfl

/-- Where none stands a symbol is dropped. -/
theorem deframe_cons {b : β} {bs : List β} (h : c.decode (b :: bs) = none) :
    c.deframe (b :: bs) = c.deframe bs := by
  simp only [deframe, deframeFrom, h]

/-- Symbols from which no value starts are passed over. -/
theorem deframe_append {gap rest : List β}
    (h : ∀ front b back, gap = front ++ b :: back → c.decode (b :: back ++ rest) = none) :
    c.deframe (gap ++ rest) = c.deframe rest := by
  induction gap with
  | nil => rfl
  | cons b gap ih =>
    have hnone : c.decode (b :: (gap ++ rest)) = none := h [] b gap rfl
    rw [List.cons_append, c.deframe_cons hnone]
    exact ih fun front b' back heq => h (b :: front) b' back (by rw [heq]; rfl)

/-- **The encodings of the values read were there**, one behind the other. -/
theorem deframe_sublist (bs : List β) : ((c.deframe bs).flatMap c.encode).Sublist bs := by
  induction hlen : bs.length using Nat.strongRecOn generalizing bs with
  | _ n ih =>
    cases bs with
    | nil => exact List.Sublist.refl _
    | cons b bs =>
      cases hdecode : c.decode (b :: bs) with
      | none =>
        rw [c.deframe_cons hdecode]
        exact (ih bs.length (by simp [← hlen]) bs rfl).cons b
      | some r =>
        obtain ⟨a, rest⟩ := r
        have hbs := c.decode_eq_some.mp hdecode
        have hpos := List.length_pos_iff.mpr (c.encode_ne_nil a)
        have hlt : rest.length < n := by
          rw [← hlen, hbs, List.length_append]
          omega
        rw [hbs, deframe_encode_append, List.flatMap_cons]
        exact (List.Sublist.refl _).append (ih rest.length hlt rest rfl)

end Codec

end UbloxRead.Lib
