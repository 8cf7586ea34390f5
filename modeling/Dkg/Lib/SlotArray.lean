import Mathlib.Data.List.GetD
import Mathlib.Tactic

/-! # A list in the slots of a mapping

A mapping-backed array keeps a list in its first slots and a null value in all others, so a loop
can run to the first null instead of to a length. `Slots` is that relation. An insertion moves
the entries from one slot on up by one, a removal moves them down by one; the list is then split
at that slot, as `A ++ P`.
-/

namespace Dkg.Lib

open List

variable {α : Type} {null : α} {f g : ℕ → α} {A P : List α} {x : α}

/-- The mapping holds the list, and nulls after it. -/
def Slots (null : α) (f : ℕ → α) (L : List α) : Prop := ∀ i, f i = L.getD i null

namespace Slots

lemma get_add (h : Slots null f (A ++ P)) (m : ℕ) : f (A.length + m) = P.getD m null := by
  rw [h, getD_append_right _ _ _ _ (Nat.le_add_right _ _), Nat.add_sub_cancel_left]

lemma get_of_lt (h : Slots null f (A ++ P)) {j : ℕ} (hj : j < A.length) : f j = A.getD j null := by
  rw [h, getD_append _ _ _ _ hj]

lemma of_parts (hbefore : ∀ j < A.length, f j = A.getD j null)
    (hafter : ∀ m, f (A.length + m) = P.getD m null) : Slots null f (A ++ P) := by
  intro j
  by_cases hj : j < A.length
  · rw [hbefore j hj, getD_append _ _ _ _ hj]
  · obtain ⟨m, rfl⟩ := Nat.exists_eq_add_of_le (Nat.not_lt.mp hj)
    rw [hafter m, getD_append_right _ _ _ _ (Nat.le_add_right _ _), Nat.add_sub_cancel_left]

/-- A new entry at the split, and the rest one slot further. -/
lemma insert (h : Slots null f (A ++ P)) (hbefore : ∀ j < A.length, g j = f j)
    (hat : g A.length = x) (hafter : ∀ m, g (A.length + 1 + m) = P.getD m null) :
    Slots null g (A ++ x :: P) := by
  apply of_parts
  · intro j hj
    rw [hbefore j hj, h.get_of_lt hj]
  · intro m
    cases m with
    | zero => exact hat
    | succ m =>
      rw [← Nat.add_assoc, Nat.add_right_comm, hafter m, getD_cons_succ]

/-- The entry at the split is gone, and the rest one slot nearer. -/
lemma erase (h : Slots null f (A ++ x :: P)) (hbefore : ∀ j < A.length, g j = f j)
    (hafter : ∀ m, g (A.length + m) = P.getD m null) : Slots null g (A ++ P) := by
  apply of_parts
  · intro j hj
    rw [hbefore j hj, h.get_of_lt hj]
  · exact hafter

end Slots

end Dkg.Lib
