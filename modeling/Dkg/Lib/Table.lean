import Mathlib.Tactic

/-! # Sums over the keys of a table

A write at one key changes a sum over the keys by the difference at that key. The statements are
additive, so they need no subtraction on the values.
-/

namespace Dkg.Lib

open Finset

variable {κ β M : Type} [DecidableEq κ] [AddCommMonoid M]

lemma sum_change {keys : Finset κ} {f f' : κ → M} {k : κ} (hk : k ∈ keys)
    (h : ∀ i, i ≠ k → f' i = f i) : ∑ i ∈ keys, f' i + f k = ∑ i ∈ keys, f i + f' k := by
  have hrest : ∑ i ∈ keys.erase k, f' i = ∑ i ∈ keys.erase k, f i := by
    apply sum_congr rfl
    intro i hi
    exact h i (ne_of_mem_erase hi)
  calc ∑ i ∈ keys, f' i + f k
      = f' k + ∑ i ∈ keys.erase k, f' i + f k := by rw [add_sum_erase keys f' hk]
    _ = f' k + (f k + ∑ i ∈ keys.erase k, f i) := by rw [hrest, add_assoc, add_comm (f k)]
    _ = ∑ i ∈ keys, f i + f' k := by rw [add_sum_erase keys f hk, add_comm]

/-- A sum of a function of the entries, after a write. -/
lemma sum_update (keys : Finset κ) (f : β → M) (table : κ → β) {k : κ} (hk : k ∈ keys) (v : β) :
    ∑ i ∈ keys, f (Function.update table k v i) + f (table k)
      = ∑ i ∈ keys, f (table i) + f v := by
  have hchange := @sum_change _ _ _ _ keys (fun i => f (table i))
    (fun i => f (Function.update table k v i)) k hk ?_
  · simpa using hchange
  · intro i hi
    rw [Function.update_of_ne hi]

/-- Entries summed key by key: those whose key is not counted must be zero. -/
lemma sum_keys {α : Type} (keys : Finset κ) (key : α → κ) (v : α → ℕ) (L : List α)
    (h : ∀ a ∈ L, key a ∈ keys ∨ v a = 0) :
    ∑ k ∈ keys, (L.map fun a => if key a = k then v a else 0).sum = (L.map v).sum := by
  induction L with
  | nil => simp
  | cons a L ih =>
    have ih := ih fun a' ha' => h a' (List.mem_cons_of_mem a ha')
    simp only [List.map_cons, List.sum_cons]
    rw [sum_add_distrib, ih, sum_ite_eq]
    rcases h a List.mem_cons_self with hin | hzero
    · rw [if_pos hin]
    · rw [hzero, ite_self]

lemma sum_add_single_le {T : Finset κ} {f g : κ → ℕ} {t : κ} {a : ℕ} (ht : t ∈ T)
    (h : ∀ x, f x + (if x = t then a else 0) ≤ g x) : ∑ x ∈ T, f x + a ≤ ∑ x ∈ T, g x := by
  have hsingle : ∑ x ∈ T, (if x = t then a else 0) = a := by
    rw [sum_ite_eq', if_pos ht]
  rw [← hsingle, ← sum_add_distrib]
  exact sum_le_sum fun x _ => h x

omit [DecidableEq κ] in
lemma sum_add_scaled {T : Finset κ} {f f' g : κ → ℕ} {k : ℕ} (h : ∀ x, f' x = f x + g x * k) :
    ∑ x ∈ T, f' x = ∑ x ∈ T, f x + (∑ x ∈ T, g x) * k := by
  rw [sum_mul, ← sum_add_distrib]
  exact sum_congr rfl fun x _ => h x

end Dkg.Lib
