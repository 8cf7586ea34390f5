import Mathlib.Data.Set.Card
import Mathlib.Order.Bounds.Basic
import Mathlib.Order.CompletePartialOrder
import Mathlib.Tactic

/-! # Rounds of closure

Operators on sets are applied one after the other, each to what is there so far and each only adding
to it; that is a round. A round that adds nothing has reached a set that all operators keep
(`round_eq_iff`). For monotone operators it is the least one over the set that the rounds began with
(`isLeast_iterate`), and the number of rounds is bounded by what there is to add
(`exists_fixed_of_encard_lt`).

`Within M` says that no operator adds what is not in `M` at the place where a round applies it.
-/

namespace Dkg.Lib.Rounds

open List Function

variable {α : Type} {fs : List (Set α → Set α)} {f : Set α → Set α} {I M base : Set α} {n : ℕ}

def round (fs : List (Set α → Set α)) (I : Set α) : Set α := fs.foldl (fun I f => I ∪ f I) I

/-- What all operators keep. -/
def Closed (fs : List (Set α → Set α)) (M : Set α) : Prop := ∀ f ∈ fs, f M ⊆ M

/-- No operator of the round adds what is not in `M`. -/
def Within (M : Set α) : List (Set α → Set α) → Set α → Prop
  | [], _ => True
  | f :: fs, I => f I ⊆ M ∧ Within M fs (I ∪ f I)

lemma round_cons (f : Set α → Set α) (fs : List (Set α → Set α)) (I : Set α) :
    round (f :: fs) I = round fs (I ∪ f I) := rfl

lemma subset_round (fs : List (Set α → Set α)) (I : Set α) : I ⊆ round fs I := by
  induction fs generalizing I with
  | nil => exact subset_rfl
  | cons f fs ih => exact Set.subset_union_left.trans (ih (I ∪ f I))

lemma round_eq_iff : round fs I = I ↔ Closed fs I := by
  induction fs generalizing I with
  | nil => simp [round, Closed]
  | cons f fs ih =>
    have hhead : Closed (f :: fs) I ↔ f I ⊆ I ∧ Closed fs I := forall_mem_cons
    rw [round_cons, hhead]
    constructor
    · intro h
      have hf : f I ⊆ I := by
        calc f I ⊆ I ∪ f I := Set.subset_union_right
          _ ⊆ round fs (I ∪ f I) := subset_round fs _
          _ = I := h
      rw [Set.union_eq_self_of_subset_right hf] at h
      exact ⟨hf, ih.mp h⟩
    · rintro ⟨hf, hfs⟩
      rw [Set.union_eq_self_of_subset_right hf]
      exact ih.mpr hfs

lemma round_subset (hwithin : Within M fs I) (hI : I ⊆ M) : round fs I ⊆ M := by
  induction fs generalizing I with
  | nil => exact hI
  | cons f fs ih => exact ih hwithin.2 (Set.union_subset hI hwithin.1)

lemma within_round (fs : List (Set α → Set α)) (h : round fs I ⊆ M) : Within M fs I := by
  induction fs generalizing I with
  | nil => trivial
  | cons f fs ih =>
    have hf : f I ⊆ M := (Set.subset_union_right.trans (subset_round fs (I ∪ f I))).trans h
    exact ⟨hf, ih h⟩

/-- Monotone operators add nothing beyond a set that they keep. -/
lemma within_of_closed (hmono : ∀ f ∈ fs, Monotone f) (hM : Closed fs M) (hI : I ⊆ M) :
    Within M fs I := by
  induction fs generalizing I with
  | nil => trivial
  | cons f fs ih =>
    have hf : f I ⊆ M := (hmono f mem_cons_self hI).trans (hM f mem_cons_self)
    exact ⟨hf, ih (fun g hg => hmono g (mem_cons_of_mem f hg))
      (fun g hg => hM g (mem_cons_of_mem f hg)) (Set.union_subset hI hf)⟩

/-! ## Several rounds -/

lemma subset_iterate (fs : List (Set α → Set α)) (base : Set α) (n : ℕ) :
    base ⊆ (round fs)^[n] base := by
  induction n with
  | zero => exact subset_rfl
  | succ n ih =>
    rw [iterate_succ_apply']
    exact ih.trans (subset_round fs _)

/-- Rounds that stay within `M` reach no more than `M`. -/
lemma iterate_subset_of_within (hbase : base ⊆ M)
    (hwithin : ∀ k < n, Within M fs ((round fs)^[k] base)) : (round fs)^[n] base ⊆ M := by
  induction n with
  | zero => exact hbase
  | succ n ih =>
    rw [iterate_succ_apply']
    exact round_subset (hwithin n (Nat.lt_succ_self n))
      (ih fun k hk => hwithin k (Nat.lt_succ_of_lt hk))

lemma iterate_subset (hmono : ∀ f ∈ fs, Monotone f) (hM : Closed fs M) (hbase : base ⊆ M)
    (n : ℕ) : (round fs)^[n] base ⊆ M := by
  induction n with
  | zero => exact hbase
  | succ n ih =>
    rw [iterate_succ_apply']
    exact round_subset (within_of_closed hmono hM ih) ih

/-- **The least set** over the base that monotone operators keep. -/
lemma isLeast_iterate (hmono : ∀ f ∈ fs, Monotone f)
    (hfixed : round fs ((round fs)^[n] base) = (round fs)^[n] base) :
    IsLeast {M | base ⊆ M ∧ Closed fs M} ((round fs)^[n] base) := by
  refine ⟨⟨subset_iterate fs base n, round_eq_iff.mp hfixed⟩, ?_⟩
  rintro M ⟨hbase, hM⟩
  exact iterate_subset hmono hM hbase n

/-- Every round that adds something adds one element at least. -/
lemma le_encard_iterate (h : ∀ k < n, round fs ((round fs)^[k] base) ≠ (round fs)^[k] base) :
    (n : ℕ∞) ≤ ((round fs)^[n] base \ base).encard := by
  induction n with
  | zero => simp
  | succ n ih =>
    have hle := ih fun k hk => h k (Nat.lt_succ_of_lt hk)
    have hgrows : (round fs)^[n] base ⊂ (round fs)^[n + 1] base := by
      rw [iterate_succ_apply']
      exact (subset_round fs _).ssubset_of_ne (h n (Nat.lt_succ_self n)).symm
    obtain ⟨a, ha, hnew⟩ := Set.exists_of_ssubset hgrows
    have hout : a ∉ (round fs)^[n] base \ base := fun hmem => hnew hmem.1
    have hsub : insert a ((round fs)^[n] base \ base) ⊆ (round fs)^[n + 1] base \ base := by
      rw [Set.insert_subset_iff]
      refine ⟨⟨ha, fun hbase => hnew (subset_iterate fs base n hbase)⟩, ?_⟩
      exact Set.sdiff_subset_sdiff_left hgrows.subset
    calc ((n + 1 : ℕ) : ℕ∞) = n + 1 := by simp
      _ ≤ ((round fs)^[n] base \ base).encard + 1 := by gcongr
      _ = (insert a ((round fs)^[n] base \ base)).encard := (Set.encard_insert_of_notMem hout).symm
      _ ≤ ((round fs)^[n + 1] base \ base).encard := Set.encard_le_encard hsub

/-- **A bound.** Fewer additions than rounds leave a round that adds nothing. -/
lemma exists_fixed_of_encard_lt (hmono : ∀ f ∈ fs, Monotone f) (hM : Closed fs M)
    (hbase : base ⊆ M) (hcard : (M \ base).encard < n) :
    ∃ k < n, round fs ((round fs)^[k] base) = (round fs)^[k] base := by
  by_contra hcon
  push Not at hcon
  have hle : (n : ℕ∞) ≤ (M \ base).encard := by
    calc (n : ℕ∞) ≤ ((round fs)^[n] base \ base).encard := le_encard_iterate hcon
      _ ≤ (M \ base).encard :=
          Set.encard_le_encard (Set.sdiff_subset_sdiff_left (iterate_subset hmono hM hbase n))
  exact absurd hcard (not_lt.mpr hle)

end Dkg.Lib.Rounds
