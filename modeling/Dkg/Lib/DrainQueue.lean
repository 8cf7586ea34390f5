import Mathlib.Tactic

/-! # Weighted queues that are drained in order

A queue is a strictly ascending list `q` of keys with a weight `w k` for each of them
(`total q w` is their sum). The operations are those of a schedule of future events: a weight
changes at a key of the queue, a new key is inserted in its place, and all keys up to a bound are
taken off the front.
-/

namespace Dkg.Lib

open List

variable {κ : Type}

/-- The sum of the weights over the queue. -/
def total (q : List κ) (w : κ → ℕ) : ℕ := (q.map w).sum

@[simp] lemma total_nil (w : κ → ℕ) : total [] w = 0 := rfl

@[simp] lemma total_cons (k : κ) (q : List κ) (w : κ → ℕ) : total (k :: q) w = w k + total q w := by
  simp [total]

lemma total_append (p q : List κ) (w : κ → ℕ) : total (p ++ q) w = total p w + total q w := by
  simp [total]

lemma total_perm {p q : List κ} (h : p.Perm q) (w : κ → ℕ) : total p w = total q w :=
  (h.map w).sum_eq

/-- Weights that agree on the queue have the same total. -/
lemma total_congr {q : List κ} {w w' : κ → ℕ} (h : ∀ k ∈ q, w k = w' k) :
    total q w = total q w' := by
  unfold total
  rw [map_congr_left h]

lemma total_eq_sum [DecidableEq κ] {q : List κ} (hq : q.Nodup) (w : κ → ℕ) :
    total q w = ∑ k ∈ q.toFinset, w k :=
  (sum_toFinset w hq).symm

section

variable [DecidableEq κ] {q : List κ} {k : κ} {w : κ → ℕ}

lemma total_update_of_notMem (hk : k ∉ q) (v : ℕ) :
    total q (Function.update w k v) = total q w := by
  apply total_congr
  intro x hx
  rw [Function.update_of_ne]
  rintro rfl
  exact hk hx

/-- Changing the weight of one key of the queue changes the total by the difference. -/
lemma total_update (hq : q.Nodup) (hk : k ∈ q) (v : ℕ) :
    total q (Function.update w k v) + w k = total q w + v := by
  induction q with
  | nil => cases hk
  | cons x q ih =>
    rw [nodup_cons] at hq
    rw [total_cons, total_cons]
    rcases mem_cons.mp hk with rfl | hmem
    · rw [Function.update_self, total_update_of_notMem hq.1]
      omega
    · have hne : x ≠ k := by
        rintro rfl
        exact hq.1 hmem
      have := ih hq.2 hmem
      rw [Function.update_of_ne hne]
      omega

end

section

variable [LinearOrder κ]

variable {q : List κ} {k bound : κ}

/-- Inserting a new key keeps the queue strictly ascending. -/
lemma pairwise_lt_orderedInsert (hq : q.Pairwise (· < ·)) (hk : k ∉ q) :
    (q.orderedInsert (· ≤ ·) k).Pairwise (· < ·) := by
  have hle : (q.orderedInsert (· ≤ ·) k).Pairwise (· ≤ ·) :=
    (hq.imp le_of_lt).orderedInsert k q
  have hnodup : (q.orderedInsert (· ≤ ·) k).Nodup := by
    rw [(perm_orderedInsert (· ≤ ·) k q).nodup_iff]
    exact nodup_cons.mpr ⟨hk, hq.imp ne_of_lt⟩
  exact (hle.and hnodup).imp fun h => lt_of_le_of_ne h.1 h.2

lemma total_orderedInsert (q : List κ) (k : κ) (w : κ → ℕ) :
    total (q.orderedInsert (· ≤ ·) k) w = w k + total q w := by
  rw [total_perm (perm_orderedInsert (· ≤ ·) k q), total_cons]

/-- The keys up to a bound, in front. -/
def due (bound : κ) (q : List κ) : List κ := q.takeWhile fun k => decide (k ≤ bound)

/-- What stays after the keys up to a bound are taken off. -/
def later (bound : κ) (q : List κ) : List κ := q.dropWhile fun k => decide (k ≤ bound)

lemma due_append_later (bound : κ) (q : List κ) : due bound q ++ later bound q = q :=
  takeWhile_append_dropWhile

/-- What is due at a bound is what is due at a lower one, and what is due after that. -/
lemma due_append_due {low high : κ} (h : low ≤ high) (q : List κ) :
    due high q = due low q ++ due high (later low q) := by
  induction q with
  | nil => rfl
  | cons k q ih =>
    unfold due later at ih ⊢
    by_cases hk : k ≤ low
    · have hk' : k ≤ high := le_trans hk h
      simp only [takeWhile_cons, dropWhile_cons, hk, hk', decide_true, if_true, cons_append]
      rw [ih]
    · simp only [takeWhile_cons, dropWhile_cons, hk, decide_false, Bool.false_eq_true,
        if_false, nil_append]

lemma mem_due (hq : q.Pairwise (· < ·)) : k ∈ due bound q ↔ k ∈ q ∧ k ≤ bound := by
  unfold due
  induction q with
  | nil => simp
  | cons x q ih =>
    rw [pairwise_cons] at hq
    rw [takeWhile_cons]
    by_cases hx : x ≤ bound
    · have := ih hq.2
      simp only [hx, decide_true, if_true, mem_cons]
      constructor
      · rintro (rfl | h)
        · exact ⟨.inl rfl, hx⟩
        · exact ⟨.inr (this.mp h).1, (this.mp h).2⟩
      · rintro ⟨rfl | h, hk⟩
        · exact .inl rfl
        · exact .inr (this.mpr ⟨h, hk⟩)
    · simp only [hx, decide_false, Bool.false_eq_true, if_false, not_mem_nil, mem_cons,
        false_iff, not_and]
      rintro (rfl | h)
      · exact hx
      · exact fun hk => hx (le_trans (hq.1 k h).le hk)

lemma mem_later (hq : q.Pairwise (· < ·)) : k ∈ later bound q ↔ k ∈ q ∧ bound < k := by
  have happ := due_append_later bound q
  have hdisj : ∀ x ∈ due bound q, ∀ y ∈ later bound q, x < y := by
    rw [← happ, pairwise_append] at hq
    exact hq.2.2
  have hmem : k ∈ q ↔ k ∈ due bound q ∨ k ∈ later bound q := by
    rw [← mem_append, happ]
  constructor
  · intro h
    refine ⟨hmem.mpr (.inr h), ?_⟩
    by_contra hle
    have hdue := (mem_due hq).mpr ⟨hmem.mpr (.inr h), not_lt.mp hle⟩
    exact lt_irrefl _ (hdisj k hdue k h)
  · rintro ⟨h, hlt⟩
    rcases hmem.mp h with hdue | hlater
    · exact absurd ((mem_due hq).mp hdue).2 (not_le.mpr hlt)
    · exact hlater

lemma pairwise_later (hq : q.Pairwise (· < ·)) : (later bound q).Pairwise (· < ·) :=
  hq.sublist (dropWhile_sublist _)

lemma total_due_add_later (bound : κ) (q : List κ) (w : κ → ℕ) :
    total (due bound q) w + total (later bound q) w = total q w := by
  rw [← total_append, due_append_later]

end

end Dkg.Lib
