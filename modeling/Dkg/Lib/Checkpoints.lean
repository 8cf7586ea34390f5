import Mathlib.Data.List.GetD
import Dkg.Lib.BinarySearch

/-! # Timestamped checkpoints

A list of checkpoints in the order of time, read at a timestamp: the value of the last checkpoint
that is not after it. Reading by binary search gives this value, and a checkpoint added at the end
changes the reads from its own timestamp on and no others.
-/

namespace Dkg.Lib

open List

variable {α : Type} {time val : α → ℕ}

/-- The value at the last checkpoint not after `t`, or zero. -/
def valueAt (time val : α → ℕ) (l : List α) (t : ℕ) : ℕ :=
  match (l.filter fun x => time x ≤ t).getLast? with
  | some x => val x
  | none => 0

/-- The value at the last checkpoint, or zero. -/
def lastValue (val : α → ℕ) (l : List α) : ℕ :=
  match l.getLast? with
  | some x => val x
  | none => 0

@[simp] lemma lastValue_concat (l : List α) (x : α) : lastValue val (l ++ [x]) = val x := by
  simp [lastValue]

lemma valueAt_concat (l : List α) (x : α) (t : ℕ) :
    valueAt time val (l ++ [x]) t = if time x ≤ t then val x else valueAt time val l t := by
  unfold valueAt
  by_cases hx : time x ≤ t
  · simp [hx, filter_append]
  · simp [hx, filter_append]

variable {l : List α} {t : ℕ} {x : α}

lemma valueAt_of_le (h : ∀ x ∈ l, time x ≤ t) : valueAt time val l t = lastValue val l := by
  unfold valueAt lastValue
  rw [filter_eq_self.mpr fun x hx => decide_eq_true (h x hx)]

lemma valueAt_le {B : ℕ} (h : ∀ x ∈ l, val x ≤ B) (t : ℕ) : valueAt time val l t ≤ B := by
  unfold valueAt
  split
  next x hx => exact h x (mem_of_mem_filter (mem_of_getLast? hx))
  next => exact Nat.zero_le B

/-- In a list ordered by time, all checkpoints are in the past when the last one is. -/
lemma filter_concat_of_le (h : (l ++ [x]).Pairwise fun x y => time x < time y) (hx : time x ≤ t) :
    (l ++ [x]).filter (fun y => time y ≤ t) = l ++ [x] := by
  obtain ⟨-, -, hlast⟩ := pairwise_append.mp h
  refine filter_eq_self.mpr fun y hy => decide_eq_true ?_
  rcases mem_append.mp hy with hy | hy
  · have := hlast y hy x (mem_singleton.mpr rfl)
    omega
  · rw [mem_singleton.mp hy]
    exact hx

lemma filter_concat_of_gt (hx : ¬ time x ≤ t) :
    (l ++ [x]).filter (fun y => time y ≤ t) = l.filter fun y => time y ≤ t := by
  simp [filter_append, hx]

variable (h : l.Pairwise fun x y => time x < time y)

include h

/-- In a list ordered by time, the checkpoints up to `t` are a prefix. -/
lemma time_le_iff (d : α) (t : ℕ) :
    ∀ i < l.length, time (l.getD i d) ≤ t ↔ i < (l.filter fun x => time x ≤ t).length := by
  induction l using List.reverseRecOn with
  | nil => exact fun i hi => absurd hi (Nat.not_lt_zero i)
  | append_singleton l x ih =>
    intro i hi
    by_cases hx : time x ≤ t
    · have hall := filter_concat_of_le h hx
      rw [hall, getD_eq_getElem _ _ hi]
      have hmem : (l ++ [x])[i] ∈ (l ++ [x]).filter fun y => time y ≤ t := by
        rw [hall]
        exact getElem_mem hi
      exact iff_of_true (of_decide_eq_true (mem_filter.mp hmem).2) hi
    · rw [filter_concat_of_gt hx]
      rw [length_append, length_singleton] at hi
      by_cases hi' : i < l.length
      · rw [getD_append _ _ _ _ hi']
        exact ih (pairwise_append.mp h).1 i hi'
      · obtain rfl : i = l.length := by omega
        rw [getD_append_right _ _ _ _ le_rfl, Nat.sub_self]
        exact iff_of_false hx (Nat.not_lt.mpr (length_filter_le _ _))

lemma valueAt_eq_getD (d : α) (t : ℕ) :
    valueAt time val l t = if (l.filter fun x => time x ≤ t).length = 0 then 0
      else val (l.getD ((l.filter fun x => time x ≤ t).length - 1) d) := by
  induction l using List.reverseRecOn with
  | nil => rfl
  | append_singleton l x ih =>
    rw [valueAt_concat]
    by_cases hx : time x ≤ t
    · rw [if_pos hx, filter_concat_of_le h hx]
      simp
    · rw [if_neg hx, filter_concat_of_gt hx, ih (pairwise_append.mp h).1]
      by_cases hzero : (l.filter fun y => time y ≤ t).length = 0
      · rw [if_pos hzero, if_pos hzero]
      · have hle := length_filter_le (fun y => decide (time y ≤ t)) l
        rw [if_neg hzero, if_neg hzero, getD_append _ _ _ _ (by omega)]

/-- **Reading by binary search.** -/
lemma search_eq_valueAt (d : α) (t : ℕ) :
    (let lo := searchEnd (fun i => decide (time (l.getD i d) ≤ t)) l.length 0 l.length
     if lo = 0 then 0 else val (l.getD (lo - 1) d)) = valueAt time val l t := by
  have hlo := searchEnd_eq (p := fun i => decide (time (l.getD i d) ≤ t))
    (k := (l.filter fun x => time x ≤ t).length) (n := l.length)
    (fun i hi => by rw [decide_eq_true_iff]; exact time_le_iff h d t i hi) l.length 0 l.length
    le_rfl (Nat.zero_le _) (length_filter_le _ _) (by omega)
  simp only [hlo]
  exact (valueAt_eq_getD h d t).symm

end Dkg.Lib
