import Mathlib.Tactic

/-! # A list with an index table

A set of keys kept as a list, with a table of the positions: adding appends, and removing moves
the last key into the free slot. `Listed` says that the table finds a key in the list; removing
another key keeps that. `Indexed` says that the table knows the slot of every entry, which also
means that no key is in the list twice.
-/

namespace Dkg.Lib

open List Function

variable {α : Type}

/-- The table finds the key. -/
def Listed (arr : List α) (idx : α → ℕ) (k : α) : Prop := arr[idx k]? = some k

namespace Listed

variable {arr : List α} {idx : α → ℕ} {k x moved : α}

lemma lt_length (h : Listed arr idx k) : idx k < arr.length :=
  (List.getElem?_eq_some_iff.mp h).1

lemma mem (h : Listed arr idx k) : k ∈ arr := mem_of_getElem? h

variable [DecidableEq α]

lemma pop_last (hx : Listed arr idx x) (hlast : idx x = arr.length - 1) (h : Listed arr idx k)
    (hne : k ≠ x) (v : ℕ) : Listed arr.dropLast (update idx x v) k := by
  have hlt := h.lt_length
  have hother : idx k ≠ idx x := by
    intro heq
    unfold Listed at h hx
    rw [heq, hx] at h
    exact hne (Option.some.inj h).symm
  unfold Listed
  rw [update_of_ne hne, getElem?_dropLast, if_pos (by omega)]
  exact h

/-- Removing another one: the last key takes its slot. -/
lemma pop_moved (hx : Listed arr idx x) (hmid : idx x ≠ arr.length - 1)
    (hmoved : arr[arr.length - 1]? = some moved) (h : Listed arr idx k) (hne : k ≠ x) (v : ℕ) :
    Listed (arr.set (idx x) moved).dropLast
      (update (update idx moved (idx x)) x v) k := by
  have hlt := h.lt_length
  have hltx := hx.lt_length
  unfold Listed
  rw [update_of_ne hne, getElem?_dropLast, length_set]
  by_cases hk : k = moved
  · rw [hk, update_self, if_pos (by omega), getElem?_set_self hltx]
  · have hother : idx k ≠ idx x := by
      intro heq
      unfold Listed at h hx
      rw [heq, hx] at h
      exact hne (Option.some.inj h).symm
    have hend : idx k ≠ arr.length - 1 := by
      intro heq
      unfold Listed at h
      rw [heq, hmoved] at h
      exact hk (Option.some.inj h).symm
    rw [update_of_ne hk, if_pos (by omega), getElem?_set_ne hother.symm]
    exact h

end Listed

/-- The table knows the slot of every entry. -/
def Indexed (arr : List α) (idx : α → ℕ) : Prop := ∀ i k, arr[i]? = some k → idx k = i

namespace Indexed

variable {arr : List α} {idx : α → ℕ} {k x moved : α}

lemma nil (idx : α → ℕ) : Indexed [] idx := by
  intro i k h
  simp at h

lemma listed (h : Indexed arr idx) (hk : k ∈ arr) : Listed arr idx k := by
  obtain ⟨i, hi⟩ := getElem?_of_mem hk
  unfold Listed
  rw [h i k hi]
  exact hi

lemma nodup (h : Indexed arr idx) : arr.Nodup := by
  refine nodup_iff_getElem?_ne_getElem?.mpr fun i j hij hj heq => ?_
  have hsome : arr[j]? = some arr[j] := getElem?_eq_getElem hj
  have hi := h i arr[j] (heq.trans hsome)
  have hj' := h j arr[j] hsome
  omega

variable [DecidableEq α]

variable (h : Indexed arr idx)

include h

lemma push (hx : x ∉ arr) : Indexed (arr ++ [x]) (update idx x arr.length) := by
  intro i k hk
  by_cases hi : i < arr.length
  · rw [getElem?_append_left hi] at hk
    have hne : k ≠ x := by
      rintro rfl
      exact hx (mem_of_getElem? hk)
    rw [update_of_ne hne]
    exact h i k hk
  · obtain ⟨hlt, hval⟩ := List.getElem?_eq_some_iff.mp hk
    rw [length_append, length_singleton] at hlt
    obtain rfl : i = arr.length := by omega
    rw [getElem_concat_length rfl] at hval
    rw [← hval, update_self]

lemma pop_last (hx : x ∈ arr) (hlast : idx x = arr.length - 1) (v : ℕ) :
    Indexed arr.dropLast (update idx x v) ∧
      ∀ k, k ∈ arr.dropLast ↔ k ∈ arr ∧ k ≠ x := by
  have hlisted := h.listed hx
  have hslot : ∀ (i : ℕ) k, arr.dropLast[i]? = some k → arr[i]? = some k ∧ i < arr.length - 1 := by
    intro i k hk
    rw [getElem?_dropLast] at hk
    split at hk
    next hi => exact ⟨hk, hi⟩
    next => cases hk
  have hother : ∀ (i : ℕ) k, arr.dropLast[i]? = some k → k ≠ x := by
    rintro i k hk rfl
    obtain ⟨hk', hi⟩ := hslot i k hk
    have := h i k hk'
    omega
  constructor
  · intro i k hk
    rw [update_of_ne (hother i k hk)]
    exact h i k (hslot i k hk).1
  · intro k
    constructor
    · intro hk
      obtain ⟨i, hi⟩ := getElem?_of_mem hk
      exact ⟨mem_of_getElem? (hslot i k hi).1, hother i k hi⟩
    · rintro ⟨hk, hne⟩
      exact (hlisted.pop_last hlast (h.listed hk) hne v).mem

lemma pop_moved (hx : x ∈ arr) (hmid : idx x ≠ arr.length - 1)
    (hmoved : arr[arr.length - 1]? = some moved) (v : ℕ) :
    Indexed (arr.set (idx x) moved).dropLast
        (update (update idx moved (idx x)) x v) ∧
      ∀ k, k ∈ (arr.set (idx x) moved).dropLast ↔ k ∈ arr ∧ k ≠ x := by
  have hlisted := h.listed hx
  have hltx := hlisted.lt_length
  have hmovedIdx := h _ _ hmoved
  have hmovedNe : moved ≠ x := by
    rintro rfl
    exact hmid hmovedIdx
  -- an entry is the one moved, in the free slot, or an old one where it was
  have hslot : ∀ (i : ℕ) k, (arr.set (idx x) moved).dropLast[i]? = some k →
      (i = idx x ∧ k = moved) ∨ (i ≠ idx x ∧ i < arr.length - 1 ∧ arr[i]? = some k) := by
    intro i k hk
    rw [getElem?_dropLast, length_set] at hk
    split at hk
    next hi =>
      by_cases hix : i = idx x
      · subst hix
        rw [getElem?_set_self hltx] at hk
        exact .inl ⟨rfl, (Option.some.inj hk).symm⟩
      · rw [getElem?_set_ne (Ne.symm hix)] at hk
        exact .inr ⟨hix, hi, hk⟩
    next => cases hk
  have hentry : ∀ (i : ℕ) k, (arr.set (idx x) moved).dropLast[i]? = some k → k ∈ arr ∧ k ≠ x := by
    intro i k hk
    rcases hslot i k hk with ⟨-, rfl⟩ | ⟨hix, -, hk'⟩
    · exact ⟨mem_of_getElem? hmoved, hmovedNe⟩
    · refine ⟨mem_of_getElem? hk', ?_⟩
      rintro rfl
      exact hix (h i k hk').symm
  constructor
  · intro i k hk
    rw [update_of_ne (hentry i k hk).2]
    rcases hslot i k hk with ⟨rfl, rfl⟩ | ⟨hix, hi, hk'⟩
    · rw [update_self]
    · have hik := h i k hk'
      have hne : k ≠ moved := by
        rintro rfl
        omega
      rw [update_of_ne hne]
      exact hik
  · intro k
    constructor
    · intro hk
      obtain ⟨i, hi⟩ := getElem?_of_mem hk
      exact hentry i k hi
    · rintro ⟨hk, hne⟩
      exact (hlisted.pop_moved hmid hmoved (h.listed hk) hne v).mem

/-- Another key in a slot, whose old key is cleared in the table. -/
lemma replace {i : ℕ} {y : α} (hx : arr[i]? = some x) (hy : y ∉ arr) :
    Indexed (arr.set i y) (update (update idx x 0) y i) ∧
      ∀ k, k ∈ arr.set i y ↔ k = y ∨ k ∈ arr ∧ k ≠ x := by
  obtain ⟨hlt, -⟩ := List.getElem?_eq_some_iff.mp hx
  have hslot : ∀ (j : ℕ) k, (arr.set i y)[j]? = some k →
      (j = i ∧ k = y) ∨ (j ≠ i ∧ arr[j]? = some k) := by
    intro j k hk
    by_cases hj : j = i
    · subst hj
      rw [getElem?_set_self hlt] at hk
      exact .inl ⟨rfl, (Option.some.inj hk).symm⟩
    · rw [getElem?_set_ne (Ne.symm hj)] at hk
      exact .inr ⟨hj, hk⟩
  have hold : ∀ (j : ℕ) k, j ≠ i → arr[j]? = some k → k ≠ y ∧ k ≠ x := by
    intro j k hj hk
    constructor
    · rintro rfl
      exact hy (mem_of_getElem? hk)
    · rintro rfl
      exact hj ((h j k hk).symm.trans (h i k hx))
  constructor
  · intro j k hk
    rcases hslot j k hk with ⟨rfl, rfl⟩ | ⟨hj, hk'⟩
    · rw [update_self]
    · obtain ⟨hky, hkx⟩ := hold j k hj hk'
      rw [update_of_ne hky, update_of_ne hkx]
      exact h j k hk'
  · intro k
    constructor
    · intro hk
      obtain ⟨j, hj⟩ := getElem?_of_mem hk
      rcases hslot j k hj with ⟨-, rfl⟩ | ⟨hji, hk'⟩
      · exact .inl rfl
      · exact .inr ⟨mem_of_getElem? hk', (hold j k hji hk').2⟩
    · rintro (rfl | ⟨hk, hkx⟩)
      · exact mem_of_getElem? (getElem?_set_self hlt)
      · obtain ⟨j, hj⟩ := getElem?_of_mem hk
        have hji : j ≠ i := by
          rintro rfl
          exact hkx (Option.some.inj (hj.symm.trans hx))
        have hset : (arr.set i y)[j]? = some k := by
          rw [getElem?_set_ne (Ne.symm hji)]
          exact hj
        exact mem_of_getElem? hset

omit h in
/-- Without a table, the first slot of a key is as good as one. -/
lemma of_nodup (h : arr.Nodup) : Indexed arr fun k => arr.idxOf k := by
  intro i k hk
  obtain ⟨hi, rfl⟩ := List.getElem?_eq_some_iff.mp hk
  exact h.idxOf_getElem i hi

lemma remove_slot {i : ℕ} (hx : arr[i]? = some x) (hmoved : arr[arr.length - 1]? = some moved) :
    (arr.set i moved).dropLast.Nodup ∧
      ∀ k, k ∈ (arr.set i moved).dropLast ↔ k ∈ arr ∧ k ≠ x := by
  have hslot := h i x hx
  have hmem := mem_of_getElem? hx
  by_cases hlast : idx x = arr.length - 1
  · have hsame : arr.set i moved = arr := by
      rw [hlast] at hslot
      rw [← hslot]
      obtain ⟨hlt, rfl⟩ := List.getElem?_eq_some_iff.mp hmoved
      exact set_getElem_self hlt
    obtain ⟨hindexed, hkeys⟩ := h.pop_last hmem hlast 0
    rw [hsame]
    exact ⟨hindexed.nodup, hkeys⟩
  · obtain ⟨hindexed, hkeys⟩ := h.pop_moved hmem hlast hmoved 0
    rw [hslot] at hindexed hkeys
    exact ⟨hindexed.nodup, hkeys⟩

end Indexed

end Dkg.Lib
