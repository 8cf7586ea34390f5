import Mathlib.Data.List.Infix
import Mathlib.Data.List.TakeDrop

/-! # Occurrences of a separator in a list

`indexOf` is the place of the first occurrence. A list made of a part, a separator and a second part
can be taken apart again when the second part does not have the last element of the separator
(`append_separator_injective`). A list of parts that do not have the separator is given by the text
that has one before each part (`separated_injective`).
-/

namespace Dkg.Lib

open List

variable {α : Type} {sep xs front front' back back' : List α} {i : ℕ} {c : α}

/-- The last elements of two equal lists after the last `c`. -/
lemma append_last_injective (hback : c ∉ back) (hback' : c ∉ back')
    (h : front ++ c :: back = front' ++ c :: back') : front = front' ∧ back = back' := by
  rcases append_eq_append_iff.mp h with ⟨mid, rfl, heq⟩ | ⟨mid, rfl, heq⟩
  · cases mid with
    | nil => exact ⟨by simp, by simpa using heq⟩
    | cons d mid =>
      have hmem : c ∈ back := by
        rw [(cons.inj heq).2]
        simp
      exact absurd hmem hback
  · cases mid with
    | nil => exact ⟨by simp, by simpa using heq.symm⟩
    | cons d mid =>
      have hmem : c ∈ back' := by
        rw [(cons.inj heq).2]
        simp
      exact absurd hmem hback'

/-- The two parts around a separator, the second of which does not have its last element. -/
lemma append_separator_injective (hback : c ∉ back) (hback' : c ∉ back')
    (h : front ++ (sep ++ [c]) ++ back = front' ++ (sep ++ [c]) ++ back') :
    front = front' ∧ back = back' := by
  have hsplit : (front ++ sep) ++ c :: back = (front' ++ sep) ++ c :: back' := by simpa using h
  obtain ⟨hfront, hrest⟩ := append_last_injective hback hback' hsplit
  exact ⟨append_cancel_right hfront, hrest⟩

/-- Two texts that go on with the separator, or end, are equal before it, unless one is longer. -/
lemma append_injective_of_apart (hback : ∀ d ∈ back.head?, d = c)
    (hback' : ∀ d ∈ back'.head?, d = c) (hleft : ¬ front ++ [c] <+: front')
    (hright : ¬ front' ++ [c] <+: front) (h : front ++ back = front' ++ back') :
    front = front' ∧ back = back' := by
  rcases append_eq_append_iff.mp h with ⟨mid, rfl, rfl⟩ | ⟨mid, rfl, rfl⟩
  · cases mid with
    | nil => simp
    | cons d mid =>
      have hd : d = c := hback d rfl
      exact absurd ⟨mid, by simp [hd]⟩ hleft
  · cases mid with
    | nil => simp
    | cons d mid =>
      have hd : d = c := hback' d rfl
      exact absurd ⟨mid, by simp [hd]⟩ hright

lemma apart_of_notMem (hfront : c ∉ front') : ¬ front ++ [c] <+: front' := fun h =>
  hfront (h.subset (by simp))

/-- Every part of the list after a separator. -/
def separated (c : α) (parts : List (List α)) : List α := parts.flatMap (c :: ·)

lemma head_separated (parts : List (List α)) : ∀ d ∈ (separated c parts).head?, d = c := by
  intro d hd
  cases parts with
  | nil => cases hd
  | cons part parts => simpa [separated] using hd.symm

variable {parts parts' : List (List α)} {mid mid' last last' : List α}

lemma separated_cons_injective {part part' : List α} (hpart : c ∉ part) (hpart' : c ∉ part')
    (h : separated c (part :: parts) = separated c (part' :: parts')) :
    part = part' ∧ separated c parts = separated c parts' :=
  append_injective_of_apart (head_separated parts) (head_separated parts')
    (apart_of_notMem hpart') (apart_of_notMem hpart) (cons.inj h).2

/-- Parts that do not have the separator can be told apart. -/
lemma separated_injective (hparts : ∀ part ∈ parts, c ∉ part)
    (hparts' : ∀ part ∈ parts', c ∉ part) (h : separated c parts = separated c parts') :
    parts = parts' := by
  induction parts generalizing parts' with
  | nil =>
    cases parts' with
    | nil => rfl
    | cons part' parts' => cases h
  | cons part parts ih =>
    cases parts' with
    | nil => cases h
    | cons part' parts' =>
      have hboth := separated_cons_injective (hparts part (by simp)) (hparts' part' (by simp)) h
      have htail : parts = parts' := ih (fun p hp => hparts p (mem_cons_of_mem _ hp))
        (fun p hp => hparts' p (mem_cons_of_mem _ hp)) hboth.2
      rw [hboth.1, htail]

/-- A text of three parts of which the middle one has no separator: read in another such way with a
shorter last part, the middle and the last part of the other reading lie in the last part. -/
lemma longer_last {between : List α} (hmid' : c ∉ mid') (hbetween : between ≠ [])
    (hlast : last = between ++ last')
    (h : front ++ c :: mid ++ [c] ++ between = front' ++ c :: mid' ++ [c]) :
    ∃ between', last = between' ++ mid' ++ c :: last' ∧
      front' ++ [c] = front ++ c :: mid ++ c :: between' := by
  have hsplit : (front ++ c :: mid ++ [c]) ++ between = (front' ++ [c]) ++ (mid' ++ [c]) := by
    simpa using h
  rcases append_eq_append_iff.mp hsplit with ⟨rest, hfront, hback⟩ | ⟨rest, hfront, hback⟩
  · refine ⟨rest, ?_, ?_⟩
    · rw [hlast, hback]
      simp
    · rw [hfront]
      simp
  · -- the middle part cannot reach over the separator before `between`
    have hnil : rest = [] := by
      by_contra hne
      have hmem : c ∈ rest := by
        have hlastChar := congrArg getLast? hfront
        rw [getLast?_concat, getLast?_append_of_ne_nil _ hne] at hlastChar
        have hc : rest.getLast? = some c := hlastChar.symm
        exact mem_of_getLast? hc
      have hdrop := congrArg dropLast hback
      rw [dropLast_concat, dropLast_append_of_ne_nil hbetween] at hdrop
      exact hmid' (hdrop ▸ mem_append_left _ hmem)
    subst hnil
    refine ⟨[], ?_, ?_⟩
    · rw [hlast, ← nil_append between, ← hback]
      simp
    · rw [append_nil] at hfront
      rw [← hfront]

/-- The two readings of a text of three parts of which the middle one has no separator. -/
lemma three_parts (hmid : c ∉ mid) (hmid' : c ∉ mid')
    (h : front ++ c :: mid ++ c :: last = front' ++ c :: mid' ++ c :: last') :
    (front = front' ∧ mid = mid' ∧ last = last') ∨
    (∃ between, last = between ++ mid' ++ c :: last' ∧
      front' ++ [c] = front ++ c :: mid ++ c :: between) ∨
    (∃ between, last' = between ++ mid ++ c :: last ∧
      front ++ [c] = front' ++ c :: mid' ++ c :: between) := by
  have hsplit : (front ++ c :: mid ++ [c]) ++ last = (front' ++ c :: mid' ++ [c]) ++ last' := by
    simpa using h
  rcases append_eq_append_iff.mp hsplit with
    ⟨between, hfront, hback⟩ | ⟨between, hfront, hback⟩
  · by_cases hne : between = []
    · subst hne
      rw [append_nil] at hfront
      have hparts := append_last_injective hmid' hmid (append_cancel_right hfront)
      exact .inl ⟨hparts.1.symm, hparts.2.symm, hback⟩
    · exact .inr (.inl (longer_last hmid' hne hback hfront.symm))
  · by_cases hne : between = []
    · subst hne
      rw [append_nil] at hfront
      have hparts := append_last_injective hmid hmid' (append_cancel_right hfront)
      exact .inl ⟨hparts.1, hparts.2, hback.symm⟩
    · exact .inr (.inr (longer_last hmid hne hback hfront.symm))

variable [DecidableEq α]

/-- The place of the first occurrence of `sep`. -/
def indexOf (sep : List α) : List α → Option ℕ
  | [] => if sep = [] then some 0 else none
  | x :: xs => if sep <+: x :: xs then some 0 else (indexOf sep xs).map (· + 1)

lemma indexOf_occurs (h : indexOf sep xs = some i) : sep <+: xs.drop i := by
  induction xs generalizing i with
  | nil =>
    unfold indexOf at h
    split at h
    next hsep => simp [hsep]
    next => cases h
  | cons x xs ih =>
    unfold indexOf at h
    split at h
    next hfirst =>
      cases h
      exact hfirst
    next =>
      obtain ⟨j, hj, rfl⟩ := Option.map_eq_some_iff.mp h
      exact ih hj

/-- What stands before the separator, and what follows it. -/
lemma indexOf_split (h : indexOf sep xs = some i) : ∃ rest, xs = xs.take i ++ sep ++ rest := by
  obtain ⟨rest, hrest⟩ := indexOf_occurs h
  exact ⟨rest, by rw [append_assoc, hrest, take_append_drop]⟩

lemma indexOf_isSome : (indexOf sep xs).isSome ↔ sep <:+: xs := by
  induction xs with
  | nil =>
    unfold indexOf
    split
    next hsep => simp [hsep]
    next hsep => simp [hsep]
  | cons x xs ih =>
    unfold indexOf
    split
    next hfirst => exact iff_of_true rfl hfirst.isInfix
    next hfirst => simp [infix_cons_iff, hfirst, ih]

end Dkg.Lib
