import Mathlib.Data.List.Sort

/-! # What a stable sort keeps

The order is total, but different elements may be tied. A stable sort keeps the order of tied
elements (`tiedWith_insertionSort`), and a sorted list is determined by its lists of tied elements
(`eq_of_tiedWith_eq`); so two lists are sorted into one exactly if these are the same
(`insertionSort_eq_iff`).
-/

namespace Dkg.Lib

open List

variable {α : Type} (r : α → α → Prop) [DecidableRel r]

/-- The elements that are tied with `a`, in the order of the list. -/
def tiedWith (a : α) (xs : List α) : List α := xs.filter fun b => decide (r a b ∧ r b a)

variable {r} {a b : α} {xs ys : List α}

lemma tiedWith_cons_of_tied (h : r a b ∧ r b a) : tiedWith r a (b :: xs) = b :: tiedWith r a xs :=
  filter_cons_of_pos (decide_eq_true h)

lemma mem_tiedWith : b ∈ tiedWith r a xs ↔ b ∈ xs ∧ r a b ∧ r b a := by
  rw [tiedWith, mem_filter, decide_eq_true_iff]

variable [Std.Total r] [IsTrans α r]

omit [Std.Total r] in
lemma tiedWith_insertionSort (a : α) (xs : List α) :
    tiedWith r a (xs.insertionSort r) = tiedWith r a xs := by
  have hsorted : (tiedWith r a xs).Pairwise r := by
    rw [pairwise_iff_forall_sublist]
    intro b c hbc
    have hb := (mem_tiedWith.mp (hbc.subset (by simp : b ∈ [b, c]))).2
    have hc := (mem_tiedWith.mp (hbc.subset (by simp : c ∈ [b, c]))).2
    exact trans_of r hb.2 hc.1
  -- a sorted sublist is still there after the sort
  have hkept : (tiedWith r a xs).Sublist (xs.insertionSort r) :=
    sublist_insertionSort hsorted filter_sublist
  have hself : tiedWith r a (tiedWith r a xs) = tiedWith r a xs := by
    rw [tiedWith, tiedWith, filter_filter]
    simp only [Bool.and_self]
  have hsub : (tiedWith r a xs).Sublist (tiedWith r a (xs.insertionSort r)) := by
    have h := hkept.filter fun b => decide (r a b ∧ r b a)
    rwa [← tiedWith, hself] at h
  have hlength : (tiedWith r a (xs.insertionSort r)).length = (tiedWith r a xs).length :=
    ((perm_insertionSort r xs).filter _).length_eq
  exact (hsub.eq_of_length_le hlength.le).symm

omit [IsTrans α r] in
/-- **A sorted list** is determined by its lists of tied elements. -/
lemma eq_of_tiedWith_eq (hxs : xs.Pairwise r) (hys : ys.Pairwise r)
    (h : ∀ a, tiedWith r a xs = tiedWith r a ys) : xs = ys := by
  have hrefl : ∀ a : α, r a a := fun a => (total_of r a a).elim id id
  have hmem : ∀ {zs ws : List α}, (∀ a, tiedWith r a zs = tiedWith r a ws) →
      ∀ {a}, a ∈ zs → a ∈ ws := by
    intro zs ws h a ha
    have htied : a ∈ tiedWith r a zs := mem_tiedWith.mpr ⟨ha, hrefl a, hrefl a⟩
    rw [h a] at htied
    exact (mem_tiedWith.mp htied).1
  have hmin : ∀ {c : α} {zs : List α}, (c :: zs).Pairwise r → ∀ d ∈ c :: zs, r c d :=
    fun hsorted => forall_mem_cons.mpr ⟨hrefl _, fun _ => rel_of_pairwise_cons hsorted⟩
  induction xs generalizing ys with
  | nil =>
    cases ys with
    | nil => rfl
    | cons b ys =>
      have hb : b ∈ [] := hmem (fun a => (h a).symm) mem_cons_self
      cases hb
  | cons a xs ih =>
    cases ys with
    | nil =>
      have ha : a ∈ [] := hmem h mem_cons_self
      cases ha
    | cons b ys =>
      -- each head is before the other one, so both head the list of the elements tied with `a`
      have hab : r a b := hmin hxs _ (hmem (fun a => (h a).symm) mem_cons_self)
      have hba : r b a := hmin hys _ (hmem h mem_cons_self)
      have hheads := h a
      rw [tiedWith_cons_of_tied ⟨hrefl a, hrefl a⟩, tiedWith_cons_of_tied ⟨hab, hba⟩,
        List.cons.injEq] at hheads
      have heq : a = b := hheads.1
      subst heq
      refine congrArg (a :: ·) (ih hxs.of_cons hys.of_cons fun c => ?_)
      have hc := h c
      by_cases htied : r c a ∧ r a c
      · rw [tiedWith_cons_of_tied htied, tiedWith_cons_of_tied htied, List.cons.injEq] at hc
        exact hc.2
      · rw [tiedWith, tiedWith, filter_cons_of_neg (by simpa using htied),
          filter_cons_of_neg (by simpa using htied)] at hc
        exact hc

/-- **Two lists are sorted into one** exactly if tied elements stand in the same order in both. -/
lemma insertionSort_eq_iff :
    xs.insertionSort r = ys.insertionSort r ↔ ∀ a, tiedWith r a xs = tiedWith r a ys := by
  constructor
  · intro h a
    calc tiedWith r a xs = tiedWith r a (xs.insertionSort r) := (tiedWith_insertionSort a xs).symm
      _ = tiedWith r a (ys.insertionSort r) := by rw [h]
      _ = tiedWith r a ys := tiedWith_insertionSort a ys
  · intro h
    apply eq_of_tiedWith_eq (pairwise_insertionSort r xs) (pairwise_insertionSort r ys)
    intro a
    rw [tiedWith_insertionSort, tiedWith_insertionSort, h a]

omit [Std.Total r] in
/-- Where no two elements of a list are tied, no permutation of it has them in another order. -/
lemma tiedWith_eq_of_perm (hperm : xs.Perm ys) (h : xs.Pairwise fun b c => ¬ (r b c ∧ r c b))
    (a : α) : tiedWith r a xs = tiedWith r a ys := by
  have hclass : (tiedWith r a xs).Perm (tiedWith r a ys) := hperm.filter _
  have hapart : (tiedWith r a xs).Pairwise fun b c => ¬ (r b c ∧ r c b) := h.filter _
  have htied : ∀ {b}, b ∈ tiedWith r a xs → r a b ∧ r b a := fun hb => (mem_tiedWith.mp hb).2
  cases hxs : tiedWith r a xs with
  | nil =>
    rw [hxs] at hclass
    exact hclass.nil_eq
  | cons b rest =>
    rw [hxs] at hclass hapart htied
    cases rest with
    | nil => exact (perm_singleton.mp hclass.symm).symm
    | cons c rest =>
      have hb := htied (by simp : b ∈ b :: c :: rest)
      have hc := htied (by simp : c ∈ b :: c :: rest)
      have hbc := rel_of_pairwise_cons hapart (mem_cons_self : c ∈ c :: rest)
      exact absurd ⟨trans_of r hb.2 hc.1, trans_of r hc.2 hb.1⟩ hbc

omit [Std.Total r] [IsTrans α r] in
lemma perm_of_insertionSort_eq (h : xs.insertionSort r = ys.insertionSort r) : xs.Perm ys := by
  have hxs : xs.Perm (ys.insertionSort r) := h ▸ (perm_insertionSort r xs).symm
  exact hxs.trans (perm_insertionSort r ys)

end Dkg.Lib
