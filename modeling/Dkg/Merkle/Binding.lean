import Dkg.Merkle.Soundness

/-! # What a root commits to

The leaves are sorted and deduplicated before anything is hashed, so the tree is a function of
the set of leaves. In the other direction, an odd layer repeats its last node: over an injective
pair hash the layers of two trees can be compared from the root down only because both have the
same number of nodes, which is what the leaf count adds to the root.
-/

namespace Dkg

open Lib V10MerkleTree List

variable {B : Type} [LinearOrder B]

/-- The deduplication of a sorted list is strictly sorted and drops only repetitions. -/
lemma dedupSorted_spec {previous : B} {l : List B} (h : (previous :: l).Pairwise (· ≤ ·)) :
    (previous :: dedupSorted previous l).Pairwise (· < ·) ∧
      ∀ x, x ∈ previous :: dedupSorted previous l ↔ x ∈ previous :: l := by
  induction l generalizing previous with
  | nil => simp [dedupSorted]
  | cons y l ih =>
    obtain ⟨hfirst, hrest⟩ := pairwise_cons.mp h
    obtain ⟨hsorted, hmem⟩ := ih hrest
    rw [dedupSorted]
    by_cases hy : y = previous
    · subst hy
      rw [if_neg (not_not.mpr rfl)]
      refine ⟨hsorted, fun x => ?_⟩
      rw [hmem]
      simp
    · have hlt : previous < y := lt_of_le_of_ne (hfirst y mem_cons_self) (Ne.symm hy)
      rw [if_pos hy]
      constructor
      · refine pairwise_cons.mpr ⟨fun x hx => ?_, hsorted⟩
        rcases mem_cons.mp hx with rfl | hx
        · exact hlt
        · exact hlt.trans ((pairwise_cons.mp hsorted).1 x hx)
      · intro x
        rw [mem_cons, hmem]
        exact mem_cons.symm

/-- The leaves of the tree are strictly sorted, and are the given ones. -/
lemma sortedLeaves_spec (leaves : List B) :
    (sortedLeaves leaves).Pairwise (· < ·) ∧ ∀ x, x ∈ sortedLeaves leaves ↔ x ∈ leaves := by
  have hsort : (leaves.insertionSort (· ≤ ·)).Pairwise (· ≤ ·) :=
    pairwise_insertionSort _ _
  have hmem : ∀ x, x ∈ leaves.insertionSort (· ≤ ·) ↔ x ∈ leaves :=
    fun x => mem_insertionSort _
  rw [sortedLeaves]
  split
  next hnil =>
    refine ⟨List.Pairwise.nil, fun x => ?_⟩
    rw [← hmem, hnil]
  next y rest hcons =>
    rw [hcons] at hsort
    obtain ⟨hlt, hin⟩ := dedupSorted_spec hsort
    refine ⟨hlt, fun x => ?_⟩
    rw [hin, ← hmem, hcons]

lemma sortedLeaves_congr {leaves leaves' : List B} (h : ∀ x, x ∈ leaves ↔ x ∈ leaves') :
    sortedLeaves leaves = sortedLeaves leaves' := by
  obtain ⟨hsorted, hmem⟩ := sortedLeaves_spec leaves
  obtain ⟨hsorted', hmem'⟩ := sortedLeaves_spec leaves'
  apply hsorted.eq_of_mem_iff hsorted'
  intro x
  rw [hmem, hmem', h]

lemma leafCount_eq_length (hashPair : B → B → B) (leaves : List B) :
    (new hashPair leaves).leafCount = (sortedLeaves leaves).length := by
  by_cases h : leaves = []
  · rw [h]
    rfl
  · exact leafCount_new hashPair leaves h

lemma new_congr (hashPair : B → B → B) {leaves leaves' : List B}
    (h : ∀ x, x ∈ leaves ↔ x ∈ leaves') : new hashPair leaves = new hashPair leaves' := by
  have hempty : leaves.length = 0 ↔ leaves'.length = 0 := by
    simp only [length_eq_zero_iff, eq_nil_iff_forall_not_mem, h]
  simp only [new, hempty, sortedLeaves_congr h]

lemma sortedLeaves_nil_iff (leaves : List B) : sortedLeaves leaves = [] ↔ leaves = [] := by
  constructor
  · intro h
    by_contra hne
    exact sortedLeaves_ne_nil leaves hne h
  · rintro rfl
    rfl

/-- **A commitment binds the leaves.** For an ideal pair hash and any two lists of leaves: equal
roots and equal leaf counts mean equal sorted, deduplicated leaves; and the whole tree, root and
leaf count included, depends only on which leaves there are. -/
theorem merkle_commitment_binds_leaves [Zero B] {hashPair : B → B → B}
    (hinj : Function.Injective2 hashPair) (leaves leaves' : List B) :
    ((new hashPair leaves).root = (new hashPair leaves').root →
      (new hashPair leaves).leafCount
        = (new hashPair leaves').leafCount →
      sortedLeaves leaves = sortedLeaves leaves') ∧
    ((∀ x, x ∈ leaves ↔ x ∈ leaves') →
      new hashPair leaves = new hashPair leaves') := by
  refine ⟨?_, new_congr hashPair⟩
  intro hroot hcount
  rw [leafCount_eq_length, leafCount_eq_length] at hcount
  by_cases hne : leaves = []
  · rw [(sortedLeaves_nil_iff leaves).mpr hne] at hcount ⊢
    exact (length_eq_zero_iff.mp hcount.symm).symm
  · have hne' : leaves' ≠ [] := by
      rintro rfl
      have hnil := length_eq_zero_iff.mp hcount
      exact hne ((sortedLeaves_nil_iff leaves).mp hnil)
    apply levelAbove_inj hinj (Nat.clog 2 (sortedLeaves leaves).length) hcount
    calc levelAbove hashPair (sortedLeaves leaves) (Nat.clog 2 (sortedLeaves leaves).length)
        = [(new hashPair leaves).root] := levelAbove_eq_root hashPair leaves hne
      _ = [(new hashPair leaves').root] := by rw [hroot]
      _ = levelAbove hashPair (sortedLeaves leaves')
            (Nat.clog 2 (sortedLeaves leaves').length) :=
          (levelAbove_eq_root hashPair leaves' hne').symm
      _ = levelAbove hashPair (sortedLeaves leaves')
            (Nat.clog 2 (sortedLeaves leaves).length) := by rw [hcount]

/-- Two orders of the same two leaves, one of them repeated: the same tree. -/
theorem merkle_commitment_binds_two :
    new pairHash [2, 1, 2] = new pairHash [1, 2] ∧
      sortedLeaves [2, 1, 2] = sortedLeaves [1, 2] := by
  obtain ⟨hbind, hset⟩ := merkle_commitment_binds_leaves pairHash_injective [2, 1, 2] [1, 2]
  have htree := hset (by intro x; simp; tauto)
  exact ⟨htree, hbind (by rw [htree]) (by rw [htree])⟩

end Dkg
