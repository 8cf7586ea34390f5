import Dkg.Lib.HashTree
import Dkg.Merkle.V10MerkleTree

/-! # What an accepted proof proves

The tree is the levels of `Lib.HashTree` over the sorted leaves, the verifier is its `walk`. An
accepted path with one sibling per level of the tree can only start in the challenged leaf, and a
longer one would have to hash into a leaf. A shorter one is accepted for an inner node of the
tree: neither verifier compares the length of the proof with the leaf count.
-/

namespace Dkg

open Lib V10MerkleTree List

variable {B : Type}

/-! ## The tree as levels -/

/-- Padding and hashing a layer is one level up. -/
lemma hashLayer_padLayer (hashPair : B → B → B) (l : List B) :
    hashLayer hashPair (padLayer l) = parents hashPair l := by
  induction l using parents.induct with
  | case1 | case2 a => simp [padLayer, hashLayer, parents]
  | case3 a b t ih =>
    have hpad : padLayer (a :: b :: t) = a :: b :: padLayer t := by
      rw [padLayer, padLayer]
      have hlen : (a :: b :: t).length % 2 = t.length % 2 := by
        simp [Nat.add_assoc]
      rw [hlen]
      by_cases hodd : t.length % 2 ≠ 0
      · have hne : t ≠ [] := by
          rintro rfl
          simp at hodd
        rw [if_pos hodd, if_pos hodd, getLast?_cons_cons, getLast?_cons_of_ne_nil hne]
        rfl
      · rw [if_neg hodd, if_neg hodd]
    rw [hpad, hashLayer, ih, parents]

/-- The last layer of the tree is `⌈log₂ n⌉` levels above the leaves. -/
lemma getLastD_buildLayers (hashPair : B → B → B) (l : List B) (hl : l ≠ []) :
    (buildLayers hashPair l).getLastD [] = levelAbove hashPair l (Nat.clog 2 l.length) := by
  induction hn : l.length using Nat.strong_induction_on generalizing l with
  | _ n ih =>
    subst hn
    have hpos := length_pos_of_ne_nil hl
    rw [buildLayers]
    by_cases h2 : l.length > 1
    · rw [if_pos h2, hashLayer_padLayer]
      have hlen : (parents hashPair l).length = (l.length + 2 - 1) / 2 := length_parents l
      have hne : parents hashPair l ≠ [] := by
        apply ne_nil_of_length_pos
        omega
      have hrec := ih (parents hashPair l).length (by omega) (parents hashPair l) hne rfl
      have hlayers : buildLayers hashPair (parents hashPair l) ≠ [] := by
        rw [buildLayers]
        split <;> simp
      rw [Nat.clog_of_two_le (by norm_num) h2, levelAbove_succ, ← hlen, ← hrec]
      cases hb : buildLayers hashPair (parents hashPair l) with
      | nil => exact absurd hb hlayers
      | cons x xs => simp
    · have h1 : l.length = 1 := by omega
      rw [if_neg h2, h1, Nat.clog_one_right]
      rfl

section

variable [LinearOrder B] (hashPair : B → B → B) (leaves : List B)

lemma sortedLeaves_ne_nil (h : leaves ≠ []) : sortedLeaves leaves ≠ [] := by
  intro hs
  rw [sortedLeaves] at hs
  split at hs
  next hnil =>
    have hlen := length_insertionSort (· ≤ ·) leaves
    rw [hnil] at hlen
    exact h (length_eq_zero_iff.mp hlen.symm)
  next => cases hs

lemma mem_of_mem_dedupSorted {x : B} : ∀ {previous : B} {l : List B},
    x ∈ dedupSorted previous l → x ∈ l := by
  intro previous l
  induction l generalizing previous with
  | nil => intro h; cases h
  | cons y l ih =>
    intro h
    rw [dedupSorted] at h
    split at h
    · rcases mem_cons.mp h with rfl | h
      · exact mem_cons_self
      · exact mem_cons_of_mem _ (ih h)
    · exact mem_cons_of_mem _ (ih h)

/-- Sorting and deduplicating brings in no new leaf. -/
lemma mem_of_mem_sortedLeaves {x : B} (h : x ∈ sortedLeaves leaves) : x ∈ leaves := by
  rw [← mem_insertionSort (· ≤ ·)]
  rw [sortedLeaves] at h
  split at h
  next => cases h
  next y rest hsort =>
    rw [hsort]
    rcases mem_cons.mp h with rfl | h
    · exact mem_cons_self
    · exact mem_cons_of_mem _ (mem_of_mem_dedupSorted h)

lemma leafCount_new (h : leaves ≠ []) :
    (new hashPair leaves).leafCount = (sortedLeaves leaves).length := by
  rw [new, if_neg (by simpa using h)]

lemma levelAbove_eq_root [Zero B] (h : leaves ≠ []) :
    levelAbove hashPair (sortedLeaves leaves) (Nat.clog 2 (sortedLeaves leaves).length)
      = [(new hashPair leaves).root] := by
  have hne := sortedLeaves_ne_nil leaves h
  have hlast := getLastD_buildLayers hashPair (sortedLeaves leaves) hne
  obtain ⟨r, hr⟩ := length_eq_one_iff.mp
    (length_levelAbove_clog (h := hashPair) (sortedLeaves leaves) hne)
  have hhead : ((buildLayers hashPair (sortedLeaves leaves)).headD []).length ≠ 0 := by
    have hpos := length_pos_of_ne_nil hne
    rw [buildLayers]
    split
    · simp only [headD_cons]
      rw [length_padLayer]
      omega
    · simp only [headD_cons]
      omega
  have hnew : new hashPair leaves
      = { layers := buildLayers hashPair (sortedLeaves leaves)
          leafCount := (sortedLeaves leaves).length } := by
    rw [new, if_neg (by simpa using h)]
  rw [hnew, root]
  simp only
  rw [if_neg hhead, hlast, hr]
  rfl

end

/-! ## The verifiers as walks -/

section

variable (hashPair : B → B → B)

lemma foldProof_eq_walk (x : B) (i : ℕ) (p : List B) :
    foldProof hashPair x i p = walk hashPair x i p := by
  induction p generalizing x i with
  | nil => rfl
  | cons s p ih =>
    rw [foldProof, walk]
    exact ih _ _

/-- The contract's loop by index folds the rest of the proof. -/
lemma verifyLoop_eq_walk [Zero B] (pre rest : List B) (x : B) (i : ℕ) :
    verifyLoop hashPair (pre ++ rest) rest.length pre.length x i = walk hashPair x i rest := by
  induction rest generalizing pre x i with
  | nil => rfl
  | cons s rest ih =>
    rw [length_cons, verifyLoop, walk]
    have hget : (pre ++ s :: rest).getD pre.length 0 = s := by simp
    have hih := ih (pre ++ [s]) (if i % 2 = 0 then hashPair x s else hashPair s x) (i / 2)
    rw [append_assoc, length_append] at hih
    rw [hget]
    exact hih

/-- Both verifiers accept exactly the walks that end in the root. -/
lemma _verifyV10MerkleProof_iff [LinearOrder B] [Zero B] (root leaf : B) (i : ℕ) (proof : List B) :
    _verifyV10MerkleProof hashPair root leaf i proof = true
      ↔ walk hashPair leaf i proof = root := by
  rw [_verifyV10MerkleProof, decide_eq_true_iff]
  have := verifyLoop_eq_walk hashPair [] proof leaf i
  rw [nil_append, length_nil] at this
  rw [this]

lemma verify_iff [LinearOrder B] (root leaf : B) (i : ℕ) (proof : List B) :
    verify hashPair root leaf proof i = true
      ↔ walk hashPair leaf i proof = root := by
  rw [verify, decide_eq_true_iff, foldProof_eq_walk]

end

/-! ## Soundness -/

section

variable [LinearOrder B] [Zero B] {hashPair : B → B → B} {leaves : List B} {i : ℕ}

/-- A walk to the root over as many siblings as the tree has levels starts in the challenged
leaf. -/
lemma walk_root_pins_leaf (hinj : Function.Injective2 hashPair) (hne : leaves ≠ [])
    (hi : i < (sortedLeaves leaves).length) {leaf : B} {proof : List B}
    (hlen : proof.length = Nat.clog 2 (sortedLeaves leaves).length)
    (hw : walk hashPair leaf i proof = (new hashPair leaves).root) :
    (sortedLeaves leaves)[i]? = some leaf := by
  apply walk_pins hinj proof (sortedLeaves leaves) i leaf hi
  have hdiv : i / 2 ^ proof.length = 0 := by
    apply Nat.div_eq_of_lt
    rw [hlen]
    exact lt_of_lt_of_le hi (Nat.le_pow_clog (by norm_num) _)
  rw [hdiv, hw, hlen, levelAbove_eq_root hashPair leaves hne]
  rfl

/-- No walk over more siblings than that reaches the root: it would hash into a leaf. -/
lemma walk_root_not_longer (hinj : Function.Injective2 hashPair) (hne : leaves ≠ [])
    (hleaf : ∀ a b, hashPair a b ∉ leaves) (hi : i < (sortedLeaves leaves).length)
    {leaf : B} {proof : List B} (hlen : Nat.clog 2 (sortedLeaves leaves).length < proof.length) :
    walk hashPair leaf i proof ≠ (new hashPair leaves).root := by
  intro hw
  set d := Nat.clog 2 (sortedLeaves leaves).length with hd
  -- split off the last `d` siblings: what they start from is a leaf, and it is a hash
  have hsplit := take_append_drop (proof.length - d) proof
  rw [← hsplit, walk_append] at hw
  have hpin := walk_root_pins_leaf hinj hne
    (lt_of_le_of_lt (Nat.div_le_self _ _) hi)
    (by rw [length_drop]; omega) hw
  have hne' : proof.take (proof.length - d) ≠ [] := by
    apply ne_nil_of_length_pos
    rw [length_take]
    omega
  obtain ⟨a, b, hab⟩ := walk_eq_hash (h := hashPair) leaf i _ hne'
  rw [hab] at hpin
  exact hleaf a b (mem_of_mem_sortedLeaves leaves (mem_of_getElem? hpin))

/-- For every shorter length there is an accepted walk from an inner node. -/
lemma exists_walk_root_from_hash (hashPair : B → B → B) (i : ℕ) (hne : leaves ≠ []) {k : ℕ}
    (hk : k < Nat.clog 2 (sortedLeaves leaves).length) :
    ∃ a b proof, proof.length = k ∧
      walk hashPair (hashPair a b) i proof = (new hashPair leaves).root := by
  set d := Nat.clog 2 (sortedLeaves leaves).length with hd
  have hroot : (new hashPair leaves).root
      ∈ levelAbove hashPair (levelAbove hashPair (sortedLeaves leaves) (d - k)) k := by
    have hadd : levelAbove hashPair (levelAbove hashPair (sortedLeaves leaves) (d - k)) k
        = levelAbove hashPair (sortedLeaves leaves) d := by
      rw [levelAbove, levelAbove, levelAbove, ← Function.iterate_add_apply]
      congr 2
      omega
    rw [hadd, levelAbove_eq_root hashPair leaves hne]
    exact mem_singleton_self _
  obtain ⟨x, p, hp, hx, hw⟩ := exists_walk k _ i _ hroot
  obtain ⟨m, hm⟩ : ∃ m, d - k = m + 1 := ⟨d - k - 1, by omega⟩
  rw [hm, levelAbove_succ'] at hx
  obtain ⟨a, b, rfl, -, -⟩ := mem_parents hx
  exact ⟨a, b, p, hp, hw⟩

/-- **When an accepted proof is a proof.** For an ideal pair hash, a tree over any leaves, a
challenged index and a number `k` of siblings: all accepted proofs with `k` siblings are proofs of
the challenged leaf exactly when `k` is at least the height of the tree. -/
theorem accepted_proof_sound_iff (hinj : Function.Injective2 hashPair) (hne : leaves ≠ [])
    (hleaf : ∀ a b, hashPair a b ∉ leaves) (hi : i < (new hashPair leaves).leafCount) (k : ℕ) :
    (∀ leaf proof, proof.length = k →
      (_verifyV10MerkleProof hashPair (new hashPair leaves).root leaf i proof = true
        ∨ verify hashPair (new hashPair leaves).root leaf proof i
          = true) →
      (sortedLeaves leaves)[i]? = some leaf)
    ↔ Nat.clog 2 (new hashPair leaves).leafCount ≤ k := by
  rw [leafCount_new hashPair leaves hne] at hi ⊢
  simp only [_verifyV10MerkleProof_iff, verify_iff, or_self]
  constructor
  · intro hall
    by_contra hk
    obtain ⟨a, b, proof, hp, hw⟩ := exists_walk_root_from_hash hashPair i hne (Nat.not_le.mp hk)
    have hget := hall (hashPair a b) proof hp hw
    exact hleaf a b (mem_of_mem_sortedLeaves leaves (mem_of_getElem? hget))
  · intro hk leaf proof hp hw
    rcases Nat.eq_or_lt_of_le hk with heq | hlt
    · exact walk_root_pins_leaf hinj hne hi (by omega) hw
    · exact absurd hw (walk_root_not_longer hinj hne hleaf hi (by omega))

end

/-! ## Two leaves -/

/-- An injective pair hash on `ℕ` with values above all 32-byte words. -/
def pairHash (a b : ℕ) : ℕ := 2 ^ 256 + Nat.pair a b

lemma pairHash_injective : Function.Injective2 pairHash := by
  intro a a' b b' h
  have hpair : Nat.pair a b = Nat.pair a' b' := Nat.add_left_cancel h
  exact Nat.pair_eq_pair.mp hpair

lemma pairHash_not_mem_two (a b : ℕ) : pairHash a b ∉ [1, 2] := by
  have hbig : 2 < 2 ^ 256 + Nat.pair a b := lt_of_lt_of_le (by norm_num) (Nat.le_add_right _ _)
  intro hmem
  unfold pairHash at hmem
  simp only [mem_cons, not_mem_nil, or_false] at hmem
  rcases hmem with h | h
  · rw [h] at hbig
    exact absurd hbig (by decide)
  · rw [h] at hbig
    exact absurd hbig (by decide)

lemma clog_two : Nat.clog 2 2 = 1 := by
  rw [Nat.clog_of_two_le (by norm_num) (by norm_num), Nat.clog_one_right]

lemma sortedLeaves_two : sortedLeaves [1, 2] = [1, 2] := by decide

/-- At two leaves the accepted proofs of one sibling are proofs, those of none are not. -/
theorem accepted_proof_sound_iff_two :
    (new pairHash [1, 2]).leafCount = 2 ∧ ∀ leaf proof, proof.length = 1 →
      (_verifyV10MerkleProof pairHash (new pairHash [1, 2]).root leaf 0 proof = true
        ∨ verify pairHash (new pairHash [1, 2]).root leaf proof 0
          = true) →
      (sortedLeaves [1, 2])[0]? = some leaf := by
  have hcount : (new pairHash [1, 2]).leafCount = 2 := by
    rw [leafCount_new pairHash [1, 2] (by simp), sortedLeaves_two]
    rfl
  refine ⟨hcount, ?_⟩
  apply (accepted_proof_sound_iff pairHash_injective (by simp) pairHash_not_mem_two
    (by rw [hcount]; norm_num) 1).mpr
  rw [hcount, clog_two]

/-- The root itself, with no siblings, passes as the challenged leaf. -/
theorem root_accepted_as_leaf :
    ¬ ∀ (hashPair : ℕ → ℕ → ℕ) (leaves : List ℕ), Function.Injective2 hashPair →
      (∀ a b, hashPair a b ∉ leaves) → leaves ≠ [] →
      ∀ i < (new hashPair leaves).leafCount, ∀ leaf proof,
        _verifyV10MerkleProof hashPair (new hashPair leaves).root leaf i proof
            = true →
          (sortedLeaves leaves)[i]? = some leaf := by
  intro hall
  have hcount : (new pairHash [1, 2]).leafCount = 2 := by
    rw [leafCount_new pairHash [1, 2] (by simp), sortedLeaves_two]
    rfl
  have hroot : (new pairHash [1, 2]).root = pairHash 1 2 := by
    have h := levelAbove_eq_root pairHash [1, 2] (by simp)
    rw [sortedLeaves_two] at h
    have hlevel : levelAbove pairHash [1, 2] (Nat.clog 2 [1, 2].length) = [pairHash 1 2] := by
      rw [length_cons, length_singleton, clog_two]
      rfl
    rw [hlevel] at h
    exact (singleton_injective h).symm
  have hget := hall pairHash [1, 2] pairHash_injective pairHash_not_mem_two (by simp) 0
    (by rw [hcount]; norm_num) (pairHash 1 2) []
    (by rw [_verifyV10MerkleProof_iff, hroot]; rfl)
  rw [sortedLeaves_two] at hget
  exact pairHash_not_mem_two 1 2 (mem_of_getElem? hget)

end Dkg
