import Dkg.Merkle.Binding

/-! # Building a proof

`V10MerkleTree.proof` reads one sibling of every layer below the root's, and
`buildV10ProofMaterial` (`core/src/crypto/proof-material.ts`) checks the tree against the
commitment read from the chain before it hands out a leaf and its proof.

A layer is padded in place when it is hashed, so the sibling of every node of it is there; no
layer is skipped. The walk over the siblings is then the path from the leaf to the root.
-/

namespace Dkg

open Lib V10MerkleTree List

variable {B : Type}

/-- The errors of the prover's side. -/
inductive ProofError (B : Type)
  | rangeError (leafIndex : ℤ)
  | rootMismatch (computedMerkleRoot expectedMerkleRoot : B)
  | leafCountMismatch (computedLeafCount expectedLeafCount : ℕ)
  | chunkOutOfRange (chunkId : ℤ) (leafCount : ℕ)
  deriving DecidableEq

def ProofError.message (toHex : B → String) : ProofError B → String
  | rangeError leafIndex => s!"Leaf index {leafIndex} out of range"
  | rootMismatch computedMerkleRoot expectedMerkleRoot =>
    "V10 proof root mismatch: computed=" ++ toHex computedMerkleRoot ++ " expected="
      ++ toHex expectedMerkleRoot
  | leafCountMismatch computedLeafCount expectedLeafCount =>
    s!"V10 proof leaf count mismatch: computed={computedLeafCount} expected={expectedLeafCount}"
  | chunkOutOfRange chunkId leafCount =>
    s!"V10 proof chunkId {chunkId} out of range [0, {leafCount})"

namespace V10MerkleTree

/-- The loop of `proof` over the layers below the last one. A sibling that is not there is
skipped. -/
def siblings : List (List B) → ℕ → List B
  | [], _ => []
  | current :: rest, idx =>
    let siblingIdx := if idx % 2 = 0 then idx + 1 else idx - 1
    current[siblingIdx]?.toList ++ siblings rest (idx / 2)

/-- `proof(leafIndex)`. -/
def proof (t : V10MerkleTree B) (leafIndex : ℤ) : Except (ProofError B) (List B) :=
  if leafIndex < 0 ∨ leafIndex ≥ t.leafCount then .error (.rangeError leafIndex)
  else .ok (siblings t.layers.dropLast leafIndex.toNat)

/-- `leafAt(leafIndex)`. -/
def leafAt [Zero B] (t : V10MerkleTree B) (leafIndex : ℤ) : Except (ProofError B) B :=
  if leafIndex < 0 ∨ leafIndex ≥ t.leafCount then .error (.rangeError leafIndex)
  else .ok ((t.layers.headD []).getD leafIndex.toNat 0)

end V10MerkleTree

structure V10ProofMaterial (B : Type) where
  leaf : B
  proof : List B
  merkleRoot : B
  leafCount : ℕ

structure V10MerkleCommitment (B : Type) where
  merkleRoot : B
  merkleLeafCount : ℕ

section

variable [LinearOrder B] [Zero B]

def buildV10ProofMaterial (hashPair : B → B → B) (rawLeaves : List B) (chunkId : ℤ)
    (expected : V10MerkleCommitment B) : Except (ProofError B) (V10ProofMaterial B) :=
  let tree := new hashPair rawLeaves
  if tree.leafCount ≠ expected.merkleLeafCount then
    .error (.leafCountMismatch tree.leafCount expected.merkleLeafCount)
  else if tree.root ≠ expected.merkleRoot then
    .error (.rootMismatch tree.root expected.merkleRoot)
  else if chunkId < 0 ∨ chunkId ≥ tree.leafCount then
    .error (.chunkOutOfRange chunkId tree.leafCount)
  else do
    let leaf ← tree.leafAt chunkId
    let proof ← tree.proof chunkId
    pure { leaf := leaf, proof := proof, merkleRoot := tree.root, leafCount := tree.leafCount }

def verifyV10ProofMaterial (hashPair : B → B → B) (material : V10ProofMaterial B) (chunkId : ℕ)
    (expected : V10MerkleCommitment B) : Bool :=
  if material.leafCount ≠ expected.merkleLeafCount then false
  else if material.merkleRoot ≠ expected.merkleRoot then false
  else verify hashPair expected.merkleRoot material.leaf material.proof chunkId

end

/-! ## The path of a leaf -/

variable {l : List B} {i : ℕ} {x : B}

section

variable (hashPair : B → B → B)

include hashPair

lemma getElem?_hashLayer {m : ℕ} {a b : B} (ha : l[2 * m]? = some a)
    (hb : l[2 * m + 1]? = some b) : (hashLayer hashPair l)[m]? = some (hashPair a b) := by
  induction l using hashLayer.induct generalizing m with
  | case1 x y rest ih =>
    cases m with
    | zero =>
      simp only [Nat.mul_zero, getElem?_cons_zero, Option.some.injEq] at ha
      simp only [Nat.mul_zero, getElem?_cons_succ, getElem?_cons_zero, Option.some.injEq] at hb
      rw [hashLayer, getElem?_cons_zero, ha, hb]
    | succ m =>
      rw [hashLayer, getElem?_cons_succ]
      apply ih
      · rw [← ha, show 2 * (m + 1) = 2 * m + 1 + 1 by ring]
        rfl
      · rw [← hb, show 2 * (m + 1) + 1 = 2 * m + 1 + 1 + 1 by ring]
        rfl
  | case2 l hl =>
    rcases l with _ | ⟨x, _ | ⟨y, rest⟩⟩
    · simp at ha
    · rw [getElem?_eq_none (by simp)] at hb
      cases hb
    · exact absurd rfl (hl x y rest)

omit hashPair in
lemma getElem?_padLayer (hi : i < l.length) : (padLayer l)[i]? = l[i]? := by
  rw [padLayer]
  split
  · exact getElem?_append_left hi
  · rfl

/-- A node of a layer has a sibling in the padded layer, and the two hash into the node above. -/
lemma exists_sibling (hx : l[i]? = some x) :
    ∃ s, (padLayer l)[if i % 2 = 0 then i + 1 else i - 1]? = some s ∧
      (parents hashPair l)[i / 2]? = some (if i % 2 = 0 then hashPair x s else hashPair s x) := by
  have hi : i < l.length := (List.getElem?_eq_some_iff.mp hx).1
  have hpad := length_padLayer l
  have hself : (padLayer l)[i]? = some x := (getElem?_padLayer hi).trans hx
  rw [← hashLayer_padLayer]
  by_cases heven : i % 2 = 0
  · have hlt : i + 1 < (padLayer l).length := by omega
    have hget : (padLayer l)[i + 1]? = some (padLayer l)[i + 1] := getElem?_eq_getElem hlt
    refine ⟨(padLayer l)[i + 1], ?_, ?_⟩
    · rw [if_pos heven, hget]
    · rw [if_pos heven]
      apply getElem?_hashLayer
      · rw [← hself]
        congr 1
        omega
      · rw [← hget]
        congr 1
        omega
  · have hlt : i - 1 < (padLayer l).length := by omega
    have hget : (padLayer l)[i - 1]? = some (padLayer l)[i - 1] := getElem?_eq_getElem hlt
    refine ⟨(padLayer l)[i - 1], ?_, ?_⟩
    · rw [if_neg heven, hget]
    · rw [if_neg heven]
      apply getElem?_hashLayer
      · rw [← hget]
        congr 1
        omega
      · rw [← hself]
        congr 1
        omega

lemma buildLayers_ne_nil (l : List B) : buildLayers hashPair l ≠ [] := by
  rw [buildLayers]
  split <;> simp

/-- **The path of a leaf.** The siblings read from the layers, one of each below the last, lead
from a node of the first layer to the node of the last. -/
lemma walk_siblings (l : List B) (hx : l[i]? = some x) :
    ((buildLayers hashPair l).getLastD []).head?
        = some (walk hashPair x i (siblings (buildLayers hashPair l).dropLast i)) ∧
      (siblings (buildLayers hashPair l).dropLast i).length + 1
        = (buildLayers hashPair l).length := by
  -- induction on the number of nodes: the layer above has fewer
  induction hn : l.length using Nat.strong_induction_on generalizing l i x with
  | _ n ih =>
    subst hn
    have hi : i < l.length := (List.getElem?_eq_some_iff.mp hx).1
    by_cases h2 : l.length > 1
    · obtain ⟨s, hs, hparent⟩ := exists_sibling hashPair hx
      have hshort : (parents hashPair l).length < l.length := by
        rw [length_parents]
        omega
      obtain ⟨hwalk, hlength⟩ := ih _ hshort (parents hashPair l) hparent rfl
      have hbuild : buildLayers hashPair l
          = padLayer l :: buildLayers hashPair (parents hashPair l) := by
        conv_lhs => rw [buildLayers]
        rw [if_pos h2, hashLayer_padLayer]
      have hne := buildLayers_ne_nil hashPair (parents hashPair l)
      have hsiblings : siblings (buildLayers hashPair l).dropLast i
          = s :: siblings
              (buildLayers hashPair (parents hashPair l)).dropLast (i / 2) := by
        rw [hbuild, dropLast_cons_of_ne_nil hne, siblings, hs]
        rfl
      have hlast : (buildLayers hashPair l).getLastD []
          = (buildLayers hashPair (parents hashPair l)).getLastD [] := by
        rw [hbuild]
        cases hb : buildLayers hashPair (parents hashPair l) with
        | nil => exact absurd hb hne
        | cons y ys => simp
      rw [hsiblings, hlast]
      refine ⟨hwalk, ?_⟩
      rw [hbuild, length_cons, length_cons, ← hlength]
    · obtain ⟨y, rfl⟩ := length_eq_one_iff.mp (show l.length = 1 by omega)
      obtain rfl : i = 0 := by simpa using hi
      obtain rfl : y = x := by simpa using hx
      rw [buildLayers, if_neg h2]
      exact ⟨rfl, rfl⟩

lemma headD_buildLayers (hi : i < l.length) : ((buildLayers hashPair l).headD [])[i]? = l[i]? := by
  rw [buildLayers]
  split
  · exact getElem?_padLayer hi
  · rfl

end

section

variable [LinearOrder B] [Zero B]

/-- What the tree hands out for an index in range. -/
lemma leafAt_proof_ok (hashPair : B → B → B) (leaves : List B) {i : ℕ}
    (hi : i < (new hashPair leaves).leafCount) :
    ∃ leaf proof, (sortedLeaves leaves)[i]? = some leaf ∧
      (new hashPair leaves).leafAt i = .ok leaf ∧
      (new hashPair leaves).proof i = .ok proof ∧
      walk hashPair leaf i proof = (new hashPair leaves).root ∧
      proof.length + 1 = (new hashPair leaves).layers.length := by
  have hne : leaves.length ≠ 0 := by
    intro hzero
    rw [new, if_pos hzero] at hi
    exact absurd hi (Nat.not_lt_zero i)
  have hnew : new hashPair leaves
      = { layers := buildLayers hashPair (sortedLeaves leaves)
          leafCount := (sortedLeaves leaves).length } := by
    rw [new, if_neg hne]
  rw [hnew] at hi ⊢
  have hi' : i < (sortedLeaves leaves).length := hi
  have hget : (sortedLeaves leaves)[i]? = some (sortedLeaves leaves)[i] := getElem?_eq_getElem hi'
  have hrange : ¬ ((i : ℤ) < 0 ∨ (i : ℤ) ≥ (sortedLeaves leaves).length) := by omega
  obtain ⟨hwalk, hlength⟩ := walk_siblings hashPair _ hget
  have hhead := headD_buildLayers hashPair hi'
  refine ⟨_, _, hget, ?_, ?_, ?_, hlength⟩
  · rw [leafAt, if_neg hrange]
    simp only [Int.toNat_natCast, getD_eq_getElem?_getD]
    rw [hhead, hget]
    rfl
  · rw [proof, if_neg hrange, Int.toNat_natCast]
  · have hfirst : ((buildLayers hashPair (sortedLeaves leaves)).headD []).length ≠ 0 := by
      intro hzero
      rw [length_eq_zero_iff.mp hzero, hget] at hhead
      simp at hhead
    rw [root]
    simp only
    rw [if_neg hfirst, headD_eq_head?_getD, hwalk]
    rfl

/-- **Every built proof is accepted.** For every list of leaves and every index below the leaf
count, the tree's own leaf and proof are accepted by both verifiers at that index, with one
sibling for each layer above the leaves, and `buildV10ProofMaterial` returns them for the tree's
commitment. -/
theorem built_proof_accepted (hashPair : B → B → B) (leaves : List B) (i : ℕ)
    (hi : i < (new hashPair leaves).leafCount) : let t := new hashPair leaves
    ∃ leaf proof, t.leafAt i = .ok leaf ∧ t.proof i = .ok proof ∧
      verify hashPair t.root leaf proof i = true ∧
      _verifyV10MerkleProof hashPair t.root leaf i proof = true ∧
      proof.length + 1 = t.layers.length ∧
      buildV10ProofMaterial hashPair leaves i ⟨t.root, t.leafCount⟩
        = .ok ⟨leaf, proof, t.root, t.leafCount⟩ ∧
      verifyV10ProofMaterial hashPair ⟨leaf, proof, t.root, t.leafCount⟩ i
        ⟨t.root, t.leafCount⟩ = true := by
  obtain ⟨leaf, proof, -, hleaf, hproof, hwalk, hlength⟩ := leafAt_proof_ok hashPair leaves hi
  have hverify := (verify_iff hashPair _ leaf i proof).mpr hwalk
  refine ⟨leaf, proof, hleaf, hproof, hverify, ?_, hlength, ?_, ?_⟩
  · exact (_verifyV10MerkleProof_iff hashPair _ leaf i proof).mpr hwalk
  · have hrange : ¬ ((i : ℤ) < 0 ∨ (i : ℤ) ≥ (new hashPair leaves).leafCount) := by
      omega
    rw [buildV10ProofMaterial]
    simp only [ne_eq, not_true_eq_false, if_false, if_neg hrange, hleaf, hproof]
    rfl
  · rw [verifyV10ProofMaterial]
    simp only [ne_eq, not_true_eq_false, if_false]
    exact hverify

/-- Three leaves, the last one: its sibling is itself, and then the hash of the first two. -/
theorem built_proof_accepted_three :
    ∃ proof, (new pairHash [3, 1, 2, 1]).proof 2 = .ok proof ∧
      _verifyV10MerkleProof pairHash (new pairHash [3, 1, 2, 1]).root 3 2 proof
        = true := by
  have hcount : (new pairHash [3, 1, 2, 1]).leafCount = 3 := by
    rw [leafCount_eq_length]
    decide
  obtain ⟨leaf, proof, hleaf, hproof, -, haccept, -⟩ :=
    built_proof_accepted pairHash [3, 1, 2, 1] 2 (by rw [hcount]; norm_num)
  obtain ⟨leaf', -, hget, hleaf', -⟩ :=
    leafAt_proof_ok pairHash [3, 1, 2, 1] (show 2 < _ by rw [hcount]; norm_num)
  obtain rfl : leaf' = leaf := Except.ok.inj (hleaf'.symm.trans hleaf)
  obtain rfl : 3 = leaf' := by
    have hsorted : (sortedLeaves [3, 1, 2, 1])[2]? = some 3 := by decide
    exact Option.some.inj (hsorted.symm.trans hget)
  exact ⟨proof, hproof, haccept⟩

/-- **A leaf has one proof.** With the pair hash injective, the contract accepts at an index of the
tree, among the proofs with a sibling for each layer above the leaves, the one that the tree hands
out, for the leaf that stands there, and nothing else. -/
theorem accepted_proof_unique {hashPair : B → B → B} (hinj : Function.Injective2 hashPair)
    {leaves : List B} {i : ℕ} (hi : i < (new hashPair leaves).leafCount) {leaf : B} {proof : List B}
    (hlength : proof.length + 1 = (new hashPair leaves).layers.length) :
    _verifyV10MerkleProof hashPair (new hashPair leaves).root leaf i proof = true ↔
      (new hashPair leaves).leafAt i = .ok leaf ∧ (new hashPair leaves).proof i = .ok proof := by
  obtain ⟨leaf', proof', -, hleaf, hproof, hwalk, hlength'⟩ := leafAt_proof_ok hashPair leaves hi
  rw [_verifyV10MerkleProof_iff, ← hwalk, hleaf, hproof]
  constructor
  · intro heq
    obtain ⟨rfl, rfl⟩ := walk_inj hinj (by omega) heq
    exact ⟨rfl, rfl⟩
  · rintro ⟨hleaf', hproof'⟩
    cases hleaf'
    cases hproof'
    rfl

/-- The third of the leaves `1`, `2`, `3`. -/
theorem accepted_proof_unique_three : ∃ leaf proof,
    _verifyV10MerkleProof pairHash (new pairHash [3, 1, 2, 1]).root leaf 2 proof = true := by
  have hi : 2 < (new pairHash [3, 1, 2, 1]).leafCount := by
    rw [leafCount_eq_length]
    decide
  obtain ⟨leaf, proof, -, hleaf, hproof, -, hlength⟩ := leafAt_proof_ok pairHash _ hi
  exact ⟨leaf, proof, (accepted_proof_unique pairHash_injective hi hlength).mpr ⟨hleaf, hproof⟩⟩

end

end Dkg
