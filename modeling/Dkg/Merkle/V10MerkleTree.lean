import Mathlib.Tactic

/-! # V10MerkleTree and the on-chain verifier

The Merkle tree over a knowledge collection's leaves (`core/src/crypto/v10-merkle.ts`) and the
verifier of `RandomSampling.sol`. Both work on 32-byte values; here these are an arbitrary type
`B` with a linear order (that of `compareBytes`), an element `0` (32 zero bytes) and a pair hash
(`keccak256` of the concatenation). An ideal pair hash is injective, which no function on
`2^256` values is, so the type stays a parameter.
-/

namespace Dkg

variable {B : Type}

/-! ## The tree (`v10-merkle.ts`) -/

/-- The deduplication loop after the sort: an entry is kept when it differs from the one before
it. -/
def dedupSorted [LinearOrder B] : B → List B → List B
  | _, [] => []
  | previous, x :: rest =>
    if x ≠ previous then x :: dedupSorted x rest else dedupSorted x rest

/-- `[...leaves].sort(compareBytes)`, then the deduplication. -/
def sortedLeaves [LinearOrder B] (leaves : List B) : List B :=
  match leaves.insertionSort (· ≤ ·) with
  | [] => []
  | x :: rest => x :: dedupSorted x rest

/-- An odd layer gets its last node once more. -/
def padLayer (current : List B) : List B :=
  if current.length % 2 ≠ 0 then current ++ current.getLast?.toList else current

/-- The inner loop of `buildTree`, `i += 2`. -/
def hashLayer (hashPair : B → B → B) : List B → List B
  | a :: b :: rest => hashPair a b :: hashLayer hashPair rest
  | _ => []

lemma length_hashLayer (hashPair : B → B → B) (l : List B) :
    (hashLayer hashPair l).length = l.length / 2 := by
  induction l using hashLayer.induct with
  | case1 a b rest ih =>
    rw [hashLayer, List.length_cons, ih, List.length_cons, List.length_cons]
    omega
  | case2 l hl =>
    match l, hl with
    | [], _ => simp [hashLayer]
    | [a], _ => simp [hashLayer]
    | a :: b :: rest, hl => exact absurd rfl (hl a b rest)

lemma length_padLayer (l : List B) : (padLayer l).length = l.length + l.length % 2 := by
  rw [padLayer]
  split
  next hodd =>
    have hne : l ≠ [] := by
      rintro rfl
      simp at hodd
    rw [List.getLast?_eq_some_getLast hne]
    simp
    omega
  next heven => omega

/-- The loop of `buildTree`: the layers from `current` up, each padded except the root's. -/
def buildLayers (hashPair : B → B → B) (current : List B) : List (List B) :=
  if current.length > 1 then
    padLayer current :: buildLayers hashPair (hashLayer hashPair (padLayer current))
  else [current]
termination_by current.length
decreasing_by
  rw [length_hashLayer, length_padLayer]
  omega

/-- `V10MerkleTree`: its layers and the number of distinct leaves. -/
structure V10MerkleTree (B : Type) where
  layers : List (List B)
  leafCount : ℕ

namespace V10MerkleTree

variable [LinearOrder B] [Zero B]

/-- The constructor. -/
def new (hashPair : B → B → B) (leaves : List B) : V10MerkleTree B :=
  if leaves.length = 0 then { layers := [[]], leafCount := 0 }
  else
    { layers := buildLayers hashPair (sortedLeaves leaves)
      leafCount := (sortedLeaves leaves).length }

/-- `root`: the only node of the last layer, or 32 zero bytes for the empty tree. -/
def root (t : V10MerkleTree B) : B :=
  if (t.layers.headD []).length = 0 then 0 else ((t.layers.getLastD []).headD 0)

/-- The loop of `verify`. -/
def foldProof (hashPair : B → B → B) : B → ℕ → List B → B
  | hash, _, [] => hash
  | hash, idx, sibling :: rest =>
    foldProof hashPair (if idx % 2 = 0 then hashPair hash sibling else hashPair sibling hash)
      (idx / 2) rest

/-- `V10MerkleTree.verify`. -/
def verify (hashPair : B → B → B) (root leaf : B) (proof : List B) (leafIndex : ℕ) : Bool :=
  foldProof hashPair leaf leafIndex proof = root

end V10MerkleTree

/-! ## The contract (`RandomSampling.sol`) -/

section

variable [LinearOrder B] [Zero B]

/-- `_verifyV10MerkleProof`: the loop over the proof's indices, `i` siblings already folded. -/
def verifyLoop (keccakPair : B → B → B) (proof : List B) : ℕ → ℕ → B → ℕ → B
  | 0, _, h, _ => h
  | fuel + 1, i, h, idx =>
    let sib := proof.getD i 0
    let h := if idx % 2 = 0 then keccakPair h sib else keccakPair sib h
    verifyLoop keccakPair proof fuel (i + 1) h (idx / 2)

/-- `_verifyV10MerkleProof(root, leaf, leafIndex, proof)`. -/
def _verifyV10MerkleProof (keccakPair : B → B → B) (root leaf : B) (leafIndex : ℕ)
    (proof : List B) : Bool :=
  verifyLoop keccakPair proof proof.length 0 leaf leafIndex = root

end

end Dkg
