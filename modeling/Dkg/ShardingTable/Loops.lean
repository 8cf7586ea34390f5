import Dkg.Lib.SlotArray
import Dkg.ShardingTable.Model

/-! # What the loops of the sharding table do

Each shifting loop is given by one equation: the identity ids it will meet are a list `P`, and
with gas for more than `P.length` iterations it ends with every one of them in the next slot and
its index field changed by one. The search loop ends, with enough gas, at an index that splits the
table by the ring position.
-/

namespace Dkg

open Function (update update_of_ne update_self)

open Lib ShardingTableStorage List

namespace ShardingTableStorage

variable {t : ShardingTableStorage} {identityId : ℕ}

lemma incrementNodesCount_eq (h : t.nodesCount + 1 < 2 ^ 72) :
    t.incrementNodesCount = .ok { t with nodesCount := t.nodesCount + 1 } := by
  rw [incrementNodesCount, addUint, if_pos h]
  rfl

lemma incrementNodesCount_full (h : ¬ t.nodesCount + 1 < 2 ^ 72) :
    t.incrementNodesCount = .error .panic := by
  rw [incrementNodesCount, addUint, if_neg h]
  rfl

lemma decrementNodesCount_eq (h : 1 ≤ t.nodesCount) :
    t.decrementNodesCount = .ok { t with nodesCount := t.nodesCount - 1 } := by
  rw [decrementNodesCount, subUint, if_pos h]
  rfl

lemma incrementNodeIndex_eq (h : (t.nodes identityId).index + 1 < 2 ^ 72) :
    t.incrementNodeIndex identityId = .ok { t with
      nodes := update t.nodes identityId
        { t.nodes identityId with index := (t.nodes identityId).index + 1 } } := by
  rw [incrementNodeIndex, addUint, if_pos h]
  rfl

lemma decrementNodeIndex_eq (h : 1 ≤ (t.nodes identityId).index) :
    t.decrementNodeIndex identityId = .ok { t with
      nodes := update t.nodes identityId
        { t.nodes identityId with index := (t.nodes identityId).index - 1 } } := by
  rw [decrementNodeIndex, subUint, if_pos h]
  rfl

end ShardingTableStorage

/-- The index fields of the nodes in `P` change by `f`. -/
def reindex (f : ℕ → ℕ) (nodes : ℕ → Node) (P : List ℕ) (identityId : ℕ) : Node :=
  if identityId ∈ P then { nodes identityId with index := f (nodes identityId).index }
  else nodes identityId

/-- One node of the list after the other. -/
lemma reindex_cons {f : ℕ → ℕ} {nodes : ℕ → Node} {x : ℕ} {P : List ℕ} (hx : x ∉ P) :
    reindex f (update nodes x { nodes x with index := f (nodes x).index }) P
      = reindex f nodes (x :: P) := by
  funext id
  by_cases hid : id = x
  · subst hid
    simp [reindex, hx]
  · simp [reindex, hid]

lemma reindex_nil (f : ℕ → ℕ) (nodes : ℕ → Node) : reindex f nodes [] = nodes := by
  funext id
  simp [reindex]

namespace ShardingTable

variable {gas index : ℕ} {t : ShardingTableStorage}

/-- The loop of an insertion moves the nodes of `P` up by one slot. -/
lemma insertLoop_eq (P : List ℕ) (hnull : 0 ∉ P) (hnodup : P.Nodup)
    (hslots : ∀ m, t.indexToIdentityId (index + 1 + m) = P.getD (m + 1) 0)
    (hfits : index + P.length < 2 ^ 72) (hindex : ∀ id ∈ P, (t.nodes id).index + 1 < 2 ^ 72) :
    insertLoop gas t index (P.getD 0 0)
      = if P.length < gas then .ok { t with
          indexToIdentityId := fun j =>
            if j ≤ index then t.indexToIdentityId j else P.getD (j - index - 1) 0
          nodes := reindex (· + 1) t.nodes P }
        else .error .outOfGas := by
  induction P generalizing gas index t with
  | nil =>
    cases gas with
    | zero => rfl
    | succ gas =>
      have hsame : (fun j => if j ≤ index then t.indexToIdentityId j
          else ([] : List ℕ).getD (j - index - 1) 0) = t.indexToIdentityId := by
        funext j
        by_cases hj : j ≤ index
        · rw [if_pos hj]
        · rw [if_neg hj]
          have := hslots (j - index - 1)
          rw [show index + 1 + (j - index - 1) = j by omega] at this
          rw [this]
          rfl
      rw [hsame, reindex_nil, length_nil, if_pos (Nat.succ_pos gas)]
      rfl
  | cons x P ih =>
    cases gas with
    | zero => rfl
    | succ gas =>
      obtain ⟨hx, hnodup⟩ := nodup_cons.mp hnodup
      simp only [mem_cons, not_or] at hnull
      rw [length_cons] at hfits
      have hwrap : (index + 1) % 2 ^ 72 = index + 1 := Nat.mod_eq_of_lt (by omega)
      have hnext : t.indexToIdentityId (index + 1) = P.getD 0 0 := by
        have := hslots 0
        simpa using this
      rw [insertLoop, getD_cons_zero, if_pos (Ne.symm hnull.1)]
      simp only [hwrap, hnext]
      rw [incrementNodeIndex_eq (hindex x mem_cons_self)]
      simp only [bind, Except.bind]
      rw [ih hnull.2 hnodup]
      · -- the slots written so far, and the list without its head
        simp only [setIdentityId, length_cons, Nat.add_lt_add_iff_right, reindex_cons hx]
        have hshift : (fun j => if j ≤ index + 1 then
              update t.indexToIdentityId (index + 1) x j
            else P.getD (j - (index + 1) - 1) 0)
            = fun j => if j ≤ index then t.indexToIdentityId j
            else (x :: P).getD (j - index - 1) 0 := by
          funext j
          rcases Nat.lt_trichotomy j (index + 1) with hj | hj | hj
          · rw [if_pos (by omega), if_pos (by omega), update_of_ne (by omega)]
          · rw [if_pos (by omega), if_neg (by omega), hj, update_self]
            simp
          · rw [if_neg (by omega), if_neg (by omega),
              show j - index - 1 = (j - (index + 1) - 1) + 1 by omega, getD_cons_succ]
        rw [hshift]
      · intro m
        simp only [setIdentityId]
        rw [update_of_ne (by omega), show index + 1 + 1 + m = index + 1 + (m + 1) by
          omega, hslots (m + 1), getD_cons_succ]
      · omega
      · intro id hid
        have hne : id ≠ x := fun heq => hx (heq ▸ hid)
        simp only [setIdentityId, update_of_ne hne]
        exact hindex id (mem_cons_of_mem _ hid)

/-- The loop of a removal moves the nodes of `P` down by one slot, and ends at the last of their
old slots. -/
lemma removeLoop_eq (P : List ℕ) (hnull : 0 ∉ P) (hnodup : P.Nodup)
    (hslots : ∀ m, t.indexToIdentityId (index + 1 + m) = P.getD m 0)
    (hfits : index + P.length + 1 < 2 ^ 72) (hindex : ∀ id ∈ P, 1 ≤ (t.nodes id).index) :
    removeLoop gas t index (P.getD 0 0)
      = if P.length < gas then .ok (index + P.length, { t with
          indexToIdentityId := fun j =>
            if index ≤ j ∧ j < index + P.length then P.getD (j - index) 0
            else t.indexToIdentityId j
          nodes := reindex (· - 1) t.nodes P })
        else .error .outOfGas := by
  induction P generalizing gas index t with
  | nil =>
    cases gas with
    | zero => rfl
    | succ gas =>
      have hsame : (fun j => if index ≤ j ∧ j < index + ([] : List ℕ).length then
          ([] : List ℕ).getD (j - index) 0 else t.indexToIdentityId j)
          = t.indexToIdentityId := by
        funext j
        rw [if_neg (by rw [length_nil]; omega)]
      rw [hsame, reindex_nil, length_nil, if_pos (Nat.succ_pos gas)]
      rfl
  | cons x P ih =>
    cases gas with
    | zero => rfl
    | succ gas =>
      obtain ⟨hx, hnodup⟩ := nodup_cons.mp hnodup
      simp only [mem_cons, not_or] at hnull
      rw [length_cons] at hfits
      have hwrap : (index + 1) % 2 ^ 72 = index + 1 := Nat.mod_eq_of_lt (by omega)
      have hadd : addUint 72 (index + 1) 1 = .ok (index + 1 + 1) := by
        rw [addUint, if_pos (by omega)]
      have hnext : update t.indexToIdentityId index x (index + 1 + 1)
          = P.getD 0 0 := by
        rw [update_of_ne (by omega), hslots 1, getD_cons_succ]
      rw [removeLoop, getD_cons_zero, if_pos (Ne.symm hnull.1)]
      rw [decrementNodeIndex_eq (hindex x mem_cons_self)]
      simp only [bind, Except.bind, hwrap, hadd, setIdentityId, hnext]
      rw [ih hnull.2 hnodup]
      · simp only [length_cons, Nat.add_lt_add_iff_right, reindex_cons hx]
        have hend : index + 1 + P.length = index + (P.length + 1) := by omega
        have hshift : (fun j => if index + 1 ≤ j ∧ j < index + 1 + P.length then
              P.getD (j - (index + 1)) 0
            else update t.indexToIdentityId index x j)
            = fun j => if index ≤ j ∧ j < index + (P.length + 1) then
              (x :: P).getD (j - index) 0
            else t.indexToIdentityId j := by
          funext j
          rcases Nat.lt_trichotomy j index with hj | hj | hj
          · rw [if_neg (by omega), if_neg (by omega), update_of_ne (by omega)]
          · rw [if_neg (by omega), if_pos (by omega), hj, update_self]
            simp
          · by_cases hlast : j < index + (P.length + 1)
            · rw [if_pos (by omega), if_pos (by omega),
                show j - index = (j - (index + 1)) + 1 by omega, getD_cons_succ]
            · rw [if_neg (by omega), if_neg (by omega), update_of_ne (by omega)]
        rw [hshift, hend]
      · intro m
        simp only
        rw [update_of_ne (by omega), show index + 1 + 1 + m = index + 1 + (m + 1) by
          omega, hslots (m + 1), getD_cons_succ]
      · omega
      · intro id hid
        have hne : id ≠ x := fun heq => hx (heq ▸ hid)
        simp only [update_of_ne hne]
        exact hindex id (mem_cons_of_mem _ hid)

/-! ## The search -/

/-- The nodes before the index are not behind the ring position, and those from it on not before
it. -/
structure SplitsAt (t : ShardingTableStorage) (hashRingPosition index : ℕ) : Prop where
  bound : index ≤ t.nodesCount
  before : ∀ j < index, t.getHashRingPositionByIndex j ≤ hashRingPosition
  after : ∀ j, index ≤ j → j < t.nodesCount → hashRingPosition ≤ t.getHashRingPositionByIndex j

/-- The table is sorted by ring position. -/
def SortedTable (t : ShardingTableStorage) : Prop :=
  ∀ i j, i ≤ j → j < t.nodesCount → t.getHashRingPositionByIndex i ≤ t.getHashRingPositionByIndex j

/-- The search in `[left, right]` returns a split, unless the sum of the two bounds overflows or
the gas is used up. -/
lemma searchLoop_cases {pos : ℕ} (hsorted : SortedTable t) (hfits : t.nodesCount < 2 ^ 72)
    (gas left right : ℕ) (hright : right < t.nodesCount) (hle : left ≤ right + 1)
    (hbefore : ∀ j < left, t.getHashRingPositionByIndex j ≤ pos)
    (hafter : ∀ j, right < j → j < t.nodesCount → pos ≤ t.getHashRingPositionByIndex j) :
    (∃ index, searchLoop t pos gas left right = .ok index ∧ SplitsAt t pos index) ∨
    (searchLoop t pos gas left right = .error .panic ∧ 2 ^ 71 < t.nodesCount) ∨
    (searchLoop t pos gas left right = .error .outOfGas ∧ gas ≤ right + 1 - left) := by
  induction gas generalizing left right with
  | zero => exact .inr (.inr ⟨rfl, Nat.zero_le _⟩)
  | succ gas ih =>
    rw [searchLoop]
    by_cases hmore : left ≤ right
    · rw [if_pos hmore]
      by_cases hsum : left + right < 2 ^ 72
      · rw [addUint, if_pos hsum]
        simp only [bind, Except.bind]
        set mid := (left + right) / 2 with hmid
        by_cases hgt : pos > t.getHashRingPositionByIndex mid
        · rw [if_pos hgt, addUint, if_pos (by omega)]
          simp only
          have hleft : ∀ j < mid + 1, t.getHashRingPositionByIndex j ≤ pos := by
            intro j hj
            have := hsorted j mid (by omega) (by omega)
            omega
          rcases ih (mid + 1) right hright (by omega) hleft hafter with hok | hpanic | hgas
          · exact .inl hok
          · exact .inr (.inl hpanic)
          · exact .inr (.inr ⟨hgas.1, by omega⟩)
        · rw [if_neg hgt]
          by_cases hlt : pos < t.getHashRingPositionByIndex mid
          · rw [if_pos hlt]
            by_cases hzero : mid = 0
            · rw [if_pos hzero]
              refine .inl ⟨0, rfl, Nat.zero_le _, fun j hj => absurd hj (Nat.not_lt_zero j), ?_⟩
              intro j _ hj
              have := hsorted 0 j (Nat.zero_le _) hj
              rw [hzero] at hlt
              omega
            · rw [if_neg hzero]
              have hrest : ∀ j, mid - 1 < j → j < t.nodesCount →
                  pos ≤ t.getHashRingPositionByIndex j := by
                intro j hj hjn
                have := hsorted mid j (by omega) hjn
                omega
              rcases ih left (mid - 1) (by omega) (by omega) hbefore hrest
                with hok | hpanic | hgas
              · exact .inl hok
              · exact .inr (.inl hpanic)
              · exact .inr (.inr ⟨hgas.1, by omega⟩)
          · -- the position of the node `mid` itself
            rw [if_neg hlt]
            refine .inl ⟨mid, rfl, by omega, ?_, ?_⟩
            · intro j hj
              have := hsorted j mid (by omega) (by omega)
              omega
            · intro j hj hjn
              have := hsorted mid j hj hjn
              omega
      · rw [addUint, if_neg hsum]
        exact .inr (.inl ⟨rfl, by omega⟩)
    · rw [if_neg hmore]
      refine .inl ⟨left, rfl, by omega, hbefore, ?_⟩
      intro j hj hjn
      exact hafter j (by omega) hjn

lemma _binarySearchForIndex_cases (hsorted : SortedTable t) (hfits : t.nodesCount < 2 ^ 72)
    (gas pos : ℕ) :
    (∃ index, _binarySearchForIndex gas t pos = .ok index ∧ SplitsAt t pos index) ∨
    (_binarySearchForIndex gas t pos = .error .panic ∧ 2 ^ 71 < t.nodesCount) ∨
    (_binarySearchForIndex gas t pos = .error .outOfGas ∧ gas ≤ t.nodesCount) := by
  unfold _binarySearchForIndex
  by_cases hempty : t.nodesCount = 0
  · rw [if_pos hempty]
    refine .inl ⟨0, rfl, Nat.zero_le _, fun j hj => absurd hj (Nat.not_lt_zero j), ?_⟩
    intro j _ hj
    omega
  · rw [if_neg hempty]
    rcases searchLoop_cases hsorted hfits gas 0 (t.nodesCount - 1)
      (by omega) (by omega) (fun j hj => absurd hj (Nat.not_lt_zero j))
      (fun j hj hjn => by omega) with hok | hpanic | hgas
    · exact .inl hok
    · exact .inr (.inl hpanic)
    · exact .inr (.inr ⟨hgas.1, by omega⟩)

end ShardingTable

end Dkg
