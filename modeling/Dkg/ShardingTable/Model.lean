import Dkg.Evm
import Dkg.Lib.Machine

/-! # ShardingTable

The ring of the nodes (`ShardingTable.sol`, `storage/ShardingTableStorage.sol`). The nodes stand in
a mapping from indices to identity ids, in the order of the hash of their node ids; each node
object has its own index as well. An insertion finds its index by binary search and moves every
node after it up by one slot, a removal moves them down.

The loops run until they read a null identity id, and fail beyond the iterations that gas allows.
-/

namespace Dkg

open Function (update)
open Lib

/-- `ShardingTableLib.Node`. -/
structure Node where
  hashRingPosition : ℕ
  nodeId : List UInt8
  (index identityId : ℕ)
  deriving DecidableEq, Repr

/-- A node object that was never created, or was deleted. -/
def Node.zero : Node := ⟨0, [], 0, 0⟩

structure ShardingTableStorage where
  nodesCount : ℕ
  nodes : ℕ → Node
  indexToIdentityId : ℕ → ℕ

namespace ShardingTableStorage

/-- The storage of a fresh contract. -/
def empty : ShardingTableStorage where
  nodesCount := 0
  nodes := fun _ => Node.zero
  indexToIdentityId := fun _ => 0

variable (t : ShardingTableStorage)

def incrementNodesCount : Tx ShardingTableStorage := do
  let nodesCount ← addUint 72 t.nodesCount 1
  pure { t with nodesCount := nodesCount }

def decrementNodesCount : Tx ShardingTableStorage := do
  let nodesCount ← subUint t.nodesCount 1
  pure { t with nodesCount := nodesCount }

def createNodeObject (hashRingPosition : ℕ) (nodeId : List UInt8) (identityId index : ℕ) :
    ShardingTableStorage :=
  { t with
    nodes := update t.nodes identityId ⟨hashRingPosition, nodeId, index, identityId⟩ }

def deleteNodeObject (identityId : ℕ) : ShardingTableStorage :=
  { t with nodes := update t.nodes identityId Node.zero }

def nodeExists (identityId : ℕ) : Prop := (t.nodes identityId).identityId ≠ 0
  deriving Decidable

def incrementNodeIndex (identityId : ℕ) : Tx ShardingTableStorage := do
  let index ← addUint 72 (t.nodes identityId).index 1
  pure { t with
    nodes := update t.nodes identityId { t.nodes identityId with index := index } }

def decrementNodeIndex (identityId : ℕ) : Tx ShardingTableStorage := do
  let index ← subUint (t.nodes identityId).index 1
  pure { t with
    nodes := update t.nodes identityId { t.nodes identityId with index := index } }

def setIdentityId (index identityId : ℕ) : ShardingTableStorage :=
  { t with indexToIdentityId := update t.indexToIdentityId index identityId }

def getNodeByIndex (index : ℕ) : Node := t.nodes (t.indexToIdentityId index)

def getHashRingPositionByIndex (index : ℕ) : ℕ := (t.getNodeByIndex index).hashRingPosition

end ShardingTableStorage

namespace ShardingTable

open ShardingTableStorage

/-- The loop of `_binarySearchForIndex`. -/
def searchLoop (t : ShardingTableStorage) (hashRingPosition : ℕ) : ℕ → ℕ → ℕ → Tx ℕ
  | 0, _, _ => .error .outOfGas
  | gas + 1, left, right =>
    if left ≤ right then do
      let sum ← addUint 72 left right
      let mid := sum / 2
      let currentHashRingPosition := t.getHashRingPositionByIndex mid
      if hashRingPosition > currentHashRingPosition then do
        let left ← addUint 72 mid 1
        searchLoop t hashRingPosition gas left right
      else if hashRingPosition < currentHashRingPosition then
        -- `mid - 1` would underflow: the new node is the first one
        if mid = 0 then pure 0
        else searchLoop t hashRingPosition gas left (mid - 1)
      else pure mid
    else pure left

def _binarySearchForIndex (gas : ℕ) (t : ShardingTableStorage) (hashRingPosition : ℕ) : Tx ℕ :=
  if t.nodesCount = 0 then pure 0
  else searchLoop t hashRingPosition gas 0 (t.nodesCount - 1)

/-- The loop of `_insertNode`: `nextIdentityId` has lost its slot `index`. -/
def insertLoop : ℕ → ShardingTableStorage → ℕ → ℕ → Tx ShardingTableStorage
  | 0, _, _, _ => .error .outOfGas
  | gas + 1, t, index, nextIdentityId =>
    if nextIdentityId ≠ 0 then do
      let index := (index + 1) % 2 ^ 72
      let currentIdentityId := nextIdentityId
      let nextIdentityId := t.indexToIdentityId index
      let t ← t.incrementNodeIndex currentIdentityId
      insertLoop gas (t.setIdentityId index currentIdentityId) index nextIdentityId
    else pure t

def _insertNode (gas : ℕ) (t : ShardingTableStorage) (index identityId : ℕ)
    (nodeId : List UInt8) (newNodeHashRingPosition : ℕ) : Tx ShardingTableStorage := do
  require (¬ t.nodeExists identityId) .nodeAlreadyInTheShardingTable
  require (index ≠ 0 → ¬ newNodeHashRingPosition < t.getHashRingPositionByIndex (index - 1))
    .invalidIndexWithRespectToPreviousNode
  let nextNode := t.getNodeByIndex index
  require (¬ (nextNode.identityId ≠ 0 ∧ newNodeHashRingPosition > nextNode.hashRingPosition))
    .invalidIndexWithRespectToNextNode
  let t := t.createNodeObject newNodeHashRingPosition nodeId identityId index
  let t := t.setIdentityId index identityId
  let t ← t.incrementNodesCount
  insertLoop gas t index nextNode.identityId

section

variable (sha256 : List UInt8 → ℕ)

/-- `insertNode(identityId)`, for the node id that the profile of the identity has. -/
def insertNode (gas : ℕ) (t : ShardingTableStorage) (identityId : ℕ) (nodeId : List UInt8) :
    Tx ShardingTableStorage := do
  let newNodeHashRingPosition := sha256 nodeId
  let index ← _binarySearchForIndex gas t newNodeHashRingPosition
  _insertNode gas t index identityId nodeId newNodeHashRingPosition

end

/-- The loop of `removeNode`: the slot `index` is free. Returns the last free slot. -/
def removeLoop : ℕ → ShardingTableStorage → ℕ → ℕ → Tx (ℕ × ShardingTableStorage)
  | 0, _, _, _ => .error .outOfGas
  | gas + 1, t, index, nextIdentityId =>
    if nextIdentityId ≠ 0 then do
      let t ← t.decrementNodeIndex nextIdentityId
      let t := t.setIdentityId index nextIdentityId
      let index := (index + 1) % 2 ^ 72
      let next ← addUint 72 index 1
      removeLoop gas t index (t.indexToIdentityId next)
    else pure (index, t)

def removeNode (gas : ℕ) (t : ShardingTableStorage) (identityId : ℕ) : Tx ShardingTableStorage := do
  let nodeToRemove := t.nodes identityId
  let index := nodeToRemove.index
  let next ← addUint 72 index 1
  let out ← removeLoop gas t index (t.indexToIdentityId next)
  let t := out.2.deleteNodeObject identityId
  let t := t.setIdentityId out.1 0
  t.decrementNodesCount

end ShardingTable

/-! ## Runs

`StakingV10` and `Staking` insert a node whose profile exists when the table has no object for it,
and remove one when it has. -/

/-- A call of the table, with its gas; `nodeId` is what the profile has. -/
inductive TableCall
  | insertNode (gas identityId : ℕ) (nodeId : List UInt8)
  | removeNode (gas identityId : ℕ)

/-- The storage, and the node id under which each identity of the table was inserted. -/
structure TableState where
  table : ShardingTableStorage
  members : ℕ → Option (List UInt8)

namespace TableCall

/-- The guard of the callers. An identity with a profile has an id above `0`. -/
def Guarded (t : ShardingTableStorage) : TableCall → Prop
  | insertNode _ identityId _ => identityId ≠ 0 ∧ identityId < 2 ^ 72 ∧ ¬ t.nodeExists identityId
  | removeNode _ identityId => t.nodeExists identityId

instance (t : ShardingTableStorage) : (l : TableCall) → Decidable (l.Guarded t)
  | insertNode .. => inferInstanceAs (Decidable (_ ∧ _))
  | removeNode .. => inferInstanceAs (Decidable (t.nodeExists _))

def run (sha256 : List UInt8 → ℕ) (t : ShardingTableStorage) :
    TableCall → Tx ShardingTableStorage
  | insertNode gas identityId nodeId => ShardingTable.insertNode sha256 gas t identityId nodeId
  | removeNode gas identityId => ShardingTable.removeNode gas t identityId

def members (m : ℕ → Option (List UInt8)) : TableCall → ℕ → Option (List UInt8)
  | insertNode _ identityId nodeId => update m identityId (some nodeId)
  | removeNode _ identityId => update m identityId none

end TableCall

/-- A guarded call that succeeds. -/
def tableStep (sha256 : List UInt8 → ℕ) (s : TableState) (l : TableCall) (s' : TableState) : Prop :=
  l.Guarded s.table ∧ l.run sha256 s.table = .ok s'.table ∧ s'.members = l.members s.members

def tableMachine (sha256 : List UInt8 → ℕ) : Machine TableState TableCall where
  init s := s.table = ShardingTableStorage.empty ∧ s.members = fun _ => none
  step := tableStep sha256

/-- The step as a function. -/
def tableExec (sha256 : List UInt8 → ℕ) (s : TableState) (l : TableCall) : Tx TableState :=
  if l.Guarded s.table then do
    let table ← l.run sha256 s.table
    pure ⟨table, l.members s.members⟩
  else .error .abiDecode

lemma tableStep_of_exec (sha256 : List UInt8 → ℕ) (s : TableState) (l : TableCall)
    (s' : TableState) (hexec : tableExec sha256 s l = .ok s') : tableStep sha256 s l s' := by
  unfold tableExec at hexec
  split at hexec
  next hguard =>
    obtain ⟨table, hrun, rfl⟩ := of_bind_pure hexec
    exact ⟨hguard, hrun, rfl⟩
  next => cases hexec

end Dkg
