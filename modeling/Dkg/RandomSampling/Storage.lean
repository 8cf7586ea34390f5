import Dkg.Evm
import Dkg.Lib.BinarySearch

/-! # RandomSamplingStorage

The scores of `storage/RandomSamplingStorage.sol`: per node and epoch the node's score and its
score per stake, with one timestamped checkpoint for every second in which a proof was accepted,
and per delegator the score settled so far and the score per stake it was settled at. The
challenges and the proofing periods are not part of it.
-/

namespace Dkg

open Lib

structure Checkpoint where
  (timestamp scorePerStake36 : ℕ)
  deriving DecidableEq, Repr

structure EpochIndex where
  lastScorePerStake36 : ℕ
  mid : List Checkpoint

/-- The storage of the contract; delegator keys are token ids. -/
structure RandomSamplingStorage where
  epochNodeValidProofsCount : ℕ → ℕ → ℕ
  nodeEpochProofPeriodScore : ℕ → ℕ → ℕ → ℕ
  nodeEpochScore : ℕ → ℕ → ℕ
  allNodesEpochScore : ℕ → ℕ
  epochNodeDelegatorScore : ℕ → ℕ → ℕ → ℕ
  nodeEpochIndex : ℕ → ℕ → EpochIndex
  delegatorLastSettledNodeEpochScorePerStake : ℕ → ℕ → ℕ → ℕ

namespace EpochIndex

/-- `_upsertCheckpoint`: one checkpoint a second, the last one of that second counts. -/
def _upsertCheckpoint (ei : EpochIndex) (ts value : ℕ) : Tx EpochIndex := do
  require (value ≤ 2 ^ 216 - 1) .checkpointOverflow
  match ei.mid.getLast? with
  | some tail => do
      require (tail.timestamp ≤ ts) .nonMonotonicTs
      if tail.timestamp = ts then
        pure { ei with mid := ei.mid.dropLast ++ [⟨ts, value⟩] }
      else pure { ei with mid := ei.mid ++ [⟨ts, value⟩] }
  | none => pure { ei with mid := ei.mid ++ [⟨ts, value⟩] }

/-- `findScorePerStakeAt` on one index: the value at the last checkpoint not after `ts`. -/
def findScorePerStakeAt (ei : EpochIndex) (ts : ℕ) : ℕ :=
  let n := ei.mid.length
  if n = 0 then 0
  else
    let lo := searchEnd (fun i => decide ((ei.mid.getD i ⟨0, 0⟩).timestamp ≤ ts)) n 0 n
    if lo = 0 then 0 else (ei.mid.getD (lo - 1) ⟨0, 0⟩).scorePerStake36

end EpochIndex

namespace RandomSamplingStorage

variable (r : RandomSamplingStorage)

/-- The storage of a fresh contract. -/
def empty : RandomSamplingStorage where
  epochNodeValidProofsCount := fun _ _ => 0
  nodeEpochProofPeriodScore := fun _ _ _ => 0
  nodeEpochScore := fun _ _ => 0
  allNodesEpochScore := fun _ => 0
  epochNodeDelegatorScore := fun _ _ _ => 0
  nodeEpochIndex := fun _ _ => ⟨0, []⟩
  delegatorLastSettledNodeEpochScorePerStake := fun _ _ _ => 0

def incrementEpochNodeValidProofsCount (epoch identityId : ℕ) : Tx RandomSamplingStorage := do
  let count ← addUint 256 (r.epochNodeValidProofsCount epoch identityId) 1
  pure { r with
    epochNodeValidProofsCount := store₂ r.epochNodeValidProofsCount epoch identityId count }

def addToNodeEpochProofPeriodScore (epoch proofPeriodStartBlock identityId score : ℕ) :
    Tx RandomSamplingStorage := do
  let total ← addUint 256 (r.nodeEpochProofPeriodScore identityId epoch proofPeriodStartBlock) score
  pure { r with
    nodeEpochProofPeriodScore :=
      store₃ r.nodeEpochProofPeriodScore identityId epoch proofPeriodStartBlock total }

def addToNodeEpochScore (epoch identityId score : ℕ) : Tx RandomSamplingStorage := do
  let total ← addUint 256 (r.nodeEpochScore identityId epoch) score
  pure { r with nodeEpochScore := store₂ r.nodeEpochScore identityId epoch total }

def addToAllNodesEpochScore (epoch score : ℕ) : Tx RandomSamplingStorage := do
  let total ← addUint 256 (r.allNodesEpochScore epoch) score
  pure { r with allNodesEpochScore := Function.update r.allNodesEpochScore epoch total }

def addToEpochNodeDelegatorScore (epoch identityId delegatorKey score : ℕ) :
    Tx RandomSamplingStorage := do
  let total ← addUint 256 (r.epochNodeDelegatorScore epoch identityId delegatorKey) score
  pure { r with
    epochNodeDelegatorScore :=
      store₃ r.epochNodeDelegatorScore epoch identityId delegatorKey total }

def setDelegatorLastSettledNodeEpochScorePerStake
    (epoch identityId delegatorKey newScorePerStake : ℕ) : RandomSamplingStorage :=
  { r with
    delegatorLastSettledNodeEpochScorePerStake :=
      store₃ r.delegatorLastSettledNodeEpochScorePerStake epoch identityId delegatorKey
        newScorePerStake }

def appendCheckpoint (identityId epoch ts scorePerStake36 : ℕ) : Tx RandomSamplingStorage := do
  require (scorePerStake36 ≤ 2 ^ 216 - 1) .checkpointOverflow
  let ei ← EpochIndex._upsertCheckpoint
    { r.nodeEpochIndex identityId epoch with lastScorePerStake36 := scorePerStake36 }
    ts scorePerStake36
  pure { r with nodeEpochIndex := store₂ r.nodeEpochIndex identityId epoch ei }

/-! ## Reads -/

def getEpochLastScorePerStake (identityId epoch : ℕ) : ℕ :=
  (r.nodeEpochIndex identityId epoch).lastScorePerStake36

def findScorePerStakeAt (identityId epoch ts : ℕ) : ℕ :=
  (r.nodeEpochIndex identityId epoch).findScorePerStakeAt ts

def getEpochNodeDelegatorScore (epoch identityId delegatorKey : ℕ) : ℕ :=
  r.epochNodeDelegatorScore epoch identityId delegatorKey

def getDelegatorLastSettledNodeEpochScorePerStake (epoch identityId delegatorKey : ℕ) : ℕ :=
  r.delegatorLastSettledNodeEpochScorePerStake epoch identityId delegatorKey

def getNodeEpochScore (epoch identityId : ℕ) : ℕ := r.nodeEpochScore identityId epoch

def getAllNodesEpochScore (epoch : ℕ) : ℕ := r.allNodesEpochScore epoch

end RandomSamplingStorage

end Dkg
