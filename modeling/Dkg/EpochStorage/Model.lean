import Dkg.Chronos
import Dkg.Lib.Machine

/-! # EpochStorage

The reward pools per epoch (`storage/EpochStorage.sol`), for every shard: `addTokensToEpochRange`
spreads an amount over a range of epochs through a difference array of `int96` increments,
epochs that are over are crystallised into `cumulative`, and `getEpochPool` reads either the
crystallised value or simulates the crystallisation. The mappings keyed by the shard id are
grouped into one `Shard` record; the knowledge-value counters are no part of it.
-/

namespace Dkg

open Function (update)

/-- The mappings of `EpochStorage` keyed by a shard id. -/
structure Shard where
  (lastFinalizedEpoch accumulatedRemainder : ℕ)
  diff : ℕ → ℤ
  (cumulative distributed : ℕ → ℕ)

/-- `EpochStorage`; `nodesPaidOut` is keyed by identity id, shard id and epoch. -/
structure EpochStorage where
  shard : ℕ → Shard
  nodesPaidOut : ℕ → ℕ → ℕ → ℕ

namespace Shard

/-- The storage of a fresh contract. -/
def empty : Shard where
  lastFinalizedEpoch := 0
  accumulatedRemainder := 0
  diff := fun _ => 0
  cumulative := fun _ => 0
  distributed := fun _ => 0

/-- The loop of `_finalizeEpochsUpTo`: `k` iterations from epoch `e`. -/
def finalizeLoop (diff : ℕ → ℤ) : ℕ → ℕ → (ℕ → ℕ) → Tx (ℕ → ℕ)
  | 0, _, cumulative => pure cumulative
  | k + 1, e, cumulative => do
      let prev := if e > 1 then int96 (cumulative (e - 1)) else 0
      let value ← addInt 96 prev (diff e)
      finalizeLoop diff k (e + 1) (update cumulative e (uint96OfInt value))

/-- `_finalizeEpochsUpTo`. -/
def finalizeEpochsUpTo (sh : Shard) (epoch : ℕ) : Tx Shard := do
  let startEpoch := sh.lastFinalizedEpoch + 1
  let cumulative ← finalizeLoop sh.diff (epoch + 1 - startEpoch) startEpoch sh.cumulative
  pure { sh with cumulative := cumulative, lastFinalizedEpoch := epoch }

/-- The loop of `_simulateEpochFinalization`: `k` iterations from epoch `e`. -/
def simulateLoop (diff : ℕ → ℤ) : ℕ → ℕ → ℕ → Tx ℕ
  | 0, _, simulatedCumulative => pure simulatedCumulative
  | k + 1, e, simulatedCumulative => do
      let result ← addInt 96 (int96 simulatedCumulative) (diff e)
      simulateLoop diff k (e + 1) (uint96OfInt result)

/-- `_simulateEpochFinalization`. -/
def simulateEpochFinalization (sh : Shard) (epoch : ℕ) : Tx ℕ :=
  if epoch ≤ sh.lastFinalizedEpoch then pure (sh.cumulative epoch)
  else
    simulateLoop sh.diff (epoch + 1 - (sh.lastFinalizedEpoch + 1)) (sh.lastFinalizedEpoch + 1)
      (if sh.lastFinalizedEpoch > 0 then sh.cumulative sh.lastFinalizedEpoch else 0)

def getEpochPool (sh : Shard) (epoch : ℕ) : Tx ℕ :=
  if epoch ≤ sh.lastFinalizedEpoch then pure (sh.cumulative epoch)
  else sh.simulateEpochFinalization epoch

/-- The first loop of `getEpochRangePool`: `k` finalised epochs from `e`. -/
def sumFinalized (cumulative : ℕ → ℕ) : ℕ → ℕ → ℕ → Tx ℕ
  | 0, _, totalPool => pure totalPool
  | k + 1, e, totalPool => do
      let totalPool ← addUint 96 totalPool (cumulative e)
      sumFinalized cumulative k (e + 1) totalPool

/-- The second loop of `getEpochRangePool`: `k` epochs from `e`, of which those before `startEpoch`
are not added. -/
def sumSimulated (diff : ℕ → ℤ) (startEpoch : ℕ) : ℕ → ℕ → ℕ → ℕ → Tx ℕ
  | 0, _, _, totalPool => pure totalPool
  | k + 1, e, simulatedCumulative, totalPool => do
      let tmp ← addInt 96 (int96 simulatedCumulative) (diff e)
      let totalPool ← (if startEpoch ≤ e then addUint 96 totalPool (uint96OfInt tmp)
        else pure totalPool)
      sumSimulated diff startEpoch k (e + 1) (uint96OfInt tmp) totalPool

def getEpochRangePool (sh : Shard) (startEpoch endEpoch : ℕ) : Tx ℕ := do
  let lastFinalized := sh.lastFinalizedEpoch
  let totalPool ← (if startEpoch ≤ lastFinalized then
      sumFinalized sh.cumulative (min lastFinalized endEpoch + 1 - startEpoch) startEpoch 0
    else pure 0)
  sumSimulated sh.diff startEpoch (endEpoch + 1 - (lastFinalized + 1)) (lastFinalized + 1)
    (if lastFinalized > 0 then sh.cumulative lastFinalized else sh.cumulative 1) totalPool

/-- The part of `addTokensToEpochRange` before the finalisation: the amount and the carried
remainder are divided over the epochs of the range. -/
def spread (sh : Shard) (startEpoch endEpoch tokenAmount : ℕ) : Tx Shard := do
  let width ← subUint endEpoch startEpoch
  let numEpochs ← addUint 256 width 1
  let totalTokens ← addUint 96 tokenAmount sh.accumulatedRemainder
  let tokensPerEpochU := uint96 (totalTokens / numEpochs)
  let remainder := uint96 (totalTokens % numEpochs)
  let tokensPerEpoch := int96 tokensPerEpochU
  let up ← addInt 96 (sh.diff startEpoch) tokensPerEpoch
  let diff := update sh.diff startEpoch up
  let next ← addUint 256 endEpoch 1
  let down ← addInt 96 (diff next) (-tokensPerEpoch)
  pure { sh with
    accumulatedRemainder := remainder
    diff := update diff next down }

/-- The finalisation both mutators run: up to the epoch before the current one. -/
def finalizePast (sh : Shard) (currentEpoch : ℕ) : Tx Shard :=
  if currentEpoch > 1 then sh.finalizeEpochsUpTo (currentEpoch - 1) else pure sh

end Shard

namespace EpochStorage

def empty : EpochStorage where
  shard := fun _ => Shard.empty
  nodesPaidOut := fun _ _ _ => 0

def getEpochPool (s : EpochStorage) (shardId epoch : ℕ) : Tx ℕ :=
  (s.shard shardId).getEpochPool epoch

def getEpochRangePool (s : EpochStorage) (shardId startEpoch endEpoch : ℕ) : Tx ℕ :=
  (s.shard shardId).getEpochRangePool startEpoch endEpoch

def addTokensToEpochRange (c : Chronos) (b : Block) (s : EpochStorage)
    (shardId startEpoch endEpoch tokenAmount : ℕ) : Tx EpochStorage := do
  let sh ← (s.shard shardId).spread startEpoch endEpoch tokenAmount
  let sh ← sh.finalizePast (c.getCurrentEpoch b)
  pure { s with shard := update s.shard shardId sh }

def payOutEpochTokens (c : Chronos) (b : Block) (s : EpochStorage)
    (shardId epoch identityId amount : ℕ) : Tx EpochStorage := do
  let sh ← (s.shard shardId).finalizePast (c.getCurrentEpoch b)
  let distributed ← addUint 96 (sh.distributed epoch) amount
  let paidOut ← addUint 96 (s.nodesPaidOut identityId shardId epoch) amount
  pure {
    shard := update s.shard shardId
      { sh with distributed := update sh.distributed epoch distributed }
    nodesPaidOut := update s.nodesPaidOut identityId
      (update (s.nodesPaidOut identityId) shardId
        (update (s.nodesPaidOut identityId shardId) epoch paidOut)) }

end EpochStorage

end Dkg
