import Dkg.Evm

/-! # The running effective stake of one node

`ConvictionStakingStorage` keeps for every node its effective stake as of `nodeLastSettledAt` and
a queue of boost expiries with the drop due at each. The mappings keyed by the identity id are
grouped into one `NodeLedger` record; the functions are those of the settlement section of
`storage/ConvictionStakingStorage.sol`.
-/

namespace Dkg

open Function (update)

def SCALE18 : ℕ := 10 ^ 18

/-- The effective-stake mappings of `ConvictionStakingStorage` at one identity id. -/
structure NodeLedger where
  (runningNodeEffectiveStake nodeLastSettledAt : ℕ)
  nodeExpiryTimes : List ℕ
  nodeExpiryDrop : ℕ → ℕ
  nodeExpiryHead : ℕ
  nodeExpiryPresent : ℕ → Bool
  nodeStakeV10 : ℕ

namespace NodeLedger

/-- The storage of a node nobody has staked on. -/
def empty : NodeLedger where
  runningNodeEffectiveStake := 0
  nodeLastSettledAt := 0
  nodeExpiryTimes := []
  nodeExpiryDrop := fun _ => 0
  nodeExpiryHead := 0
  nodeExpiryPresent := fun _ => false
  nodeStakeV10 := 0

/-- The scratch variables of the loop of `_settleNodeTo`, with the two mappings it clears. -/
structure Drain where
  (head stake : ℕ)
  drop : ℕ → ℕ
  present : ℕ → Bool

/-- The `while` of `_settleNodeTo` over the entries from `head` on. -/
def settleLoop (ts : ℕ) : List ℕ → Drain → Tx Drain
  | [], d => pure d
  | t :: rest, d =>
    if t > ts then pure d
    else do
      -- a drop of zero is an entry that was cancelled; it is walked past without a write
      let d ← if d.drop t ≠ 0 then do
          let stake ← subUint d.stake (d.drop t)
          pure { d with stake := stake, drop := update d.drop t 0 }
        else pure d
      settleLoop ts rest { d with head := d.head + 1, present := update d.present t false }

/-- `_settleNodeTo(identityId, ts)`. -/
def _settleNodeTo (l : NodeLedger) (ts : ℕ) : Tx NodeLedger :=
  if ts ≤ l.nodeLastSettledAt then pure l
  else do
    let d ← settleLoop ts (l.nodeExpiryTimes.drop l.nodeExpiryHead)
      { head := l.nodeExpiryHead
        stake := l.runningNodeEffectiveStake
        drop := l.nodeExpiryDrop
        present := l.nodeExpiryPresent }
    pure { l with
      nodeExpiryHead := d.head
      runningNodeEffectiveStake := d.stake
      nodeExpiryDrop := d.drop
      nodeExpiryPresent := d.present
      nodeLastSettledAt := ts }

/-- The `while` of `_simulateNodeEffectiveStakeAt`. -/
def simulateLoop (drop : ℕ → ℕ) (ts : ℕ) : List ℕ → ℕ → Tx ℕ
  | [], stake => pure stake
  | t :: rest, stake =>
    if t > ts then pure stake
    else do
      let stake ← subUint stake (drop t)
      simulateLoop drop ts rest stake

/-- `_simulateNodeEffectiveStakeAt(identityId, ts)`: a moment before the last settlement reads
zero. -/
def _simulateNodeEffectiveStakeAt (l : NodeLedger) (ts : ℕ) : Tx ℕ :=
  if ts < l.nodeLastSettledAt then pure 0
  else
    simulateLoop l.nodeExpiryDrop ts (l.nodeExpiryTimes.drop l.nodeExpiryHead)
      l.runningNodeEffectiveStake

/-- The insertion loop of `_scheduleNodeExpiry`: slot `i` is free, larger entries move right. -/
def bubbleLeft (head ts : ℕ) : ℕ → List ℕ → List ℕ
  | 0, arr => arr.set 0 ts
  | i + 1, arr =>
    if i + 1 > head ∧ arr.getD i 0 > ts then
      bubbleLeft head ts i (arr.set (i + 1) (arr.getD i 0))
    else arr.set (i + 1) ts

/-- `_scheduleNodeExpiry(identityId, ts, drop)`. -/
def _scheduleNodeExpiry (l : NodeLedger) (ts drop : ℕ) : Tx NodeLedger := do
  require (drop ≠ 0) .zeroDrop
  require (ts > l.nodeLastSettledAt) .expiryInPast
  let existing := l.nodeExpiryDrop ts
  let sum ← addUint 256 existing drop
  let l := { l with nodeExpiryDrop := update l.nodeExpiryDrop ts sum }
  if l.nodeExpiryPresent ts then pure l
  else
    pure { l with
      nodeExpiryPresent := update l.nodeExpiryPresent ts true
      nodeExpiryTimes :=
        bubbleLeft l.nodeExpiryHead ts l.nodeExpiryTimes.length (l.nodeExpiryTimes ++ [ts]) }

/-- `_cancelNodeExpiry(identityId, ts, drop)`. The entry of the queue stays. -/
def _cancelNodeExpiry (l : NodeLedger) (ts drop : ℕ) : Tx NodeLedger :=
  if drop = 0 then pure l
  else if ts ≤ l.nodeLastSettledAt then pure l
  else do
    let existing := l.nodeExpiryDrop ts
    require (existing ≥ drop) .cancelGtScheduled
    let remaining ← subUint existing drop
    pure { l with nodeExpiryDrop := update l.nodeExpiryDrop ts remaining }

/-- `_applyNodeStakeDelta(identityId, delta)`. -/
def _applyNodeStakeDelta (l : NodeLedger) (delta : ℤ) : Tx NodeLedger :=
  if delta = 0 then pure l
  else if delta > 0 then do
    let stake ← addUint 256 l.runningNodeEffectiveStake delta.toNat
    pure { l with runningNodeEffectiveStake := stake }
  else do
    let d := (-delta).toNat
    require (l.runningNodeEffectiveStake ≥ d) .negRunningStake
    let stake ← subUint l.runningNodeEffectiveStake d
    pure { l with runningNodeEffectiveStake := stake }

end NodeLedger

end Dkg
