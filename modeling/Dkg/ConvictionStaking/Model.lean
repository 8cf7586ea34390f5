import Dkg.Chronos
import Dkg.ConvictionStaking.NodeLedger

/-! # ConvictionStakingStorage

Positions, lock tiers, the per-node ledgers and token lists, and the operator-fee accounts of
`storage/ConvictionStakingStorage.sol`. Every mutator settles the node it touches to the block's
timestamp before it changes the running stake.

The products `raw * multiplier18` are of a `uint96` and a `uint64` in `uint256` and cannot
overflow; they are plain products here. The events and the launch-epoch marker are left out.
-/

namespace Dkg

open Function (update)

structure TierConfig where
  (duration multiplier18 : ℕ)
  (active exists_ : Bool)
  deriving DecidableEq, Repr

structure Position where
  (raw lockTier expiryTimestamp identityId cumulativeRewardsClaimed multiplier18 : ℕ)
  (lastClaimedEpoch migrationEpoch : ℕ)
  deriving DecidableEq, Repr

/-- A deleted position, or one never written. -/
def Position.zero : Position := ⟨0, 0, 0, 0, 0, 0, 0, 0⟩

/-- `StakingLib.StakeWithdrawalRequest`. -/
structure StakeWithdrawalRequest where
  (amount indexedOutAmount timestamp : ℕ)
  deriving DecidableEq, Repr

/-- The storage of the contract, with the ledger of each node. -/
structure ConvictionStakingStorage where
  tiers : ℕ → TierConfig
  tierIds : List ℕ
  positions : ℕ → Position
  ledger : ℕ → NodeLedger
  totalStakeV10 : ℕ
  nodeTokens : ℕ → List ℕ
  nodeTokenIndex : ℕ → ℕ → ℕ
  isOperatorFeeClaimedForEpoch : ℕ → ℕ → Bool
  netNodeEpochRewards : ℕ → ℕ → ℕ
  nodeOperatorFeeBalance : ℕ → ℕ
  operatorFeeWithdrawals : ℕ → StakeWithdrawalRequest

/-- `stillBoosted`: the boost of a position with this expiry is on at `tsNow`. -/
def stillBoosted (expiryTs tsNow : ℕ) : Prop := expiryTs ≠ 0 ∧ tsNow < expiryTs
  deriving Decidable

/-- `raw * multiplier18 / SCALE18`. -/
def boosted (raw multiplier18 : ℕ) : ℕ := raw * multiplier18 / SCALE18

/-- `raw * (multiplier18 - SCALE18) / SCALE18`. -/
def boost (raw multiplier18 : ℕ) : ℕ := raw * (multiplier18 - SCALE18) / SCALE18

def effectiveNow (raw multiplier18 expiryTs tsNow : ℕ) : ℕ :=
  if stillBoosted expiryTs tsNow then boosted raw multiplier18 else raw

namespace ConvictionStakingStorage

variable (s : ConvictionStakingStorage)

/-! ## Tiers -/

def _tierDuration (lockTier : ℕ) : Tx ℕ := do
  require ((s.tiers lockTier).exists_ = true) .invalidTier
  pure (s.tiers lockTier).duration

def _tierMultiplier (lockTier : ℕ) : Tx ℕ := do
  require ((s.tiers lockTier).exists_ = true) .invalidTier
  pure (s.tiers lockTier).multiplier18

def _requireActiveTier (lockTier : ℕ) : Tx Unit := do
  require ((s.tiers lockTier).exists_ = true) .invalidTier
  require ((s.tiers lockTier).active = true) .tierInactive

def _addTierInternal (lockTier duration multiplier18 : ℕ) : ConvictionStakingStorage :=
  { s with
    tiers := update s.tiers lockTier
      { duration := duration, multiplier18 := multiplier18, active := true, exists_ := true }
    tierIds := s.tierIds ++ [lockTier] }

def addTier (lockTier duration multiplier18 : ℕ) : Tx ConvictionStakingStorage := do
  require ((s.tiers lockTier).exists_ = false) .tierExists
  (if lockTier = 0 then
    require (duration = 0 ∧ multiplier18 = SCALE18) .tierZeroMustBeRest
  else do
    require (duration > 0) .nonZeroTierNeedsDuration
    require (multiplier18 > SCALE18) .nonZeroTierNeedsBoost)
  pure (s._addTierInternal lockTier duration multiplier18)

def deactivateTier (lockTier : ℕ) : Tx ConvictionStakingStorage := do
  require ((s.tiers lockTier).exists_ = true) .invalidTier
  require ((s.tiers lockTier).active = true) .alreadyInactive
  pure { s with
    tiers := update s.tiers lockTier { s.tiers lockTier with active := false } }

/-- `1 days`. -/
def days : ℕ := 86400

/-- The storage after the first `initialize`: everything zero but the seeded tiers. -/
def _seedBaselineTiers : ConvictionStakingStorage :=
  let fresh : ConvictionStakingStorage :=
    { tiers := fun _ => ⟨0, 0, false, false⟩
      tierIds := []
      positions := fun _ => Position.zero
      ledger := fun _ => NodeLedger.empty
      totalStakeV10 := 0
      nodeTokens := fun _ => []
      nodeTokenIndex := fun _ _ => 0
      isOperatorFeeClaimedForEpoch := fun _ _ => false
      netNodeEpochRewards := fun _ _ => 0
      nodeOperatorFeeBalance := fun _ => 0
      operatorFeeWithdrawals := fun _ => ⟨0, 0, 0⟩ }
  ((((fresh._addTierInternal 0 0 SCALE18)._addTierInternal 1 (30 * days)
    (15 * SCALE18 / 10))._addTierInternal 3 (90 * days)
    (2 * SCALE18))._addTierInternal 6 (180 * days)
    (35 * SCALE18 / 10))._addTierInternal 12 (366 * days) (6 * SCALE18)

/-! ## Internal helpers -/

def _computeExpiryTimestamp (b : Block) (lockTier : ℕ) : Tx ℕ :=
  if lockTier = 0 then pure 0
  else do
    let duration ← s._tierDuration lockTier
    let exp ← addUint 256 b.timestamp duration
    require (exp ≤ 2 ^ 40 - 1) .expiryOverflow
    pure (uint40 exp)

def setLedger (identityId : ℕ) (l : NodeLedger) : ConvictionStakingStorage :=
  { s with ledger := update s.ledger identityId l }

def onLedger (identityId : ℕ) (f : NodeLedger → Tx NodeLedger) : Tx ConvictionStakingStorage := do
  let l ← f (s.ledger identityId)
  pure (s.setLedger identityId l)

def _settleNodeTo (identityId ts : ℕ) : Tx ConvictionStakingStorage :=
  s.onLedger identityId fun l => l._settleNodeTo ts

def _scheduleNodeExpiry (identityId ts drop : ℕ) : Tx ConvictionStakingStorage :=
  s.onLedger identityId fun l => l._scheduleNodeExpiry ts drop

def _cancelNodeExpiry (identityId ts drop : ℕ) : Tx ConvictionStakingStorage :=
  s.onLedger identityId fun l => l._cancelNodeExpiry ts drop

def _applyNodeStakeDelta (identityId : ℕ) (delta : ℤ) : Tx ConvictionStakingStorage :=
  s.onLedger identityId fun l => l._applyNodeStakeDelta delta

/-- `nodeStakeV10[identityId] += amount`. -/
def increaseNodeStake (identityId amount : ℕ) : Tx ConvictionStakingStorage :=
  s.onLedger identityId fun l => do
    let stake ← addUint 256 l.nodeStakeV10 amount
    pure { l with nodeStakeV10 := stake }

/-- `nodeStakeV10[identityId] -= amount`. -/
def decreaseNodeStake (identityId amount : ℕ) : Tx ConvictionStakingStorage :=
  s.onLedger identityId fun l => do
    let stake ← subUint l.nodeStakeV10 amount
    pure { l with nodeStakeV10 := stake }

def _increaseNodeStakeV10 (identityId amount : ℕ) : Tx ConvictionStakingStorage := do
  let s ← s.increaseNodeStake identityId amount
  let totalStakeV10 ← addUint 256 s.totalStakeV10 amount
  pure { s with totalStakeV10 := totalStakeV10 }

def _decreaseNodeStakeV10 (identityId amount : ℕ) : Tx ConvictionStakingStorage := do
  let s ← s.decreaseNodeStake identityId amount
  let totalStakeV10 ← subUint s.totalStakeV10 amount
  pure { s with totalStakeV10 := totalStakeV10 }

def _pushNodeToken (identityId tokenId : ℕ) : ConvictionStakingStorage :=
  { s with
    nodeTokenIndex :=
      store₂ s.nodeTokenIndex identityId tokenId (s.nodeTokens identityId).length
    nodeTokens :=
      update s.nodeTokens identityId (s.nodeTokens identityId ++ [tokenId]) }

/-- `_popNodeToken`: the last token moves into the free slot. -/
def _popNodeToken (identityId tokenId : ℕ) : Tx ConvictionStakingStorage := do
  let arr := s.nodeTokens identityId
  let idx := s.nodeTokenIndex identityId tokenId
  let last ← subUint arr.length 1
  let moved ← (if idx ≠ last then do
      let movedToken := arr.getD last 0
      -- `arr[idx] = movedToken` panics out of bounds
      require (idx < arr.length) .panic
      pure (arr.set idx movedToken, store₂ s.nodeTokenIndex identityId movedToken idx)
    else pure (arr, s.nodeTokenIndex))
  pure { s with
    nodeTokens := update s.nodeTokens identityId moved.1.dropLast
    nodeTokenIndex := store₂ moved.2 identityId tokenId 0 }

def setPosition (tokenId : ℕ) (p : Position) : ConvictionStakingStorage :=
  { s with positions := update s.positions tokenId p }

/-! ## Mutators -/

def settleNodeTo (identityId ts : ℕ) : Tx ConvictionStakingStorage :=
  s._settleNodeTo identityId ts

def settleNode (b : Block) (identityId : ℕ) : Tx ConvictionStakingStorage :=
  s._settleNodeTo identityId (uint40 b.timestamp)

def createPosition (c : Chronos) (b : Block)
    (tokenId identityId raw lockTier migrationEpoch : ℕ) : Tx ConvictionStakingStorage := do
  require (identityId ≠ 0) .zeroNode
  require ((s.positions tokenId).identityId = 0) .positionExists
  require (raw > 0) .zeroRaw
  (if migrationEpoch = 0 then s._requireActiveTier lockTier else pure ())
  let multiplier18 ← s._tierMultiplier lockTier
  let currentEpoch := c.getCurrentEpoch b
  require (currentEpoch ≥ 1) .preGenesisCreate
  let tsNow := uint40 b.timestamp
  let expiryTimestamp ← s._computeExpiryTimestamp b lockTier
  let s := s.setPosition tokenId
    { raw := raw
      lockTier := lockTier
      expiryTimestamp := expiryTimestamp
      identityId := identityId
      cumulativeRewardsClaimed := 0
      multiplier18 := multiplier18
      lastClaimedEpoch := uint32 (currentEpoch - 1)
      migrationEpoch := migrationEpoch }
  let s := s._pushNodeToken identityId tokenId
  let s ← s._increaseNodeStakeV10 identityId raw
  let s ← s._settleNodeTo identityId tsNow
  let s ← s._applyNodeStakeDelta identityId (boosted raw multiplier18)
  if lockTier > 0 ∧ multiplier18 > SCALE18 then
    s._scheduleNodeExpiry identityId expiryTimestamp (boost raw multiplier18)
  else pure s

def updateOnRedelegate (b : Block) (tokenId newIdentityId : ℕ) : Tx ConvictionStakingStorage := do
  require (newIdentityId ≠ 0) .zeroNode
  let pos := s.positions tokenId
  require (pos.identityId ≠ 0) .noPosition
  let oldIdentityId := pos.identityId
  require (oldIdentityId ≠ newIdentityId) .sameNode
  let tsNow := uint40 b.timestamp
  let expiryTs := pos.expiryTimestamp
  let effective := effectiveNow pos.raw pos.multiplier18 expiryTs tsNow
  let boost := if stillBoosted expiryTs tsNow ∧ pos.multiplier18 > SCALE18
    then boost pos.raw pos.multiplier18 else 0
  let s ← s._settleNodeTo oldIdentityId tsNow
  let s ← s._settleNodeTo newIdentityId tsNow
  -- the contribution leaves the old node and arrives on the new one, with its pending drop
  let s ← s._applyNodeStakeDelta oldIdentityId (-effective)
  let s ← (if boost ≠ 0 then s._cancelNodeExpiry oldIdentityId expiryTs boost else pure s)
  let s ← s._applyNodeStakeDelta newIdentityId effective
  let s ← (if boost ≠ 0 then s._scheduleNodeExpiry newIdentityId expiryTs boost else pure s)
  let s := s.setPosition tokenId { pos with identityId := newIdentityId }
  let s ← s._popNodeToken oldIdentityId tokenId
  let s := s._pushNodeToken newIdentityId tokenId
  let s ← s.decreaseNodeStake oldIdentityId pos.raw
  s.increaseNodeStake newIdentityId pos.raw

def createNewPositionFromExisting (b : Block)
    (oldTokenId newTokenId identityId newLockTier : ℕ) : Tx ConvictionStakingStorage := do
  require (identityId ≠ 0) .zeroNode
  require ((s.positions newTokenId).identityId = 0) .newTokenUsed
  require (oldTokenId ≠ newTokenId) .sameTokenId
  let old := s.positions oldTokenId
  require (old.identityId ≠ 0) .noPosition
  require (old.identityId = identityId) .identityMismatch
  let raw := old.raw
  require (raw > 0) .zeroRaw
  let newMultiplier18 ← s._tierMultiplier newLockTier
  let tsNow := uint40 b.timestamp
  let s ← s._settleNodeTo identityId tsNow
  -- the old contribution is unwound
  let s ← s._applyNodeStakeDelta identityId
    (-(effectiveNow raw old.multiplier18 old.expiryTimestamp tsNow))
  let s ← (if stillBoosted old.expiryTimestamp tsNow ∧ old.multiplier18 > SCALE18
    then s._cancelNodeExpiry identityId old.expiryTimestamp (boost raw old.multiplier18)
    else pure s)
  -- the new one starts now
  let newExpiryTs ← s._computeExpiryTimestamp b newLockTier
  let s ← s._applyNodeStakeDelta identityId (boosted raw newMultiplier18)
  let s ← (if newLockTier > 0 ∧ newMultiplier18 > SCALE18
    then s._scheduleNodeExpiry identityId newExpiryTs (boost raw newMultiplier18)
    else pure s)
  let s := s.setPosition newTokenId
    { raw := raw
      lockTier := newLockTier
      expiryTimestamp := newExpiryTs
      identityId := identityId
      cumulativeRewardsClaimed := old.cumulativeRewardsClaimed
      multiplier18 := newMultiplier18
      lastClaimedEpoch := old.lastClaimedEpoch
      migrationEpoch := old.migrationEpoch }
  let s := s.setPosition oldTokenId Position.zero
  let s ← s._popNodeToken identityId oldTokenId
  pure (s._pushNodeToken identityId newTokenId)

def setLastClaimedEpoch (tokenId epoch : ℕ) : Tx ConvictionStakingStorage := do
  require ((s.positions tokenId).identityId ≠ 0) .noPosition
  pure (s.setPosition tokenId { s.positions tokenId with lastClaimedEpoch := epoch })

def deletePosition (b : Block) (tokenId : ℕ) : Tx ConvictionStakingStorage := do
  let pos := s.positions tokenId
  require (pos.identityId ≠ 0) .noPosition
  let tsNow := uint40 b.timestamp
  let identityId := pos.identityId
  let expiryTs := pos.expiryTimestamp
  let s ← s._settleNodeTo identityId tsNow
  let s ← s._applyNodeStakeDelta identityId
    (-(effectiveNow pos.raw pos.multiplier18 expiryTs tsNow))
  let s ← (if stillBoosted expiryTs tsNow ∧ pos.multiplier18 > SCALE18
    then s._cancelNodeExpiry identityId expiryTs (boost pos.raw pos.multiplier18)
    else pure s)
  let s ← s._popNodeToken identityId tokenId
  let s ← (if pos.raw > 0 then s._decreaseNodeStakeV10 identityId pos.raw else pure s)
  pure (s.setPosition tokenId Position.zero)

def decreaseRaw (b : Block) (tokenId amount : ℕ) : Tx ConvictionStakingStorage := do
  let pos := s.positions tokenId
  require (pos.identityId ≠ 0) .noPosition
  require (pos.raw ≥ amount) .insufficientRaw
  if amount = 0 then pure s
  else do
    let tsNow := uint40 b.timestamp
    let identityId := pos.identityId
    let expiryTs := pos.expiryTimestamp
    let s ← s._settleNodeTo identityId tsNow
    let s ← s._applyNodeStakeDelta identityId
      (-(effectiveNow amount pos.multiplier18 expiryTs tsNow))
    let s ← (if stillBoosted expiryTs tsNow ∧ pos.multiplier18 > SCALE18
      then s._cancelNodeExpiry identityId expiryTs (boost amount pos.multiplier18)
      else pure s)
    let s := s.setPosition tokenId { pos with raw := pos.raw - amount }
    s._decreaseNodeStakeV10 identityId amount

def increaseRaw (b : Block) (tokenId amount : ℕ) : Tx ConvictionStakingStorage := do
  let pos := s.positions tokenId
  require (pos.identityId ≠ 0) .noPosition
  if amount = 0 then pure s
  else do
    require (pos.raw + amount ≤ 2 ^ 96 - 1) .rawOverflow
    let tsNow := uint40 b.timestamp
    let identityId := pos.identityId
    let expiryTs := pos.expiryTimestamp
    let s ← s._settleNodeTo identityId tsNow
    let s ← s._applyNodeStakeDelta identityId (effectiveNow amount pos.multiplier18 expiryTs tsNow)
    let s ← (if stillBoosted expiryTs tsNow ∧ pos.multiplier18 > SCALE18
      then s._scheduleNodeExpiry identityId expiryTs (boost amount pos.multiplier18)
      else pure s)
    let s := s.setPosition tokenId { pos with raw := pos.raw + amount }
    s._increaseNodeStakeV10 identityId amount

def addCumulativeRewardsClaimed (tokenId amount : ℕ) : Tx ConvictionStakingStorage := do
  let pos := s.positions tokenId
  require (pos.identityId ≠ 0) .noPosition
  if amount = 0 then pure s
  else do
    let newTotal ← addUint 96 pos.cumulativeRewardsClaimed amount
    require (newTotal ≥ pos.cumulativeRewardsClaimed) .crcOverflow
    pure (s.setPosition tokenId { pos with cumulativeRewardsClaimed := newTotal })

/-! ## Operator fees -/

def setIsOperatorFeeClaimedForEpoch (identityId epoch : ℕ) (isClaimed : Bool) :
    ConvictionStakingStorage :=
  { s with
    isOperatorFeeClaimedForEpoch :=
      store₂ s.isOperatorFeeClaimedForEpoch identityId epoch isClaimed }

def setNetNodeEpochRewards (identityId epoch amount : ℕ) : ConvictionStakingStorage :=
  { s with netNodeEpochRewards := store₂ s.netNodeEpochRewards identityId epoch amount }

def setOperatorFeeBalance (identityId newBalance : ℕ) : ConvictionStakingStorage :=
  { s with
    nodeOperatorFeeBalance := update s.nodeOperatorFeeBalance identityId newBalance }

def increaseOperatorFeeBalance (identityId addedFee : ℕ) : Tx ConvictionStakingStorage := do
  let newBalance ← addUint 96 (s.nodeOperatorFeeBalance identityId) addedFee
  pure (s.setOperatorFeeBalance identityId newBalance)

def createOperatorFeeWithdrawalRequest (identityId amount indexedOutAmount timestamp : ℕ) :
    ConvictionStakingStorage :=
  { s with
    operatorFeeWithdrawals :=
      update s.operatorFeeWithdrawals identityId ⟨amount, indexedOutAmount, timestamp⟩ }

def deleteOperatorFeeWithdrawalRequest (identityId : ℕ) : ConvictionStakingStorage :=
  { s with
    operatorFeeWithdrawals := update s.operatorFeeWithdrawals identityId ⟨0, 0, 0⟩ }

/-! ## Reads -/

def getNodeEffectiveStake (b : Block) (identityId : ℕ) : Tx ℕ :=
  (s.ledger identityId)._simulateNodeEffectiveStakeAt (uint40 b.timestamp)

def getNodeStakeV10 (identityId : ℕ) : ℕ := (s.ledger identityId).nodeStakeV10

end ConvictionStakingStorage

end Dkg
