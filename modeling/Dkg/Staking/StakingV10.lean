import Dkg.Staking.World

/-! # StakingV10

The entry points of `StakingV10.sol`, called by the conviction NFT, and the operator-fee
withdrawals. Delegators earn score per unit of effective stake; `_prepareForStakeChangeV10`
settles a position's score of the current epoch before its stake changes, and `_claim` turns the
scores of the past epochs into rewards.

`_claim` also returns what it did, epoch by epoch (`Claimed`); the contract emits only the total.
A raw stake times a multiplier cannot overflow `uint256`. `Ask.recalculateActiveSet` writes nothing
that is read here.
-/

namespace Dkg

/-- The split of an epoch's gross node reward by the fee entry that was used. -/
structure FeeSplit where
  entry : OperatorFee
  (gross fee net : ℕ)
  deriving DecidableEq, Repr

/-- One rewarded epoch of a claim. -/
structure ClaimLine where
  (epoch delegatorScore nodeScore net reward : ℕ)
  split : Option FeeSplit
  deriving DecidableEq, Repr

/-- A claim: its window, and the rewarded epochs in it. -/
structure Claimed where
  (tokenId identityId fromEpoch toEpoch : ℕ)
  lines : List ClaimLine
  deriving DecidableEq, Repr

/-- The variables of the loop of `_claim`, with the storage it writes. -/
structure ClaimState where
  css : ConvictionStakingStorage
  rewardTotal : ℕ
  lines : List ClaimLine

def EPOCH_POOL_INDEX : ℕ := 1

/-- `eff * (upper - lower) / SCALE18`. -/
def scoreBetween (eff lower upper : ℕ) : Tx ℕ := do
  let diff ← subUint upper lower
  let product ← mulUint 256 eff diff
  pure (product / SCALE18)

def _delegatorIncrementForEpoch (rss : RandomSamplingStorage)
    (epoch identityId current lastSettled effBoosted effBase expiryTs expiryEpoch : ℕ) : Tx ℕ :=
  if current ≤ lastSettled then pure 0
  else if expiryTs = 0 ∨ epoch < expiryEpoch then
    scoreBetween (if expiryTs = 0 then effBase else effBoosted) lastSettled current
  else if epoch > expiryEpoch then scoreBetween effBase lastSettled current
  else if effBoosted = effBase then scoreBetween effBase lastSettled current
  else
    -- the boost ends inside this epoch
    let scoreAtExpiry := rss.findScorePerStakeAt identityId epoch (uint40 expiryTs)
    if scoreAtExpiry > lastSettled then do
      let boostedPart ← scoreBetween effBoosted lastSettled scoreAtExpiry
      let basePart ← scoreBetween effBase scoreAtExpiry current
      addUint 256 boostedPart basePart
    else scoreBetween effBase lastSettled current

/-- `epochReward`: the delegator's part of the node's net reward. -/
def epochReward (delegatorScore18 netNodeRewards nodeScore18 : ℕ) : Tx ℕ :=
  if delegatorScore18 > 0 then do
    let product ← mulUint 256 delegatorScore18 netNodeRewards
    divUint product nodeScore18
  else pure 0

namespace Position

/-- `expiryEpoch`: the epoch of the expiry, `0` without one. -/
def expiryEpoch (c : Chronos) (pos : Position) : ℕ :=
  if pos.expiryTimestamp = 0 then 0 else c.epochAtTimestamp pos.expiryTimestamp

/-- `_delegatorIncrementForEpoch` with the arguments both callers derive from the position. -/
def scoreIncrement (c : Chronos) (rss : RandomSamplingStorage) (pos : Position)
    (epoch identityId current lastSettled : ℕ) : Tx ℕ :=
  _delegatorIncrementForEpoch rss epoch identityId current lastSettled
    (boosted pos.raw pos.multiplier18) pos.raw pos.expiryTimestamp (pos.expiryEpoch c)

def claimFromEpoch (pos : Position) : ℕ :=
  if pos.migrationEpoch ≠ 0 ∧ pos.migrationEpoch > pos.lastClaimedEpoch + 1
    then pos.migrationEpoch else pos.lastClaimedEpoch + 1

end Position

namespace World

variable (c : Chronos) (b : Block) (w : World)

def _requireFullyClaimed (pos : Position) : Tx Unit :=
  if c.getCurrentEpoch b ≤ 1 then pure ()
  else require (c.getCurrentEpoch b - 1 ≤ pos.lastClaimedEpoch) .unclaimedEpochs

def _prepareForStakeChangeV10 (epoch tokenId identityId : ℕ) : Call World := do
  let pos := w.css.positions tokenId
  let nodeScorePerStake36 := w.rss.getEpochLastScorePerStake identityId epoch
  let lastSettled :=
    w.rss.getDelegatorLastSettledNodeEpochScorePerStake epoch identityId tokenId
  if nodeScorePerStake36 = lastSettled then pure w
  else do
    let scoreEarned18 ← inside .stakingV10 (if pos.identityId = identityId then
        pos.scoreIncrement c w.rss epoch identityId nodeScorePerStake36 lastSettled
      else pure 0)
    let rss ← inside .randomSamplingStorage (if scoreEarned18 > 0 then
        w.rss.addToEpochNodeDelegatorScore epoch identityId tokenId scoreEarned18
      else pure w.rss)
    pure { w with
      rss := rss.setDelegatorLastSettledNodeEpochScorePerStake epoch identityId tokenId
        nodeScorePerStake36 }

/-! ## Staking and moving a position -/

def stake (staker tokenId identityId amount lockTier : ℕ) : Call World := do
  inside .stakingV10 (require (amount ≠ 0) .zeroAmount)
  inside .stakingV10 (require (w.profiles.profileExists identityId = true) .profileDoesNotExist)
  let totalNodeStakeAfter ← inside .stakingV10
    (addUint 256 (w.css.getNodeStakeV10 identityId) amount)
  inside .stakingV10 (require (totalNodeStakeAfter ≤ w.params.maximumStake) .maxStakeExceeded)
  let w ← w._prepareForStakeChangeV10 c (c.getCurrentEpoch b) tokenId identityId
  let trac ← inside .token (w.trac.transferFromToVault staker amount)
  let css ← inside .convictionStakingStorage
    (w.css.createPosition c b tokenId identityId amount lockTier 0)
  pure (World.insertNodeAt { w with trac := trac, css := css } identityId totalNodeStakeAfter)

def relock (oldTokenId newTokenId newLockTier : ℕ) : Call World := do
  let pos := w.css.positions oldTokenId
  inside .stakingV10 (require (pos.identityId ≠ 0) .positionNotFound)
  inside .stakingV10 (_requireFullyClaimed c b pos)
  inside .stakingV10
    (require (pos.expiryTimestamp = 0 ∨ pos.expiryTimestamp ≤ b.timestamp) .lockStillActive)
  let w ← w._prepareForStakeChangeV10 c (c.getCurrentEpoch b) oldTokenId pos.identityId
  let css ← inside .convictionStakingStorage
    (w.css.createNewPositionFromExisting b oldTokenId newTokenId pos.identityId newLockTier)
  pure { w with css := css }

def redelegate (tokenId newIdentityId : ℕ) : Call World := do
  let pos := w.css.positions tokenId
  inside .stakingV10 (require (pos.identityId ≠ 0) .positionNotFound)
  inside .stakingV10 (_requireFullyClaimed c b pos)
  inside .stakingV10 (require (pos.identityId ≠ newIdentityId) .sameIdentity)
  inside .stakingV10 (require (w.profiles.profileExists newIdentityId = true) .profileDoesNotExist)
  inside .stakingV10 (require (pos.raw > 0) .noRaw)
  let newNodeStakeAfter ← inside .stakingV10
    (addUint 256 (w.css.getNodeStakeV10 newIdentityId) pos.raw)
  inside .stakingV10 (require (newNodeStakeAfter ≤ w.params.maximumStake) .maxStakeExceeded)
  let w ← w._prepareForStakeChangeV10 c (c.getCurrentEpoch b) tokenId pos.identityId
  let w ← w._prepareForStakeChangeV10 c (c.getCurrentEpoch b) tokenId newIdentityId
  let css ← inside .convictionStakingStorage (w.css.updateOnRedelegate b tokenId newIdentityId)
  pure (World.insertNodeAt
    (World.removeNodeAt { w with css := css } pos.identityId (css.getNodeStakeV10 pos.identityId))
    newIdentityId newNodeStakeAfter)

/-! ## Claiming -/

/-- The net reward of a node's epoch: read when the operator fee was taken before, else the fee
is taken now. -/
def netNodeRewards (css : ConvictionStakingStorage) (identityId e nodeScore18 : ℕ) :
    Call (ConvictionStakingStorage × ℕ × Option FeeSplit) :=
  if css.isOperatorFeeClaimedForEpoch identityId e = true then
    pure (css, css.netNodeEpochRewards identityId e, none)
  else
    let allNodesScore18 := w.rss.getAllNodesEpochScore e
    if allNodesScore18 > 0 then do
      let pool ← inside .epochStorage (w.es.getEpochPool EPOCH_POOL_INDEX e)
      let poolScore ← inside .stakingV10 (mulUint 256 pool nodeScore18)
      let grossNodeRewards := poolScore / allNodesScore18
      let entry := w.profiles.getLatestOperatorFee identityId
      let weighted ← inside .stakingV10 (mulUint 256 grossNodeRewards entry.feePercentage)
      let fee ← inside .stakingV10 (divUint weighted w.params.maxOperatorFee)
      let operatorFeeAmount := uint96 fee
      let net ← inside .stakingV10 (subUint grossNodeRewards operatorFeeAmount)
      let css := css.setIsOperatorFeeClaimedForEpoch identityId e true
      let css := css.setNetNodeEpochRewards identityId e net
      let css ← inside .convictionStakingStorage
        (css.increaseOperatorFeeBalance identityId operatorFeeAmount)
      pure (css, net, some ⟨entry, grossNodeRewards, operatorFeeAmount, net⟩)
    else pure (css, 0, none)

/-- One iteration of the loop of `_claim`, for the epoch `e`. -/
def claimEpoch (tokenId : ℕ) (pos : Position) (e : ℕ) (st : ClaimState) : Call ClaimState :=
  let scorePerStake36 := w.rss.getEpochLastScorePerStake pos.identityId e
  -- no proof of this node in this epoch
  if scorePerStake36 = 0 then pure st
  else do
    let settledDelegatorScore18 := w.rss.getEpochNodeDelegatorScore e pos.identityId tokenId
    let lastSettledIndex36 :=
      w.rss.getDelegatorLastSettledNodeEpochScorePerStake e pos.identityId tokenId
    let unsettledDelegatorScore18 ← inside .stakingV10
      (pos.scoreIncrement c w.rss e pos.identityId scorePerStake36 lastSettledIndex36)
    let delegatorScore18 ← inside .stakingV10
      (addUint 256 settledDelegatorScore18 unsettledDelegatorScore18)
    let nodeScore18 := w.rss.getNodeEpochScore e pos.identityId
    if nodeScore18 > 0 then do
      let split ← w.netNodeRewards st.css pos.identityId e nodeScore18
      let reward ← inside .stakingV10 (epochReward delegatorScore18 split.2.1 nodeScore18)
      let rewardTotal ← inside .stakingV10 (addUint 256 st.rewardTotal reward)
      pure {
        css := split.1
        rewardTotal := rewardTotal
        lines := st.lines ++
          [⟨e, delegatorScore18, nodeScore18, split.2.1, reward, split.2.2⟩] }
    else pure st

/-- The loop of `_claim`: `k` epochs from `e` on. -/
def claimLoop (tokenId : ℕ) (pos : Position) : ℕ → ℕ → ClaimState → Call ClaimState
  | 0, _, st => pure st
  | k + 1, e, st => do
      let st ← w.claimEpoch c tokenId pos e st
      claimLoop tokenId pos k (e + 1) st

/-- The end of `_claim`: a reward is compounded into the position, and the cursor advances. -/
def compound (tokenId identityId claimToEpoch rewardTotal : ℕ) : Call World :=
  if rewardTotal = 0 then do
    let css ← inside .convictionStakingStorage
      (w.css.setLastClaimedEpoch tokenId (uint32 claimToEpoch))
    pure { w with css := css }
  else do
    inside .stakingV10 (require (rewardTotal ≤ 2 ^ 96 - 1) .rewardOverflow)
    let css ← inside .convictionStakingStorage (w.css.increaseRaw b tokenId rewardTotal)
    let css ← inside .convictionStakingStorage (css.addCumulativeRewardsClaimed tokenId rewardTotal)
    let w := World.insertNodeAt { w with css := css } identityId (css.getNodeStakeV10 identityId)
    let css ← inside .convictionStakingStorage
      (w.css.setLastClaimedEpoch tokenId (uint32 claimToEpoch))
    pure { w with css := css }

def _claim (tokenId : ℕ) : Call (World × Option Claimed) := do
  let pos := w.css.positions tokenId
  inside .stakingV10 (require (pos.identityId ≠ 0) .positionNotFound)
  let currentEpoch := c.getCurrentEpoch b
  if currentEpoch ≤ 1 then pure (w, none)
  else
    let claimFromEpoch := pos.claimFromEpoch
    let claimToEpoch := currentEpoch - 1
    if claimFromEpoch > claimToEpoch then pure (w, none)
    else do
      let w ← w._prepareForStakeChangeV10 c currentEpoch tokenId pos.identityId
      let st ← w.claimLoop c tokenId pos (claimToEpoch + 1 - claimFromEpoch) claimFromEpoch
        ⟨w.css, 0, []⟩
      let w ← World.compound b { w with css := st.css } tokenId pos.identityId claimToEpoch
        st.rewardTotal
      pure (w, some ⟨tokenId, pos.identityId, claimFromEpoch, claimToEpoch, st.lines⟩)

def withdraw (staker tokenId : ℕ) : Call (World × Option Claimed) := do
  let pos := w.css.positions tokenId
  inside .stakingV10 (require (pos.identityId ≠ 0) .positionNotFound)
  inside .stakingV10
    (require (pos.expiryTimestamp = 0 ∨ pos.expiryTimestamp ≤ b.timestamp) .lockStillActive)
  let out ← w._claim c b tokenId
  let w := out.1
  -- the claim has compounded into the raw stake
  let pos := w.css.positions tokenId
  inside .stakingV10 (require (pos.raw > 0) .noRaw)
  let css ← inside .convictionStakingStorage (w.css.deletePosition b tokenId)
  let trac ← inside .token (w.trac.transferStake staker pos.raw)
  pure (World.removeNodeAt { w with css := css, trac := trac } pos.identityId
    (css.getNodeStakeV10 pos.identityId), out.2)

/-! ## V8 migration -/

def _convertToNFT (delegator tokenId identityId lockTier : ℕ) : Call World := do
  let currentEpoch := c.getCurrentEpoch b
  let stakeBase := w.v8.stakeBase identityId delegator
  let pending := w.v8.withdrawalAmount identityId delegator
  let total ← inside .stakingV10 (addUint 96 stakeBase pending)
  inside .stakingV10 (require (total ≠ 0) .noV8StakeToConvert)
  let v8 ← (if stakeBase > 0 then do
      let v8 := w.v8.setDelegatorStakeBase identityId delegator 0
      let v8 ← inside .stakingStorage (v8.decreaseNodeStake identityId stakeBase)
      inside .stakingStorage (v8.decreaseTotalStake stakeBase)
    else pure w.v8)
  let v8 := if pending > 0 then v8.deleteDelegatorWithdrawalRequest identityId delegator else v8
  let w ← World._prepareForStakeChangeV10 c { w with v8 := v8 } currentEpoch tokenId identityId
  let v10NodeAfter ← inside .stakingV10 (addUint 256 (w.css.getNodeStakeV10 identityId) total)
  inside .stakingV10 (require (v10NodeAfter ≤ w.params.maximumStake) .maxStakeExceeded)
  let css ← inside .convictionStakingStorage
    (w.css.createPosition c b tokenId identityId total lockTier (uint32 currentEpoch))
  pure (World.insertNodeAt { w with css := css } identityId (css.getNodeStakeV10 identityId))

/-! ## Operator-fee withdrawals -/

def requestOperatorFeeWithdrawal (sender identityId withdrawalAmount : ℕ) : Call World := do
  inside .stakingV10 (w.onlyAdmin sender identityId)
  inside .stakingV10 (require (withdrawalAmount ≠ 0) .zeroTokenAmount)
  let existingRequestAmount := (w.css.operatorFeeWithdrawals identityId).amount
  let currentOperatorFeeBalance ← inside .stakingV10 (if existingRequestAmount > 0 then
      addUint 96 (w.css.nodeOperatorFeeBalance identityId) existingRequestAmount
    else pure (w.css.nodeOperatorFeeBalance identityId))
  let totalRequestAmount ← inside .stakingV10 (addUint 96 existingRequestAmount withdrawalAmount)
  inside .stakingV10 (require (totalRequestAmount ≤ currentOperatorFeeBalance)
    .amountExceedsOperatorFeeBalance)
  let release ← inside .stakingV10 (addUint 256 b.timestamp w.params.stakeWithdrawalDelay)
  let css := w.css.setOperatorFeeBalance identityId (currentOperatorFeeBalance - totalRequestAmount)
  pure { w with
    css := css.createOperatorFeeWithdrawalRequest identityId totalRequestAmount 0 release }

def finalizeOperatorFeeWithdrawal (sender identityId : ℕ) : Call World := do
  inside .stakingV10 (w.onlyAdmin sender identityId)
  let request := w.css.operatorFeeWithdrawals identityId
  inside .stakingV10 (require (request.amount ≠ 0) .withdrawalWasntInitiated)
  inside .stakingV10 (require (request.timestamp ≤ b.timestamp) .withdrawalPeriodPending)
  let css := w.css.deleteOperatorFeeWithdrawalRequest identityId
  let trac ← inside .token (w.trac.transferStake sender request.amount)
  pure { w with css := css, trac := trac }

def cancelOperatorFeeWithdrawal (sender identityId : ℕ) : Call World := do
  inside .stakingV10 (w.onlyAdmin sender identityId)
  let amount := (w.css.operatorFeeWithdrawals identityId).amount
  inside .stakingV10 (require (amount ≠ 0) .withdrawalWasntInitiated)
  let css := w.css.deleteOperatorFeeWithdrawalRequest identityId
  let css ← inside .convictionStakingStorage (css.increaseOperatorFeeBalance identityId amount)
  pure { w with css := css }

end World

end Dkg
