import Dkg.EpochStorage.History
import Dkg.Staking.StakingV10

/-! # The staking system and its runs

The remaining entry points: accepted proofs (`RandomSampling.submitProof` from the acceptance on),
operator-fee changes (`Profile.sol`), the conviction NFT through which positions are handled
(`DKGStakingConvictionNFT.sol`), and deposits into the epoch pools. An `Op` is one transaction;
a run is a sequence of successful transactions at non-decreasing timestamps. Beside the storage a
run keeps the log of what the transactions did.

The environment moves too: governance sets the parameters, and the market data of the node score
change at any time.
-/

namespace Dkg

open Lib

namespace World

variable (c : Chronos) (b : Block) (w : World)

/-! ## Proofs -/

/-- The sum of a per-epoch value over the four epochs up to `currentEpoch`. -/
def recentValue (value : ℕ → ℕ) (currentEpoch : ℕ) : ℕ :=
  let startEpoch := if currentEpoch ≥ 3 then currentEpoch - 3 else 0
  ((List.range (currentEpoch + 1 - startEpoch)).map fun i => value (startEpoch + i)).sum

/-- `_calculateNodeScore`; `Math.sqrt` rounds down. -/
def _calculateNodeScore (identityId nodeEffectiveStake : ℕ) : Tx ℕ := do
  let currentEpoch := c.getCurrentEpoch b
  -- stake factor
  let stakeCap := w.params.maximumStake
  let nodeEffectiveStake := if nodeEffectiveStake > stakeCap then stakeCap else nodeEffectiveStake
  let stakeRatio18 ← divUint (nodeEffectiveStake * SCALE18) stakeCap
  let stakeFactor18 := Nat.sqrt (stakeRatio18 * SCALE18)
  -- publishing factor
  let nodeKnowledgeValue :=
    recentValue (w.market.nodeEpochProducedKnowledgeValue identityId) currentEpoch
  let totalKnowledgeValue := recentValue w.market.epochProducedKnowledgeValue currentEpoch
  let publishingFactor18 := if totalKnowledgeValue > 0
    then nodeKnowledgeValue * SCALE18 / totalKnowledgeValue else 0
  -- ask alignment factor
  let nodeAsk := w.market.ask identityId
  let networkPrice := w.market.pricePerKbEpoch
  let deviation := if nodeAsk > networkPrice then nodeAsk - networkPrice
    else networkPrice - nodeAsk
  let deviationRatio18 := deviation * SCALE18 / networkPrice
  let askAlignmentFactor18 := if networkPrice > 0 then
    (if deviationRatio18 ≥ SCALE18 then 0 else SCALE18 - deviationRatio18) else 0
  let baselineComponent18 := 2 * SCALE18 / 1000
  let publishingComponent18 := 86 * publishingFactor18 / 100
  let askPublishingComponent18 :=
    60 * askAlignmentFactor18 * publishingFactor18 / (100 * SCALE18)
  let innerScore18 := baselineComponent18 + publishingComponent18 + askPublishingComponent18
  pure (stakeFactor18 * innerScore18 / SCALE18)

/-- `submitProof` once the Merkle proof of the node's open challenge has been accepted. -/
def submitProof (identityId activeProofPeriodStartBlock : ℕ) : Call World := do
  inside .randomSampling (require (w.profiles.profileExists identityId = true) .profileDoesNotExist)
  inside .randomSampling (require (w.shardingTable identityId = true) .nodeDoesntExist)
  let epoch := c.getCurrentEpoch b
  let rss ← inside .randomSamplingStorage
    (w.rss.incrementEpochNodeValidProofsCount epoch identityId)
  let tsNow := uint40 b.timestamp
  let css ← inside .convictionStakingStorage (w.css.settleNodeTo identityId tsNow)
  let effectiveNodeStake := (css.ledger identityId).runningNodeEffectiveStake
  let score18 ← inside .randomSampling (w._calculateNodeScore c b identityId effectiveNodeStake)
  let rss ← inside .randomSamplingStorage
    (rss.addToNodeEpochProofPeriodScore epoch activeProofPeriodStartBlock identityId score18)
  let rss ← inside .randomSamplingStorage (rss.addToNodeEpochScore epoch identityId score18)
  let rss ← inside .randomSamplingStorage (rss.addToAllNodesEpochScore epoch score18)
  let rss ← (if effectiveNodeStake > 0 then do
      let scaled ← inside .randomSampling (mulUint 256 score18 SCALE18)
      let deltaScorePerStake36 := scaled / effectiveNodeStake
      let newLast ← inside .randomSampling
        (addUint 256 (rss.getEpochLastScorePerStake identityId epoch) deltaScorePerStake36)
      inside .randomSamplingStorage (rss.appendCheckpoint identityId epoch tsNow newLast)
    else pure rss)
  pure { w with rss := rss, css := css }

/-! ## Profiles -/

/-- `createProfile`, with the identity the caller gets. -/
def createProfile (adminWallet initialOperatorFee : ℕ) : Call World := do
  inside .profile (require (initialOperatorFee ≤ w.params.maxOperatorFee) .operatorFeeOutOfRange)
  let identityId ← inside .identity (addUint 72 w.lastIdentityId 1)
  pure { w with
    lastIdentityId := identityId
    adminKey := store₂ w.adminKey identityId adminWallet true
    profiles := w.profiles.createProfile b identityId initialOperatorFee }

def setAdminKey (sender identityId key : ℕ) (on : Bool) : Call World := do
  inside .identity (w.onlyAdmin sender identityId)
  pure { w with adminKey := store₂ w.adminKey identityId key on }

/-- `effectiveStart`: the next epoch, or the one after it in the second half of an epoch. -/
def feeEffectiveStart : ℕ :=
  let epochStart := c.timestampForEpoch (c.getCurrentEpoch b)
  let nextEpochStart := epochStart + c.epochLength
  if b.timestamp ≤ epochStart + c.epochLength / 2 then nextEpochStart
  else nextEpochStart + c.epochLength

def updateOperatorFee (sender identityId newOperatorFee : ℕ) : Call World := do
  inside .profile (w.onlyAdmin sender identityId)
  let currentEpoch := c.getCurrentEpoch b
  inside .profile (if currentEpoch > 1 ∧ currentEpoch > w.params.v81ReleaseEpoch then
      require (w.css.isOperatorFeeClaimedForEpoch identityId (currentEpoch - 1) = true)
        .operatorFeeNotClaimed
    else pure ())
  inside .profile (require (newOperatorFee ≤ w.params.maxOperatorFee) .invalidOperatorFee)
  let profiles ← inside .profile
    (if w.profiles.isOperatorFeeChangePending b identityId = true then
      w.profiles.replacePendingOperatorFee b identityId newOperatorFee (feeEffectiveStart c b)
    else pure (w.profiles.addOperatorFee identityId newOperatorFee (feeEffectiveStart c b)))
  pure { w with profiles := profiles }

/-! ## The conviction NFT -/

/-- `_convictionMultiplier` as a guard. -/
def requireTier (lockTier : ℕ) : Call Unit :=
  inside .convictionNFT (require ((w.css.tiers lockTier).exists_ = true) .invalidLockTier)

/-- `ownerOf(tokenId) != msg.sender`. -/
def requireOwner (sender tokenId : ℕ) : Call Unit := do
  let owner ← inside .convictionNFT (w.nft.ownerOf tokenId)
  inside .convictionNFT (require (owner = sender) .notPositionOwner)

/-- `tokenId = ++nextTokenId; _mint(owner, tokenId)`. -/
def mintNext (owner : ℕ) : Call World := do
  let nft ← inside .convictionNFT w.nft.allocate
  let nft ← inside .convictionNFT (nft._mint owner nft.nextTokenId)
  pure { w with nft := nft }

def createConviction (sender identityId amount lockTier : ℕ) : Call World := do
  inside .convictionNFT (require (identityId ≠ 0) .invalidIdentityId)
  inside .convictionNFT (require (amount ≠ 0) .zeroAmount)
  w.requireTier lockTier
  let w ← w.mintNext sender
  w.stake c b sender w.nft.nextTokenId identityId amount lockTier

/-- `relock` of the NFT: the new token is minted, the old one burned. -/
def relockPosition (sender oldTokenId newLockTier : ℕ) : Call World := do
  w.requireOwner sender oldTokenId
  w.requireTier newLockTier
  let w ← w.mintNext sender
  let w ← w.relock c b oldTokenId w.nft.nextTokenId newLockTier
  let nft ← inside .convictionNFT (w.nft._burn oldTokenId)
  pure { w with nft := nft }

/-- `redelegate` of the NFT. -/
def redelegatePosition (sender tokenId newIdentityId : ℕ) : Call World := do
  w.requireOwner sender tokenId
  inside .convictionNFT (require (newIdentityId ≠ 0) .invalidIdentityId)
  w.redelegate c b tokenId newIdentityId

/-- `withdraw` of the NFT. -/
def withdrawPosition (sender tokenId : ℕ) : Call (World × Option Claimed) := do
  w.requireOwner sender tokenId
  let out ← w.withdraw c b sender tokenId
  let nft ← inside .convictionNFT (out.1.nft._burn tokenId)
  pure ({ out.1 with nft := nft }, out.2)

/-- `claim` of the NFT. -/
def claimPosition (sender tokenId : ℕ) : Call (World × Option Claimed) := do
  w.requireOwner sender tokenId
  w._claim c b tokenId

/-- `selfMigrateV8` and `adminMigrateV8`: the delegator gets the new token. -/
def migrateV8 (delegator identityId lockTier : ℕ) : Call World := do
  inside .convictionNFT (require (identityId ≠ 0) .invalidIdentityId)
  w.requireTier lockTier
  let w ← w.mintNext delegator
  w._convertToNFT c b delegator w.nft.nextTokenId identityId lockTier

/-- `transferFrom` of the NFT. -/
def transferPosition (sender receiver tokenId : ℕ) : Call World := do
  let nft ← inside .convictionNFT (w.nft.transferFrom sender receiver tokenId)
  pure { w with nft := nft }

/-! ## Deposits and tiers -/

/-- Tokens for the epochs `startEpoch..endEpoch`, paid into the vault. -/
def depositTokens (payer startEpoch endEpoch tokenAmount : ℕ) : Call World := do
  let trac ← inside .token (w.trac.transferFromToVault payer tokenAmount)
  let es ← inside .epochStorage
    (w.es.addTokensToEpochRange c b EPOCH_POOL_INDEX startEpoch endEpoch tokenAmount)
  pure { w with trac := trac, es := es }

def addTier (lockTier duration multiplier18 : ℕ) : Call World := do
  let css ← inside .convictionStakingStorage (w.css.addTier lockTier duration multiplier18)
  pure { w with css := css }

def deactivateTier (lockTier : ℕ) : Call World := do
  let css ← inside .convictionStakingStorage (w.css.deactivateTier lockTier)
  pure { w with css := css }

end World

/-- A transaction. -/
inductive Op
  | setParameters (params : Parameters)
  | setMarket (market : Market)
  | setAdminKey (sender identityId key : ℕ) (on : Bool)
  | addTier (lockTier duration multiplier18 : ℕ)
  | deactivateTier (lockTier : ℕ)
  | createProfile (adminWallet initialOperatorFee : ℕ)
  | updateOperatorFee (sender identityId newOperatorFee : ℕ)
  | depositTokens (payer startEpoch endEpoch tokenAmount : ℕ)
  | submitProof (identityId activeProofPeriodStartBlock : ℕ)
  | createConviction (sender identityId amount lockTier : ℕ)
  | relock (sender oldTokenId newLockTier : ℕ)
  | redelegate (sender tokenId newIdentityId : ℕ)
  | withdraw (sender tokenId : ℕ)
  | claim (sender tokenId : ℕ)
  | migrateV8 (delegator identityId lockTier : ℕ)
  | requestOperatorFeeWithdrawal (sender identityId withdrawalAmount : ℕ)
  | finalizeOperatorFeeWithdrawal (sender identityId : ℕ)
  | cancelOperatorFeeWithdrawal (sender identityId : ℕ)
  | transferPosition (sender receiver tokenId : ℕ)

/-- What a transaction did. -/
inductive Event
  | claimed (record : Claimed)
  | relocked (oldTokenId newTokenId : ℕ)
  | profileCreated (identityId : ℕ) (entry : OperatorFee)
  | feeUpdated (identityId : ℕ) (entry : OperatorFee)
  | deposited (deposit : Deposit)
  | feeWithdrawn (identityId amount : ℕ)
  deriving DecidableEq, Repr

namespace Op

variable (c : Chronos) (b : Block) (w : World)

/-- The event of a claim that had something to do. -/
def claimEvents : Option Claimed → List Event
  | none => []
  | some record => [.claimed record]

/-- The transaction, and the events it leaves. -/
def run : Op → Call (World × List Event)
  | setParameters params => pure ({ w with params := params }, [])
  | setMarket market => pure ({ w with market := market }, [])
  | setAdminKey sender identityId key on => do
      pure (← w.setAdminKey sender identityId key on, [])
  | addTier lockTier duration multiplier18 => do
      pure (← w.addTier lockTier duration multiplier18, [])
  | deactivateTier lockTier => do pure (← w.deactivateTier lockTier, [])
  | createProfile adminWallet initialOperatorFee => do
      let w ← w.createProfile b adminWallet initialOperatorFee
      pure (w, [.profileCreated w.lastIdentityId ⟨initialOperatorFee, b.timestamp⟩])
  | updateOperatorFee sender identityId newOperatorFee => do
      let w ← w.updateOperatorFee c b sender identityId newOperatorFee
      pure (w, [.feeUpdated identityId ⟨newOperatorFee, World.feeEffectiveStart c b⟩])
  | depositTokens payer startEpoch endEpoch tokenAmount => do
      let carried := (w.es.shard EPOCH_POOL_INDEX).accumulatedRemainder
      let w ← w.depositTokens c b payer startEpoch endEpoch tokenAmount
      pure (w, [.deposited ⟨EPOCH_POOL_INDEX, startEpoch, endEpoch, tokenAmount, carried⟩])
  | submitProof identityId activeProofPeriodStartBlock => do
      pure (← w.submitProof c b identityId activeProofPeriodStartBlock, [])
  | createConviction sender identityId amount lockTier => do
      pure (← w.createConviction c b sender identityId amount lockTier, [])
  | relock sender oldTokenId newLockTier => do
      let w ← w.relockPosition c b sender oldTokenId newLockTier
      pure (w, [.relocked oldTokenId w.nft.nextTokenId])
  | redelegate sender tokenId newIdentityId => do
      pure (← w.redelegatePosition c b sender tokenId newIdentityId, [])
  | withdraw sender tokenId => do
      let out ← w.withdrawPosition c b sender tokenId
      pure (out.1, claimEvents out.2)
  | claim sender tokenId => do
      let out ← w.claimPosition c b sender tokenId
      pure (out.1, claimEvents out.2)
  | migrateV8 delegator identityId lockTier => do
      pure (← w.migrateV8 c b delegator identityId lockTier, [])
  | requestOperatorFeeWithdrawal sender identityId withdrawalAmount => do
      pure (← w.requestOperatorFeeWithdrawal b sender identityId withdrawalAmount, [])
  | finalizeOperatorFeeWithdrawal sender identityId => do
      let amount := (w.css.operatorFeeWithdrawals identityId).amount
      let w ← w.finalizeOperatorFeeWithdrawal b sender identityId
      pure (w, [.feeWithdrawn identityId amount])
  | cancelOperatorFeeWithdrawal sender identityId => do
      pure (← w.cancelOperatorFeeWithdrawal sender identityId, [])
  | transferPosition sender receiver tokenId => do
      pure (← w.transferPosition sender receiver tokenId, [])

/-- The argument types: identity ids are `uint72`, amounts `uint96`, tiers `uint40`, multipliers
`uint64`. A deposit covers epochs from the current one on, as all callers of
`addTokensToEpochRange` have it. -/
def Admissible : Op → Prop
  | addTier lockTier duration multiplier18 =>
    lockTier < 2 ^ 40 ∧ duration < 2 ^ 256 ∧ multiplier18 < 2 ^ 64
  | depositTokens _ startEpoch endEpoch tokenAmount =>
    c.getCurrentEpoch b ≤ startEpoch ∧ startEpoch ≤ endEpoch ∧ tokenAmount < 2 ^ 96
  | createConviction _ identityId amount _ => identityId < 2 ^ 72 ∧ amount < 2 ^ 96
  | redelegate _ _ newIdentityId => newIdentityId < 2 ^ 72
  | migrateV8 _ identityId _ | submitProof identityId _ => identityId < 2 ^ 72
  | requestOperatorFeeWithdrawal _ identityId withdrawalAmount =>
    identityId < 2 ^ 72 ∧ withdrawalAmount < 2 ^ 96
  | _ => True

instance : (op : Op) → Decidable (op.Admissible c b)
  | addTier .. | depositTokens .. | createConviction .. => inferInstanceAs (Decidable (_ ∧ _))
  | redelegate .. | migrateV8 .. | submitProof .. => inferInstanceAs (Decidable (_ < _))
  | requestOperatorFeeWithdrawal .. => inferInstanceAs (Decidable (_ ∧ _))
  | setParameters .. | setMarket .. | setAdminKey .. | deactivateTier .. | createProfile ..
  | updateOperatorFee .. | relock .. | withdraw .. | claim .. | finalizeOperatorFeeWithdrawal ..
  | cancelOperatorFeeWithdrawal .. | transferPosition .. => isTrue trivial

end Op

/-- The storage, the timestamp of the last transaction, and the log. -/
structure SysState where
  world : World
  now : ℕ
  log : List Event

/-- A successful transaction, at a block not before the last one. -/
def sysStep (c : Chronos) (s : SysState) (l : Block × Op) (s' : SysState) : Prop :=
  s.now ≤ l.1.timestamp ∧ s'.now = l.1.timestamp ∧ l.2.Admissible c l.1 ∧
    ∃ events, l.2.run c l.1 s.world = .ok (s'.world, events) ∧ s'.log = s.log ++ events

/-- The step as a function. -/
def sysExec (c : Chronos) (s : SysState) (l : Block × Op) : Call SysState :=
  if s.now ≤ l.1.timestamp ∧ l.2.Admissible c l.1 then do
    let out ← l.2.run c l.1 s.world
    pure ⟨out.1, l.1.timestamp, s.log ++ out.2⟩
  else .error ⟨.convictionNFT, .abiDecode⟩

/-- The state of freshly deployed contracts. The V8 stakes and the TRAC balances are whatever
they are at the deployment, with nothing in the new vault. -/
structure World.Fresh (w : World) : Prop where
  css : w.css = ConvictionStakingStorage._seedBaselineTiers
  rss : w.rss = RandomSamplingStorage.empty
  es : w.es = EpochStorage.empty
  profiles : w.profiles = ⟨fun _ => false, fun _ => []⟩
  nft : w.nft = ⟨0, fun _ => 0⟩
  vault : w.trac.vault = 0
  identities : w.lastIdentityId = 0
  keys : ∀ id key, w.adminKey id key = false

/-- The staking system as deployed with the clock `c`, and its runs. -/
def sysMachine (c : Chronos) : Machine SysState (Block × Op) where
  init s := s.world.Fresh ∧ s.log = []
  step := sysStep c

lemma sysStep_of_sysExec (c : Chronos) (s : SysState) (l : Block × Op) (s' : SysState)
    (hexec : sysExec c s l = .ok s') : sysStep c s l s' := by
  unfold sysExec at hexec
  split at hexec
  next hguard =>
    obtain ⟨out, hrun, rfl⟩ := of_bind_pure hexec
    exact ⟨hguard.1, rfl, hguard.2, out.2, hrun, rfl⟩
  next => cases hexec

/-- Fresh contracts for the concrete runs: the account `7` has TRAC, and `8` has a V8 stake of
`100` on the identity `1`. -/
def sysStart : SysState where
  world :=
    { css := ConvictionStakingStorage._seedBaselineTiers
      rss := RandomSamplingStorage.empty
      es := EpochStorage.empty
      profiles := ⟨fun _ => false, fun _ => []⟩
      v8 :=
        { stakeBase := fun id delegator => if id = 1 ∧ delegator = 8 then 100 else 0
          withdrawalAmount := fun _ _ => 0
          nodeStake := fun id => if id = 1 then 100 else 0
          totalStake := 100 }
      nft := ⟨0, fun _ => 0⟩
      trac := ⟨0, fun account => if account = 7 then 1000000 else 0⟩
      shardingTable := fun _ => false
      params :=
        { minimumStake := 10
          maximumStake := 1000
          maxOperatorFee := 10000
          stakeWithdrawalDelay := 100
          v81ReleaseEpoch := 0 }
      market := ⟨fun _ _ => 0, fun _ => 0, fun _ => 0, 0⟩
      lastIdentityId := 0
      adminKey := fun _ _ => false }
  now := 0
  log := []

/-- A stake of `100` beside a deposit of `1000` for epoch `1`, in which its node proves. -/
def stakedSteps : List (Block × Op) :=
  [(1001, .createProfile 9 1000),
   (1001, .depositTokens 7 1 1 1000),
   (1002, .createConviction 7 1 100 0),
   (1003, .submitProof 1 0)]

variable {c : Chronos} {ops : List (Block × Op)} {s : SysState}

/-- A list of transactions that succeeds from there is a run. -/
lemma sysReachable_of_run (hrun : Machine.runList (sysExec c) ops sysStart = .ok s) :
    (sysMachine c).Reachable s :=
  Machine.Reachable.runList (sysStep_of_sysExec c)
    (.init (s := sysStart) ⟨⟨rfl, rfl, rfl, rfl, rfl, rfl, rfl, fun _ _ => rfl⟩, rfl⟩) hrun

/-- A run of the steps whose last state passes a test. -/
lemma exists_reachable (ops : List (Block × Op)) (t : SysState → Bool)
    (h : succeeds (Machine.runList (sysExec hourlyChronos) ops sysStart) t = true) :
    ∃ s, (sysMachine hourlyChronos).Reachable s ∧ t s = true := by
  obtain ⟨s, hrun, htest⟩ := exists_of_succeeds h
  exact ⟨s, sysReachable_of_run hrun, htest⟩

/-- The step as a function, with a condition on the step checked. -/
def sysExecWhen (c : Chronos) (C : SysState → Block × Op → Prop) [∀ s l, Decidable (C s l)]
    (s : SysState) (l : Block × Op) : Call SysState :=
  if C s l then sysExec c s l else .error ⟨.convictionNFT, .abiDecode⟩

lemma sysReachable_restrict_of_run {C : SysState → Block × Op → Prop} [∀ s l, Decidable (C s l)]
    (hrun : Machine.runList (sysExecWhen c C) ops sysStart = .ok s) :
    ((sysMachine c).restrict C).Reachable s := by
  refine Machine.Reachable.runList ?_
    (.init (s := sysStart) ⟨⟨rfl, rfl, rfl, rfl, rfl, rfl, rfl, fun _ _ => rfl⟩, rfl⟩) hrun
  intro s l s' hexec
  unfold sysExecWhen at hexec
  split at hexec
  next hC => exact ⟨hC, sysStep_of_sysExec c s l s' hexec⟩
  next => cases hexec

end Dkg
