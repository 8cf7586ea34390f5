import Dkg.ConvictionStaking.Model
import Dkg.EpochStorage.Ledger
import Dkg.RandomSampling.Storage

/-! # The contracts of the staking system

One record with the storage of every contract that `StakingV10` and `RandomSampling` read or
write. Those without a model of their own keep the fields that are read here:

* `ProfileStorage`: which profiles exist and their operator-fee entries;
* the V8 `StakingStorage`: what a migration drains (an address stands for its hash);
* the conviction NFT: the token counter and the owners;
* the TRAC balances, the vault being the `ConvictionStakingStorage` address;
* the sharding table as the set of its nodes, the protocol parameters, the identity keys, and
  the market data the node score is computed from.
-/

namespace Dkg

open Function (update)

/-- The contract in which a call reverts. -/
inductive Contract
  | convictionNFT
  | stakingV10
  | convictionStakingStorage
  | stakingStorage
  | randomSampling
  | randomSamplingStorage
  | epochStorage
  | profile
  | identity
  | token
  deriving DecidableEq, Repr

/-- A revert, with the contract it comes from. -/
structure Failure where
  contract : Contract
  reason : Revert
  deriving DecidableEq, Repr

/-- The result of a call that goes through several contracts. -/
abbrev Call (α : Type) := Except Failure α

/-- A call of one contract, made from another one. -/
def inside {α : Type} (k : Contract) (x : Tx α) : Call α :=
  match x with
  | .ok a => .ok a
  | .error e => .error ⟨k, e⟩

lemma inside_eq_ok {α : Type} {k : Contract} {x : Tx α} {a : α} :
    inside k x = .ok a ↔ x = .ok a := by
  cases x <;> simp [inside]

lemma inside_eq_error {α : Type} {k : Contract} {x : Tx α} {f : Failure} :
    inside k x = .error f ↔ f.contract = k ∧ x = .error f.reason := by
  cases x with
  | error e =>
    constructor
    · intro h
      cases h
      exact ⟨rfl, rfl⟩
    · rintro ⟨hk, he⟩
      cases he
      cases hk
      rfl
  | ok a => simp [inside]

/-! ## The smaller contracts -/

/-- `ProfileLib.OperatorFee`. -/
structure OperatorFee where
  (feePercentage effectiveDate : ℕ)
  deriving DecidableEq, Repr

/-- The fees of each node, the last of which may lie in the future. -/
structure ProfileStorage where
  profileExists : ℕ → Bool
  operatorFees : ℕ → List OperatorFee

namespace ProfileStorage

variable (p : ProfileStorage)

/-- `createProfile`: the initial fee is in force from the creation on. -/
def createProfile (b : Block) (identityId initialOperatorFee : ℕ) : ProfileStorage where
  profileExists := update p.profileExists identityId true
  operatorFees := update p.operatorFees identityId
    (p.operatorFees identityId ++ [⟨initialOperatorFee, b.timestamp⟩])

/-- `_safeGetLatestOperatorFee`. -/
def getLatestOperatorFee (identityId : ℕ) : OperatorFee :=
  ((p.operatorFees identityId).getLast?).getD ⟨0, 0⟩

def isOperatorFeeChangePending (b : Block) (identityId : ℕ) : Bool :=
  (p.operatorFees identityId).length ≠ 0 ∧
    b.timestamp ≤ (p.getLatestOperatorFee identityId).effectiveDate

def addOperatorFee (identityId feePercentage effectiveDate : ℕ) : ProfileStorage :=
  { p with
    operatorFees := update p.operatorFees identityId
      (p.operatorFees identityId ++ [⟨feePercentage, effectiveDate⟩]) }

def replacePendingOperatorFee (b : Block) (identityId feePercentage effectiveDate : ℕ) :
    Tx ProfileStorage := do
  require ((p.operatorFees identityId).length ≠ 0 ∧
    b.timestamp ≤ (p.getLatestOperatorFee identityId).effectiveDate) .noPendingOperatorFee
  pure { p with
    operatorFees := update p.operatorFees identityId
      ((p.operatorFees identityId).dropLast ++ [⟨feePercentage, effectiveDate⟩]) }

end ProfileStorage

/-- The V8 `StakingStorage`, keyed by identity id and delegator. -/
structure StakingStorage where
  (stakeBase withdrawalAmount : ℕ → ℕ → ℕ)
  nodeStake : ℕ → ℕ
  totalStake : ℕ

namespace StakingStorage

variable (s : StakingStorage)

def setDelegatorStakeBase (identityId delegatorKey stakeBase : ℕ) : StakingStorage :=
  { s with stakeBase := store₂ s.stakeBase identityId delegatorKey stakeBase }

def decreaseNodeStake (identityId removedNodeStake : ℕ) : Tx StakingStorage := do
  let stake ← subUint (s.nodeStake identityId) removedNodeStake
  pure { s with nodeStake := update s.nodeStake identityId stake }

def decreaseTotalStake (removedStake : ℕ) : Tx StakingStorage := do
  let stake ← subUint s.totalStake removedStake
  pure { s with totalStake := stake }

def deleteDelegatorWithdrawalRequest (identityId delegatorKey : ℕ) : StakingStorage :=
  { s with withdrawalAmount := store₂ s.withdrawalAmount identityId delegatorKey 0 }

end StakingStorage

/-- The ERC-721 part of `DKGStakingConvictionNFT`; the owner `0` is no owner. -/
structure ConvictionNFT where
  nextTokenId : ℕ
  owner : ℕ → ℕ

namespace ConvictionNFT

variable (n : ConvictionNFT)

def ownerOf (tokenId : ℕ) : Tx ℕ := do
  require (n.owner tokenId ≠ 0) .nonexistentToken
  pure (n.owner tokenId)

/-- `++nextTokenId`. -/
def allocate : Tx ConvictionNFT := do
  let tokenId ← addUint 256 n.nextTokenId 1
  pure { n with nextTokenId := tokenId }

def _mint (receiver tokenId : ℕ) : Tx ConvictionNFT := do
  require (receiver ≠ 0) .invalidReceiver
  require (n.owner tokenId = 0) .incorrectOwner
  pure { n with owner := update n.owner tokenId receiver }

def _burn (tokenId : ℕ) : Tx ConvictionNFT := do
  require (n.owner tokenId ≠ 0) .nonexistentToken
  pure { n with owner := update n.owner tokenId 0 }

def transferFrom (sender receiver tokenId : ℕ) : Tx ConvictionNFT := do
  require (receiver ≠ 0) .invalidReceiver
  require (n.owner tokenId ≠ 0 ∧ n.owner tokenId = sender) .incorrectOwner
  pure { n with owner := update n.owner tokenId receiver }

end ConvictionNFT

/-- The TRAC balances: the vault at the `ConvictionStakingStorage` address, and everybody else's.
Approvals are left out; an account that pays has approved it. -/
structure Trac where
  vault : ℕ
  balanceOf : ℕ → ℕ

namespace Trac

variable (t : Trac)

/-- `token.transferFrom(sender, address(convictionStorage), amount)`. -/
def transferFromToVault (sender amount : ℕ) : Tx Trac := do
  require (amount ≤ t.balanceOf sender) .insufficientBalance
  pure {
    vault := t.vault + amount
    balanceOf := update t.balanceOf sender (t.balanceOf sender - amount) }

/-- `convictionStorage.transferStake(receiver, stakeAmount)`. -/
def transferStake (receiver stakeAmount : ℕ) : Tx Trac := do
  require (stakeAmount ≤ t.vault) .insufficientBalance
  pure {
    vault := t.vault - stakeAmount
    balanceOf := update t.balanceOf receiver (t.balanceOf receiver + stakeAmount) }

end Trac

/-- The parameters of `ParametersStorage` that the staking contracts read. -/
structure Parameters where
  (minimumStake maximumStake maxOperatorFee stakeWithdrawalDelay v81ReleaseEpoch : ℕ)

/-- What the node score reads beside the stake: knowledge values per epoch, the nodes' asks, and
the network price. -/
structure Market where
  nodeEpochProducedKnowledgeValue : ℕ → ℕ → ℕ
  (epochProducedKnowledgeValue ask : ℕ → ℕ)
  pricePerKbEpoch : ℕ

/-- The storage of all contracts. -/
structure World where
  css : ConvictionStakingStorage
  rss : RandomSamplingStorage
  es : EpochStorage
  profiles : ProfileStorage
  v8 : StakingStorage
  nft : ConvictionNFT
  trac : Trac
  shardingTable : ℕ → Bool
  params : Parameters
  market : Market
  lastIdentityId : ℕ
  adminKey : ℕ → ℕ → Bool

namespace World

variable (w : World)

/-- `shardingTable.insertNode` when the node is not in and has reached the minimum stake. -/
def insertNodeAt (identityId nodeStake : ℕ) : World :=
  if w.shardingTable identityId = false ∧ nodeStake ≥ w.params.minimumStake then
    { w with shardingTable := update w.shardingTable identityId true }
  else w

/-- `shardingTable.removeNode` when the node is in and has fallen below the minimum stake. -/
def removeNodeAt (identityId nodeStake : ℕ) : World :=
  if w.shardingTable identityId = true ∧ nodeStake < w.params.minimumStake then
    { w with shardingTable := update w.shardingTable identityId false }
  else w

/-- `onlyAdmin(identityId)`. -/
def onlyAdmin (sender identityId : ℕ) : Tx Unit :=
  require (w.adminKey identityId sender = true) .onlyProfileAdminFunction

end World

end Dkg
