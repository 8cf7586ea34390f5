import Dkg.Staking.World

/-! # DKGPublishingConvictionNFT

The publishers' conviction accounts: a commitment of TRAC buys an allowance for each of the next
twelve epochs, a top-up adds to a buffer without end, and the agents registered for an account
spend from both. The contract is an ERC-721 token, one token per account; the transfer hook drops
the agents of the previous owner. The TRAC itself goes straight to the staking vault and to the
epoch pools.

The ERC-721 part has the owners and the two kinds of approvals; the rest and the events are left
out.
-/

namespace Dkg

open Lib
open Function (update)

structure Account where
  (committedTRAC createdAtEpoch expiresAtEpoch discountBps : ℕ)
  deriving DecidableEq, Repr

/-- The storage of the contract, with that of the ERC-721 it extends. -/
structure PublishingConvictionNFT where
  nextAccountId : ℕ
  accounts : ℕ → Account
  epochSpent : ℕ → ℕ → ℕ
  topUpBalance : ℕ → ℕ
  registeredAgents : ℕ → List ℕ
  agentToAccountId : ℕ → ℕ
  isRegisteredAgent : ℕ → ℕ → Bool
  maxAgentsPerAccount : ℕ
  (owner tokenApproval : ℕ → ℕ)
  operatorApproval : ℕ → ℕ → Bool

structure CostCovered where
  (accountId epoch baseCost discountedCost drawnFromEpoch drawnFromTopUp : ℕ)
  deriving DecidableEq, Repr

namespace PublishingConvictionNFT

def LOCK_DURATION_EPOCHS : ℕ := 12

def BPS_DENOMINATOR : ℕ := 10000

def STAKER_SHARD_ID : ℕ := 1

/-- The storage after `initialize`. -/
def initialized : PublishingConvictionNFT where
  nextAccountId := 1
  accounts := fun _ => ⟨0, 0, 0, 0⟩
  epochSpent := fun _ _ => 0
  topUpBalance := fun _ => 0
  registeredAgents := fun _ => []
  agentToAccountId := fun _ => 0
  isRegisteredAgent := fun _ _ => false
  maxAgentsPerAccount := 100
  owner := fun _ => 0
  tokenApproval := fun _ => 0
  operatorApproval := fun _ _ => false

variable (n : PublishingConvictionNFT)

/-! ## The ERC-721 token -/

/-- One round of the loop of `_update`. -/
def clearAgent (tokenId : ℕ) (agent : ℕ) : PublishingConvictionNFT :=
  { n with
    isRegisteredAgent := store₂ n.isRegisteredAgent tokenId agent false
    agentToAccountId := update n.agentToAccountId agent 0 }

def clearAgents (tokenId : ℕ) : PublishingConvictionNFT :=
  let cleared := (n.registeredAgents tokenId).foldl (fun n agent => n.clearAgent tokenId agent) n
  { cleared with
    registeredAgents := update cleared.registeredAgents tokenId [] }

/-- The loop of the transfer hook over a list of agents. -/
lemma foldl_clearAgent (tokenId : ℕ) (L : List ℕ) (n : PublishingConvictionNFT) :
    L.foldl (fun n agent => n.clearAgent tokenId agent) n
      = { n with
          isRegisteredAgent := fun i a =>
            if i = tokenId ∧ a ∈ L then false else n.isRegisteredAgent i a
          agentToAccountId := fun a => if a ∈ L then 0 else n.agentToAccountId a } := by
  induction L generalizing n with
  | nil => simp
  | cons agent L ih =>
    rw [List.foldl_cons, ih]
    unfold clearAgent
    congr 1
    · funext a
      by_cases ha : a ∈ L
      · simp [ha]
      · by_cases hag : a = agent
        · simp [hag]
        · simp [ha, hag]
    · funext i a
      unfold store₂
      by_cases ha : i = tokenId ∧ a ∈ L
      · simp [ha]
      · by_cases hag : i = tokenId ∧ a = agent
        · simp [hag]
        · simp only [if_neg ha, if_neg hag, List.mem_cons]
          rw [if_neg]
          rintro ⟨hi, hor⟩
          rcases hor with hag' | ha'
          · exact hag ⟨hi, hag'⟩
          · exact ha ⟨hi, ha'⟩

def _isAuthorized (tokenOwner spender tokenId : ℕ) : Prop :=
  spender ≠ 0 ∧ (tokenOwner = spender ∨ n.operatorApproval tokenOwner spender = true ∨
    n.tokenApproval tokenId = spender)
  deriving Decidable

def _checkAuthorized (tokenOwner spender tokenId : ℕ) : Tx Unit :=
  if n._isAuthorized tokenOwner spender tokenId then pure ()
  else if tokenOwner = 0 then .error .nonexistentToken
  else .error .insufficientApproval

/-- `_update`: the token's own, and the hook. Returns the previous owner. -/
def _update (receiver tokenId auth : ℕ) : Tx (ℕ × PublishingConvictionNFT) := do
  let previousOwner := n.owner tokenId
  (if auth ≠ 0 then n._checkAuthorized previousOwner auth tokenId else pure ())
  let n := { n with
    tokenApproval := if previousOwner ≠ 0 then update n.tokenApproval tokenId 0
      else n.tokenApproval
    owner := update n.owner tokenId receiver }
  let n := if previousOwner ≠ 0 ∧ receiver ≠ 0 ∧ previousOwner ≠ receiver
    then n.clearAgents tokenId else n
  pure (previousOwner, n)

def _mint (receiver tokenId : ℕ) : Tx PublishingConvictionNFT := do
  require (receiver ≠ 0) .invalidReceiver
  let out ← n._update receiver tokenId 0
  require (out.1 = 0) .invalidSender
  pure out.2

/-- `transferFrom`, and `safeTransferFrom` to an account that accepts. -/
def transferFrom (sender holder receiver tokenId : ℕ) : Tx PublishingConvictionNFT := do
  require (receiver ≠ 0) .invalidReceiver
  let out ← n._update receiver tokenId sender
  require (out.1 = holder) .incorrectOwner
  pure out.2

def approve (sender spender tokenId : ℕ) : Tx PublishingConvictionNFT := do
  require (n.owner tokenId ≠ 0) .nonexistentToken
  require (sender = 0 ∨ n.owner tokenId = sender ∨
    n.operatorApproval (n.owner tokenId) sender = true) .invalidApprover
  pure { n with tokenApproval := update n.tokenApproval tokenId spender }

def setApprovalForAll (sender operator : ℕ) (approved : Bool) : Tx PublishingConvictionNFT := do
  require (operator ≠ 0) .invalidOperator
  pure { n with operatorApproval := store₂ n.operatorApproval sender operator approved }

/-! ## Accounts -/

def _requireOwner (sender accountId : ℕ) : Tx Unit := do
  require (n.owner accountId ≠ 0) .nonexistentToken
  require (n.owner accountId = sender) .notAccountOwner

/-- `1 ether`. -/
def ether : ℕ := 10 ^ 18

/-- The discount ladder, highest tier first. -/
def getDiscountBps (committedTRAC : ℕ) : ℕ :=
  if committedTRAC ≥ 1000000 * ether then 7500
  else if committedTRAC ≥ 500000 * ether then 5000
  else if committedTRAC ≥ 250000 * ether then 4000
  else if committedTRAC ≥ 100000 * ether then 3000
  else if committedTRAC ≥ 50000 * ether then 2000
  else if committedTRAC ≥ 25000 * ether then 1000
  else 0

/-- `coverPublishingCost`, called by `sender`; `kav10` is what the Hub has for
`KnowledgeAssetsV10`. -/
def coverPublishingCost (c : Chronos) (b : Block) (kav10 sender publishingAgent baseCost : ℕ) :
    Tx (PublishingConvictionNFT × CostCovered) := do
  require (sender = kav10) .onlyKnowledgeAssetsV10
  let accountId := n.agentToAccountId publishingAgent
  require (accountId ≠ 0) .noConvictionAccount
  let acct := n.accounts accountId
  let currentEpoch := uint40 (c.getCurrentEpoch b)
  require (currentEpoch < acct.expiresAtEpoch) .accountExpired
  let factor ← subUint BPS_DENOMINATOR acct.discountBps
  let discountedCost := uint96 (baseCost * factor / BPS_DENOMINATOR)
  let baseAllowance := acct.committedTRAC / LOCK_DURATION_EPOCHS
  let spent := n.epochSpent accountId currentEpoch
  let epochRemaining := if spent < baseAllowance then baseAllowance - spent else 0
  let drawn ← (if discountedCost ≤ epochRemaining then
      pure (discountedCost, 0, n)
    else do
      let shortfall := discountedCost - epochRemaining
      let buffer := n.topUpBalance accountId
      require (shortfall ≤ buffer) .insufficientAllowance
      pure (epochRemaining, shortfall,
        { n with topUpBalance := update n.topUpBalance accountId (buffer - shortfall) }))
  let drawnFromEpoch := drawn.1
  let n := drawn.2.2
  let n ← (if drawnFromEpoch > 0 then do
      let total ← addUint 96 spent drawnFromEpoch
      pure { n with epochSpent := store₂ n.epochSpent accountId currentEpoch total }
    else pure n)
  pure (n, ⟨accountId, currentEpoch, baseCost, discountedCost, drawnFromEpoch, drawn.2.1⟩)

/-! ## Agents -/

def registerAgent (sender accountId agent : ℕ) : Tx PublishingConvictionNFT := do
  n._requireOwner sender accountId
  require (agent ≠ 0) .zeroAgentAddress
  require (n.agentToAccountId agent = 0) .agentAlreadyRegistered
  require ((n.registeredAgents accountId).length < n.maxAgentsPerAccount) .agentCapReached
  pure { n with
    registeredAgents := update n.registeredAgents accountId
      (n.registeredAgents accountId ++ [agent])
    isRegisteredAgent := store₂ n.isRegisteredAgent accountId agent true
    agentToAccountId := update n.agentToAccountId agent accountId }

/-- The loop of `deregisterAgent` from index `i` on: the last agent takes the slot of the first
match. -/
def removeLoop (agent : ℕ) (agents : List ℕ) : ℕ → ℕ → List ℕ
  | 0, _ => agents
  | fuel + 1, i =>
    if agents.getD i 0 = agent then
      (agents.set i (agents.getD (agents.length - 1) 0)).dropLast
    else removeLoop agent agents fuel (i + 1)

def deregisterAgent (sender accountId agent : ℕ) : Tx PublishingConvictionNFT := do
  n._requireOwner sender accountId
  require (n.isRegisteredAgent accountId agent = true) .agentNotRegistered
  let agents := n.registeredAgents accountId
  pure { n with
    isRegisteredAgent := store₂ n.isRegisteredAgent accountId agent false
    agentToAccountId := update n.agentToAccountId agent 0
    registeredAgents := update n.registeredAgents accountId
      (removeLoop agent agents agents.length 0) }

def setMaxAgentsPerAccount (cap : ℕ) : PublishingConvictionNFT :=
  { n with maxAgentsPerAccount := cap }

end PublishingConvictionNFT

/-! ## The system around it -/

/-- The contract with the token, the epoch pools and the Hub's entry for `KnowledgeAssetsV10`. -/
structure ConvictionWorld where
  nft : PublishingConvictionNFT
  trac : Trac
  es : EpochStorage
  kav10 : ℕ

namespace ConvictionWorld

open PublishingConvictionNFT

variable (c : Chronos) (b : Block) (w : ConvictionWorld)

def createAccount (sender committedTRAC : ℕ) : Tx ConvictionWorld := do
  require (committedTRAC ≠ 0) .invalidAmount
  let accountId := w.nft.nextAccountId
  let nextAccountId ← addUint 256 accountId 1
  let currentEpoch := uint40 (c.getCurrentEpoch b)
  let expiresAtEpoch ← addUint 40 currentEpoch LOCK_DURATION_EPOCHS
  let account : Account := ⟨committedTRAC, currentEpoch, expiresAtEpoch,
    getDiscountBps committedTRAC⟩
  let nft := { w.nft with
    nextAccountId := nextAccountId
    accounts := update w.nft.accounts accountId account }
  let nft ← nft._mint sender accountId
  let trac ← w.trac.transferFromToVault sender committedTRAC
  let lastEpoch ← subUint expiresAtEpoch 1
  let es ← w.es.addTokensToEpochRange c b STAKER_SHARD_ID currentEpoch lastEpoch committedTRAC
  pure { w with nft := nft, trac := trac, es := es }

def topUp (sender accountId amount : ℕ) : Tx ConvictionWorld := do
  w.nft._requireOwner sender accountId
  require (amount ≠ 0) .invalidAmount
  let acct := w.nft.accounts accountId
  let currentEpoch := uint40 (c.getCurrentEpoch b)
  require (currentEpoch < acct.expiresAtEpoch) .accountExpired
  let balance ← addUint 96 (w.nft.topUpBalance accountId) amount
  let nft := { w.nft with topUpBalance := update w.nft.topUpBalance accountId balance }
  let trac ← w.trac.transferFromToVault sender amount
  let lastEpoch ← subUint acct.expiresAtEpoch 1
  let es ← w.es.addTokensToEpochRange c b STAKER_SHARD_ID currentEpoch lastEpoch amount
  pure { w with nft := nft, trac := trac, es := es }

end ConvictionWorld

/-- A transaction of the contract. The last two are the rest of the world: the Hub names another
`KnowledgeAssetsV10`, and TRAC balances and epoch pools change in other transactions. -/
inductive ConvictionOp
  | createAccount (sender committedTRAC : ℕ)
  | topUp (sender accountId amount : ℕ)
  | coverPublishingCost (sender publishingAgent baseCost : ℕ)
  | registerAgent (sender accountId agent : ℕ)
  | deregisterAgent (sender accountId agent : ℕ)
  | setMaxAgentsPerAccount (cap : ℕ)
  | transferFrom (sender holder receiver tokenId : ℕ)
  | approve (sender spender tokenId : ℕ)
  | setApprovalForAll (sender operator : ℕ) (approved : Bool)
  | setKnowledgeAssetsV10 (kav10 : ℕ)
  | otherTransactions (trac : Trac) (es : EpochStorage)

/-- What a transaction did with an account's TRAC. -/
inductive ConvictionEvent
  | toppedUp (accountId amount : ℕ)
  | credited (accountId : ℕ) (deposit : Deposit)
  | costCovered (cost : CostCovered)

namespace ConvictionOp

open PublishingConvictionNFT

variable (c : Chronos) (b : Block) (w : ConvictionWorld)

/-- The `addTokensToEpochRange` call of the account `accountId` as it stands in `n`. -/
def credit (es : EpochStorage) (n : PublishingConvictionNFT) (accountId amount : ℕ) :
    ConvictionEvent :=
  .credited accountId ⟨STAKER_SHARD_ID, uint40 (c.getCurrentEpoch b),
    (n.accounts accountId).expiresAtEpoch - 1, amount,
    (es.shard STAKER_SHARD_ID).accumulatedRemainder⟩

/-- A transaction of the token alone. -/
def onToken (x : Tx PublishingConvictionNFT) : Tx (ConvictionWorld × List ConvictionEvent) := do
  let nft ← x
  pure ({ w with nft := nft }, [])

/-- The transaction, and the events it leaves. -/
def run : ConvictionOp → Tx (ConvictionWorld × List ConvictionEvent)
  | createAccount sender committedTRAC => do
      let w' ← w.createAccount c b sender committedTRAC
      pure (w', [credit c b w.es w'.nft w.nft.nextAccountId committedTRAC])
  | topUp sender accountId amount => do
      let w' ← w.topUp c b sender accountId amount
      pure (w', [.toppedUp accountId amount, credit c b w.es w'.nft accountId amount])
  | coverPublishingCost sender publishingAgent baseCost => do
      let out ← w.nft.coverPublishingCost c b w.kav10 sender publishingAgent baseCost
      pure ({ w with nft := out.1 }, [.costCovered out.2])
  | registerAgent sender accountId agent => onToken w (w.nft.registerAgent sender accountId agent)
  | deregisterAgent sender accountId agent =>
    onToken w (w.nft.deregisterAgent sender accountId agent)
  | setMaxAgentsPerAccount cap => onToken w (pure (w.nft.setMaxAgentsPerAccount cap))
  | transferFrom sender holder receiver tokenId =>
    onToken w (w.nft.transferFrom sender holder receiver tokenId)
  | approve sender spender tokenId => onToken w (w.nft.approve sender spender tokenId)
  | setApprovalForAll sender operator approved =>
    onToken w (w.nft.setApprovalForAll sender operator approved)
  | setKnowledgeAssetsV10 kav10 => pure ({ w with kav10 := kav10 }, [])
  | otherTransactions trac es => pure ({ w with trac := trac, es := es }, [])

/-- The sender of a transaction is not the zero address. -/
def Sent : ConvictionOp → Prop
  | createAccount sender _ | topUp sender _ _ | coverPublishingCost sender _ _
  | registerAgent sender _ _ | deregisterAgent sender _ _ | transferFrom sender _ _ _
  | approve sender _ _ | setApprovalForAll sender _ _ => sender ≠ 0
  | _ => True

instance : (op : ConvictionOp) → Decidable op.Sent
  | createAccount .. | topUp .. | coverPublishingCost .. | registerAgent .. | deregisterAgent ..
  | transferFrom .. | approve .. | setApprovalForAll .. => inferInstanceAs (Decidable (_ ≠ _))
  | setMaxAgentsPerAccount .. | setKnowledgeAssetsV10 .. | otherTransactions .. => isTrue trivial

end ConvictionOp

/-- The storage, the epoch of the last transaction, and the log. -/
structure ConvictionState where
  world : ConvictionWorld
  epoch : ℕ
  log : List ConvictionEvent

/-- A successful transaction, in an epoch not before the last one's. -/
def convictionStep (c : Chronos) (s : ConvictionState) (l : Block × ConvictionOp)
    (s' : ConvictionState) : Prop :=
  s.epoch ≤ c.getCurrentEpoch l.1 ∧ s'.epoch = c.getCurrentEpoch l.1 ∧ l.2.Sent ∧
    ∃ events, l.2.run c l.1 s.world = .ok (s'.world, events) ∧ s'.log = s.log ++ events

/-- The contract as initialised, and its runs. -/
def convictionMachine (c : Chronos) : Machine ConvictionState (Block × ConvictionOp) where
  init s := s.world.nft = PublishingConvictionNFT.initialized ∧ s.log = []
  step := convictionStep c

/-- The step as a function. -/
def convictionExec (c : Chronos) (s : ConvictionState) (l : Block × ConvictionOp) :
    Tx ConvictionState :=
  if s.epoch ≤ c.getCurrentEpoch l.1 ∧ l.2.Sent then do
    let out ← l.2.run c l.1 s.world
    pure ⟨out.1, c.getCurrentEpoch l.1, s.log ++ out.2⟩
  else .error .abiDecode

lemma convictionStep_of_exec (c : Chronos) (s : ConvictionState) (l : Block × ConvictionOp)
    (s' : ConvictionState) (hexec : convictionExec c s l = .ok s') : convictionStep c s l s' := by
  unfold convictionExec at hexec
  split at hexec
  next hguard =>
    obtain ⟨out, hrun, rfl⟩ := of_bind_pure hexec
    exact ⟨hguard.1, rfl, hguard.2, out.2, hrun, rfl⟩
  next => cases hexec

/-- The initialised contract, with TRAC for the account `7`. -/
def convictionStart : ConvictionState where
  world :=
    { nft := PublishingConvictionNFT.initialized
      trac := ⟨0, fun account => if account = 7 then 1000000 else 0⟩
      es := EpochStorage.empty
      kav10 := 5 }
  epoch := 1
  log := []

lemma convictionReachable_of_run {c : Chronos} {ops : List (Block × ConvictionOp)}
    {s : ConvictionState} (hrun : Machine.runList (convictionExec c) ops convictionStart = .ok s) :
    (convictionMachine c).Reachable s :=
  Machine.Reachable.runList (convictionStep_of_exec c)
    (.init (s := convictionStart) ⟨rfl, rfl⟩) hrun

end Dkg
