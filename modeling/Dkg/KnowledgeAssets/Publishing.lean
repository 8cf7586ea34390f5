import Dkg.ContextGraphValue.Model
import Dkg.KnowledgeAssets.CollectionStorage
import Dkg.KnowledgeAssets.Signatures
import Dkg.PublishingConviction.Model

/-! # KnowledgeAssetsV10

Publishing, updating and extending a knowledge collection, and how they are paid for. Every entry
point runs one of two cores, which check the signatures and the authorisation and write the
collection and the value of its context graph. Then the cost is either covered by a conviction
account, whose TRAC is in the pools already, or pulled from the sender or a paymaster and
distributed to the pools of the epochs.

What the contract reads from the Hub's other contracts at a call, and the hashes, are one record
(`AssetsEnv`); the contracts it writes to are another (`AssetsWorld`).
-/

namespace Dkg

open Function (update)
open Lib

/-- `PublishParams`, without the operation id. -/
structure PublishParams where
  (contextGraphId merkleRoot knowledgeAssetsAmount byteSize epochs tokenAmount : ℕ)
  isImmutable : Bool
  (merkleLeafCount publisherNodeIdentityId publisherNodeR publisherNodeVS : ℕ)
  (identityIds r vs : List ℕ)

/-- `UpdateParams`, without the operation id. -/
structure UpdateParams where
  (id newMerkleRoot newByteSize newTokenAmount newMerkleLeafCount mintKnowledgeAssetsAmount : ℕ)
  knowledgeAssetsToBurn : List ℕ
  (publisherNodeIdentityId publisherNodeR publisherNodeVS : ℕ)
  (identityIds r vs : List ℕ)

/-- What the contract reads, with its address and the hashes. `keccakPacked` is the hash of the
packed fields, `ethSigned` that of a message before it is signed. -/
structure AssetsEnv where
  (chainid address : ℕ)
  keccak256 : ℕ → ℕ
  keccakPacked : List ℕ → ℕ
  ethSigned : ℕ → ℕ
  tryRecover : ℕ → ℕ → ℕ → ℕ
  identityStorage : IdentityStorage
  nodeStakeV10 : ℕ → ℕ
  (minimumRequiredSignatures stakeWeightedAverageAsk : ℕ)
  isAuthorizedPublisher : ℕ → ℕ → Bool
  publishPolicy : ℕ → ℕ
  (isContextGraphActive validPaymasters : ℕ → Bool)
  allowedAddresses : ℕ → ℕ → Bool
  allowance : ℕ → ℕ → ℕ

/-- The knowledge values of `EpochStorage`, by node and epoch, and by epoch. -/
structure KnowledgeValues where
  nodesEpochProducedKnowledgeValue : ℕ → ℕ → ℕ
  (epochProducedKnowledgeValue epochNodeMaxProducedKnowledgeValue : ℕ → ℕ)

def KnowledgeValues.addEpochProducedKnowledgeValue (k : KnowledgeValues)
    (identityId epoch knowledgeValue : ℕ) : Tx KnowledgeValues := do
  let node ← addUint 96 (k.nodesEpochProducedKnowledgeValue identityId epoch) knowledgeValue
  let total ← addUint 96 (k.epochProducedKnowledgeValue epoch) knowledgeValue
  pure {
    nodesEpochProducedKnowledgeValue :=
      store₂ k.nodesEpochProducedKnowledgeValue identityId epoch node
    epochProducedKnowledgeValue := update k.epochProducedKnowledgeValue epoch total
    epochNodeMaxProducedKnowledgeValue :=
      if node > k.epochNodeMaxProducedKnowledgeValue epoch then
        update k.epochNodeMaxProducedKnowledgeValue epoch node
      else k.epochNodeMaxProducedKnowledgeValue }

/-- The contracts the payments go through: the conviction accounts with TRAC and the epoch pools,
the collections, and the ledgers by context graph and by node. -/
structure AssetsWorld extends ConvictionWorld where
  kcs : KnowledgeCollectionStorage
  values : ContextGraphValueStorage
  kcToContextGraph : ℕ → ℕ
  contextGraphKCList : ℕ → List ℕ
  produced : KnowledgeValues

namespace KnowledgeAssetsV10

variable (c : Chronos) (b : Block) (env : AssetsEnv)

/-! ## Payment -/

/-- `SafeCast.toUint96`. -/
def toUint96 (value : ℕ) : Tx ℕ := do
  require (value < 2 ^ 96) .safeCastOverflowedUintDowncast
  pure value

/-- `_validateTokenAmount`; the flag is whether the current epoch counts. -/
def _validateTokenAmount (byteSize epochs tokenAmount : ℕ) (includeCurrentEpoch : Bool) :
    Tx Unit := do
  let base ← mulUint 256 env.stakeWeightedAverageAsk byteSize
  let expectedTokenAmount ← (if includeCurrentEpoch = true then do
      let whole ← mulUint 256 epochs (10 ^ 18)
      let scaled ← mulUint 256 (c.timeUntilNextEpoch b) (10 ^ 18)
      let part ← divUint scaled c.epochLength
      let totalStorageTime ← addUint 256 whole part
      let cost ← mulUint 256 base totalStorageTime
      toUint96 (cost / 1024 / 10 ^ 18)
    else do
      let cost ← mulUint 256 base epochs
      toUint96 (cost / 1024))
  require (¬ tokenAmount < expectedTokenAmount) .invalidTokenAmount

/-- `Paymaster.coverCost`, called by this contract. -/
def coverCost (trac : Trac) (paymaster amount : ℕ) : Tx Trac := do
  require (env.allowedAddresses paymaster env.address = true) .notAllowed
  require (amount ≠ 0) .zeroTokenAmount
  require (¬ trac.balanceOf paymaster < amount) .tooLowBalance
  trac.transferFromToVault paymaster amount

def _addTokens (trac : Trac) (sender tokenAmount paymaster : ℕ) : Tx Trac :=
  if env.validPaymasters paymaster = true then coverCost env trac paymaster tokenAmount
  else do
    require (¬ env.allowance sender env.address < tokenAmount) .tooLowAllowance
    require (¬ trac.balanceOf sender < tokenAmount) .tooLowBalance
    trac.transferFromToVault sender tokenAmount

/-- `epochStorage.addTokensToEpochRange(1, ..)`, with the deposit it makes. -/
def addToPool (es : EpochStorage) (startEpoch endEpoch tokenAmount : ℕ) :
    Tx (EpochStorage × List Deposit) := do
  let es' ← es.addTokensToEpochRange c b 1 startEpoch endEpoch tokenAmount
  pure (es', [⟨1, startEpoch, endEpoch, tokenAmount, (es.shard 1).accumulatedRemainder⟩])

/-- `_distributeTokens`: the current epoch, the full epochs after it, and the final one. -/
def _distributeTokens (es : EpochStorage) (tokenAmount epochs currentEpoch : ℕ) :
    Tx (EpochStorage × List Deposit) := do
  let epochLengthInSeconds := c.epochLength
  let timeRemainingInCurrentEpoch := c.timeUntilNextEpoch b
  let baseTokensPerFullEpoch ← divUint tokenAmount epochs
  let scaled ← mulUint 256 baseTokensPerFullEpoch timeRemainingInCurrentEpoch
  let currentEpochAllocation ← divUint scaled epochLengthInSeconds
  let finalEpochAllocation ← subUint baseTokensPerFullEpoch currentEpochAllocation
  let numberOfFullEpochs ← subUint epochs 1
  let totalTokensForFullEpochs ← mulUint 256 baseTokensPerFullEpoch numberOfFullEpochs
  let allocated ← addUint 256 currentEpochAllocation totalTokensForFullEpochs
  let totalAllocated ← addUint 256 allocated finalEpochAllocation
  let finalEpochAllocation ← (if totalAllocated < tokenAmount then
      addUint 256 finalEpochAllocation (tokenAmount - totalAllocated)
    else pure finalEpochAllocation)
  let current ← (if currentEpochAllocation > 0 then
      addToPool c b es currentEpoch currentEpoch (uint96 currentEpochAllocation)
    else pure (es, []))
  let full ← (if numberOfFullEpochs > 0 ∧ totalTokensForFullEpochs > 0 then do
      let first ← addUint 40 currentEpoch 1
      let last ← addUint 40 currentEpoch (uint40 numberOfFullEpochs)
      addToPool c b current.1 first last (uint96 totalTokensForFullEpochs)
    else pure (current.1, []))
  let final ← (if finalEpochAllocation > 0 then do
      let last ← addUint 40 currentEpoch (uint40 epochs)
      addToPool c b full.1 last last (uint96 finalEpochAllocation)
    else pure (full.1, []))
  pure (final.1, current.2 ++ full.2 ++ final.2)

/-! ## Publishing -/

variable (w : AssetsWorld)

/-- `registerKCToContextGraph`, through the facade. -/
def registerKnowledgeCollection (contextGraphId kcId : ℕ) : Tx AssetsWorld := do
  require (kcId ≠ 0) .invalidContextGraphConfig
  require (env.isContextGraphActive contextGraphId = true) .contextGraphNotActive
  require (w.kcToContextGraph kcId = 0) .kcAlreadyRegisteredToContextGraph
  pure { w with
    kcToContextGraph := update w.kcToContextGraph kcId contextGraphId
    contextGraphKCList := update w.contextGraphKCList contextGraphId
      (w.contextGraphKCList contextGraphId ++ [kcId]) }

/-- The value of a collection, for its context graph and for the node that publishes it. -/
def addValue (contextGraphId identityId currentEpoch epochs value : ℕ) : Tx AssetsWorld := do
  let values ← w.values.addCGValueForEpochRange c b contextGraphId currentEpoch epochs value
  let produced ← w.produced.addEpochProducedKnowledgeValue identityId currentEpoch value
  pure { w with values := values, produced := produced }

def verifyPublisher (identityId digest r vs : ℕ) : Tx Unit := do
  let _ ← _verifySignature env.keccak256 env.tryRecover env.identityStorage env.nodeStakeV10
    identityId (env.ethSigned digest) r vs
  pure ()

def verifyAcks (identityIds : List ℕ) (digest : ℕ) (r vs : List ℕ) : Tx Unit :=
  _verifySignatures env.keccak256 env.tryRecover env.identityStorage env.nodeStakeV10
    env.minimumRequiredSignatures identityIds (env.ethSigned digest) r vs

/-- `_executePublishCore`. Returns the current epoch and the id of the collection. -/
def _executePublishCore (sender : ℕ) (p : PublishParams) : Tx (ℕ × ℕ × AssetsWorld) := do
  verifyPublisher env p.publisherNodeIdentityId (env.keccakPacked
    [env.chainid, env.address, p.publisherNodeIdentityId, p.contextGraphId, p.merkleRoot])
    p.publisherNodeR p.publisherNodeVS
  verifyAcks env p.identityIds (env.keccakPacked
    [env.chainid, env.address, p.contextGraphId, p.merkleRoot, p.knowledgeAssetsAmount,
      p.byteSize, p.epochs, p.tokenAmount, p.merkleLeafCount]) p.r p.vs
  require (p.contextGraphId ≠ 0) .zeroContextGraphId
  require (p.epochs ≠ 0) .zeroEpochs
  _validateTokenAmount c b env p.byteSize p.epochs p.tokenAmount false
  require (env.isAuthorizedPublisher p.contextGraphId sender = true) .unauthorizedPublisher
  let currentEpoch := uint40 (c.getCurrentEpoch b)
  let endEpoch ← addUint 40 currentEpoch p.epochs
  let created ← w.kcs.createKnowledgeCollection b sender p.merkleRoot p.knowledgeAssetsAmount
    p.byteSize currentEpoch endEpoch p.tokenAmount p.isImmutable p.merkleLeafCount
  let w := { w with kcs := created.2 }
  let w ← registerKnowledgeCollection env w p.contextGraphId created.1
  let w ← addValue c b w p.contextGraphId p.publisherNodeIdentityId currentEpoch p.epochs
    p.tokenAmount
  pure (currentEpoch, created.1, w)

/-- `publish`, paid by the sender's conviction account. Returns the id, and what was covered. -/
def publish (sender : ℕ) (p : PublishParams) : Tx (ℕ × AssetsWorld × CostCovered) := do
  let core ← _executePublishCore c b env w sender p
  let w := core.2.2
  let covered ← w.nft.coverPublishingCost c b w.kav10 env.address sender p.tokenAmount
  pure (core.2.1, { w with nft := covered.1 }, covered.2)

/-- The pull and the distribution of `publishDirect` and `updateDirect`. -/
def payDirect (sender tokenAmount paymaster epochs currentEpoch : ℕ) :
    Tx (AssetsWorld × List Deposit) := do
  let trac ← _addTokens env w.trac sender tokenAmount paymaster
  let pools ← _distributeTokens c b w.es tokenAmount epochs currentEpoch
  pure ({ w with trac := trac, es := pools.1 }, pools.2)

def publishDirect (sender : ℕ) (p : PublishParams) (paymaster : ℕ) :
    Tx (ℕ × AssetsWorld × List Deposit) := do
  let core ← _executePublishCore c b env w sender p
  let paid ← payDirect c b env core.2.2 sender p.tokenAmount paymaster p.epochs core.1
  pure (core.2.1, paid)

/-! ## Extending -/

def extendKnowledgeCollectionLifetime (sender id epochs tokenAmount paymaster : ℕ) :
    Tx (AssetsWorld × List Deposit) := do
  let kc := w.kcs.knowledgeCollections id
  let endEpoch := kc.endEpoch
  require (¬ c.getCurrentEpoch b > endEpoch) .knowledgeCollectionExpired
  let newEndEpoch ← addUint 40 endEpoch epochs
  let newTokenAmount ← addUint 96 kc.tokenAmount tokenAmount
  let kcs ← (w.kcs.setEndEpoch id newEndEpoch).setTokenAmount id newTokenAmount
  _validateTokenAmount c b env kc.byteSize epochs tokenAmount false
  let pools ← addToPool c b w.es endEpoch newEndEpoch tokenAmount
  let trac ← _addTokens env w.trac sender tokenAmount paymaster
  -- a collection from before the context graphs has none, and no value is written for it
  let values ← (if epochs > 0 ∧ tokenAmount > 0 ∧ w.kcToContextGraph id ≠ 0 then
      w.values.addCGValueForEpochRange c b (w.kcToContextGraph id) endEpoch epochs tokenAmount
    else pure w.values)
  pure ({ w with kcs := kcs, es := pools.1, trac := trac, values := values }, pools.2)

/-! ## Updating -/

/-- The policy branch of `_executeUpdateCore`. -/
def requireUpdater (contextGraphId sender id : ℕ) : Tx Unit :=
  if env.publishPolicy contextGraphId = 1 then do
    let originalPublisher ← w.kcs.getMerkleRootPublisherByIndex id 0
    require (sender = originalPublisher) .unauthorizedPublisher
  else require (env.isAuthorizedPublisher contextGraphId sender = true) .unauthorizedPublisher

/-- `_executeUpdateCore`. Returns the difference of the token amounts, the remaining epochs and
the current epoch. -/
def _executeUpdateCore (sender : ℕ) (p : UpdateParams) : Tx (ℕ × ℕ × ℕ × AssetsWorld) := do
  let kc := w.kcs.knowledgeCollections p.id
  require (¬ kc.isImmutable = true) .cannotUpdateImmutableKnowledgeCollection
  let currentEpoch := uint40 (c.getCurrentEpoch b)
  require (¬ currentEpoch > kc.endEpoch) .knowledgeCollectionExpired
  let remainingEpochs ← subUint kc.endEpoch currentEpoch
  let contextGraphId := w.kcToContextGraph p.id
  require (contextGraphId ≠ 0) .missingContextGraphBinding
  verifyPublisher env p.publisherNodeIdentityId (env.keccakPacked
    [env.chainid, env.address, p.publisherNodeIdentityId, contextGraphId, p.newMerkleRoot])
    p.publisherNodeR p.publisherNodeVS
  verifyAcks env p.identityIds (env.keccakPacked
    [env.chainid, env.address, contextGraphId, p.id, kc.merkleRoots.length, p.newMerkleRoot,
      p.newByteSize, p.newTokenAmount, p.mintKnowledgeAssetsAmount,
      env.keccakPacked p.knowledgeAssetsToBurn, p.newMerkleLeafCount]) p.r p.vs
  require (¬ p.newTokenAmount < kc.tokenAmount) .cannotShrinkTokenAmount
  let deltaTokenAmount ← subUint p.newTokenAmount kc.tokenAmount
  require (¬ (remainingEpochs = 0 ∧ (deltaTokenAmount > 0 ∨ p.newByteSize > kc.byteSize)))
    .noRemainingLifetimeForDelta
  (if p.newByteSize > kc.byteSize then
    _validateTokenAmount c b env (p.newByteSize - kc.byteSize) remainingEpochs deltaTokenAmount
      false
  else pure ())
  requireUpdater env w contextGraphId sender p.id
  let kcs ← w.kcs.updateKnowledgeCollection b sender p.id p.newMerkleRoot
    p.mintKnowledgeAssetsAmount p.knowledgeAssetsToBurn p.newByteSize p.newTokenAmount
    p.newMerkleLeafCount
  let w := { w with kcs := kcs }
  let w ← (if deltaTokenAmount > 0 then
      addValue c b w contextGraphId p.publisherNodeIdentityId currentEpoch remainingEpochs
        deltaTokenAmount
    else pure w)
  pure (deltaTokenAmount, remainingEpochs, currentEpoch, w)

/-- `update`, paid by the sender's conviction account; an update that adds nothing is free. -/
def update (sender : ℕ) (p : UpdateParams) : Tx (AssetsWorld × Option CostCovered) := do
  let core ← _executeUpdateCore c b env w sender p
  let w := core.2.2.2
  if core.1 > 0 then do
    let covered ← w.nft.coverPublishingCost c b w.kav10 env.address sender core.1
    pure ({ w with nft := covered.1 }, some covered.2)
  else pure (w, none)

def updateDirect (sender : ℕ) (p : UpdateParams) (paymaster : ℕ) :
    Tx (AssetsWorld × List Deposit) := do
  let core ← _executeUpdateCore c b env w sender p
  if core.1 > 0 then
    payDirect c b env core.2.2.2 sender core.1 paymaster core.2.1 core.2.2.1
  else pure (core.2.2.2, [])

end KnowledgeAssetsV10

/-! ## Runs -/

/-- A transaction: of this contract, of the conviction accounts, or a TRAC transfer between two
holders. -/
inductive AssetsOp
  | publish (env : AssetsEnv) (sender : ℕ) (p : PublishParams)
  | publishDirect (env : AssetsEnv) (sender : ℕ) (p : PublishParams) (paymaster : ℕ)
  | update (env : AssetsEnv) (sender : ℕ) (p : UpdateParams)
  | updateDirect (env : AssetsEnv) (sender : ℕ) (p : UpdateParams) (paymaster : ℕ)
  | extendKnowledgeCollectionLifetime (env : AssetsEnv)
      (sender id epochs tokenAmount paymaster : ℕ)
  | conviction (op : ConvictionOp)
  | transfer (sender receiver amount : ℕ)

/-- What a transaction did: TRAC that reached the vault for a collection, a cost that a conviction
account covered for one, TRAC that reached the vault for a conviction account, and a deposit into
the pools. -/
inductive AssetsEvent
  | pulled (kcId amount : ℕ)
  | covered (kcId : ℕ) (cost : CostCovered)
  | committed (amount : ℕ)
  | deposited (deposit : Deposit)

def ConvictionOp.byHolders : ConvictionOp → Bool
  | .coverPublishingCost .. => false
  | .otherTransactions .. => false
  | _ => true

/-- `token.transfer(receiver, amount)`. -/
def Trac.transfer (t : Trac) (sender receiver amount : ℕ) : Tx Trac := do
  require (amount ≤ t.balanceOf sender) .insufficientBalance
  let balanceOf := update t.balanceOf sender (t.balanceOf sender - amount)
  pure { t with balanceOf := update balanceOf receiver (balanceOf receiver + amount) }

namespace AssetsOp

variable (c : Chronos) (b : Block) (w : AssetsWorld)

/-- The TRAC that reached the vault between two states. -/
def received (w w' : AssetsWorld) : ℕ := w'.trac.vault - w.trac.vault

/-- The events of a direct payment for the collection `kcId`. -/
def direct (kcId : ℕ) (w' : AssetsWorld) (deposits : List Deposit) : List AssetsEvent :=
  .pulled kcId (received w w') :: deposits.map .deposited

def coveredEvents (kcId : ℕ) : Option CostCovered → List AssetsEvent
  | none => []
  | some cost => [.covered kcId cost]

def creditEvents : ConvictionEvent → List AssetsEvent
  | .credited _ deposit => [.deposited deposit]
  | _ => []

/-- The transaction, and the events it leaves. -/
def run : AssetsOp → Tx (AssetsWorld × List AssetsEvent)
  | publish env sender p => do
      let out ← KnowledgeAssetsV10.publish c b env w sender p
      pure (out.2.1, coveredEvents out.1 (some out.2.2))
  | publishDirect env sender p paymaster => do
      let out ← KnowledgeAssetsV10.publishDirect c b env w sender p paymaster
      pure (out.2.1, direct w out.1 out.2.1 out.2.2)
  | update env sender p => do
      let out ← KnowledgeAssetsV10.update c b env w sender p
      pure (out.1, coveredEvents p.id out.2)
  | updateDirect env sender p paymaster => do
      let out ← KnowledgeAssetsV10.updateDirect c b env w sender p paymaster
      pure (out.1, direct w p.id out.1 out.2)
  | extendKnowledgeCollectionLifetime env sender id epochs tokenAmount paymaster => do
      let out ← KnowledgeAssetsV10.extendKnowledgeCollectionLifetime c b env w sender id epochs
        tokenAmount paymaster
      pure (out.1, direct w id out.1 out.2)
  | conviction op => do
      require (op.byHolders = true) .onlyKnowledgeAssetsV10
      let out ← op.run c b w.toConvictionWorld
      let w' := { w with toConvictionWorld := out.1 }
      pure (w', .committed (received w w') :: out.2.flatMap creditEvents)
  | transfer sender receiver amount => do
      let trac ← w.trac.transfer sender receiver amount
      pure ({ w with trac := trac }, [])

/-- The paths without a conviction account. -/
def Direct : AssetsOp → Prop
  | publishDirect .. | updateDirect .. | extendKnowledgeCollectionLifetime .. | transfer .. => True
  | _ => False

instance : (op : AssetsOp) → Decidable op.Direct
  | publishDirect .. | updateDirect .. | extendKnowledgeCollectionLifetime .. | transfer .. =>
    isTrue trivial
  | publish .. | update .. | conviction .. => isFalse id

/-- The paths that a conviction account pays. -/
def ByConviction : AssetsOp → Prop
  | publish .. => True
  | update .. => True
  | _ => False

end AssetsOp

/-- The storage, the timestamp of the last transaction, and the log. -/
structure AssetsState where
  world : AssetsWorld
  now : ℕ
  log : List AssetsEvent

/-- A successful transaction, at a block not before the last one. -/
def assetsStep (c : Chronos) (s : AssetsState) (l : Block × AssetsOp) (s' : AssetsState) : Prop :=
  s.now ≤ l.1.timestamp ∧ s'.now = l.1.timestamp ∧
    ∃ events, l.2.run c l.1 s.world = .ok (s'.world, events) ∧ s'.log = s.log ++ events

/-- The step as a function. -/
def assetsExec (c : Chronos) (s : AssetsState) (l : Block × AssetsOp) : Tx AssetsState :=
  if s.now ≤ l.1.timestamp then do
    let out ← l.2.run c l.1 s.world
    pure ⟨out.1, l.1.timestamp, s.log ++ out.2⟩
  else .error .abiDecode

lemma assetsStep_of_exec (c : Chronos) (s : AssetsState) (l : Block × AssetsOp)
    (s' : AssetsState) (hexec : assetsExec c s l = .ok s') : assetsStep c s l s' := by
  unfold assetsExec at hexec
  split at hexec
  next hle =>
    obtain ⟨out, hrun, rfl⟩ := of_bind_pure hexec
    exact ⟨hle, rfl, out.2, hrun, rfl⟩
  next => cases hexec

/-- No set of holders has, with the vault, more than the supply. -/
def Trac.Supplied (t : Trac) (supply : ℕ) : Prop :=
  ∀ holders : Finset ℕ, t.vault + ∑ account ∈ holders, t.balanceOf account ≤ supply

/-- Freshly deployed contracts. The supply of TRAC, five hundred million with 18 decimals, is far
below `2^95`. -/
structure AssetsWorld.Fresh (w : AssetsWorld) : Prop where
  nft : w.nft = PublishingConvictionNFT.initialized
  es : w.es = EpochStorage.empty
  kcs : ∃ maxSize, w.kcs = KnowledgeCollectionStorage.empty maxSize
  values : w.values = ContextGraphValueStorage.empty
  bindings : w.kcToContextGraph = fun _ => 0
  supply : ∃ supply, supply < 2 ^ 95 ∧ w.trac.Supplied supply

/-- The contracts as deployed with the clock `c`, and their runs. -/
def assetsMachine (c : Chronos) : Machine AssetsState (Block × AssetsOp) where
  init s := s.world.Fresh ∧ s.log = []
  step := assetsStep c

end Dkg
