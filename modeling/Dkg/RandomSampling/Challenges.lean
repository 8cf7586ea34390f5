import Dkg.Merkle.V10MerkleTree
import Dkg.Staking.System

/-! # Challenges and proof periods

The part of `RandomSampling.sol` in front of the scores: proof periods, challenges, and the
acceptance of a proof. The periods are counted in blocks. Nothing advances them by itself: every
call moves the start of the active period on by a whole number of periods, of the length that the
current epoch has. A node has one challenge; it stands for the period in which it was created.

The rest of `submitProof`, from the acceptance on, is `World.submitProof`.
-/

namespace Dkg

open Lib

/-- `RandomSamplingLib.ProofingPeriodDuration`. -/
structure ProofingPeriodDuration where
  (durationInBlocks effectiveEpoch : ℕ)
  deriving DecidableEq, Repr

/-- `RandomSamplingLib.Challenge`, without the address of the storage contract. -/
structure Challenge where
  (knowledgeCollectionId chunkId epoch activeProofPeriodStartBlock : ℕ)
  proofingPeriodDurationInBlocks : ℕ
  solved : Bool
  deriving DecidableEq, Repr

/-- The challenge of a node that never asked for one. -/
def Challenge.zero : Challenge := ⟨0, 0, 0, 0, 0, false⟩

/-- The periods and the challenges in `RandomSamplingStorage`. -/
structure ProofPeriods where
  proofingPeriodDurations : List ProofingPeriodDuration
  activeProofPeriodStartBlock : ℕ
  nodesChallenges : ℕ → Challenge

/-- What `RandomSampling` reads from the identities, the context graphs and the knowledge
collections, with the seed that the block gives to the sender. Collections are numbered from `1`
on, so there is none with the id `0`. -/
structure SamplingEnv where
  getIdentityId : ℕ → ℕ
  getLatestContextGraphId : ℕ
  (isContextGraphActive getIsCurated : ℕ → Bool)
  getCGValueAtEpoch : ℕ → ℕ → Tx ℕ
  contextGraphKCList : ℕ → List ℕ
  (getEndEpoch getMerkleLeafCount getLatestMerkleRoot challengeSeed : ℕ → ℕ)
  leafCount_zero : getMerkleLeafCount 0 = 0

/-- The hashes: of a seed with the number of an attempt, and of a pair of tree nodes. -/
structure SamplingHash where
  (seedAttempt pair : ℕ → ℕ → ℕ)

namespace ProofPeriods

variable (p : ProofPeriods)

/-- `getEpochProofingPeriodDurationInBlocks`: the last entry that is in effect. -/
def getEpochProofingPeriodDurationInBlocks (epoch : ℕ) : Tx ℕ :=
  match p.proofingPeriodDurations.reverse.find? fun d => decide (epoch ≥ d.effectiveEpoch) with
  | some d => pure d.durationInBlocks
  | none => .error .noApplicableDuration

def setProofingPeriodDurationInBlocks (c : Chronos) (b : Block) (durationInBlocks : ℕ) :
    Tx ProofPeriods := do
  require (durationInBlocks > 0) .zeroDurationInBlocks
  let effectiveEpoch ← addUint 256 (c.getCurrentEpoch b) 1
  match p.proofingPeriodDurations.getLast? with
  | none => .error .panic
  | some latest =>
    let new : ProofingPeriodDuration := ⟨durationInBlocks, effectiveEpoch⟩
    if c.getCurrentEpoch b < latest.effectiveEpoch then
      pure { p with proofingPeriodDurations := p.proofingPeriodDurations.dropLast ++ [new] }
    else pure { p with proofingPeriodDurations := p.proofingPeriodDurations ++ [new] }

/-- `updateAndGetActiveProofPeriodStartBlock`, in the block `number` of the epoch `epoch`. -/
def updateAndGetActiveProofPeriodStartBlock (epoch number : ℕ) : Tx (ℕ × ProofPeriods) := do
  let duration ← p.getEpochProofingPeriodDurationInBlocks epoch
  require (duration ≠ 0) .zeroActiveDuration
  let start := p.activeProofPeriodStartBlock
  let sum ← addUint 256 start duration
  let last ← subUint sum 1
  if number > last then do
    let blocksSinceLastStart ← subUint number start
    let completePeriodsPassed := blocksSinceLastStart / duration
    let passed ← mulUint 256 completePeriodsPassed duration
    let newStart ← addUint 256 start passed
    pure (newStart, { p with activeProofPeriodStartBlock := newStart })
  else pure (start, p)

def setNodeChallenge (identityId : ℕ) (challenge : Challenge) : ProofPeriods :=
  { p with nodesChallenges := Function.update p.nodesChallenges identityId challenge }

end ProofPeriods

namespace RandomSampling

def MAX_KC_RETRIES : ℕ := 10

variable (h : SamplingHash) (env : SamplingEnv)

/-- `_isCGEligible`. -/
def isCGEligible (contextGraphId : ℕ) : Bool :=
  env.isContextGraphActive contextGraphId && !env.getIsCurated contextGraphId

/-- The first walk of `_pickWeightedChallenge`, over the context graphs from `i` on. -/
def totalLoop (currentEpoch : ℕ) : ℕ → ℕ → ℕ → Tx ℕ
  | 0, _, adjustedTotal => pure adjustedTotal
  | k + 1, i, adjustedTotal =>
    if isCGEligible env i then do
      let value ← env.getCGValueAtEpoch i currentEpoch
      let adjustedTotal ← addUint 256 adjustedTotal value
      totalLoop currentEpoch k (i + 1) adjustedTotal
    else totalLoop currentEpoch k (i + 1) adjustedTotal

/-- The second walk: the first context graph at which the running value exceeds `r`, or `0`. -/
def pickLoop (currentEpoch r : ℕ) : ℕ → ℕ → ℕ → Tx ℕ
  | 0, _, _ => pure 0
  | k + 1, i, running =>
    if isCGEligible env i then do
      let value ← env.getCGValueAtEpoch i currentEpoch
      let running ← addUint 256 running value
      if running > r then pure i else pickLoop currentEpoch r k (i + 1) running
    else pickLoop currentEpoch r k (i + 1) running

/-- The retries over the collections of a context graph. Returns the collection, or `0`, and the
last seed. -/
def retryLoop (currentEpoch : ℕ) (kcs : List ℕ) : ℕ → ℕ → ℕ → ℕ × ℕ
  | 0, _, kcSeed => (0, kcSeed)
  | k + 1, attempt, kcSeed =>
    let kcSeed := h.seedAttempt kcSeed attempt
    let candidate := kcs.getD (kcSeed % kcs.length) 0
    if env.getEndEpoch candidate ≥ currentEpoch then (candidate, kcSeed)
    else retryLoop currentEpoch kcs k (attempt + 1) kcSeed

/-- `_pickWeightedChallenge`: the context graph, the collection and the leaf index. -/
def _pickWeightedChallenge (seed currentEpoch : ℕ) : Tx (ℕ × ℕ × ℕ) := do
  let adjustedTotal ← totalLoop env currentEpoch env.getLatestContextGraphId 1 0
  require (adjustedTotal ≠ 0) .noEligibleContextGraph
  let r := seed % adjustedTotal
  let cgId ← pickLoop env currentEpoch r env.getLatestContextGraphId 1 0
  require (cgId ≠ 0) .noEligibleContextGraph
  let kcs := env.contextGraphKCList cgId
  require (kcs.length ≠ 0) .noEligibleKnowledgeCollection
  let picked := retryLoop h env currentEpoch kcs MAX_KC_RETRIES 0 seed
  require (picked.1 ≠ 0) .noEligibleKnowledgeCollection
  let leafCount := env.getMerkleLeafCount picked.1
  require (leafCount ≠ 0) .noEligibleKnowledgeCollection
  pure (cgId, picked.1, picked.2 % leafCount)

section

variable (c : Chronos) (b : Block) (number : ℕ) (w : World) (p : ProofPeriods)

/-- The two modifiers of `createChallenge` and `submitProof`. -/
def checkNode (identityId : ℕ) : Tx Unit := do
  require (w.profiles.profileExists identityId = true) .profileDoesntExist
  require (w.shardingTable identityId = true) .nodeDoesntExist

def _generateChallenge (sender : ℕ) : Tx (Challenge × ProofPeriods) := do
  let currentEpoch := c.getCurrentEpoch b
  let picked ← _pickWeightedChallenge h env (env.challengeSeed sender) currentEpoch
  let updated ← p.updateAndGetActiveProofPeriodStartBlock currentEpoch number
  let duration ← updated.2.getEpochProofingPeriodDurationInBlocks currentEpoch
  pure (⟨picked.2.1, picked.2.2, currentEpoch, updated.1, duration, false⟩, updated.2)

def createChallenge (sender : ℕ) : Tx ProofPeriods := do
  let identityId := env.getIdentityId sender
  checkNode w identityId
  let nodeChallenge := p.nodesChallenges identityId
  let updated ← p.updateAndGetActiveProofPeriodStartBlock (c.getCurrentEpoch b) number
  (if nodeChallenge.activeProofPeriodStartBlock = updated.1 then do
    require (nodeChallenge.solved = false) .challengeAlreadySolved
    require (nodeChallenge.knowledgeCollectionId = 0) .unsolvedChallengeExists
  else pure ())
  let generated ← _generateChallenge h env c b number updated.2 sender
  pure (generated.2.setNodeChallenge identityId generated.1)

/-- `submitProof` up to the acceptance. Returns the start block of the period. -/
def acceptProof (sender leaf : ℕ) (merkleProof : List ℕ) : Tx (ℕ × ProofPeriods) := do
  let identityId := env.getIdentityId sender
  checkNode w identityId
  let challenge := p.nodesChallenges identityId
  require (challenge.solved = false) .alreadySolved
  let updated ← p.updateAndGetActiveProofPeriodStartBlock (c.getCurrentEpoch b) number
  require (challenge.activeProofPeriodStartBlock = updated.1) .challengeNoLongerActive
  let expectedMerkleRoot := env.getLatestMerkleRoot challenge.knowledgeCollectionId
  let leafCount := env.getMerkleLeafCount challenge.knowledgeCollectionId
  require (¬ (leafCount = 0 ∨ challenge.chunkId ≥ leafCount)) .merkleRootMismatch
  require (_verifyV10MerkleProof h.pair expectedMerkleRoot leaf challenge.chunkId merkleProof
    = true) .merkleRootMismatch
  pure (updated.1, updated.2.setNodeChallenge identityId { challenge with solved := true })

def submitProof (sender leaf : ℕ) (merkleProof : List ℕ) : Call (World × ProofPeriods) := do
  let accepted ← inside .randomSampling (acceptProof h env c b number w p sender leaf merkleProof)
  let w ← w.submitProof c b (env.getIdentityId sender) accepted.1
  pure (w, accepted.2)

end

end RandomSampling

/-! ## Runs -/

/-- A transaction. The last ones are those of the staking system; `RandomSampling.submitProof` is
the only way to its `submitProof`. -/
inductive SamplingOp
  | createChallenge (env : SamplingEnv) (sender : ℕ)
  | submitProof (env : SamplingEnv) (sender leaf : ℕ) (merkleProof : List ℕ)
  | updateAndGetActiveProofPeriodStartBlock
  | setProofingPeriodDurationInBlocks (durationInBlocks : ℕ)
  | staking (op : Op)

/-- A challenge that was created, and a proof that was accepted: the node, the start of the
period, the collection and the leaf; with a proof the epoch in which it scored. -/
inductive SamplingEvent
  | challengeCreated (identityId startBlock knowledgeCollectionId chunkId : ℕ)
  | proofAccepted (identityId startBlock knowledgeCollectionId chunkId epoch : ℕ)
  deriving DecidableEq

/-- The storage, the number of the last block, and the log. -/
structure SamplingState where
  world : World
  periods : ProofPeriods
  number : ℕ
  log : List SamplingEvent

def Op.isProof : Op → Bool
  | .submitProof .. => true
  | _ => false

namespace SamplingOp

variable (h : SamplingHash) (c : Chronos) (b : Block) (number : ℕ) (w : World) (p : ProofPeriods)

/-- The transaction, and the events it leaves. -/
def run : SamplingOp → Call (World × ProofPeriods × List SamplingEvent)
  | createChallenge env sender => do
      let p' ← inside .randomSampling (RandomSampling.createChallenge h env c b number w p sender)
      let identityId := env.getIdentityId sender
      let challenge := p'.nodesChallenges identityId
      pure (w, p', [.challengeCreated identityId p'.activeProofPeriodStartBlock
        challenge.knowledgeCollectionId challenge.chunkId])
  | submitProof env sender leaf merkleProof => do
      let out ← RandomSampling.submitProof h env c b number w p sender leaf merkleProof
      let identityId := env.getIdentityId sender
      let challenge := p.nodesChallenges identityId
      pure (out.1, out.2, [.proofAccepted identityId out.2.activeProofPeriodStartBlock
        challenge.knowledgeCollectionId challenge.chunkId (c.getCurrentEpoch b)])
  | updateAndGetActiveProofPeriodStartBlock => do
      let out ← inside .randomSampling
        (p.updateAndGetActiveProofPeriodStartBlock (c.getCurrentEpoch b) number)
      pure (w, out.2, [])
  | setProofingPeriodDurationInBlocks durationInBlocks => do
      let p' ← inside .randomSampling (p.setProofingPeriodDurationInBlocks c b durationInBlocks)
      pure (w, p', [])
  | staking op =>
    if op.isProof = true then .error ⟨.randomSampling, .abiDecode⟩
    else do
      let out ← op.run c b w
      pure (out.1, p, [])

end SamplingOp

abbrev NumberedBlock := ℕ × Block

/-- A successful transaction, in a block that is not before the last one's. -/
def samplingStep (h : SamplingHash) (c : Chronos) (s : SamplingState)
    (l : NumberedBlock × SamplingOp) (s' : SamplingState) : Prop :=
  s.number ≤ l.1.1 ∧ s'.number = l.1.1 ∧ ∃ events,
    l.2.run h c l.1.2 l.1.1 s.world s.periods = .ok (s'.world, s'.periods, events) ∧
    s'.log = s.log ++ events

/-- The step as a function. -/
def samplingExec (h : SamplingHash) (c : Chronos) (s : SamplingState)
    (l : NumberedBlock × SamplingOp) : Call SamplingState :=
  if s.number ≤ l.1.1 then do
    let out ← l.2.run h c l.1.2 l.1.1 s.world s.periods
    pure ⟨out.1, out.2.1, l.1.1, s.log ++ out.2.2⟩
  else .error ⟨.randomSampling, .abiDecode⟩

lemma samplingStep_of_samplingExec (h : SamplingHash) (c : Chronos) (s : SamplingState)
    (l : NumberedBlock × SamplingOp) (s' : SamplingState)
    (hexec : samplingExec h c s l = .ok s') : samplingStep h c s l s' := by
  unfold samplingExec at hexec
  split at hexec
  next hle =>
    obtain ⟨out, hrun, rfl⟩ := of_bind_pure hexec
    exact ⟨hle, rfl, out.2.2, hrun, rfl⟩
  next => cases hexec

/-- The contracts as deployed, with a first duration above zero, and their runs. -/
def samplingMachine (h : SamplingHash) (c : Chronos) :
    Machine SamplingState (NumberedBlock × SamplingOp) where
  init s := (∃ d, 0 < d.durationInBlocks ∧ s.periods.proofingPeriodDurations = [d]) ∧
    s.periods.activeProofPeriodStartBlock = 0 ∧
    s.periods.nodesChallenges = (fun _ => Challenge.zero) ∧ s.log = []
  step := samplingStep h c

end Dkg
