import Dkg.AsyncLift.Failures
import Mathlib

/-! # Lift jobs

The record of a lift job and the functions that make a new record from an old one: a transition with
partial data (`mergeJob`), a reset to `accepted`, and the end that recovery finds on the chain.
`assertJobMatchesStatus` says which metadata a status needs.
-/

namespace Dkg.AsyncLift

open Lib LiftJobState

/-! ## Records -/

inductive LiftTransitionType
  | create | mutate | revoke
  deriving DecidableEq

inductive LiftAuthorityType
  | owner | multisig | quorum | capability
  deriving DecidableEq

structure LiftAuthorityProof where
  type : LiftAuthorityType
  proofRef : Term
  deriving DecidableEq

structure LiftRequest where
  (swmId shareOperationId : Term)
  roots : List Term
  (contextGraphId namespaceName scope : Term)
  transitionType : LiftTransitionType
  authority : LiftAuthorityProof
  priorVersion : Option Term
  deriving DecidableEq

structure LiftJobTimestamps where
  acceptedAt : ℕ
  claimedAt : Option ℕ := none
  validatedAt : Option ℕ := none
  broadcastAt : Option ℕ := none
  includedAt : Option ℕ := none
  finalizedAt : Option ℕ := none
  failedAt : Option ℕ := none
  lastRetriedAt : Option ℕ := none
  nextRetryAt : Option ℕ := none
  lastRecoveredAt : Option ℕ := none
  updatedAt : ℕ
  deriving DecidableEq

structure LiftJobRetryMetadata where
  (retryCount maxRetries : ℕ)
  lastRetryReason : Option Term := none
  deriving DecidableEq

inductive RecoveryAction
  | resetToAccepted | finalizedFromChain
  deriving DecidableEq

structure LiftJobRecoveryMetadata where
  action : RecoveryAction
  recoveredFromStatus : LiftJobState
  txHashChecked : Option Term
  deriving DecidableEq

structure LiftJobClaimMetadata where
  walletId : Term
  claimedBy : Option Term := none
  claimToken : Option Term := none
  claimLeaseExpiresAt : Option ℕ := none
  deriving DecidableEq

structure LiftJobValidationMetadata where
  canonicalRoots : List Term
  canonicalRootMap : List (Term × Term)
  swmQuadCount : ℕ
  authorityProofRef : Term
  transitionType : LiftTransitionType
  priorVersion : Option Term
  deriving DecidableEq

structure LiftJobBroadcastMetadata where
  (txHash walletId : Term)
  merkleRoot : Option Term := none
  publicByteSize : Option ℕ := none
  deriving DecidableEq

structure LiftJobInclusionMetadata where
  txHash : Term
  blockNumber : ℕ
  blockHash : Option Term := none
  blockTimestamp : Option ℕ := none
  deriving DecidableEq

inductive FinalizationMode
  | published | noop
  deriving DecidableEq

structure LiftJobFinalizationMetadata where
  mode : Option FinalizationMode := none
  txHash : Option Term := none
  ual : Option Term := none
  batchId : Option ℕ := none
  startKAId : Option ℕ := none
  endKAId : Option ℕ := none
  publisherAddress : Option Term := none
  deriving DecidableEq

structure LiftJobControlPlaneRefs where
  jobRef : Option Term := none
  walletLockRef : Option Term := none
  deriving DecidableEq

/-- The record of a lift job. -/
structure LiftJob where
  (jobId jobSlug : Term)
  request : LiftRequest
  status : LiftJobState
  timestamps : LiftJobTimestamps
  retries : LiftJobRetryMetadata
  claim : Option LiftJobClaimMetadata := none
  validation : Option LiftJobValidationMetadata := none
  broadcast : Option LiftJobBroadcastMetadata := none
  inclusion : Option LiftJobInclusionMetadata := none
  finalization : Option LiftJobFinalizationMetadata := none
  failure : Option LiftJobFailureMetadata := none
  recovery : Option LiftJobRecoveryMetadata := none
  controlPlane : Option LiftJobControlPlaneRefs := none
  deriving DecidableEq

/-- `Partial<LiftJob>`, without `status`; an optional field may be there and undefined. -/
structure PartialLiftJob where
  jobId : Option Term := none
  jobSlug : Option Term := none
  request : Option LiftRequest := none
  timestamps : Option LiftJobTimestamps := none
  retries : Option LiftJobRetryMetadata := none
  claim : Option (Option LiftJobClaimMetadata) := none
  validation : Option (Option LiftJobValidationMetadata) := none
  broadcast : Option (Option LiftJobBroadcastMetadata) := none
  inclusion : Option (Option LiftJobInclusionMetadata) := none
  finalization : Option (Option LiftJobFinalizationMetadata) := none
  failure : Option (Option LiftJobFailureMetadata) := none
  recovery : Option (Option LiftJobRecoveryMetadata) := none
  controlPlane : Option (Option LiftJobControlPlaneRefs) := none

def jobSubject (jobId : Term) : Term := "urn:dkg:publisher:lift-job:".toList ++ jobId

def walletLockSubject (walletId : Term) : Term :=
    "urn:dkg:publisher:wallet-lock:".toList ++ walletId

/-! ## Slugs -/

/-- The characters of `[a-z0-9]`. -/
def isSlugChar (c : Char) : Bool := c.isLower || c.isDigit

/-- Every run of other characters becomes a dash. -/
def dashed : Term → Term
  | [] => []
  | c :: rest =>
    if isSlugChar c then c :: dashed rest
    else
      match dashed rest with
      | '-' :: rest => '-' :: rest
      | rest => '-' :: rest

def slugPart (value : Term) : Term :=
  let ends := (dashed (toLowerCase (trim value))).dropWhile (· = '-')
  let normalized := (ends.reverse.dropWhile (· = '-')).reverse
  if normalized = [] then "unknown".toList else normalized

def rootTail (value : Term) : Term :=
  slugPart ((trim value).reverse.takeWhile fun c => c ≠ '/' && c ≠ ':').reverse

def createRootRangeSlug (roots : List Term) : Term :=
  if roots = [] then "no-roots".toList
  else
    match ((roots.map rootTail).filter (· ≠ [])).insertionSort (· ≤ ·) with
    | [] => "no-roots".toList
    | [one] => one
    | [one, two] => one ++ ['-'] ++ two
    | first :: rest =>
      first ++ ['-'] ++ rest.getLastD [] ++ "-plus-".toList ++ Nat.toDigits 10 (rest.length - 1)

def LiftTransitionType.name : LiftTransitionType → Term
  | .create => "CREATE".toList
  | .mutate => "MUTATE".toList
  | .revoke => "REVOKE".toList

def createJobSlug (request : LiftRequest) : Term :=
  ['/'].intercalate ([slugPart request.contextGraphId, slugPart request.scope,
    toLowerCase request.transitionType.name, slugPart request.shareOperationId,
    createRootRangeSlug request.roots].filter (· ≠ []))

/-! ## Transitions -/

/-- The time of the status is kept if there is one. -/
def stamped (status target : LiftJobState) (time : Option ℕ) (now : ℕ) : Option ℕ :=
  if status = target then some (time.getD now) else time

/-- `{ ...current, ...data.timestamps, updatedAt: now }`, and the time of the new status. -/
def mergeTimestamps (current : LiftJobTimestamps) (status : LiftJobState)
    (data : Option LiftJobTimestamps) (now : ℕ) : LiftJobTimestamps where
  acceptedAt := (data.map (·.acceptedAt)).getD current.acceptedAt
  claimedAt := stamped status claimed ((data.bind (·.claimedAt)).or current.claimedAt) now
  validatedAt := stamped status validated ((data.bind (·.validatedAt)).or current.validatedAt) now
  broadcastAt := stamped status broadcast ((data.bind (·.broadcastAt)).or current.broadcastAt) now
  includedAt := stamped status included ((data.bind (·.includedAt)).or current.includedAt) now
  finalizedAt := stamped status finalized ((data.bind (·.finalizedAt)).or current.finalizedAt) now
  failedAt := stamped status failed ((data.bind (·.failedAt)).or current.failedAt) now
  lastRetriedAt := (data.bind (·.lastRetriedAt)).or current.lastRetriedAt
  nextRetryAt := (data.bind (·.nextRetryAt)).or current.nextRetryAt
  lastRecoveredAt := (data.bind (·.lastRecoveredAt)).or current.lastRecoveredAt
  updatedAt := now

/-- `{ ...current, ...data, status, timestamps }`. -/
def mergedJob (current : LiftJob) (status : LiftJobState) (data : PartialLiftJob) (now : ℕ) :
    LiftJob where
  jobId := data.jobId.getD current.jobId
  jobSlug := data.jobSlug.getD current.jobSlug
  request := data.request.getD current.request
  status := status
  timestamps := mergeTimestamps current.timestamps status data.timestamps now
  retries := data.retries.getD current.retries
  claim := data.claim.getD current.claim
  validation := data.validation.getD current.validation
  broadcast := data.broadcast.getD current.broadcast
  inclusion := data.inclusion.getD current.inclusion
  finalization := data.finalization.getD current.finalization
  failure := data.failure.getD current.failure
  recovery := data.recovery.getD current.recovery
  controlPlane := data.controlPlane.getD current.controlPlane

def mergeJob (current : LiftJob) (status : LiftJobState) (data : PartialLiftJob) (now : ℕ) :
    Except Term LiftJob := do
  if current.status ≠ status then assertLiftJobTransition current.status status
  pure (mergedJob current status data now)

/-- What `assertJobMatchesStatus` throws, if anything. -/
def assertJobMatchesStatus (job : LiftJob) : Except Term Unit :=
  match job.status with
  | .accepted => .ok ()
  | .claimed =>
    if job.claim.isNone then .error "Claimed LiftJob requires claim metadata".toList else .ok ()
  | .validated =>
    if job.claim.isNone || job.validation.isNone then
      .error "Validated LiftJob requires claim and validation metadata".toList
    else .ok ()
  | .broadcast =>
    if job.claim.isNone || job.validation.isNone || job.broadcast.isNone then
      .error "Broadcast LiftJob requires claim, validation, and broadcast metadata".toList
    else .ok ()
  | .included =>
    if job.claim.isNone || job.validation.isNone || job.broadcast.isNone ||
        job.inclusion.isNone then
      .error ("Included LiftJob requires claim, validation, broadcast, " ++
        "and inclusion metadata").toList
    else .ok ()
  | .finalized =>
    if job.claim.isNone || job.validation.isNone || job.finalization.isNone then
      .error "Finalized LiftJob requires claim, validation, and finalization metadata".toList
    else if (job.finalization.bind (·.mode)) ≠ some .noop &&
        (job.broadcast.isNone || job.inclusion.isNone) then
      .error "Published finalized LiftJob requires broadcast and inclusion metadata".toList
    else .ok ()
  | .failed =>
    if job.failure.isNone then .error "Failed LiftJob requires failure metadata".toList else .ok ()

/-- The statuses of a job that some wallet is at work on. -/
def LiftJobState.Active (status : LiftJobState) : Prop :=
  status ∈ [claimed, validated, broadcast, included]
  deriving Decidable

def refreshActiveLease (job : LiftJob) (lockLeaseMs now : ℕ) : LiftJob :=
  match job.claim with
  | none => job
  | some claim =>
    if job.status.Active then
      { job with
        claim := some { claim with claimLeaseExpiresAt := some (now + lockLeaseMs) }
        timestamps := { job.timestamps with updatedAt := now } }
    else job

def buildClaimedJob (job : LiftJob) (walletId claimToken : Term)
    (now lockExpiresAt : ℕ) : LiftJob :=
  { job with
    claim := some {
      job.claim.getD { walletId := walletId } with
      walletId := walletId
      claimToken := some claimToken
      claimLeaseExpiresAt := some lockExpiresAt }
    controlPlane := some {
      job.controlPlane.getD {} with walletLockRef := some (walletLockSubject walletId) }
    timestamps := { job.timestamps with claimedAt := some now, updatedAt := now } }

def getRecoveryTxHash (job : LiftJob) : Option Term := job.broadcast.map (·.txHash)

def resetJobToAccepted (job : LiftJob) (recoveredFromStatus : LiftJobState)
    (txHashChecked : Option Term) (now : ℕ) : LiftJob where
  jobId := job.jobId
  jobSlug := job.jobSlug
  request := job.request
  status := accepted
  timestamps := {
    acceptedAt := job.timestamps.acceptedAt, lastRecoveredAt := some now, updatedAt := now }
  retries := job.retries
  recovery := some ⟨.resetToAccepted, recoveredFromStatus, txHashChecked⟩
  controlPlane := job.controlPlane

def resetFailedJobToAccepted (job : LiftJob) (failure : LiftJobFailureMetadata) (now : ℕ) :
    LiftJob where
  jobId := job.jobId
  jobSlug := job.jobSlug
  request := job.request
  status := accepted
  timestamps := {
    acceptedAt := job.timestamps.acceptedAt
    lastRecoveredAt := some now
    updatedAt := now
    lastRetriedAt := some now }
  retries := job.retries
  recovery :=
    if failure.failedFromState ∈ [claimed, validated, broadcast] then
      some ⟨.resetToAccepted, failure.failedFromState, getRecoveryTxHash job⟩
    else none
  controlPlane := job.controlPlane

/-- The job that `retry` writes. -/
def retriedJob (job : LiftJob) (failure : LiftJobFailureMetadata) (now : ℕ) : LiftJob :=
  let reset := resetFailedJobToAccepted job failure now
  { reset with
    retries := {
      reset.retries with
      retryCount := job.retries.retryCount + 1
      lastRetryReason := some failure.code.name }
    timestamps := { reset.timestamps with lastRetriedAt := some now, updatedAt := now } }

def finalizeRecoveredJob (job : LiftJob) (inclusion : LiftJobInclusionMetadata)
    (finalization : LiftJobFinalizationMetadata) (now : ℕ) : Except Term LiftJob :=
  match job.broadcast with
  | none => .error "Cannot read properties of undefined (reading 'txHash')".toList
  | some sent => .ok {
      job with
      status := finalized
      inclusion := some inclusion
      finalization := some finalization
      recovery := some ⟨.finalizedFromChain, job.status, some sent.txHash⟩
      timestamps := {
        job.timestamps with
        failedAt := none
        includedAt := some (job.timestamps.includedAt.getD now)
        finalizedAt := some now
        lastRecoveredAt := some now
        updatedAt := now } }

/-- A failed job as it was before recovery gave up. -/
def recoverableJob (job : LiftJob) (failure : LiftJobFailureMetadata) : LiftJob :=
  { job with
    failure := none
    status := if failure.failedFromState = included then included else broadcast }

def hasInconclusiveRecoveryTimedOut (job : LiftJob) (recoveryLookupTimeoutMs now : ℕ) : Bool :=
  let startedAt :=
    (job.timestamps.includedAt.or job.timestamps.broadcastAt).getD job.timestamps.updatedAt
  startedAt + recoveryLookupTimeoutMs ≤ now

def failInconclusiveRecovery (job : LiftJob) (recoveryLookupTimeoutMs now : ℕ) :
    Except Term LiftJob := do
  let failure ← createLiftJobFailureMetadata {
    failedFromState := job.status
    code := .recoveryLookupTimeout
    message := "Chain recovery remained inconclusive for ".toList ++
      Nat.toDigits 10 recoveryLookupTimeoutMs ++ "ms after ".toList ++ job.status.name
    errorPayloadRef := "urn:dkg:publisher:error:".toList ++ job.jobId ++
      ":recovery-timeout".toList
    timeout := some ⟨recoveryLookupTimeoutMs, now, .retryRecovery⟩ }
  mergeJob job failed { failure := some (some failure) } now

/-! ## Results of the executor -/

inductive PublishStatus
  | tentative | confirmed | failed
  deriving DecidableEq

structure OnChainPublishResult where
  batchId : ℕ
  (startKAId endKAId : Option ℕ)
  txHash : Term
  (blockNumber blockTimestamp : ℕ)
  publisherAddress : Term

/-- `merkleRoot` is its hexadecimal text. -/
structure PublishResult where
  (ual merkleRoot : Term)
  status : PublishStatus
  onChainResult : Option OnChainPublishResult

def PublishStatus.name : PublishStatus → Term
  | .tentative => "tentative".toList
  | .confirmed => "confirmed".toList
  | .failed => "failed".toList

structure AsyncLiftPublishSuccess where
  status : LiftJobState
  broadcast : LiftJobBroadcastMetadata
  inclusion : LiftJobInclusionMetadata
  finalization : Option LiftJobFinalizationMetadata

def mapPublishResultToLiftJobSuccess (publishResult : PublishResult) (walletId : Term)
    (publicByteSize : Option ℕ) : Except Term AsyncLiftPublishSuccess :=
  match publishResult.onChainResult with
  | none => .error ("Canonical publish returned status ".toList ++ publishResult.status.name ++
      (" without onChainResult. Async lift can only map results that include chain " ++
        "submission/finality details. Check chain configuration, publisher wallet, " ++
        "and canonical publish behavior.").toList)
  | some onChain =>
    let broadcast := ⟨onChain.txHash, walletId, some publishResult.merkleRoot, publicByteSize⟩
    let inclusion := {
      txHash := onChain.txHash
      blockNumber := onChain.blockNumber
      blockTimestamp := some onChain.blockTimestamp }
    match publishResult.status with
    | .tentative => .ok ⟨included, broadcast, inclusion, none⟩
    | .confirmed => .ok ⟨finalized, broadcast, inclusion, some {
        mode := some .published
        txHash := some onChain.txHash
        ual := some publishResult.ual
        batchId := some onChain.batchId
        startKAId := onChain.startKAId
        endKAId := onChain.endKAId
        publisherAddress := some onChain.publisherAddress }⟩
    | .failed => .error
        "Async lift publish result cannot map failed canonical publish into success state".toList

/-! ## What the functions give -/

variable {current next job : LiftJob} {status : LiftJobState} {data : PartialLiftJob} {now : ℕ}

lemma mergeJob_ok (h : mergeJob current status data now = .ok next) :
    (current.status = status ∨ canTransitionLiftJob current.status status = true) ∧
      next = mergedJob current status data now := by
  by_cases hsame : current.status = status
  · simp only [mergeJob, hsame, ne_eq, not_true_eq_false, if_false] at h
    cases h
    exact ⟨.inl hsame, rfl⟩
  · unfold mergeJob assertLiftJobTransition at h
    rw [if_pos hsame] at h
    by_cases hcan : canTransitionLiftJob current.status status = true
    · rw [if_pos hcan] at h
      cases h
      exact ⟨.inr hcan, rfl⟩
    · rw [if_neg hcan] at h
      cases h

lemma finalizeRecoveredJob_ok {inclusion : LiftJobInclusionMetadata}
    {finalization : LiftJobFinalizationMetadata}
    (h : finalizeRecoveredJob job inclusion finalization now = .ok next) :
    next.jobId = job.jobId ∧ next.jobSlug = job.jobSlug ∧ next.request = job.request ∧
      next.timestamps.acceptedAt = job.timestamps.acceptedAt ∧ next.retries = job.retries ∧
      next.status = finalized ∧ next.claim = job.claim ∧ next.validation = job.validation ∧
      next.broadcast.isSome ∧ next.inclusion = some inclusion ∧
      next.finalization = some finalization := by
  unfold finalizeRecoveredJob at h
  split at h
  next => cases h
  next sent hsent =>
    cases h
    exact ⟨rfl, rfl, rfl, rfl, rfl, rfl, rfl, rfl, by simp [hsent], rfl, rfl⟩

lemma failInconclusiveRecovery_ok {timeoutMs : ℕ}
    (h : failInconclusiveRecovery job timeoutMs now = .ok next) :
    ∃ failure : LiftJobFailureMetadata, failure.resolution = .retryRecovery ∧
      mergeJob job failed { failure := some (some failure) } now = .ok next := by
  unfold failInconclusiveRecovery at h
  cases hfailure : createLiftJobFailureMetadata {
      failedFromState := job.status
      code := .recoveryLookupTimeout
      message := "Chain recovery remained inconclusive for ".toList ++
        Nat.toDigits 10 timeoutMs ++ "ms after ".toList ++ job.status.name
      errorPayloadRef := "urn:dkg:publisher:error:".toList ++ job.jobId ++
        ":recovery-timeout".toList
      timeout := some ⟨timeoutMs, now, .retryRecovery⟩ } with
  | error e =>
    rw [hfailure] at h
    cases h
  | ok failure =>
    rw [hfailure] at h
    exact ⟨failure, (createLiftJobFailureMetadata_ok hfailure).2.2, h⟩

end Dkg.AsyncLift
