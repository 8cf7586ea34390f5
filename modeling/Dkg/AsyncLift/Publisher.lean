import Dkg.AsyncLift.ControlPlane

/-! # The async lift publisher

The methods of `TripleStoreAsyncLiftPublisher` as programs over the operations of the control plane.
The clock is read by an operation of its own.
-/

namespace Dkg.AsyncLift

open Lib LiftJobState

/-- `AsyncLiftPublisherConfig`: `notAfter` is the order of ids by `localeCompare`. -/
structure Config where
  (maxRetries recoveryLookupTimeoutMs : ℕ)
  (hasExecutor hasResolver : Bool)
  notAfter : Term → Term → Bool

def lockLeaseMs : ℕ := 5 * 60 * 1000

abbrev Program := Prog Op Answer Term

def call (op : Op) : Program (Answer op) := Prog.perform op

/-- `compareAcceptedJobs(a, b) <= 0`. -/
def Config.JobNotAfter (cfg : Config) (a b : LiftJob) : Prop :=
  a.timestamps.acceptedAt < b.timestamps.acceptedAt ∨
    a.timestamps.acceptedAt = b.timestamps.acceptedAt ∧ cfg.notAfter a.jobId b.jobId = true
  deriving Decidable

variable (cfg : Config)

/-! ## Jobs and locks -/

def list (status : Option LiftJobState) : Program (List LiftJob) := do
  let rows ← call (.list status)
  pure (rows.insertionSort cfg.JobNotAfter)

def getRequiredJob (jobId : Term) : Program LiftJob := do
  match ← call (.getStatus jobId) with
  | some job => pure job
  | none => .raise ("LiftJob not found: ".toList ++ jobId)

def writeJob (job : LiftJob) : Program Unit := do
  let _ ← call (.deleteJob job.jobId)
  let _ ← call (.insertJob job)

def writeWalletLock (lock : WalletLock) : Program Unit := do
  let _ ← call (.deleteWalletLock lock.walletId)
  let _ ← call (.insertWalletLock lock)

def lockMatchesJob (lock : CurrentLock) (job : LiftJob) : Bool :=
  if lock.jobId ≠ job.jobId then false
  else
    match job.claim.bind (·.claimToken), lock.claimToken with
    | some token, some held => token = [] || held = [] || held = token
    | _, _ => true

def releaseWalletLockForJob (job : LiftJob) : Program Unit := do
  match job.claim.map (·.walletId) with
  | none => pure ()
  | some walletId =>
    if walletId = [] then pure ()
    else
      match ← call (.readWalletLock walletId) with
      | none => pure ()
      | some currentLock =>
        if lockMatchesJob currentLock job then
          let _ ← call (.deleteWalletLock walletId)
        else pure ()

def syncWalletLockForJob (job : LiftJob) : Program Unit := do
  match job.claim with
  | none => pure ()
  | some claim =>
    if claim.walletId = [] then pure ()
    else
      let currentLock ← call (.readWalletLock claim.walletId)
      if job.status.Active then
        if currentLock.any fun lock => !lockMatchesJob lock job then pure ()
        else
          let now ← call .now
          let acquiredAt := job.timestamps.claimedAt.getD now
          writeWalletLock {
            walletId := claim.walletId
            jobId := job.jobId
            expiresAt := claim.claimLeaseExpiresAt.getD (acquiredAt + lockLeaseMs)
            status := active
            claimToken := claim.claimToken }
      else if currentLock.any fun lock => lockMatchesJob lock job then
        let _ ← call (.deleteWalletLock claim.walletId)
      else pure ()

def staleLock (row : LockRow) (job : Option LiftJob) (now : ℕ) : Bool :=
  row.expiresAt ≤ now ||
    match job with
    | none => true
    | some job =>
      job.status = accepted || job.status = failed || job.status = finalized ||
        job.claim.map (·.walletId) ≠ some row.walletId

/-- The job of a lock; an empty id counts as none. -/
def lockedJob (row : LockRow) : Program (Option LiftJob) :=
  if row.jobId = [] then pure none else call (.getStatus row.jobId)

def sweepLocks (now : ℕ) : List LockRow → Program Unit
  | [] => pure ()
  | row :: rows => do
      if row.walletId = [] then sweepLocks now rows
      else
        let job ← lockedJob row
        if staleLock row job now then
          let _ ← call (.deleteWalletLock row.walletId)
          sweepLocks now rows
        else sweepLocks now rows

def sweepStaleWalletLocks : Program Unit := do
  let now ← call .now
  let rows ← call .activeLocks
  sweepLocks now rows

/-! ## Claiming and updating -/

def lift (request : LiftRequest) (jobId : Term) : Program Unit := do
  let _ ← call .ensureGraph
  let now ← call .now
  writeJob {
    jobId := jobId
    jobSlug := createJobSlug request
    request := request
    status := accepted
    timestamps := { acceptedAt := now, updatedAt := now }
    retries := { retryCount := 0, maxRetries := cfg.maxRetries }
    controlPlane := some { jobRef := some (jobSubject jobId) } }

def withClaimLock {α : Type} (body : Program α) : Program α := do
  let previous ← call .enterClaims
  let _ ← call (.awaitClaims previous)
  body.ensuring do
    let _ ← call .leaveClaims

def claim (walletId : Term) (next : LiftJob) : Program (Option LiftJob) := do
  let now ← call .now
  let claimToken := walletId ++ [':'] ++ Nat.toDigits 10 now ++ [':'] ++ next.jobId
  let lockExpiresAt := now + lockLeaseMs
  let claimed ← Prog.ofExcept
    (mergeJob next claimed { claim := some (some { walletId := walletId }) } now)
  let claimedJob := buildClaimedJob claimed walletId claimToken now lockExpiresAt
  Prog.ofExcept (assertJobMatchesStatus claimedJob)
  writeJob claimedJob
  writeWalletLock {
    walletId := walletId
    jobId := claimedJob.jobId
    expiresAt := lockExpiresAt
    status := active
    claimToken := some claimToken }
  pure (some claimedJob)

def claimNext (walletId : Term) : Program (Option LiftJob) :=
  withClaimLock do
    let _ ← call .ensureGraph
    if ← call .isPaused then pure none
    else
      let now ← call .now
      let expiry ← call (.activeExpiry walletId)
      if expiry.any fun expiresAt => now < expiresAt then pure none
      else
        match ← list cfg (some accepted) with
        | [] => pure none
        | next :: _ => claim walletId next

/-- `mergeJob`, the check of the metadata, and the two writes. -/
def transition (current : LiftJob) (status : LiftJobState) (data : PartialLiftJob) :
    Program LiftJob := do
  let now ← call .now
  let next ← Prog.ofExcept (mergeJob current status data now)
  Prog.ofExcept (assertJobMatchesStatus next)
  writeJob next
  syncWalletLockForJob next
  pure next

def update (jobId : Term) (status : LiftJobState) (data : PartialLiftJob) : Program Unit := do
  let _ ← call .ensureGraph
  let current ← getRequiredJob jobId
  let now ← call .now
  let merged ← Prog.ofExcept (mergeJob current status data now)
  let next := refreshActiveLease merged lockLeaseMs now
  Prog.ofExcept (assertJobMatchesStatus next)
  writeJob next
  syncWalletLockForJob next

/-! ## Results and failures -/

/-- A transition that is made in one status only. -/
def transitionFrom (source : LiftJobState) (current : LiftJob) (status : LiftJobState)
    (data : PartialLiftJob) : Program LiftJob :=
  if current.status = source then transition current status data else pure current

def recordPublishResult (jobId : Term) (publishResult : PublishResult)
    (publicByteSize : Option ℕ) : Program Unit := do
  let _ ← call .ensureGraph
  let current ← getRequiredJob jobId
  match current.claim, current.validation with
  | some claim, some _ =>
    let mapped ← Prog.ofExcept
      (mapPublishResultToLiftJobSuccess publishResult claim.walletId publicByteSize)
    let broadcastData := some (some mapped.broadcast)
    let inclusionData := some (some mapped.inclusion)
    let next ← transitionFrom validated current broadcast { broadcast := broadcastData }
    if mapped.status = included then
      let _ ← transition next included { broadcast := broadcastData, inclusion := inclusionData }
    else
      let next ← transitionFrom broadcast next included {
        broadcast := broadcastData
        inclusion := inclusionData }
      let _ ← transition next finalized {
        broadcast := broadcastData
        inclusion := inclusionData
        finalization := some mapped.finalization }
  | _, _ => .raise ("LiftJob ".toList ++ jobId ++
      " must be claimed and validated before recording publish results".toList)

def recordPublishFailure (jobId : Term) (input : AsyncLiftPublishFailureInput) : Program Unit := do
  let _ ← call .ensureGraph
  let current ← getRequiredJob jobId
  let failure ← Prog.ofExcept (mapPublishExceptionToLiftJobFailure input)
  let _ ← transition current failed { failure := some (some failure) }

/-- The code of a failure before the executor is called. -/
def executionFailureCode (lower : Term) : LiftJobFailureCode :=
  if includes lower "timeout" || includes lower "timed out" || includes lower "unavailable" ||
      includes lower "query" || includes lower "store" then .workspaceUnavailable
  else if includes lower "authority" then .authorityForbidden
  else if includes lower "workspace" || includes lower "root" then .workspaceSliceNotFound
  else .canonicalizationFailed

def errorPayloadRef (jobId : Term) : Term := "urn:dkg:publisher:error:".toList ++ jobId

def recordExecutionFailure (jobId : Term) (failedFromState : LiftJobState) (message : Term) :
    Program Unit := do
  let current ← getRequiredJob jobId
  let lower := toLowerCase message
  if failedFromState = claimed ∨ failedFromState = validated then
    let failure ← Prog.ofExcept (createLiftJobFailureMetadata {
      failedFromState := failedFromState
      code := executionFailureCode lower
      message := message
      errorPayloadRef := errorPayloadRef jobId })
    let _ ← transition current failed { failure := some (some failure) }
  else
    let now ← call .now
    recordPublishFailure jobId {
      error := message
      failedFromState := if failedFromState = included then included else broadcast
      errorPayloadRef := errorPayloadRef jobId
      timeout :=
        if includes lower "timeout" || includes lower "timed out" then
          some ⟨0, now, .checkChainThenFinalizeOrReset⟩
        else none }

def finalizeNoopPublish (jobId : Term) : Program Unit := do
  let current ← getRequiredJob jobId
  let _ ← transition current finalized { finalization := some (some { mode := some .noop }) }

/-! ## Processing -/

def toQuadKey (quad : Quad) : Term :=
  quad.subject ++ [' '] ++ quad.predicate ++ [' '] ++ quad.object

/-- `rootForSubject` finds a root. -/
def HasRoot (subject : Term) (confirmedRoots : List Term) : Prop :=
  ∃ root ∈ confirmedRoots, subject = root ∨ root ++ genidSegment <+: subject
  deriving Decidable

def subtractGraphExactMatches (quads : List Quad) (confirmedRoots quadKeys : List Term) :
    List Quad :=
  quads.filter fun q => ¬ (HasRoot q.subject confirmedRoots ∧ toQuadKey q ∈ quadKeys)

/-- Nothing is read for no roots. -/
def readFor (roots : List Term) (op : Program (List Term)) : Program (List Term) :=
  if roots = [] then pure [] else op

def subtractFinalizedExactQuads (request : LiftRequest) (validation : LiftJobValidationMetadata)
    (resolved : ResolvedSlice) : Program ResolvedSlice := do
  if request.transitionType ≠ .create then pure resolved
  else
    let confirmedRoots ← readFor validation.canonicalRoots
      (call (.confirmedRoots request.contextGraphId validation.canonicalRoots))
    let publicKeys ← readFor confirmedRoots
      (call (.publicQuadKeys request.contextGraphId confirmedRoots))
    let privateKeys ← readFor confirmedRoots
      (call (.privateQuadKeys request.contextGraphId confirmedRoots))
    let remaining :=
      subtractGraphExactMatches (resolved.privateQuads.getD []) confirmedRoots privateKeys
    pure {
      resolved with
      quads := subtractGraphExactMatches resolved.quads confirmedRoots publicKeys
      privateQuads := if remaining = [] then none else some remaining }

def AccessPolicy.name : AccessPolicy → Term
  | .publicAccess => "public".toList
  | .ownerOnly => "ownerOnly".toList
  | .allowList => "allowList".toList

def normalizePriorVersion (value : Option Term) : Option Term :=
  (value.map trim).filter (· ≠ [])

def mapLiftRequestToPublishOptions (request : LiftRequest) (validation : LiftJobValidationMetadata)
    (resolved : ResolvedSlice) : Except Term PublishOptions := do
  if trim validation.authorityProofRef = [] then
    throw "Lift publish mapping requires a non-empty authorityProofRef".toList
  if request.transitionType ≠ validation.transitionType then
    throw ("Lift publish mapping requires validation.transitionType to match ".toList ++
      "request.transitionType. Request: ".toList ++ request.transitionType.name ++
      ", validation: ".toList ++ validation.transitionType.name)
  let requestPriorVersion := normalizePriorVersion request.priorVersion
  if requestPriorVersion ≠ validation.priorVersion then
    throw ("Lift publish mapping requires validation.priorVersion to match ".toList ++
      "request.priorVersion. Request: ".toList ++ requestPriorVersion.getD "<none>".toList ++
      ", validation: ".toList ++ validation.priorVersion.getD "<none>".toList)
  let privateQuads := resolved.privateQuads.getD []
  let publisherPeerId := resolved.publisherPeerId.map trim
  let allowedPeers := ((resolved.allowedPeers.map trim).filter (· ≠ [])).dedup
  let accessPolicy := resolved.accessPolicy.getD
    (if 0 < privateQuads.length then .ownerOnly else .publicAccess)
  if accessPolicy ≠ .publicAccess ∧ publisherPeerId.getD [] = [] then
    throw ("Lift publish mapping requires publisherPeerId when accessPolicy is ".toList ++
      accessPolicy.name)
  if accessPolicy = .allowList ∧ allowedPeers = [] then
    throw "Lift publish mapping requires non-empty allowedPeers for allowList access".toList
  if accessPolicy ≠ .allowList ∧ 0 < allowedPeers.length then
    throw "Lift publish mapping only allows allowedPeers when accessPolicy is allowList".toList
  pure {
    contextGraphId := request.contextGraphId
    quads := resolved.quads
    privateQuads := if 0 < privateQuads.length then some privateQuads else none
    publisherPeerId := publisherPeerId
    accessPolicy := accessPolicy
    allowedPeers := if 0 < allowedPeers.length then some allowedPeers else none }

/-- The length of the text in UTF-8. -/
def computePublicByteSize (quads : List Quad) : ℕ :=
  let object (o : Term) := if IsLiteral o then o else ['<'] ++ o ++ ['>']
  let line (q : Quad) := ['<'] ++ q.subject ++ "> <".toList ++ q.predicate ++ "> ".toList ++
    object q.object ++ " <".toList ++ q.graph ++ "> .".toList
  ((['\n'].intercalate (quads.map line)).map Char.utf8Size).sum

/-- The `try` block up to the subtraction, while `failureState` is `claimed`. -/
def resolveAndValidate (job : LiftJob) : Program (LiftJobValidationMetadata × ResolvedSlice) := do
  let slice ← Prog.ofExcept (← call (.resolveSlice job.request))
  update job.jobId validated { validation := some (some slice.1) }
  pure slice

/-- The part while `failureState` is `validated`: nothing is left when no quad remains. -/
def prepare (job : LiftJob) (slice : LiftJobValidationMetadata × ResolvedSlice) :
    Program (Option PublishOptions) := do
  let subtracted ← subtractFinalizedExactQuads job.request slice.1 slice.2
  if subtracted.quads.length = 0 ∧ (subtracted.privateQuads.map (·.length)).getD 0 = 0 then
    finalizeNoopPublish job.jobId
    pure none
  else
    let options ← Prog.ofExcept (mapLiftRequestToPublishOptions job.request slice.1 subtracted)
    pure (some options)

/-- The part while `failureState` is `broadcast`. -/
def execute (job : LiftJob) (walletId : Term) (options : PublishOptions) : Program Unit := do
  let _ ← call (.callExecutor walletId options)
  let publishResult ← Prog.ofExcept (← call .executorResult)
  recordPublishResult job.jobId publishResult (some (computePublicByteSize options.quads))

def processClaimed (walletId : Term) (job : LiftJob) : Program Unit := do
  match ← (resolveAndValidate job).attempt with
  | .error message => recordExecutionFailure job.jobId claimed message
  | .ok slice =>
    match ← (prepare job slice).attempt with
    | .error message => recordExecutionFailure job.jobId validated message
    | .ok none => pure ()
    | .ok (some options) =>
      match ← (execute job walletId options).attempt with
      | .error message => recordExecutionFailure job.jobId broadcast message
      | .ok () => pure ()

def processNext (walletId : Term) : Program Unit := do
  if !cfg.hasExecutor then
    .raise "Async lift publisher processNext requires a configured publishExecutor".toList
  else
    match ← claimNext cfg walletId with
    | none => pure ()
    | some job => processClaimed walletId job

/-! ## Recovery -/

/-- The lock is released, and the new record is written. -/
def releaseAndWrite (job : LiftJob) (next : ℕ → Except Term LiftJob) : Program Unit := do
  releaseWalletLockForJob job
  let now ← call .now
  writeJob (← Prog.ofExcept (next now))

def recoverJob (job : LiftJob) : Program Unit := do
  if job.status = claimed ∨ job.status = validated then
    releaseAndWrite job fun now =>
      .ok (resetJobToAccepted job job.status (getRecoveryTxHash job) now)
  else if (job.status = broadcast ∨ job.status = included) ∧ cfg.hasResolver then
    match ← Prog.ofExcept (← call (.chainRecoveryResolver job)) with
    | some found =>
      releaseAndWrite job (finalizeRecoveredJob job found.1 found.2)
    | none =>
      let now ← call .now
      if hasInconclusiveRecoveryTimedOut job cfg.recoveryLookupTimeoutMs now then
        releaseAndWrite job (failInconclusiveRecovery job cfg.recoveryLookupTimeoutMs)
      else pure ()
  else if job.status = broadcast then
    releaseAndWrite job fun now =>
        .ok (resetJobToAccepted job broadcast (getRecoveryTxHash job) now)
  else pure ()

/-- A failed job that waits for recovery is looked up again. -/
def recoverFailedJob (job : LiftJob) : Program Unit := do
  match job.failure with
  | none => pure ()
  | some failure =>
    if failure.resolution = .retryRecovery ∧ job.broadcast.isSome then
      match ← Prog.ofExcept (← call (.chainRecoveryResolver job)) with
      | some found =>
        releaseAndWrite job (finalizeRecoveredJob (recoverableJob job failure) found.1 found.2)
      | none => pure ()
    else pure ()

def forEach (f : LiftJob → Program Unit) : List LiftJob → Program Unit
  | [] => pure ()
  | job :: jobs => do
      f job
      forEach f jobs

/-- The jobs that `isFailedJob` keeps have a failure; so only those are looked at. -/
def recover : Program Unit := do
  let _ ← call .ensureGraph
  sweepStaleWalletLocks
  let jobs ← list cfg none
  forEach (recoverJob cfg) (jobs.filter fun job => job.status.Active)
  if cfg.hasResolver then
    let jobs ← list cfg (some failed)
    forEach recoverFailedJob (jobs.filter fun job => job.status = failed)
  else pure ()

/-! ## The other methods -/

def retryJob (job : LiftJob) : Program Unit := do
  match job.failure with
  | none => pure ()
  | some failure =>
    if !failure.retryable || job.retries.maxRetries ≤ job.retries.retryCount then pure ()
    else if failure.resolution = .retryRecovery then pure ()
    else
      let now ← call .now
      releaseWalletLockForJob job
      writeJob (retriedJob job failure now)

def retry : Program Unit := do
  let _ ← call .ensureGraph
  let jobs ← list cfg (some failed)
  forEach retryJob (jobs.filter fun job => job.status = failed)

def cancel (jobId : Term) : Program Unit := do
  let _ ← call .ensureGraph
  let job ← getRequiredJob jobId
  if job.status ≠ accepted then
    .raise ("Only accepted LiftJobs can be cancelled. Current status: ".toList ++ job.status.name)
  else
    releaseWalletLockForJob job
    let _ ← call (.deleteJob jobId)

def clearJob (status : LiftJobState) (job : LiftJob) : Program Unit := do
  if status = failed ∧ job.status = failed ∧
      job.failure.any fun failure => failure.resolution = .retryRecovery then pure ()
  else
    releaseWalletLockForJob job
    let _ ← call (.deleteJob job.jobId)

def clear (status : LiftJobState) : Program Unit := do
  let _ ← call .ensureGraph
  let jobs ← list cfg (some status)
  forEach (clearJob status) jobs

/-- The methods, with `recordPublishResult` and `recordPublishFailure` as anyone may call them. -/
inductive Method
  | lift (request : LiftRequest) (jobId : Term)
  | claimNext (walletId : Term)
  | update (jobId : Term) (status : LiftJobState) (data : PartialLiftJob)
  | processNext (walletId : Term)
  | recordPublishResult (jobId : Term) (publishResult : PublishResult) (publicByteSize : Option ℕ)
  | recordPublishFailure (jobId : Term) (input : AsyncLiftPublishFailureInput)
  | recover
  | retry
  | cancel (jobId : Term)
  | clear (status : LiftJobState)
  | pause
  | resume

def program : Method → Program Unit
  | .lift request jobId => lift cfg request jobId
  | .claimNext walletId => do
      let _ ← claimNext cfg walletId
  | .update jobId status data => update jobId status data
  | .processNext walletId => processNext cfg walletId
  | .recordPublishResult jobId publishResult publicByteSize =>
    recordPublishResult jobId publishResult publicByteSize
  | .recordPublishFailure jobId input => recordPublishFailure jobId input
  | .recover => recover cfg
  | .retry => retry cfg
  | .cancel jobId => cancel jobId
  | .clear status => clear cfg status
  | .pause => call (.setPaused true)
  | .resume => call (.setPaused false)

def crashed (s : ControlPlane) : ControlPlane :=
  { s with claims := KeyLocks.empty, paused := false }

/-- Calls of the methods of one publisher, in any number. -/
def system : System ℕ ControlPlane Method Op Answer Outcome Term Unit where
  program := program cfg
  perform := perform
  crashed := crashed

/-- An empty control graph. -/
def Starts (s : ControlPlane) : Prop :=
  s.jobs = [] ∧ s.locks = [] ∧ s.claims = KeyLocks.empty

abbrev Run := World ℕ ControlPlane Method Op Answer Term Unit

abbrev Step := Move ℕ Method Outcome

end Dkg.AsyncLift
