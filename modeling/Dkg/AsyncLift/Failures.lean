import Dkg.Publisher.NQuads

/-! # States and failures of lift jobs

The states of a lift job with the transitions that `update` allows, and the table of failures: each
code has a phase, a mode and a resolution, and may come up in some of the states only. The error of
the publish executor is classified by what its message contains.
-/

namespace Dkg.AsyncLift

open Lib

inductive LiftJobState
  | accepted | claimed | validated | broadcast | included | finalized | failed
  deriving DecidableEq

namespace LiftJobState

def name : LiftJobState → Term
  | accepted => "accepted".toList
  | claimed => "claimed".toList
  | validated => "validated".toList
  | broadcast => "broadcast".toList
  | included => "included".toList
  | finalized => "finalized".toList
  | failed => "failed".toList

/-- `LIFT_JOB_ALLOWED_TRANSITIONS`. -/
def allowedTransitions : LiftJobState → List LiftJobState
  | accepted => [claimed, failed]
  | claimed => [validated, failed]
  | validated => [broadcast, finalized, failed]
  | broadcast => [included, failed]
  | included => [finalized, failed]
  | finalized => []
  | failed => []

end LiftJobState

open LiftJobState

def canTransitionLiftJob (source target : LiftJobState) : Bool := target ∈ source.allowedTransitions

/-- `list.join(', ')`. -/
def joined (names : List Term) : Term := ", ".toList.intercalate names

def assertLiftJobTransition (source target : LiftJobState) : Except Term Unit :=
  if canTransitionLiftJob source target then .ok ()
  else
    let allowed := source.allowedTransitions
    let allowedText := if 0 < allowed.length then joined (allowed.map name) else "<none>".toList
    .error ("Invalid LiftJob transition: ".toList ++ source.name ++ " -> ".toList ++ target.name ++
      ". Allowed: ".toList ++ allowedText)

inductive LiftJobFailurePhase
  | validation | broadcast | confirmation | recovery
  deriving DecidableEq

inductive LiftJobFailureMode
  | retryable | terminal | timeout
  deriving DecidableEq

inductive LiftJobFailureResolution
  | resetToAccepted | failJob | checkChainThenFinalizeOrReset | retryRecovery
  deriving DecidableEq

/-- The handlings of a timeout have the names of the resolutions. -/
abbrev LiftJobTimeoutHandling := LiftJobFailureResolution

def LiftJobFailureResolution.name : LiftJobFailureResolution → Term
  | .resetToAccepted => "reset_to_accepted".toList
  | .failJob => "fail_job".toList
  | .checkChainThenFinalizeOrReset => "check_chain_then_finalize_or_reset".toList
  | .retryRecovery => "retry_recovery".toList

inductive LiftJobFailureCode
  | workspaceUnavailable | workspaceSliceNotFound | canonicalizationFailed | authorityUnavailable
  | authorityForbidden | validationTimeout | walletClaimTimeout | walletUnavailable
  | rpcUnavailable | txSubmitTimeout | txReverted | insufficientFunds | nonceConflict
  | inclusionTimeout | finalityTimeout | confirmationMismatch | chainReorg
  | recoveryLookupTimeout | recoveryChainUnavailable | recoveryStateInconsistent
  deriving DecidableEq

structure LiftJobTimeoutMetadata where
  (timeoutMs timeoutAt : ℕ)
  handling : LiftJobTimeoutHandling
  deriving DecidableEq

structure LiftJobFailurePolicy where
  phase : LiftJobFailurePhase
  mode : LiftJobFailureMode
  retryable : Bool
  resolution : LiftJobFailureResolution
  timeoutHandling : Option LiftJobTimeoutHandling

namespace LiftJobFailureCode

def name : LiftJobFailureCode → Term
  | workspaceUnavailable => "workspace_unavailable".toList
  | workspaceSliceNotFound => "workspace_slice_not_found".toList
  | canonicalizationFailed => "canonicalization_failed".toList
  | authorityUnavailable => "authority_unavailable".toList
  | authorityForbidden => "authority_forbidden".toList
  | validationTimeout => "validation_timeout".toList
  | walletClaimTimeout => "wallet_claim_timeout".toList
  | walletUnavailable => "wallet_unavailable".toList
  | rpcUnavailable => "rpc_unavailable".toList
  | txSubmitTimeout => "tx_submit_timeout".toList
  | txReverted => "tx_reverted".toList
  | insufficientFunds => "insufficient_funds".toList
  | nonceConflict => "nonce_conflict".toList
  | inclusionTimeout => "inclusion_timeout".toList
  | finalityTimeout => "finality_timeout".toList
  | confirmationMismatch => "confirmation_mismatch".toList
  | chainReorg => "chain_reorg".toList
  | recoveryLookupTimeout => "recovery_lookup_timeout".toList
  | recoveryChainUnavailable => "recovery_chain_unavailable".toList
  | recoveryStateInconsistent => "recovery_state_inconsistent".toList

/-- `LIFT_JOB_FAILURE_POLICIES`. -/
def policy : LiftJobFailureCode → LiftJobFailurePolicy
  | workspaceUnavailable => ⟨.validation, .retryable, true, .resetToAccepted, none⟩
  | workspaceSliceNotFound => ⟨.validation, .terminal, false, .failJob, none⟩
  | canonicalizationFailed => ⟨.validation, .terminal, false, .failJob, none⟩
  | authorityUnavailable => ⟨.validation, .retryable, true, .resetToAccepted, none⟩
  | authorityForbidden => ⟨.validation, .terminal, false, .failJob, none⟩
  | validationTimeout => ⟨.validation, .timeout, true, .resetToAccepted, some .resetToAccepted⟩
  | walletClaimTimeout => ⟨.broadcast, .timeout, true, .resetToAccepted, some .resetToAccepted⟩
  | walletUnavailable => ⟨.broadcast, .retryable, true, .resetToAccepted, none⟩
  | rpcUnavailable => ⟨.broadcast, .retryable, true, .resetToAccepted, none⟩
  | txSubmitTimeout => ⟨.broadcast, .timeout, true, .checkChainThenFinalizeOrReset,
      some .checkChainThenFinalizeOrReset⟩
  | txReverted => ⟨.broadcast, .terminal, false, .failJob, none⟩
  | insufficientFunds => ⟨.broadcast, .terminal, false, .failJob, none⟩
  | nonceConflict => ⟨.broadcast, .retryable, true, .resetToAccepted, none⟩
  | inclusionTimeout => ⟨.confirmation, .timeout, true, .checkChainThenFinalizeOrReset,
      some .checkChainThenFinalizeOrReset⟩
  | finalityTimeout => ⟨.confirmation, .timeout, true, .checkChainThenFinalizeOrReset,
      some .checkChainThenFinalizeOrReset⟩
  | confirmationMismatch => ⟨.confirmation, .terminal, false, .failJob, none⟩
  | chainReorg => ⟨.confirmation, .retryable, true, .checkChainThenFinalizeOrReset, none⟩
  | recoveryLookupTimeout => ⟨.recovery, .timeout, true, .retryRecovery, some .retryRecovery⟩
  | recoveryChainUnavailable => ⟨.recovery, .retryable, true, .retryRecovery, none⟩
  | recoveryStateInconsistent => ⟨.recovery, .terminal, false, .failJob, none⟩

/-- `LIFT_JOB_FAILURE_ALLOWED_STATES`. -/
def allowedStates : LiftJobFailureCode → List LiftJobState
  | workspaceUnavailable => [accepted, claimed, validated]
  | workspaceSliceNotFound => [accepted, claimed, validated]
  | canonicalizationFailed => [claimed, validated]
  | authorityUnavailable => [claimed, validated]
  | authorityForbidden => [claimed, validated]
  | validationTimeout => [claimed, validated]
  | walletClaimTimeout => [accepted, claimed]
  | walletUnavailable => [claimed, broadcast]
  | rpcUnavailable => [broadcast]
  | txSubmitTimeout => [broadcast]
  | txReverted => [broadcast]
  | insufficientFunds => [broadcast]
  | nonceConflict => [broadcast]
  | inclusionTimeout => [broadcast, included]
  | finalityTimeout => [included]
  | confirmationMismatch => [broadcast, included]
  | chainReorg => [broadcast, included]
  | recoveryLookupTimeout => [broadcast, included]
  | recoveryChainUnavailable => [broadcast, included]
  | recoveryStateInconsistent => [broadcast, included]

end LiftJobFailureCode

/-- What `createLiftJobFailureMetadata` is given. -/
structure FailureParams where
  failedFromState : LiftJobState
  code : LiftJobFailureCode
  (message errorPayloadRef : Term)
  stackTraceRef : Option Term := none
  rpcResponseRef : Option Term := none
  revertReasonRef : Option Term := none
  timeout : Option LiftJobTimeoutMetadata := none
  deriving DecidableEq

structure LiftJobFailureMetadata extends FailureParams where
  phase : LiftJobFailurePhase
  mode : LiftJobFailureMode
  retryable : Bool
  resolution : LiftJobFailureResolution
  deriving DecidableEq

def createLiftJobFailureMetadata (params : FailureParams) : Except Term LiftJobFailureMetadata := do
  let policy := params.code.policy
  let allowedStates := params.code.allowedStates
  if params.failedFromState ∉ allowedStates then
    throw ("Invalid LiftJob failure state for code ".toList ++ params.code.name ++ ": ".toList ++
      params.failedFromState.name ++ ". Allowed: ".toList ++ joined (allowedStates.map name))
  match policy.mode, params.timeout with
  | .timeout, none =>
    throw ("Timeout metadata is required for LiftJob failure code ".toList ++ params.code.name)
  | .timeout, some timeout =>
    match policy.timeoutHandling with
    | none =>
      throw ("Timeout handling is not configured for LiftJob failure code ".toList ++
        params.code.name)
    | some handling =>
      if timeout.handling ≠ handling then
        throw ("Invalid timeout handling for LiftJob failure code ".toList ++
          params.code.name ++ ": ".toList ++ timeout.handling.name ++ ". Expected: ".toList ++
          handling.name)
  | _, some _ =>
    throw ("Timeout metadata is not allowed for non-timeout LiftJob failure code ".toList ++
      params.code.name)
  | _, none => pure ()
  pure {
    toFailureParams := params
    phase := policy.phase
    mode := policy.mode
    retryable := policy.retryable
    resolution := policy.resolution }

/-- `text.includes(part)`. -/
def includes (text : Term) (part : String) : Bool := part.toList <:+: text

/-- What `toLowerCase` makes of a letter, where an ASCII letter comes out. -/
def lowerLetter (c : Char) : List Char :=
  if c = '\u212a' then ['k'] else if c = '\u0130' then ['i', '\u0307'] else [c.toLower]

def toLowerCase (text : Term) : Term := text.flatMap lowerLetter

def classifyPublishFailureCode (lowerMessage : Term) (failedFromState : LiftJobState) :
    LiftJobFailureCode :=
  if includes lowerMessage "timeout" || includes lowerMessage "timed out" then
    if failedFromState = included then .finalityTimeout else .txSubmitTimeout
  else if includes lowerMessage "insufficient funds" then .insufficientFunds
  else if includes lowerMessage "nonce" then .nonceConflict
  else if includes lowerMessage "revert" || includes lowerMessage "reverted" then .txReverted
  else if includes lowerMessage "reorg" then .chainReorg
  else if includes lowerMessage "mismatch" then .confirmationMismatch
  else if failedFromState = included then .confirmationMismatch
  else .rpcUnavailable

/-- `AsyncLiftPublishFailureInput`, whose state is `broadcast` or `included`. -/
structure AsyncLiftPublishFailureInput where
  error : Term
  failedFromState : LiftJobState
  errorPayloadRef : Term
  stackTraceRef : Option Term := none
  rpcResponseRef : Option Term := none
  revertReasonRef : Option Term := none
  timeout : Option LiftJobTimeoutMetadata := none

def mapPublishExceptionToLiftJobFailure (input : AsyncLiftPublishFailureInput) :
    Except Term LiftJobFailureMetadata :=
  createLiftJobFailureMetadata {
    failedFromState := input.failedFromState
    code := classifyPublishFailureCode (toLowerCase input.error) input.failedFromState
    message := input.error
    errorPayloadRef := input.errorPayloadRef
    stackTraceRef := input.stackTraceRef
    rpcResponseRef := input.rpcResponseRef
    revertReasonRef := input.revertReasonRef
    timeout := input.timeout }

lemma createLiftJobFailureMetadata_ok {params : FailureParams} {failure : LiftJobFailureMetadata}
    (h : createLiftJobFailureMetadata params = .ok failure) :
    failure.toFailureParams = params ∧ failure.retryable = params.code.policy.retryable ∧
      failure.resolution = params.code.policy.resolution := by
  unfold createLiftJobFailureMetadata at h
  simp only [bind, Except.bind, pure, Except.pure, throw, throwThe, MonadExceptOf.throw] at h
  repeat' split at h
  all_goals cases h
  all_goals exact ⟨rfl, rfl, rfl⟩

/-- No failure of the executor is left to `recover`. -/
lemma classifyPublishFailureCode_resolution (message : Term) (state : LiftJobState) :
    (classifyPublishFailureCode message state).policy.resolution ≠ .retryRecovery := by
  unfold classifyPublishFailureCode
  repeat' split
  all_goals decide

end Dkg.AsyncLift
