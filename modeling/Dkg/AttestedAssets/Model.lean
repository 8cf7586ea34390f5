import Dkg.Lib.KeyedList
import Dkg.Lib.Machine

/-! # Sessions of attested knowledge assets

`attested-assets/src/session-manager.ts` with its validator and quorum rule, for one session, from
the state of `initSessionState` on. A `SessionManager` reacts to signed events of the members and to
timers, which may fire at any time. Its functions run without interruption up to their next `await`;
what a suspended function still has to do is a `Task`.

Hashes, signatures, encodings and the reducer, which stays registered, are parameters, `Primitives`.
Events on the event bus, subscriptions and the publication itself are left out; `signed` is what a
function hands to `buildEvent`, which signs it. The list `finalizedRounds` is not in the source: it
records every finalization that the manager carries out, with the proposal that it applies.
-/

namespace Dkg.Aka

open Lib

/-- A string, as its code units. -/
abbrev Text := List ℕ

/-- The code units of a literal. -/
def text (literal : String) : Text := literal.toList.map Char.toNat

abbrev Bytes := List UInt8

inductive SessionStatus
  | proposed
  | active
  | finalized
  | aborted
  deriving DecidableEq, Repr

inductive AKAEventType
  | sessionProposed
  | sessionAccepted
  | sessionActivated
  | sessionFinalized
  | sessionAborted
  | roundStart
  | inputSubmitted
  | roundProposal
  | roundAck
  | roundFinalized
  | roundTimeout
  deriving DecidableEq, Repr

inductive RoundStatus
  | awaitingStart
  | collectingInputs
  | awaitingProposal
  | awaitingAcks
  | finalized
  | timedOut
  deriving DecidableEq, Repr

structure SessionMember where
  peerId : Text
  pubKey : Bytes
  deriving DecidableEq, Repr

structure QuorumPolicy where
  (numerator denominator minSigners : ℕ)
  deriving DecidableEq, Repr

structure RoundStartPayload where
  deadline : ℕ
  deriving DecidableEq, Repr

structure InputPayload where
  round : ℕ
  data : Bytes
  deriving DecidableEq, Repr

structure RoundProposalPayload (Hash : Type) where
  round : ℕ
  (prevStateHash inputSetHash nextStateHash : Hash)
  includedMembers : List Text
  includedInputs : List Bytes
  deriving DecidableEq, Repr

structure RoundAckPayload (Hash : Type) where
  round : ℕ
  (prevStateHash inputSetHash nextStateHash turnCommitment : Hash)
  deriving DecidableEq, Repr

structure RoundFinalizedPayload (Hash Sig : Type) where
  round : ℕ
  nextStateHash : Hash
  signerPeerIds : List Text
  signatures : List Sig
  deriving DecidableEq, Repr

/-- `SigningContext`; the domain is always `AKA-v1`. -/
structure SigningContext where
  (network contextGraphId sessionId : Text)
  round : ℕ
  type : AKAEventType
  deriving DecidableEq, Repr

/-- What the manager gets from elsewhere: hashes, signatures, the encodings of the payloads, and the
reducer of the session. A decoder returns nothing where the source throws. -/
structure Primitives where
  Hash : Type
  Sig : Type
  Payload : Type
  decHash : DecidableEq Hash
  reduce : Bytes → List Bytes → Bytes
  genesisState : Bytes
  computeStateHash : Bytes → Hash
  computeInputSetHash : List Bytes → Hash
  computeTurnCommitment : Text → ℕ → Hash → Hash → Hash → Text → Hash → Hash
  sha256 : Payload → Hash
  verifyAKASignature : SigningContext → Payload → Sig → Bytes → Bool
  signatureLength : Sig → ℕ
  emptySignature : Sig
  encodeRoundStartPayload : ℕ → Hash → ℕ → Payload
  encodeInputPayload : InputPayload → Payload
  encodeRoundProposalPayload : RoundProposalPayload Hash → Payload
  encodeRoundAckPayload : RoundAckPayload Hash → Payload
  encodeRoundFinalizedPayload : RoundFinalizedPayload Hash Sig → Payload
  encodeSessionAcceptedPayload : Text → Hash → Payload
  encodeText : Text → Payload
  decodeRoundStartPayload : Payload → Option RoundStartPayload
  decodeInputPayload : Payload → Option InputPayload
  decodeRoundProposalPayload : Payload → Option (RoundProposalPayload Hash)
  decodeRoundAckPayload : Payload → Option (RoundAckPayload Hash)
  decodeRoundFinalizedPayload : Payload → Option (RoundFinalizedPayload Hash Sig)

instance (P : Primitives) : DecidableEq P.Hash := P.decHash

structure SessionConfig (P : Primitives) where
  (sessionId contextGraphId createdBy : Text)
  membership : List SessionMember
  membershipRoot : P.Hash
  quorumPolicy : QuorumPolicy
  reducerVersion : Text
  genesisStateHash : P.Hash
  roundTimeout : ℕ
  maxRounds : Option ℕ
  configHash : P.Hash
  status : SessionStatus

structure AKAEvent (P : Primitives) where
  mode : Text
  type : AKAEventType
  sessionId : Text
  round : ℕ
  prevStateHash : P.Hash
  signerPeerId : Text
  signature : P.Sig
  timestamp : ℕ
  nonce : Text
  payload : P.Payload

structure RoundState (P : Primitives) where
  status : RoundStatus
  proposerPeerId : Text
  viewChangeCount : ℕ
  inputs : KeyedList Text InputPayload
  proposal : Option (RoundProposalPayload P.Hash)
  acks : KeyedList Text (RoundAckPayload P.Hash)
  ackSignatures : KeyedList Text P.Sig
  (startTime deadline : Option ℕ)

structure SessionState (P : Primitives) where
  config : SessionConfig P
  (currentRound latestFinalizedRound : ℕ)
  latestStateHash : P.Hash
  latestStateBytes : Bytes
  roundStates : ℕ → Option (RoundState P)
  (equivocators inactiveMembers : List Text)
  consecutiveSkips : ℕ
  acceptedMembers : List Text

/-- A set of peers with one more. -/
def addPeer (peers : List Text) (peerId : Text) : List Text :=
  if peerId ∈ peers then peers else peers ++ [peerId]

/-- The local peer and the network it signs for. -/
structure Local where
  (localPeerId network : Text)
  deriving DecidableEq, Repr

/-! ## Quorum -/

/-- `quorumThreshold`; a division by zero gives a threshold that no count reaches. -/
def quorumThreshold (policy : QuorumPolicy) (activeMemberCount : ℕ) : Option ℕ :=
  if policy.denominator = 0 then none
  else
    -- `Math.ceil` of the quotient
    let fractional :=
      (activeMemberCount * policy.numerator + policy.denominator - 1) / policy.denominator
    some (max fractional policy.minSigners)

def isQuorumMet (policy : QuorumPolicy) (activeMemberCount ackCount : ℕ) : Prop :=
  ∃ threshold ∈ quorumThreshold policy activeMemberCount, threshold ≤ ackCount

instance (policy : QuorumPolicy) (activeMemberCount ackCount : ℕ) :
    Decidable (isQuorumMet policy activeMemberCount ackCount) :=
  match h : quorumThreshold policy activeMemberCount with
  | none => isFalse (by simp [isQuorumMet, h])
  | some threshold => decidable_of_iff (threshold ≤ ackCount) (by simp [isQuorumMet, h])

def getActiveMemberCount (totalMembers equivocatorCount inactiveCount : ℕ) : ℕ :=
  totalMembers - equivocatorCount - inactiveCount

/-! ## What a function leaves behind -/

/-- The checks of `SessionValidator.validate`. -/
inductive Check
  | mode
  | sessionExists
  | membership
  | schemaConformance
  | replayProtection
  | signature
  | stateLinkage
  | timing
  | equivocation
  | proposerAuthority
  | creatorAuthority
  deriving DecidableEq, Repr

/-- A suspended function, with what it does when it goes on. -/
inductive Task (P : Primitives)
  /-- `validate`, which has passed the checks before these. -/
  | validating (event : AKAEvent P) (checks : List Check)
  /-- `handleIncomingEvent` after a successful validation. -/
  | dispatching (event : AKAEvent P)
  /-- `handleRoundFinalized`, which has verified the signatures before the `i`-th. -/
  | verifying (event : AKAEvent P) (finPayload : RoundFinalizedPayload P.Hash P.Sig)
      (expectedAck : P.Payload) (i : ℕ)
  /-- `proposeRound` after the publication of its proposal. -/
  | proposing (round : ℕ) (proposal : RoundProposalPayload P.Hash)
  /-- `checkQuorumAndFinalize` after the publication of its event. -/
  | advancing (round : ℕ)

/-- The session after a function has run up to its next `await`, with what it leaves to do, what it
signs, and the finalization it has carried out. -/
structure Effect (P : Primitives) where
  session : SessionState P
  tasks : List (Task P)
  signed : List (SigningContext × P.Payload)
  finalized : Option (ℕ × RoundProposalPayload P.Hash)

open Effect

variable {P : Primitives}

/-- Only the session changes. -/
def Effect.only (s : SessionState P) : Effect P := ⟨s, [], [], none⟩

/-- A function that signs and leaves the rest as it was. -/
def Effect.signs (s : SessionState P) (message : SigningContext × P.Payload) : Effect P :=
  ⟨s, [], [message], none⟩

namespace SessionState

variable (me : Local) (s : SessionState P)

def signingContext (round : ℕ) (type : AKAEventType) : SigningContext :=
  ⟨me.network, s.config.contextGraphId, s.config.sessionId, round, type⟩

/-- The member with the id, as `find` looks for it. -/
def findMember (peerId : Text) : Option SessionMember :=
  s.config.membership.find? fun m => m.peerId = peerId

/-- The member with the id in a `Map` made of the members, where the last one wins. -/
def memberByPeerId (peerId : Text) : Option SessionMember :=
  s.config.membership.reverse.find? fun m => m.peerId = peerId

def activeMemberCount : ℕ :=
  getActiveMemberCount s.config.membership.length s.equivocators.length s.inactiveMembers.length

def setRound (round : ℕ) (r : RoundState P) : SessionState P :=
  { s with roundStates := Function.update s.roundStates round (some r) }

/-- The peer whose turn it is to propose, after `viewChangeCount` changes. -/
def proposerAt (round viewChangeCount : ℕ) : Text :=
  let n := s.config.membership.length
  match s.config.membership[(round % n + viewChangeCount) % n]? with
  | some m => m.peerId
  | none => []

/-- The round that `getOrCreateRoundState` creates. -/
def newRound (round : ℕ) : RoundState P where
  status := .awaitingStart
  proposerPeerId := s.proposerAt round 0
  viewChangeCount := 0
  inputs := KeyedList.empty
  proposal := none
  acks := KeyedList.empty
  ackSignatures := KeyedList.empty
  startTime := none
  deadline := none

/-- The round that `getOrCreateRoundState` returns. -/
def roundOrNew (round : ℕ) : RoundState P := (s.roundStates round).getD (s.newRound round)

def getOrCreateRoundState (round : ℕ) : SessionState P := s.setRound round (s.roundOrNew round)

/-! ## Rounds -/

/-- `maxRounds && round >= maxRounds`. -/
def isLastRound (round : ℕ) : Prop := ∃ n ∈ s.config.maxRounds, n ≠ 0 ∧ n ≤ round

instance (round : ℕ) : Decidable (s.isLastRound round) :=
  match h : s.config.maxRounds with
  | none => isFalse (by simp [isLastRound, h])
  | some n => decidable_of_iff (n ≠ 0 ∧ n ≤ round) (by simp [isLastRound, h])

/-- The end of a finalization: the next round begins, unless this was the last one. -/
def advance (round : ℕ) : SessionState P :=
  if s.isLastRound round then s
  else ({ s with currentRound := round + 1 } : SessionState P).getOrCreateRoundState (round + 1)

/-- The writes of a finalization: the included inputs are reduced, and the hash is the one that the
proposal claims. -/
def applyProposal (round : ℕ) (r : RoundState P) (proposal : RoundProposalPayload P.Hash) :
    SessionState P :=
  { s.setRound round { r with status := .finalized } with
    latestStateBytes := P.reduce s.latestStateBytes proposal.includedInputs
    latestFinalizedRound := round
    latestStateHash := proposal.nextStateHash
    consecutiveSkips := 0 }

/-- `validateAndAck` up to its `await`: it signs an ack for a proposal whose hashes are right. -/
def validateAndAck (round : ℕ) (proposal : RoundProposalPayload P.Hash) : Effect P :=
  if P.computeInputSetHash proposal.includedInputs = proposal.inputSetHash ∧
      P.computeStateHash (P.reduce s.latestStateBytes proposal.includedInputs) =
        proposal.nextStateHash then
    let turnCommitment := P.computeTurnCommitment s.config.sessionId round proposal.prevStateHash
      proposal.inputSetHash proposal.nextStateHash s.config.reducerVersion s.config.membershipRoot
    signs s (s.signingContext me round .roundAck,
      P.encodeRoundAckPayload ⟨round, proposal.prevStateHash, proposal.inputSetHash,
        proposal.nextStateHash, turnCommitment⟩)
  else only s

/-- `checkQuorumAndFinalize` up to its `await`. -/
def checkQuorumAndFinalize (round : ℕ) : Effect P :=
  match s.roundStates round with
  | none => only s
  | some r =>
    match r.proposal with
    | none => only s
    | some proposal =>
      if r.status = .finalized then only s
      -- only the proposer finalizes a round on acks
      else if r.proposerPeerId ≠ me.localPeerId then only s
      else if isQuorumMet s.config.quorumPolicy s.activeMemberCount r.acks.size then
        let signatures := r.acks.keys.map fun id =>
          (r.ackSignatures.get id).getD P.emptySignature
        ⟨s.applyProposal round r proposal, [.advancing round],
          [(s.signingContext me round .roundFinalized, P.encodeRoundFinalizedPayload
            ⟨round, proposal.nextStateHash, r.acks.keys, signatures⟩)],
          some (round, proposal)⟩
      else only s

/-- `startRound` up to its `await`, at the time `now`. -/
def startRound (now : ℕ) (requestedRound : Option ℕ) : Effect P :=
  if s.config.status ≠ .active then only s
  else if ∃ r ∈ requestedRound, r ≠ s.currentRound then only s
  else
    let round := s.currentRound
    -- the round is created before the proposer is checked
    let r := s.roundOrNew round
    let s := s.getOrCreateRoundState round
    if r.proposerPeerId ≠ me.localPeerId then only s
    else
      let deadline := now + s.config.roundTimeout
      signs
        (s.setRound round { r with
          status := .collectingInputs
          startTime := some now
          deadline := some deadline })
        (s.signingContext me round .roundStart,
          P.encodeRoundStartPayload round s.latestStateHash deadline)

/-- The keys of the inputs, sorted. -/
def sortedMembers (r : RoundState P) : List Text := r.inputs.keys.insertionSort (· ≤ ·)

/-- `proposeRound` up to its `await`. -/
def proposeRound (round : ℕ) : Effect P :=
  match s.roundStates round with
  | none => only s
  | some r =>
    if r.proposerPeerId ≠ me.localPeerId then only s
    else if r.proposal.isSome then only s
    else
      -- the included inputs stand in the order of their members
      let members := sortedMembers r
      let inputs := members.filterMap fun m => (r.inputs.get m).map InputPayload.data
      let proposal : RoundProposalPayload P.Hash :=
        { round := round
          prevStateHash := s.latestStateHash
          inputSetHash := P.computeInputSetHash inputs
          nextStateHash := P.computeStateHash (P.reduce s.latestStateBytes inputs)
          includedMembers := members
          includedInputs := inputs }
      ⟨s.setRound round { r with proposal := some proposal, status := .awaitingAcks },
        [.proposing round proposal],
        [(s.signingContext me round .roundProposal, P.encodeRoundProposalPayload proposal)], none⟩

def MAX_CONSECUTIVE_SKIPS : ℕ := 3

/-- `abortSession` up to its `await`. -/
def abortSession (reason : Text) : Effect P :=
  signs { s with config := { s.config with status := .aborted } }
    (s.signingContext me s.currentRound .sessionAborted, P.encodeText reason)

/-- `handleRoundTimeout` at the time `now`. -/
def handleRoundTimeout (now round : ℕ) : Effect P :=
  match s.roundStates round with
  | none => only s
  | some r =>
    if r.status = .finalized then only s
    else
      let views := r.viewChangeCount + 1
      let proposer := s.proposerAt round views
      -- every member has had its turn: the round is skipped
      if s.config.membership.length ≤ views then
        let s := s.setRound round { r with
          status := .timedOut
          viewChangeCount := views
          proposerPeerId := proposer }
        let s := { s with consecutiveSkips := s.consecutiveSkips + 1 }
        if MAX_CONSECUTIVE_SKIPS ≤ s.consecutiveSkips then
          s.abortSession me (text "too many consecutive skips")
        else
          let s := ({ s with currentRound := round + 1 } : SessionState P).getOrCreateRoundState
            (round + 1)
          if (s.roundOrNew (round + 1)).proposerPeerId = me.localPeerId then
            s.startRound me now none
          else only s
      else
        let s := s.setRound round { r with
          status := .awaitingStart
          viewChangeCount := views
          proposerPeerId := proposer }
        if proposer = me.localPeerId then s.startRound me now none
        else only s

/-! ## Handlers -/

def handleSessionAccepted (event : AKAEvent P) : SessionState P :=
  { s with acceptedMembers := addPeer s.acceptedMembers event.signerPeerId }

def handleSessionActivated : SessionState P :=
  if ∀ m ∈ s.config.membership, m.peerId ≠ s.config.createdBy → m.peerId ∈ s.acceptedMembers then
    let s := { s with config := { s.config with status := .active } }
    ({ s with currentRound := 1 } : SessionState P).getOrCreateRoundState 1
  else s

/-- `handleRoundStart`; a payload that does not decode leaves the deadline as it was. -/
def handleRoundStart (event : AKAEvent P) : SessionState P :=
  let r := s.roundOrNew event.round
  let r := { r with status := .collectingInputs, startTime := some event.timestamp }
  match P.decodeRoundStartPayload event.payload with
  | none => s.setRound event.round r
  | some payload =>
    let deadline :=
      if payload.deadline ≠ 0 then payload.deadline
      else event.timestamp + s.config.roundTimeout
    s.setRound event.round { r with deadline := some deadline }

def handleInputSubmitted (event : AKAEvent P) : SessionState P :=
  match s.roundStates event.round with
  | none => s
  | some r =>
    if r.status ≠ .collectingInputs then s
    else if event.signerPeerId ∈ r.inputs.keys then s
    else
      match P.decodeInputPayload event.payload with
      | none => s
      | some input =>
        s.setRound event.round { r with inputs := r.inputs.set event.signerPeerId input }

/-- `handleRoundProposal`: the proposal is stored, and then validated. -/
def handleRoundProposal (event : AKAEvent P) : Effect P :=
  match s.roundStates event.round with
  | none => only s
  | some r =>
    if event.signerPeerId ≠ r.proposerPeerId then only s
    else
      match P.decodeRoundProposalPayload event.payload with
      | none => only s
      | some proposal =>
        (s.setRound event.round
          { r with proposal := some proposal, status := .awaitingAcks }).validateAndAck me
          event.round proposal

def detectEquivocation (existing incoming : RoundAckPayload P.Hash) : Prop :=
  existing.nextStateHash ≠ incoming.nextStateHash
  deriving Decidable

def matchesProposal (ack : RoundAckPayload P.Hash) (proposal : RoundProposalPayload P.Hash) :
    Prop :=
  ack.prevStateHash = proposal.prevStateHash ∧ ack.inputSetHash = proposal.inputSetHash ∧
    ack.nextStateHash = proposal.nextStateHash
  deriving Decidable

/-- `handleRoundAck`. An ack that comes before any proposal is stored without a comparison. -/
def handleRoundAck (event : AKAEvent P) : Effect P :=
  match s.roundStates event.round with
  | none => only s
  | some r =>
    match P.decodeRoundAckPayload event.payload with
    | none => only s
    | some ack =>
      if ∃ proposal ∈ r.proposal, ¬ matchesProposal ack proposal then only s
      else if ∃ existing ∈ r.acks.get event.signerPeerId, detectEquivocation existing ack then
        only
          { s.setRound event.round { r with
              acks := r.acks.erase event.signerPeerId
              ackSignatures := r.ackSignatures.erase event.signerPeerId } with
            equivocators := addPeer s.equivocators event.signerPeerId }
      else
        (s.setRound event.round { r with
          acks := r.acks.set event.signerPeerId ack
          ackSignatures := r.ackSignatures.set event.signerPeerId event.signature
          }).checkQuorumAndFinalize me event.round

/-- The end of `handleRoundFinalized`, once every signature is verified. The round and its proposal
are those that are stored now; the status of the round is not looked at. -/
def finalizeRound (round : ℕ) : Effect P :=
  match s.roundStates round with
  | none => only s
  | some r =>
    match r.proposal with
    | none => only s
    | some proposal =>
      ⟨(s.applyProposal round r proposal).advance round, [], [], some (round, proposal)⟩

/-- `handleRoundFinalized` up to its first `await`: everything but the signatures is checked, and
the ack is built that every signer should have signed. -/
def handleRoundFinalized (event : AKAEvent P) : Effect P :=
  match s.roundStates event.round with
  | none => only s
  | some r =>
    match r.proposal with
    | none => only s
    | some proposal =>
      match P.decodeRoundFinalizedPayload event.payload with
      | none => only s
      | some finPayload =>
        if ¬ finPayload.signerPeerIds.Nodup then only s
        else if finPayload.signatures.length ≠ finPayload.signerPeerIds.length then
          only s
        else if ∃ sig ∈ finPayload.signatures, P.signatureLength sig < 64 then only s
        else if ¬ isQuorumMet s.config.quorumPolicy s.activeMemberCount
            finPayload.signerPeerIds.length then only s
        else if ¬ ∀ id ∈ finPayload.signerPeerIds, (s.memberByPeerId id).isSome then
          only s
        else
          -- the hash is that of the certificate, and is not compared with the proposal's
          let turnCommitment := P.computeTurnCommitment s.config.sessionId event.round
            proposal.prevStateHash proposal.inputSetHash finPayload.nextStateHash
            s.config.reducerVersion s.config.membershipRoot
          let expectedAck := P.encodeRoundAckPayload ⟨event.round, proposal.prevStateHash,
            proposal.inputSetHash, finPayload.nextStateHash, turnCommitment⟩
          if finPayload.signerPeerIds = [] then s.finalizeRound event.round
          else ⟨s, [.verifying event finPayload expectedAck 0], [], none⟩

/-- One round of the loop of `handleRoundFinalized`. -/
def verifyNext (event : AKAEvent P) (finPayload : RoundFinalizedPayload P.Hash P.Sig)
    (expectedAck : P.Payload) (i : ℕ) : Effect P :=
  match finPayload.signerPeerIds[i]?, finPayload.signatures[i]? with
  | some signer, some signature =>
    match s.memberByPeerId signer with
    | none => only s
    | some member =>
      if P.verifyAKASignature (s.signingContext me event.round .roundAck) expectedAck signature
          member.pubKey = true then
        if i + 1 = finPayload.signerPeerIds.length then s.finalizeRound event.round
        else ⟨s, [.verifying event finPayload expectedAck (i + 1)], [], none⟩
      else only s
  | _, _ => only s

/-- The handler of an event that was validated. -/
def dispatch (event : AKAEvent P) : Effect P :=
  match event.type with
  | .sessionAccepted => only (s.handleSessionAccepted event)
  | .sessionActivated => only s.handleSessionActivated
  | .roundStart => only (s.handleRoundStart event)
  | .inputSubmitted => only (s.handleInputSubmitted event)
  | .roundProposal => s.handleRoundProposal me event
  | .roundAck => s.handleRoundAck me event
  | .roundFinalized => s.handleRoundFinalized event
  | .sessionFinalized =>
    only { s with config := { s.config with status := .finalized } }
  | .sessionAborted => only { s with config := { s.config with status := .aborted } }
  | .sessionProposed => only s
  | .roundTimeout => only s

end SessionState

/-! ## The validator -/

/-- The events that were recorded. The digest of the payload is part of the key of an ack. -/
structure Validator (P : Primitives) where
  seenNonces : List (Text × Text × Text)
  seenTuples : List (Text × ℕ × Text × AKAEventType × Option P.Hash)

def tupleKey (event : AKAEvent P) : Text × ℕ × Text × AKAEventType × Option P.Hash :=
  (event.sessionId, event.round, event.signerPeerId, event.type,
    if event.type = .roundAck then some (P.sha256 event.payload) else none)

def AKA_MODE : Text := [65, 75, 65]

def CLOCK_SKEW_TOLERANCE : ℕ := 5000

def isRoundEvent : AKAEventType → Bool
  | .roundStart | .inputSubmitted | .roundProposal | .roundAck | .roundFinalized
  | .roundTimeout => true
  | _ => false

/-- The checks that `validate` makes for an event, in order. -/
def checksFor (type : AKAEventType) : List Check :=
  [.mode, .sessionExists, .membership, .schemaConformance, .replayProtection, .signature] ++
  (if isRoundEvent type = true then [.stateLinkage, .timing, .equivocation] else []) ++
  (if type = .roundProposal ∨ type = .roundStart ∨ type = .roundFinalized then
    [.proposerAuthority] else []) ++
  (if type = .sessionActivated then [.creatorAuthority] else [])

def Check.passes (me : Local) (v : Validator P) (s : SessionState P) (event : AKAEvent P) :
    Check → Bool
  | mode => event.mode = AKA_MODE
  | sessionExists => s.config.sessionId = event.sessionId ∧
      (event.type = .sessionAccepted ∨ event.type = .sessionActivated ∨
        event.type = .sessionAborted ∨ s.config.status = .active)
  | membership => (s.findMember event.signerPeerId).isSome
  | schemaConformance => event.sessionId ≠ [] ∧ event.signerPeerId ≠ [] ∧ event.nonce ≠ [] ∧
      P.signatureLength event.signature ≠ 0
  | replayProtection =>
    (event.sessionId, event.signerPeerId, event.nonce) ∉ v.seenNonces ∧
      tupleKey event ∉ v.seenTuples
  | signature =>
    -- the nonce and the timestamp are not signed
    match s.findMember event.signerPeerId with
    | none => false
    | some member => P.verifyAKASignature
        ⟨me.network, s.config.contextGraphId, event.sessionId, event.round, event.type⟩
        event.payload event.signature member.pubKey
  | stateLinkage => event.prevStateHash = s.latestStateHash
  | timing =>
    match s.roundStates event.round with
    | none => true
    | some r =>
      match r.startTime with
      | none => true
      -- a start time of `0` counts as none
      | some startTime => startTime = 0 ∨ ¬ (event.timestamp + CLOCK_SKEW_TOLERANCE < startTime ∨
          startTime + s.config.roundTimeout + CLOCK_SKEW_TOLERANCE < event.timestamp)
  | equivocation => event.signerPeerId ∉ s.equivocators
  | proposerAuthority =>
    match s.roundStates event.round with
    | none => true
    | some r => event.signerPeerId = r.proposerPeerId
  | creatorAuthority => event.signerPeerId = s.config.createdBy

def Validator.recordEvent (v : Validator P) (event : AKAEvent P) : Validator P where
  seenTuples := tupleKey event :: v.seenTuples
  seenNonces := (event.sessionId, event.signerPeerId, event.nonce) :: v.seenNonces

/-! ## The manager -/

/-- The manager with its session, its suspended functions, and the finalizations so far. -/
structure Manager (P : Primitives) where
  session : SessionState P
  validator : Validator P
  tasks : List (Task P)
  finalizedRounds : List (ℕ × RoundProposalPayload P.Hash)

def initSessionState (config : SessionConfig P) : SessionState P where
  config := config
  currentRound := 0
  latestFinalizedRound := 0
  latestStateHash := config.genesisStateHash
  latestStateBytes := P.genesisState
  roundStates := fun _ => none
  equivocators := []
  inactiveMembers := []
  consecutiveSkips := 0
  acceptedMembers := []

/-- A manager that has just set up the session. -/
def Manager.start (config : SessionConfig P) : Manager P :=
  ⟨initSessionState config, ⟨[], []⟩, [], []⟩

/-- One uninterrupted piece of work: a call, a suspended function that goes on, or a timer. -/
inductive ManagerStep (P : Primitives)
  | receive (event : AKAEvent P)
  | resume (i : ℕ)
  | acceptSession
  | activateSession
  | startRound (now : ℕ) (requestedRound : Option ℕ)
  | submitInput (data : Bytes) (requestedRound : Option ℕ)
  | proposeTimer (round : ℕ)
  | startTimer (now : ℕ)
  | roundTimer (now round : ℕ)
  | acceptTimer

namespace Manager

variable (me : Local) (m : Manager P)

/-- The manager after a function has run. -/
def after (e : Effect P) : Manager P where
  session := e.session
  validator := m.validator
  tasks := m.tasks ++ e.tasks
  finalizedRounds := m.finalizedRounds ++ e.finalized.toList

/-- `validate` makes its next check, or records the event. -/
def validateNext (event : AKAEvent P) : List Check → Manager P
  | [] => { m with
      validator := m.validator.recordEvent event
      tasks := m.tasks ++ [.dispatching event] }
  | check :: rest =>
    if check.passes me m.validator m.session event = true then
      { m with tasks := m.tasks ++ [.validating event rest] }
    else m

/-- The effect of a suspended function that goes on, where it is not `validate`. -/
def taskEffect : Task P → Effect P
  | .validating _ _ => only m.session
  | .dispatching event => m.session.dispatch me event
  | .verifying event finPayload expectedAck i =>
    m.session.verifyNext me event finPayload expectedAck i
  | .proposing round proposal => m.session.validateAndAck me round proposal
  | .advancing round => only (m.session.advance round)

/-- `acceptSession` up to its `await`. -/
def acceptSession : Effect P :=
  signs m.session (m.session.signingContext me 0 .sessionAccepted,
    P.encodeSessionAcceptedPayload m.session.config.sessionId m.session.config.configHash)

/-- `activateSession` up to its `await`. -/
def activateSession : Effect P :=
  let s := m.session
  if s.config.createdBy ≠ me.localPeerId then only s
  else if ∃ x ∈ s.config.membership, x.peerId ≠ s.config.createdBy ∧
      x.peerId ∉ s.acceptedMembers then only s
  else signs { s with config := { s.config with status := .active } }
    (s.signingContext me 0 .sessionActivated, P.encodeText [])

/-- `submitInput` up to its `await`. -/
def submitInput (data : Bytes) (requestedRound : Option ℕ) : Effect P :=
  let s := m.session
  if ∃ r ∈ requestedRound, r ≠ s.currentRound then only s
  else
    match s.roundStates s.currentRound with
    | none => only s
    | some r =>
      if r.status ≠ .collectingInputs then only s
      else signs s (s.signingContext me s.currentRound .inputSubmitted,
        P.encodeInputPayload ⟨s.currentRound, data⟩)

/-- The function that a step runs, where it is not `validate`. -/
def stepEffect : ManagerStep P → Effect P
  | .receive _ => only m.session
  | .resume i =>
    match m.tasks[i]? with
    | none => only m.session
    | some task => m.taskEffect me task
  | .acceptSession => m.acceptSession me
  | .activateSession => m.activateSession me
  | .startRound now requestedRound => m.session.startRound me now requestedRound
  | .submitInput data requestedRound => m.submitInput me data requestedRound
  | .proposeTimer round => m.session.proposeRound me round
  | .startTimer now => m.session.startRound me now none
  | .roundTimer now round => m.session.handleRoundTimeout me now round
  | .acceptTimer => m.session.abortSession me (text "acceptance timeout")

def exec : ManagerStep P → Manager P
  | .receive event =>
    if event.sessionId = m.session.config.sessionId then
      m.validateNext me event (checksFor event.type)
    else m
  | .resume i =>
    -- the function is not suspended any more, whatever it does next
    let rest := { m with tasks := m.tasks.eraseIdx i }
    match m.tasks[i]? with
    | none => m
    | some (.validating event checks) => rest.validateNext me event checks
    | some task => rest.after (m.taskEffect me task)
  | step => m.after (m.stepEffect me step)

end Manager

/-- The runs of a manager, for any configuration of the session. -/
def managerMachine (P : Primitives) (me : Local) : Machine (Manager P) (ManagerStep P) where
  init m := ∃ config, m = Manager.start config
  step m step m' := m' = m.exec me step

end Dkg.Aka
