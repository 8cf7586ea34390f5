import Dkg.Lib.Quorum
import Dkg.AttestedAssets.Commitment

/-! # A session of several members

Every honest member runs a manager; the others do anything. `Network.signed` records what was
signed with the key of a member: any event may be delivered to any honest member at any time and any
number of times, as long as the signatures in it that verify under the key of a member are recorded.
An honest member signs what its manager signs, and a faulty key signs anything.

`Session.Orderly` is the condition on the runs in which the members agree, and `Session.Sound` is
the invariant: every recorded vote and every part of a certificate that was checked is backed by
signatures.
-/

namespace Dkg.Aka

open Lib

variable {P : Primitives}

/-- What the hashes and the encodings have to give: the states are told apart by their hashes, and
an encoded ack decodes to an ack for the same hash. -/
structure Primitives.Lawful (P : Primitives) : Prop where
  collisionFree : Function.Injective P.computeStateHash
  decode_encode : ∀ ack : RoundAckPayload P.Hash, ∃ ack' : RoundAckPayload P.Hash,
    P.decodeRoundAckPayload (P.encodeRoundAckPayload ack) = some ack' ∧
    ack'.nextStateHash = ack.nextStateHash

/-! ## The network -/

/-- A session with its honest members. The members have different ids, as `createSession` checks. -/
structure Session (P : Primitives) where
  config : SessionConfig P
  network : Text
  honest : List SessionMember
  subset : ∀ x ∈ honest, x ∈ config.membership
  distinct : (config.membership.map SessionMember.peerId).Nodup

/-- What was signed: the key, the context and the payload. -/
abbrev Signed (P : Primitives) := List (Bytes × SigningContext × P.Payload)

/-- The managers of the members, and what was signed. -/
structure Network (P : Primitives) where
  managers : Text → Manager P
  signed : Signed P

inductive NetworkStep (P : Primitives)
  | honest (member : SessionMember) (step : ManagerStep P)
  | faulty (key : Bytes) (ctx : SigningContext) (payload : P.Payload)

/-- The signatures that an event carries: its own, and those of a certificate. -/
def AKAEvent.signatures (event : AKAEvent P) : List P.Sig :=
  event.signature :: ((P.decodeRoundFinalizedPayload event.payload).map
    RoundFinalizedPayload.signatures).getD []

namespace Session

variable (S : Session P)

def localOf (member : SessionMember) : Local := ⟨member.peerId, S.network⟩

/-- Signatures cannot be forged: one that verifies under the key of a member was made with it. -/
def Authentic (signed : Signed P) (sig : P.Sig) : Prop :=
  ∀ member ∈ S.config.membership, ∀ ctx payload,
    P.verifyAKASignature ctx payload sig member.pubKey = true →
      (member.pubKey, ctx, payload) ∈ signed

/-- Only honest members run a manager, events carry no forged signatures, and no one else has the
key of an honest member. -/
def Admits (net : Network P) : NetworkStep P → Prop
  | .honest member (.receive event) =>
    member ∈ S.honest ∧ ∀ sig ∈ event.signatures, S.Authentic net.signed sig
  | .honest member _ => member ∈ S.honest
  | .faulty key _ _ => ∀ member ∈ S.honest, member.pubKey ≠ key

def exec (net : Network P) : NetworkStep P → Network P
  | .honest member step =>
    let m := net.managers member.peerId
    { managers := Function.update net.managers member.peerId (m.exec (S.localOf member) step)
      signed := net.signed ++ (m.stepEffect (S.localOf member) step).signed.map fun message =>
        (member.pubKey, message.1, message.2) }
  | .faulty key ctx payload => { net with signed := net.signed ++ [(key, ctx, payload)] }

end Session

/-- The runs of a session: every member has set it up with the same configuration. -/
def networkMachine (S : Session P) : Machine (Network P) (NetworkStep P) where
  init net := net = ⟨fun _ => Manager.start S.config, []⟩
  step net step net' := S.Admits net step ∧ net' = S.exec net step

/-! ## The condition -/

/-- The round and the proposal for which the suspended function, when it goes on, signs an ack. -/
def Task.confirmed (s : SessionState P) : Task P → Option (ℕ × RoundProposalPayload P.Hash)
  | .dispatching event =>
    match s.roundStates event.round, P.decodeRoundProposalPayload event.payload with
    | some r, some proposal =>
      if event.type = .roundProposal ∧ event.signerPeerId = r.proposerPeerId ∧
          s.Confirms proposal then some (event.round, proposal)
      else none
    | _, _ => none
  | .proposing round proposal => if s.Confirms proposal then some (round, proposal) else none
  | _ => none

/-- The hashes whose votes are counted when the function goes on and closes a round. -/
def Task.counted (s : SessionState P) : Task P → List P.Hash
  | .dispatching event =>
    match s.roundStates event.round, P.decodeRoundAckPayload event.payload with
    | some r, some ack =>
      (SessionState.withAck event r ack).acks.entries.map fun entry => entry.2.nextStateHash
    | _, _ => []
  | .verifying _ finPayload _ _ => [finPayload.nextStateHash]
  | _ => []

namespace Session

variable (S : Session P) (unreliable : List Text)

def ackContext (round : ℕ) : SigningContext :=
  ⟨S.network, S.config.contextGraphId, S.config.sessionId, round, .roundAck⟩

/-- The ack that the step signs: the key, the context and the hash. -/
def voted (net : Network P) : NetworkStep P → Option (Bytes × SigningContext × P.Hash)
  | .honest member step =>
    let m := net.managers member.peerId
    ((m.resumed step).bind (Task.confirmed m.session)).map fun f =>
      (member.pubKey, S.ackContext f.1, f.2.nextStateHash)
  | .faulty key ctx payload =>
    if ctx.type = .roundAck then
      (P.decodeRoundAckPayload payload).map fun ack => (key, ctx, ack.nextStateHash)
    else none

/-- The key of a member that is not in the list. -/
def Reliable (key : Bytes) : Prop :=
  ∃ member ∈ S.config.membership, member.pubKey = key ∧ member.peerId ∉ unreliable

/-- The quorum of the policy, with the unreliable members left out of the count, is more than half
of all members and of the unreliable ones. -/
def Majority : Prop :=
  ∀ threshold ∈ quorumThreshold S.config.quorumPolicy
      (S.config.membership.length - unreliable.length),
    S.config.membership.length + unreliable.length < 2 * threshold

/-- A reliable member does not ack two states in one round. An honest member finalizes a round
above its earlier ones, with a proposal whose claim is right and that the counted votes are for. -/
structure Orderly (net : Network P) (step : NetworkStep P) : Prop where
  votes : ∀ key ctx hash, S.voted net step = some (key, ctx, hash) → S.Reliable unreliable key →
    ∀ payload ack, (key, ctx, payload) ∈ net.signed →
      P.decodeRoundAckPayload payload = some ack → ack.nextStateHash = hash
  faithful : ∀ member managerStep, step = .honest member managerStep →
    (net.managers member.peerId).Faithful (S.localOf member) managerStep
  counted : ∀ member managerStep, step = .honest member managerStep →
    ∀ round proposal,
      (net.managers member.peerId).Finalizes (S.localOf member) managerStep round proposal →
      ∀ task ∈ (net.managers member.peerId).resumed managerStep,
        ∀ hash ∈ task.counted (net.managers member.peerId).session, hash = proposal.nextStateHash

/-! ## What is backed by signatures -/

def Acked (signed : Signed P) (id : Text) (round : ℕ) (hash : P.Hash) : Prop :=
  ∃ member ∈ S.config.membership, member.peerId = id ∧ ∃ payload ack,
    (member.pubKey, S.ackContext round, payload) ∈ signed ∧
    P.decodeRoundAckPayload payload = some ack ∧ ack.nextStateHash = hash

/-- No reliable key has acked two states in one context. -/
def Single (signed : Signed P) : Prop :=
  ∀ key ctx payload payload' ack ack', S.Reliable unreliable key → ctx.type = .roundAck →
    (key, ctx, payload) ∈ signed → (key, ctx, payload') ∈ signed →
    P.decodeRoundAckPayload payload = some ack → P.decodeRoundAckPayload payload' = some ack' →
    ack.nextStateHash = ack'.nextStateHash

/-- Members that are so many that two such lists share one that is reliable. -/
structure Enough (signers : List Text) : Prop where
  voters : Voters (S.config.membership.map SessionMember.peerId) signers
  many : S.config.membership.length + unreliable.length < 2 * signers.length

/-- Enough members have acked the hash in the round. -/
def Backed (signed : Signed P) (round : ℕ) (hash : P.Hash) : Prop :=
  ∃ signers, S.Enough unreliable signers ∧ ∀ id ∈ signers, S.Acked signed id round hash

/-- The event is of this session and was signed by the member that it names. -/
structure Attributed (signed : Signed P) (event : AKAEvent P) : Prop where
  session : event.sessionId = S.config.sessionId
  signed : ∃ member ∈ S.config.membership, member.peerId = event.signerPeerId ∧
    (member.pubKey, ⟨S.network, S.config.contextGraphId, event.sessionId, event.round, event.type⟩,
      event.payload) ∈ signed

/-- What is known of the events that are being worked on. -/
def SoundTask (signed : Signed P) : Task P → Prop
  | .validating event checks => (∀ sig ∈ event.signatures, S.Authentic signed sig) ∧
      event.sessionId = S.config.sessionId ∧ (.signature ∈ checks ∨ S.Attributed signed event)
  | .dispatching event => (∀ sig ∈ event.signatures, S.Authentic signed sig) ∧
      S.Attributed signed event
  | .verifying event finPayload expectedAck i =>
    (∀ sig ∈ finPayload.signatures, S.Authentic signed sig) ∧
    (∃ ack : RoundAckPayload P.Hash, expectedAck = P.encodeRoundAckPayload ack ∧
      ack.nextStateHash = finPayload.nextStateHash) ∧
    S.Enough unreliable finPayload.signerPeerIds ∧
    ∀ j < i, ∀ id, finPayload.signerPeerIds[j]? = some id →
      S.Acked signed id event.round finPayload.nextStateHash
  | _ => True

/-- The setup is that of the session, only unreliable members are excluded, and every recorded vote
is backed by a signature. -/
structure SoundSession (signed : Signed P) (s : SessionState P) : Prop where
  config : ∃ status, s.config = { S.config with status := status }
  inactive : s.inactiveMembers = []
  equivocators : Voters unreliable s.equivocators
  acks : ∀ round r, s.roundStates round = some r → ∀ entry ∈ r.acks.entries,
    S.Acked signed entry.1 round entry.2.nextStateHash

/-- What a manager holds is signed by those it names. -/
structure Sound (signed : Signed P) (m : Manager P) : Prop where
  session : S.SoundSession unreliable signed m.session
  tasks : ∀ task ∈ m.tasks, S.SoundTask unreliable signed task
  log : ∀ f ∈ m.finalizedRounds, S.Backed unreliable signed f.1 f.2.nextStateHash

end Session

end Dkg.Aka
