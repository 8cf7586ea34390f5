import Dkg.Lib.Interleaving
import Dkg.Publisher.NQuads

/-! # Authorization of private sync requests

`authorizePrivateSyncRequest` in stretches between its awaits. `Place` says where a call is, and
`advance` runs it to its next await: the checks of the envelope and of the replay map, the identity,
the participants and the allow-list, the same two again after a refresh, and last the record in the
replay map. Beside the calls, time passes and the answers of chain and metadata change.
-/

namespace Dkg.Sync

open Lib

/-! ## Numbers as text -/

def digitValue (c : Char) : Option ℕ :=
  if '0' ≤ c ∧ c ≤ '9' then some (c.toNat - '0'.toNat)
  else if 'a' ≤ c ∧ c ≤ 'f' then some (c.toNat - 'a'.toNat + 10)
  else if 'A' ≤ c ∧ c ≤ 'F' then some (c.toNat - 'A'.toNat + 10)
  else none

def parseDigits (base : ℕ) (digits : List Char) : Option ℕ :=
  if digits = [] then none
  else digits.foldl (fun value c => value.bind fun n =>
    ((digitValue c).filter (· < base)).map fun d => n * base + d) (some 0)

/-- `BigInt(text)`, where it does not throw. -/
def parseBigInt (text : Term) : Option ℤ :=
  match trim text with
  | [] => some 0
  | '0' :: 'x' :: digits | '0' :: 'X' :: digits => (parseDigits 16 digits).map Int.ofNat
  | '0' :: 'o' :: digits | '0' :: 'O' :: digits => (parseDigits 8 digits).map Int.ofNat
  | '0' :: 'b' :: digits | '0' :: 'B' :: digits => (parseDigits 2 digits).map Int.ofNat
  | '-' :: digits => (parseDigits 10 digits).map fun n => -Int.ofNat n
  | '+' :: digits => (parseDigits 10 digits).map Int.ofNat
  | digits => (parseDigits 10 digits).map Int.ofNat

/-- `String(n)`. -/
def bigIntText (n : ℤ) : Term :=
  if n < 0 then '-' :: Nat.toDigits 10 n.natAbs else Nat.toDigits 10 n.natAbs

/-! ## Requests -/

inductive SyncPhase
  | data
  | metadata
  deriving DecidableEq

structure SyncRequestEnvelope where
  contextGraphId : Term
  (offset limit : ℤ)
  includeSharedMemory : Bool
  (targetPeerId requesterPeerId requestId : Option Term)
  issuedAtMs : Option ℤ
  (requesterIdentityId requesterAgentAddress requesterSignatureR requesterSignatureVS : Option Term)
  phase : Option SyncPhase

/-- What `computeSyncDigest` is applied to. -/
structure SignedFields where
  contextGraphId : Term
  (offset limit : ℤ)
  includeSharedMemory : Bool
  (targetPeerId requesterPeerId requestId : Term)
  issuedAtMs : ℤ
  deriving DecidableEq

/-- The fields that every accepted envelope has. -/
structure Stamp where
  requestId : Term
  issuedAtMs : ℤ
  (signatureR signatureVS : Term)

/-- A request, with the peer that it came from. -/
structure Call where
  request : SyncRequestEnvelope
  remotePeerId : Term

/-- What the node is given; `recoverAddress` hashes the digest as a message first. -/
structure Env (D : Type) where
  localPeerId : Term
  syncAuthMaxAgeMs : ℤ
  computeSyncDigest : SignedFields → Option D
  recoverAddress : D → Term → Term → Option Term
  /-- The chain can verify identities. -/
  verifiesIdentities : Bool
  toLowerCase : Term → Term

/-- The answers of the chain and the metadata. -/
structure World where
  verifyIdentity : Term → ℤ → Bool
  (getParticipants getAllowedPeers : Term → Option (List Term))
  refreshMetaFromCurator : Term → Bool

structure Shared where
  seenRequestIds : Term → Option ℤ
  clock : ℤ
  world : World

/-- What a call has found out. -/
structure Session where
  now : ℤ
  stamp : Stamp
  fields : SignedFields
  recoveredAddress : Term
  requesterIdentityId : ℤ

/-- Where a call stands; from `verifying` on, what it waits for. -/
inductive Place
  | delivered
  | verifying (session : Session)
  | participants (session : Session)
  | peers (session : Session)
  | refreshing (session : Session)
  | participantsAgain (session : Session)
  | peersAgain (session : Session)
  | granted (session : Session)
  | denied

/-! ## The call -/

/-- An empty string counts as none. -/
def truthy (text : Option Term) : Option Term := text.filter (· ≠ [])

namespace SyncRequestEnvelope

def stamp (request : SyncRequestEnvelope) : Option Stamp :=
  match truthy request.requestId, request.issuedAtMs, truthy request.requesterSignatureR,
      truthy request.requesterSignatureVS with
  | some requestId, some issuedAtMs, some r, some vs => some ⟨requestId, issuedAtMs, r, vs⟩
  | _, _, _, _ => none

def signedFields (request : SyncRequestEnvelope) (stamp : Stamp) : SignedFields where
  contextGraphId := request.contextGraphId
  offset := request.offset
  limit := request.limit
  includeSharedMemory := request.includeSharedMemory
  targetPeerId := request.targetPeerId.getD []
  requesterPeerId := request.requesterPeerId.getD []
  requestId := stamp.requestId
  issuedAtMs := stamp.issuedAtMs

/-- `BigInt` of the claimed identity, and 0 where there is none or it throws. -/
def identityId (request : SyncRequestEnvelope) : ℤ :=
  ((truthy request.requesterIdentityId).bind parseBigInt).getD 0

def syncPhase (request : SyncRequestEnvelope) : SyncPhase := request.phase.getD .data

end SyncRequestEnvelope

variable {D ι : Type}

/-- Request ids are forgotten some time after they were seen. -/
def purge (maxAge now : ℤ) (seenRequestIds : Term → Option ℤ) : Term → Option ℤ :=
  fun requestId => (seenRequestIds requestId).filter fun seenAt => ¬ maxAge < now - seenAt

/-- The checks before the first await. -/
def openSession (env : Env D) (call : Call) (seenRequestIds : Term → Option ℤ) (now : ℤ) :
    Option Session :=
  match call.request.stamp with
  | none => none
  | some stamp =>
    if call.request.targetPeerId ≠ some env.localPeerId ∨
        call.request.requesterPeerId ≠ some call.remotePeerId ∨
        env.syncAuthMaxAgeMs < now - stamp.issuedAtMs ∨ now < stamp.issuedAtMs - 5000 then none
    else if (seenRequestIds stamp.requestId).isSome then none
    else match env.computeSyncDigest (call.request.signedFields stamp) with
      | none => none
      | some digest =>
        (env.recoverAddress digest stamp.signatureR stamp.signatureVS).map fun signer =>
          ⟨now, stamp, call.request.signedFields stamp, signer, call.request.identityId⟩

/-- An edge node signs with the address that it names. -/
def IsEdgeSigner (env : Env D) (call : Call) (session : Session) : Prop :=
  ∃ address ∈ truthy call.request.requesterAgentAddress,
    env.toLowerCase session.recoveredAddress = env.toLowerCase address
  deriving Decidable

def begin (env : Env D) (call : Call) (seenRequestIds : Term → Option ℤ) (now : ℤ) : Place :=
  match openSession env call seenRequestIds now with
  | none => .denied
  | some session =>
    if 0 < session.requesterIdentityId then
      if env.verifiesIdentities then .verifying session else .denied
    else if IsEdgeSigner env call session then .participants session
    else .denied

/-- The first test of the participants. -/
def IsParticipant (env : Env D) (session : Session) (participants : Option (List Term)) : Prop :=
  ∃ ps ∈ participants, ∃ p ∈ ps, env.toLowerCase p = env.toLowerCase session.recoveredAddress ∨
    (0 < session.requesterIdentityId ∧ p = bigIntText session.requesterIdentityId)
  deriving Decidable

/-- The second test, which does not ask whether the identity is one. -/
def IsParticipantAgain (env : Env D) (session : Session) (participants : Option (List Term)) :
    Prop :=
  ∃ ps ∈ participants, ∃ p ∈ ps, env.toLowerCase p = env.toLowerCase session.recoveredAddress ∨
    p = bigIntText session.requesterIdentityId
  deriving Decidable

def IsAllowedPeer (call : Call) (allowedPeers : Option (List Term)) : Prop :=
  ∃ peers ∈ allowedPeers, call.remotePeerId ∈ peers
  deriving Decidable

/-- The request id is recorded, and the request is granted. -/
def grant (shared : Shared) (session : Session) : Shared × Place :=
  ({ shared with seenRequestIds :=
      Function.update shared.seenRequestIds session.stamp.requestId (some session.now) },
    .granted session)

/-- The call goes on to its next await, or to its end. -/
def advance (env : Env D) (call : Call) (shared : Shared) : Place → Shared × Place
  | .delivered =>
    let seenRequestIds := purge env.syncAuthMaxAgeMs shared.clock shared.seenRequestIds
    ({ shared with seenRequestIds := seenRequestIds }, begin env call seenRequestIds shared.clock)
  | .verifying session =>
    (shared, if shared.world.verifyIdentity session.recoveredAddress session.requesterIdentityId
      then .participants session else .denied)
  | .participants session =>
    if IsParticipant env session (shared.world.getParticipants call.request.contextGraphId) then
      grant shared session
    else (shared, .peers session)
  | .peers session =>
    if IsAllowedPeer call (shared.world.getAllowedPeers call.request.contextGraphId) then
      grant shared session
    else (shared, .refreshing session)
  | .refreshing session =>
    (shared, if shared.world.refreshMetaFromCurator call.request.contextGraphId
      then .participantsAgain session else .denied)
  | .participantsAgain session =>
    if IsParticipantAgain env session
        (shared.world.getParticipants call.request.contextGraphId) then
      grant shared session
    else (shared, .peersAgain session)
  | .peersAgain session =>
    if IsAllowedPeer call (shared.world.getAllowedPeers call.request.contextGraphId) then
      grant shared session
    else (shared, .denied)
  | .granted session => (shared, .granted session)
  | .denied => (shared, .denied)

/-! ## All calls -/

/-- A call goes on, or an await of it throws; time passes; chain and metadata change. -/
inductive Label (ι : Type)
  | run (i : ι)
  | throws (i : ι)
  | tick (time : ℤ)
  | change (world : World)

abbrev State (ι : Type) := Pool ι Shared Place

def Place.session : Place → Option Session
  | .verifying session | .participants session | .peers session | .refreshing session
  | .participantsAgain session | .peersAgain session => some session
  | _ => none

variable [DecidableEq ι]

/-- The clock never goes back, and only a call that waits can throw. -/
def exec (env : Env D) (calls : ι → Call) (s : State ι) : Label ι → State ι
  | .run i => s.step (fun i => advance env (calls i)) i
  | .throws i => if (s.place i).session.isSome then s.settle i (s.shared, .denied) else s
  | .tick time => { s with shared := { s.shared with clock := max s.shared.clock time } }
  | .change world => { s with shared := { s.shared with world := world } }

/-- The node starts with an empty replay map. -/
def machine (env : Env D) (calls : ι → Call) : Machine (State ι) (Label ι) where
  init s := s.shared.seenRequestIds = (fun _ => none) ∧ ∀ i, s.place i = .delivered
  step s label s' := s' = exec env calls s label

end Dkg.Sync
