import Dkg.Chronos
import Dkg.Lib.Machine

/-! # Context graphs

`storage/ContextGraphStorage.sol`, an ERC-721 token with one token per context graph, and its
facade `ContextGraphs.sol`. A graph has hosting nodes with a quorum, participant agents, a publish
policy with its authority, and the list of the collections that are registered to it. The storage
is written by contracts of the Hub; the facade checks who calls, and the storage what is written.
The transfer hook of the token rewrites the authority.

The enumeration of the tokens, the names, the getters and the events are left out.
-/

namespace Dkg

open Lib
open Function (update)

/-- `KnowledgeAssetsLib.ContextGraph`. -/
structure ContextGraph where
  (publishAuthority createdAt requiredSignatures publishPolicy : ℕ)
  active : Bool
  metadataBatchId : ℕ
  deriving DecidableEq, Repr

/-- The record at an id that was not created. -/
def ContextGraph.zero : ContextGraph := ⟨0, 0, 0, 0, false, 0⟩

/-- The storage of the contract, with that of the ERC-721 it extends. -/
structure ContextGraphStorage where
  contextGraphCounter : ℕ
  contextGraphs : ℕ → ContextGraph
  (hostingNodes participantAgents : ℕ → List ℕ)
  (publishAuthorityAccountId kcToContextGraph : ℕ → ℕ)
  contextGraphKCList : ℕ → List ℕ
  (owner tokenApproval : ℕ → ℕ)
  operatorApproval : ℕ → ℕ → Bool

namespace ContextGraphStorage

def MAX_HOSTING_NODES : ℕ := 64

def MAX_PARTICIPANT_AGENTS : ℕ := 256

/-- The storage of a fresh contract. -/
def empty : ContextGraphStorage where
  contextGraphCounter := 0
  contextGraphs := fun _ => ContextGraph.zero
  hostingNodes := fun _ => []
  participantAgents := fun _ => []
  publishAuthorityAccountId := fun _ => 0
  kcToContextGraph := fun _ => 0
  contextGraphKCList := fun _ => []
  owner := fun _ => 0
  tokenApproval := fun _ => 0
  operatorApproval := fun _ _ => false

variable (s : ContextGraphStorage)

def setGraph (id : ℕ) (cg : ContextGraph) : ContextGraphStorage :=
  { s with contextGraphs := update s.contextGraphs id cg }

/-! ## The ERC-721 token -/

def _isAuthorized (tokenOwner spender tokenId : ℕ) : Prop :=
  spender ≠ 0 ∧ (tokenOwner = spender ∨ s.operatorApproval tokenOwner spender = true ∨
    s.tokenApproval tokenId = spender)
  deriving Decidable

def _checkAuthorized (tokenOwner spender tokenId : ℕ) : Tx Unit :=
  if s._isAuthorized tokenOwner spender tokenId then pure ()
  else if tokenOwner = 0 then .error .nonexistentToken
  else .error .insufficientApproval

/-- `_update`: the token's own, and the hook. A curated graph whose authority was the previous
owner gets the new one as its authority, and leaves the mode of a conviction account. -/
def _update (receiver tokenId auth : ℕ) : Tx (ℕ × ContextGraphStorage) := do
  let previousOwner := s.owner tokenId
  (if auth ≠ 0 then s._checkAuthorized previousOwner auth tokenId else pure ())
  let s := { s with
    tokenApproval := if previousOwner ≠ 0 then update s.tokenApproval tokenId 0
      else s.tokenApproval
    owner := update s.owner tokenId receiver }
  let cg := s.contextGraphs tokenId
  let s := if previousOwner ≠ 0 ∧ receiver ≠ 0 ∧ previousOwner ≠ receiver ∧
      cg.publishAuthority = previousOwner then
    { s.setGraph tokenId { cg with publishAuthority := receiver } with
      publishAuthorityAccountId := update s.publishAuthorityAccountId tokenId 0 }
    else s
  pure (previousOwner, s)

def _mint (receiver tokenId : ℕ) : Tx ContextGraphStorage := do
  require (receiver ≠ 0) .invalidReceiver
  let out ← s._update receiver tokenId 0
  require (out.1 = 0) .invalidSender
  pure out.2

/-- `transferFrom`, and `safeTransferFrom` to an account that accepts. -/
def transferFrom (sender holder receiver tokenId : ℕ) : Tx ContextGraphStorage := do
  require (receiver ≠ 0) .invalidReceiver
  let out ← s._update receiver tokenId sender
  require (out.1 = holder) .incorrectOwner
  pure out.2

def approve (sender spender tokenId : ℕ) : Tx ContextGraphStorage := do
  require (s.owner tokenId ≠ 0) .nonexistentToken
  require (sender = 0 ∨ s.owner tokenId = sender ∨
    s.operatorApproval (s.owner tokenId) sender = true) .invalidApprover
  pure { s with tokenApproval := update s.tokenApproval tokenId spender }

def setApprovalForAll (sender operator : ℕ) (approved : Bool) : Tx ContextGraphStorage := do
  require (operator ≠ 0) .invalidOperator
  pure { s with operatorApproval := store₂ s.operatorApproval sender operator approved }

/-- `_requireExists`, which is `_requireOwned`. -/
def _requireExists (id : ℕ) : Tx Unit := require (s.owner id ≠ 0) .nonexistentToken

/-! ## Creation -/

/-- The loop of `_validateHostingNodes`, with the node before. -/
def validateLoop : ℕ → List ℕ → Tx Unit
  | _, [] => pure ()
  | prev, current :: rest => do
      require (current ≠ 0) .zeroHostingNodeId
      require (¬ current ≤ prev) .hostingNodesUnsortedOrDuplicate
      validateLoop current rest

def _validateHostingNodes (hostingNodes : List ℕ) : Tx Unit := validateLoop 0 hostingNodes

/-- The loop that stores the agents; `before` are those it has passed. -/
def storeAgents : List ℕ → List ℕ → List ℕ → Tx (List ℕ)
  | _, [], stored => pure stored
  | before, agent :: rest, stored => do
      require (agent ≠ 0) .zeroParticipantAgent
      require (agent ∉ before) .agentParticipantAlreadyExists
      storeAgents (before ++ [agent]) rest (stored ++ [agent])

def checkPolicy (publishPolicy publishAuthority publishAuthorityAccountId : ℕ) : Tx Unit :=
  if publishPolicy = 0 then
    require (publishAuthority ≠ 0) .curatedRequiresPublishAuthority
  else do
    require (publishAuthority = 0) .openPolicyZeroAuthorityRequired
    require (publishAuthorityAccountId = 0) .openPolicyZeroAccountIdRequired

def createContextGraph (b : Block) (owner_ : ℕ) (hostingNodes participantAgents : List ℕ)
    (requiredSignatures metadataBatchId publishPolicy publishAuthority
      publishAuthorityAccountId : ℕ) :
    Tx (ℕ × ContextGraphStorage) := do
  require (owner_ ≠ 0) .zeroAddressOwner
  require (hostingNodes.length ≠ 0) .emptyHostingNodes
  require (¬ hostingNodes.length > MAX_HOSTING_NODES) .hostingNodesCap
  require (¬ participantAgents.length > MAX_PARTICIPANT_AGENTS) .agentsCap
  require (¬ (requiredSignatures = 0 ∨ requiredSignatures > hostingNodes.length)) .invalidThreshold
  require (¬ publishPolicy > 1) .invalidPublishPolicy
  _validateHostingNodes hostingNodes
  checkPolicy publishPolicy publishAuthority publishAuthorityAccountId
  let id ← addUint 256 s.contextGraphCounter 1
  let s := { s with contextGraphCounter := id }
  let s ← s._mint owner_ id
  let s := s.setGraph id
    { s.contextGraphs id with
      requiredSignatures := requiredSignatures
      metadataBatchId := metadataBatchId
      active := true
      createdAt := uint40 b.timestamp
      publishPolicy := publishPolicy
      publishAuthority := publishAuthority }
  let s := { s with
    hostingNodes := update s.hostingNodes id (s.hostingNodes id ++ hostingNodes) }
  let stored ← storeAgents [] participantAgents (s.participantAgents id)
  let s := { s with participantAgents := update s.participantAgents id stored }
  let s := if publishAuthorityAccountId ≠ 0 then
    { s with publishAuthorityAccountId :=
        update s.publishAuthorityAccountId id publishAuthorityAccountId }
    else s
  pure (id, s)

/-! ## Collections -/

def registerKCToContextGraph (contextGraphId kcId : ℕ) : Tx ContextGraphStorage := do
  require (kcId ≠ 0) .zeroKcId
  require ((s.contextGraphs contextGraphId).active = true) .contextGraphNotActive
  require (s.kcToContextGraph kcId = 0) .kcAlreadyRegisteredToContextGraph
  pure { s with
    kcToContextGraph := update s.kcToContextGraph kcId contextGraphId
    contextGraphKCList := update s.contextGraphKCList contextGraphId
      (s.contextGraphKCList contextGraphId ++ [kcId]) }

/-! ## Governance -/

def deactivateContextGraph (contextGraphId : ℕ) : Tx ContextGraphStorage := do
  s._requireExists contextGraphId
  pure (s.setGraph contextGraphId { s.contextGraphs contextGraphId with active := false })

def updatePublishPolicy
    (contextGraphId publishPolicy publishAuthority publishAuthorityAccountId : ℕ) :
    Tx ContextGraphStorage := do
  s._requireExists contextGraphId
  require (¬ publishPolicy > 1) .invalidPublishPolicy
  checkPolicy publishPolicy publishAuthority publishAuthorityAccountId
  let s := s.setGraph contextGraphId
    { s.contextGraphs contextGraphId with
      publishPolicy := publishPolicy
      publishAuthority := publishAuthority }
  pure { s with
    publishAuthorityAccountId :=
      update s.publishAuthorityAccountId contextGraphId publishAuthorityAccountId }

def updatePublishAuthority (contextGraphId newAuthority newAuthorityAccountId : ℕ) :
    Tx ContextGraphStorage := do
  s._requireExists contextGraphId
  let cg := s.contextGraphs contextGraphId
  (if cg.publishPolicy = 0 then
    require (newAuthority ≠ 0) .curatedRequiresPublishAuthority
  else
    require (¬ (newAuthority ≠ 0 ∨ newAuthorityAccountId ≠ 0)) .openPolicyClearAuthority)
  let s := s.setGraph contextGraphId { cg with publishAuthority := newAuthority }
  pure { s with
    publishAuthorityAccountId :=
      update s.publishAuthorityAccountId contextGraphId newAuthorityAccountId }

def setHostingNodes (contextGraphId : ℕ) (nodes : List ℕ) : Tx ContextGraphStorage := do
  s._requireExists contextGraphId
  require (nodes.length ≠ 0) .emptyHostingNodes
  require (¬ nodes.length > MAX_HOSTING_NODES) .hostingNodesCap
  require (¬ (s.contextGraphs contextGraphId).requiredSignatures > nodes.length)
    .setHostingNodesWouldBreakQuorum
  _validateHostingNodes nodes
  pure { s with hostingNodes := update s.hostingNodes contextGraphId nodes }

def addParticipantAgent (contextGraphId agent : ℕ) : Tx ContextGraphStorage := do
  s._requireExists contextGraphId
  require (agent ≠ 0) .zeroParticipantAgent
  let agents := s.participantAgents contextGraphId
  require (¬ agents.length ≥ MAX_PARTICIPANT_AGENTS) .agentsCap
  require (agent ∉ agents) .agentParticipantAlreadyExists
  pure { s with
    participantAgents := update s.participantAgents contextGraphId (agents ++ [agent]) }

/-- The inner loop of `removeParticipantAgent`: from slot `j` on, each entry takes the next one;
`steps` are left. -/
def shiftLeft (agents : List ℕ) (j : ℕ) : ℕ → List ℕ
  | 0 => agents
  | steps + 1 => shiftLeft (agents.set j (agents.getD (j + 1) 0)) (j + 1) steps

/-- `removeParticipantAgent`: the first slot with the agent is shifted over. -/
def removeParticipantAgent (contextGraphId agent : ℕ) : Tx ContextGraphStorage := do
  s._requireExists contextGraphId
  let agents := s.participantAgents contextGraphId
  require (agent ∈ agents) .agentParticipantNotFound
  let i := agents.idxOf agent
  pure { s with
    participantAgents := update s.participantAgents contextGraphId
      (shiftLeft agents i (agents.length - 1 - i)).dropLast }

def updateQuorum (contextGraphId requiredSignatures : ℕ) : Tx ContextGraphStorage := do
  s._requireExists contextGraphId
  require (¬ (requiredSignatures = 0 ∨
    requiredSignatures > (s.hostingNodes contextGraphId).length)) .invalidThreshold
  pure (s.setGraph contextGraphId
    { s.contextGraphs contextGraphId with requiredSignatures := requiredSignatures })

end ContextGraphStorage

/-! ## The facade -/

/-- The conviction NFT as the facade finds it: not registered, or the owner of each account that
exists. -/
inductive ConvictionLookup
  | notResolvable
  | ownerOf (owner : ℕ → Option ℕ)

namespace ContextGraphs

variable (pca : ConvictionLookup) (s : ContextGraphStorage)

def onlyContextGraphOwner (sender contextGraphId : ℕ) : Tx Unit := do
  require (s.owner contextGraphId ≠ 0) .nonexistentToken
  require (s.owner contextGraphId = sender) .notContextGraphOwner

/-- `_isOwnerOrAuthority`: the owner, the static authority, or the owner of the conviction account
at the time of the call. -/
def _isOwnerOrAuthority (contextGraphId caller : ℕ) : Bool :=
  if s.owner contextGraphId = caller then true
  else if s.publishAuthorityAccountId contextGraphId = 0 then
    caller = (s.contextGraphs contextGraphId).publishAuthority
  else match pca with
    | .notResolvable => false
    | .ownerOf owner => owner (s.publishAuthorityAccountId contextGraphId) = some caller

def onlyContextGraphOwnerOrAuthority (sender contextGraphId : ℕ) : Tx Unit := do
  require (s.owner contextGraphId ≠ 0) .nonexistentToken
  require (_isOwnerOrAuthority pca s contextGraphId sender = true) .notContextGraphOwnerOrAuthority

def _validatePCACoherence (authority accountId : ℕ) : Tx Unit :=
  if accountId = 0 ∨ authority = 0 then pure ()
  else match pca with
    | .notResolvable => .error .pcaNotResolvable
    | .ownerOf owner =>
      match owner accountId with
      | none => .error .pcaAccountDoesNotExist
      | some actualOwner => require (actualOwner = authority) .pcaAuthorityMismatch

def createContextGraph (b : Block) (sender : ℕ) (hostingNodes participantAgents : List ℕ)
    (requiredSignatures metadataBatchId publishPolicy publishAuthority
      publishAuthorityAccountId : ℕ) :
    Tx (ℕ × ContextGraphStorage) := do
  let authority := if publishPolicy = 0 ∧ publishAuthority = 0 then sender else publishAuthority
  _validatePCACoherence pca authority publishAuthorityAccountId
  s.createContextGraph b sender hostingNodes participantAgents requiredSignatures metadataBatchId
    publishPolicy authority publishAuthorityAccountId

def updatePublishPolicy
    (sender contextGraphId publishPolicy publishAuthority publishAuthorityAccountId : ℕ) :
    Tx ContextGraphStorage := do
  onlyContextGraphOwner s sender contextGraphId
  _validatePCACoherence pca publishAuthority publishAuthorityAccountId
  s.updatePublishPolicy contextGraphId publishPolicy publishAuthority publishAuthorityAccountId

def updatePublishAuthority (sender contextGraphId newAuthority newAuthorityAccountId : ℕ) :
    Tx ContextGraphStorage := do
  onlyContextGraphOwner s sender contextGraphId
  _validatePCACoherence pca newAuthority newAuthorityAccountId
  s.updatePublishAuthority contextGraphId newAuthority newAuthorityAccountId

def setHostingNodes (sender contextGraphId : ℕ) (nodes : List ℕ) : Tx ContextGraphStorage := do
  onlyContextGraphOwner s sender contextGraphId
  s.setHostingNodes contextGraphId nodes

def addParticipantAgent (sender contextGraphId agent : ℕ) : Tx ContextGraphStorage := do
  onlyContextGraphOwnerOrAuthority pca s sender contextGraphId
  s.addParticipantAgent contextGraphId agent

def removeParticipantAgent (sender contextGraphId agent : ℕ) : Tx ContextGraphStorage := do
  onlyContextGraphOwnerOrAuthority pca s sender contextGraphId
  s.removeParticipantAgent contextGraphId agent

def updateQuorum (sender contextGraphId requiredSignatures : ℕ) : Tx ContextGraphStorage := do
  onlyContextGraphOwner s sender contextGraphId
  s.updateQuorum contextGraphId requiredSignatures

/-- `registerKnowledgeCollection`, for contracts of the Hub. -/
def registerKnowledgeCollection (contextGraphId kcId : ℕ) : Tx ContextGraphStorage :=
  s.registerKCToContextGraph contextGraphId kcId

end ContextGraphs

/-! ## Runs -/

/-- A call of the storage contract that changes it. -/
inductive GraphWrite
  | createContextGraph (b : Block) (owner : ℕ) (hostingNodes participantAgents : List ℕ)
      (requiredSignatures metadataBatchId publishPolicy publishAuthority
        publishAuthorityAccountId : ℕ)
  | registerKCToContextGraph (contextGraphId kcId : ℕ)
  | deactivateContextGraph (contextGraphId : ℕ)
  | updatePublishPolicy
      (contextGraphId publishPolicy publishAuthority publishAuthorityAccountId : ℕ)
  | updatePublishAuthority (contextGraphId newAuthority newAuthorityAccountId : ℕ)
  | setHostingNodes (contextGraphId : ℕ) (nodes : List ℕ)
  | addParticipantAgent (contextGraphId agent : ℕ)
  | removeParticipantAgent (contextGraphId agent : ℕ)
  | updateQuorum (contextGraphId requiredSignatures : ℕ)

def GraphWrite.run (s : ContextGraphStorage) : GraphWrite → Tx ContextGraphStorage
  | createContextGraph b owner nodes agents required metadata policy authority account => do
      let created ← s.createContextGraph b owner nodes agents required metadata policy authority
        account
      pure created.2
  | registerKCToContextGraph cg kc => s.registerKCToContextGraph cg kc
  | deactivateContextGraph cg => s.deactivateContextGraph cg
  | updatePublishPolicy cg policy authority account =>
    s.updatePublishPolicy cg policy authority account
  | updatePublishAuthority cg authority account => s.updatePublishAuthority cg authority account
  | setHostingNodes cg nodes => s.setHostingNodes cg nodes
  | addParticipantAgent cg agent => s.addParticipantAgent cg agent
  | removeParticipantAgent cg agent => s.removeParticipantAgent cg agent
  | updateQuorum cg required => s.updateQuorum cg required

/-- A transaction: a write by a contract of the Hub, a call of the facade, or one of the token. -/
inductive GraphOp
  | byContract (write : GraphWrite)
  | create (pca : ConvictionLookup) (b : Block) (sender : ℕ)
      (hostingNodes participantAgents : List ℕ)
      (requiredSignatures metadataBatchId publishPolicy publishAuthority
        publishAuthorityAccountId : ℕ)
  | updatePublishPolicy (pca : ConvictionLookup)
      (sender contextGraphId publishPolicy publishAuthority publishAuthorityAccountId : ℕ)
  | updatePublishAuthority (pca : ConvictionLookup)
      (sender contextGraphId newAuthority newAuthorityAccountId : ℕ)
  | setHostingNodes (sender contextGraphId : ℕ) (nodes : List ℕ)
  | addParticipantAgent (pca : ConvictionLookup) (sender contextGraphId agent : ℕ)
  | removeParticipantAgent (pca : ConvictionLookup) (sender contextGraphId agent : ℕ)
  | updateQuorum (sender contextGraphId requiredSignatures : ℕ)
  | registerKnowledgeCollection (contextGraphId kcId : ℕ)
  | transferFrom (sender holder receiver tokenId : ℕ)
  | approve (sender spender tokenId : ℕ)
  | setApprovalForAll (sender operator : ℕ) (approved : Bool)

namespace GraphOp

def run (s : ContextGraphStorage) : GraphOp → Tx ContextGraphStorage
  | byContract write => write.run s
  | create pca b sender nodes agents required metadata policy authority account => do
      let created ← ContextGraphs.createContextGraph pca s b sender nodes agents required metadata
        policy authority account
      pure created.2
  | updatePublishPolicy pca sender cg policy authority account =>
    ContextGraphs.updatePublishPolicy pca s sender cg policy authority account
  | updatePublishAuthority pca sender cg authority account =>
    ContextGraphs.updatePublishAuthority pca s sender cg authority account
  | setHostingNodes sender cg nodes => ContextGraphs.setHostingNodes s sender cg nodes
  | addParticipantAgent pca sender cg agent =>
    ContextGraphs.addParticipantAgent pca s sender cg agent
  | removeParticipantAgent pca sender cg agent =>
    ContextGraphs.removeParticipantAgent pca s sender cg agent
  | updateQuorum sender cg required => ContextGraphs.updateQuorum s sender cg required
  | registerKnowledgeCollection cg kc => ContextGraphs.registerKnowledgeCollection s cg kc
  | transferFrom sender holder receiver tokenId => s.transferFrom sender holder receiver tokenId
  | approve sender spender tokenId => s.approve sender spender tokenId
  | setApprovalForAll sender operator approved => s.setApprovalForAll sender operator approved

/-- The sender of a call of the token is not the zero address. -/
def Sent : GraphOp → Prop
  | transferFrom sender _ _ _ | approve sender _ _ | setApprovalForAll sender _ _ => sender ≠ 0
  | _ => True

instance : (op : GraphOp) → Decidable op.Sent
  | transferFrom .. | approve .. | setApprovalForAll .. => inferInstanceAs (Decidable (_ ≠ _))
  | byContract .. | create .. | updatePublishPolicy .. | updatePublishAuthority ..
  | setHostingNodes .. | addParticipantAgent .. | removeParticipantAgent .. | updateQuorum ..
  | registerKnowledgeCollection .. => isTrue trivial

end GraphOp

/-- The contracts and their runs. -/
def graphMachine : Machine ContextGraphStorage GraphOp where
  init s := s = ContextGraphStorage.empty
  step s op s' := op.Sent ∧ op.run s = .ok s'

end Dkg
