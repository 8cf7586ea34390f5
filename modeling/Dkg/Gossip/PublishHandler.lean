import Dkg.Assertions.Operations
import Dkg.Lib.Binary64
import Dkg.Lib.Failure
import Dkg.Publisher.CollectionMetadata
import Dkg.Sync.Verification

/-! # Publish messages by gossip

`GossipPublishHandler.handlePublishMessage`, in the order of the source: the request and its quads,
the gates of the context graph, the structural validation, the registration of a sub-graph, and what
is stored. A message that is dropped before the validation ends leaves the store as it was. What it
stores afterwards is one value (`Stored`), which the store then takes in.

The callbacks of the agent, the events of the chain and the clock are inputs of each message.
-/

namespace Dkg.Gossip

open Lib Publisher SharedMemory Assertions

/-! ## Messages -/

structure KAEntry (B : Type) where
  tokenId : ℕ
  rootEntity : Term
  privateMerkleRoot : Option B
  privateTripleCount : ℕ

/-- `PublishRequest` as it is decoded, with the payload as text. -/
structure PublishRequest (B : Type) where
  ual : Term
  nquads : List Char
  paranetId : Term
  kas : List (KAEntry B)
  publisherAddress : Term
  (startKAId endKAId : ℕ)
  txHash : Term
  blockNumber : ℕ
  subGraphName : Term

structure ChainEvent (B : Type) where
  blockNumber : ℕ
  txHash : Term
  merkleRoot : B
  publisherAddress : Term
  (startKAId endKAId : ℕ)

/-- The answers of the agent, of the chain and of the clock. -/
structure World (B : Type) where
  contextGraphExists : Term → Bool
  getContextGraphOwner : Term → Option Term
  hasConfirmedMetaState : Term → Bool
  /-- The events of a block, up to a failure; no chain, or one with the id `none`. -/
  listenForEvents : Option (ℕ → List (ChainEvent B))
  now : Term

structure Message (B : Type) where
  request : PublishRequest B
  contextGraphId : Term
  fromPeerId : Option Term

/-- The store and, for the subscribed context graphs, whether their metadata are synced. -/
structure Node where
  store : TripleStore
  metaSynced : KeyedList Term Bool

/-- Why a message is dropped. -/
inductive Drop
  | otherContextGraph (paranetId : Term)
  | empty
  | invalidSubGraph (reason : Term)
  | noSender
  | notAllowed (fromPeerId : Term)
  | notSynced
  | noRootEntities
  | invalid (errors : List RuleError)
  | unsafeIri
  deriving DecidableEq

variable {B : Type}

/-! ## Numbers -/

/-- The number of a 64-bit field, as a double. -/
def protoToNumber (val : ℕ) : ℕ := if val < 2 ^ 53 then val else (nearest val).floor.toNat

/-! ## The request -/

/-- `request.paranetId`, which is the topic's when it is empty. -/
def paranetId (msg : Message B) : Except Drop Term :=
  if msg.request.paranetId = [] then .ok msg.contextGraphId
  else if msg.request.paranetId ≠ msg.contextGraphId then
    .error (.otherContextGraph msg.request.paranetId)
  else .ok msg.request.paranetId

def subGraphOf (request : PublishRequest B) : Except Drop (Option Term) :=
  if request.subGraphName = [] then .ok none
  else
    match validateSubGraphName request.subGraphName with
    | some reason => .error (.invalidSubGraph reason)
    | none => .ok (some request.subGraphName)

/-- No graph of metadata, also when its name is percent-encoded. -/
def IsGossipGraph (graph : Term) : Prop :=
  ¬ "/_meta".toList <:+ graph ∧ ¬ "%2F_meta".toList <:+ graph ∧ ¬ "%2f_meta".toList <:+ graph
  deriving Decidable

/-- `normalized`, as it is at first. -/
def normalize (dataGraph : Term) (quads : List Quad) : List Quad :=
  inGraph dataGraph (quads.filter fun q => IsGossipGraph q.graph)

/-! ## Definitions of context graphs -/

def ontology (name : String) : Term := "https://dkg.network/ontology#".toList ++ name.toList

def ontologyId : Term := "ontology".toList

def agentsId : Term := "agents".toList

def contextGraphFront : Term := "did:dkg:context-graph:".toList

/-- The rest after a text, unless it is empty. -/
def idAfter (front uri : Term) : Option Term :=
  if front <+: uri ∧ uri.drop front.length ≠ [] then some (uri.drop front.length) else none

def incomingContextGraphUris (quads : List Quad) : List Term :=
  ((quads.filter fun q => q.predicate = rdfType ∧ q.object = ontology "Paranet").map
    Quad.subject).dedup

def duplicateUris (world : World B) (quads : List Quad) : List Term :=
  (incomingContextGraphUris quads).filter fun uri =>
    (idAfter contextGraphFront uri).any world.contextGraphExists

def newContextGraphIds (world : World B) (quads : List Quad) : List Term :=
  (incomingContextGraphUris quads).filterMap fun uri =>
    (idAfter contextGraphFront uri).filter fun id =>
      ¬ world.contextGraphExists id ∧ id ≠ agentsId ∧ id ≠ ontologyId

/-- Without the definitions of context graphs that are known. -/
def dropDuplicates (world : World B) (quads : List Quad) : List Quad :=
  let duplicates := duplicateUris world quads
  let activityUris := (quads.filter fun q =>
    q.subject ∈ duplicates ∧ q.predicate = prov "wasGeneratedBy").map Quad.object
  quads.filter fun q => q.subject ∉ duplicates ∧ q.subject ∉ activityUris

/-! ## Policy bindings -/

def bindingPredicates : List Term :=
  ["policyBindingStatus", "activePolicy", "approvedBy", "approvedAt", "revokedBy", "revokedAt",
    "appliesToParanet"].map ontology

def bindingSubjects (quads : List Quad) : List Term :=
  (quads.filter fun q =>
    (q.predicate = rdfType ∧ q.object = ontology "PolicyBinding") ∨
      q.predicate ∈ bindingPredicates).map Quad.subject

def firstObject (quads : List Quad) (subject predicate : Term) : Option Term :=
  ((quads.find? fun q => q.subject = subject ∧ q.predicate = predicate).map Quad.object).filter
    (· ≠ [])

def boundParanet (paranetUri : Term) : Option Term :=
  if contextGraphFront <+: paranetUri then idAfter contextGraphFront paranetUri
  else idAfter "did:dkg:paranet:".toList paranetUri

/-- A binding of no known context graph, or one that its owner has not made. -/
def isInvalidBinding (world : World B) (quads : List Quad) (bindingUri : Term) : Bool :=
  let object (name : String) := firstObject quads bindingUri (ontology name)
  match (((object "appliesToParanet").bind boundParanet).bind world.getContextGraphOwner).filter
      (· ≠ []) with
  | none => true
  | some owner =>
    ((object "approvedAt").isSome && (object "approvedBy").isNone) ||
    (object "approvedBy").any (· ≠ owner) ||
    ((object "revokedAt").isSome && (object "revokedBy").isNone) ||
    (object "revokedBy").any (· ≠ owner)

def filterInvalidOntologyPolicyBindings (world : World B) (quads : List Quad) : List Quad :=
  let invalidBindings := (bindingSubjects quads).filter (isInvalidBinding world quads)
  let relatedPolicyUris := invalidBindings.filterMap fun bindingUri =>
    firstObject quads bindingUri (ontology "activePolicy")
  quads.filter fun q => q.subject ∉ invalidBindings ∧ q.subject ∉ relatedPolicyUris

/-! ## Gates -/

/-- `getContextGraphAllowedPeers`: the rows of the query, none of them meaning no allowlist. -/
def allowedPeerRows (store : TripleStore) (contextGraphId : Term) : Finset Quad :=
  store.filter fun q => q.graph = contextGraphMetaUri contextGraphId ∧
    q.subject = contextGraphDataUri contextGraphId ∧ q.predicate = ontology "allowedPeer"

/-- The gates of the context graph: what they let through, and the subscriptions after them. -/
def passGates (world : World B) (node : Node) (contextGraphId : Term) (fromPeerId : Option Term)
    (quads : List Quad) : Except Drop (KeyedList Term Bool × List Quad) :=
  if contextGraphId = ontologyId then
    let subscribed := (newContextGraphIds world quads).foldl
      (fun subscribed id => subscribed.set id false) node.metaSynced
    .ok (subscribed, filterInvalidOntologyPolicyBindings world (dropDuplicates world quads))
  else if allowedPeerRows node.store contextGraphId ≠ ∅ then
    match fromPeerId.filter (· ≠ []) with
    | none => .error .noSender
    | some peer =>
      if ∃ q ∈ allowedPeerRows node.store contextGraphId,
          Sync.Verification.dropQuotes q.object = peer then .ok (node.metaSynced, quads)
      else .error (.notAllowed peer)
  else if contextGraphId ≠ agentsId ∧ node.metaSynced.get contextGraphId = some false then
    if world.hasConfirmedMetaState contextGraphId then
      .ok (node.metaSynced.set contextGraphId true, quads)
    else .error .notSynced
  else .ok (node.metaSynced, quads)

/-! ## Validation -/

def isSchemeChar (c : Char) : Bool := c.isAlphanum || c = '+' || c = '.' || c = '-'

def isSafeIri (value : Term) : Bool :=
  let scheme := value.takeWhile (· ≠ ':')
  let rest := (value.dropWhile (· ≠ ':')).tail
  scheme.head?.any Char.isAlpha && scheme.all isSchemeChar && !rest.isEmpty &&
    rest.all fun c => !isUnsafeIriChar c && !isWhiteSpace c

def manifest (request : PublishRequest B) : List KAManifestEntry :=
  request.kas.map fun ka => ⟨ka.rootEntity, some ka.privateTripleCount⟩

def existingEntities (store : TripleStore) (dataGraph : Term) (rootEntities : List Term) :
    List Term :=
  rootEntities.filter fun e => ∃ q ∈ store, q.graph = dataGraph ∧ q.subject = e

/-- The structural validation: whether the message is a replay. A message without a UAL or without
assets is not validated. -/
def validate (store : TripleStore) (request : PublishRequest B) (contextGraphId : Term)
    (subGraphName : Option Term) (normalized : List Quad) : Except Drop Bool :=
  if request.ual ≠ [] ∧ request.kas ≠ [] then
    let dataGraph := scopeUri contextGraphId subGraphName
    let rootEntities := (request.kas.map KAEntry.rootEntity).filter isSafeIri
    if rootEntities = [] then .error .noRootEntities
    else
      let errors := validatePublishRequest normalized (manifest request) contextGraphId
        (existingEntities store dataGraph rootEntities)
        { allowUpsert := false
          upsertableEntities := []
          expectedGraph := subGraphName.map fun _ => dataGraph }
      if errors = [] then .ok false
      else if errors.all fun e => e.rule = 4 then .ok true
      else .error (.invalid errors)
  else .ok false

/-! ## Storing -/

/-- What a message says about a collection. -/
structure Collection (B : Type) where
  kc : KCMetadata B
  assets : List (KAMetadata B)
  verified : Bool

/-- What a message stores: the registration of its sub-graph, its data, and the record of its
collection. -/
structure Stored (B : Type) where
  (registration data : List Quad)
  collection : Option (Collection B)

def registrationQuads (world : World B) (store : TripleStore) (request : PublishRequest B)
    (contextGraphId : Term) : Option Term → Except Drop (List Quad)
  | none => .ok []
  | some name =>
    match assertSafeIri contextGraphId, assertSafeIri (scopeUri contextGraphId (some name)) with
    | .ok _, .ok _ =>
      if IsRegistered store contextGraphId name then .ok []
      else .ok (generateSubGraphRegistration
        { contextGraphId := contextGraphId
          subGraphName := name
          createdBy := if request.publisherAddress = [] then "gossip-discovery".toList
            else request.publisherAddress
          timestamp := world.now })
    | _, _ => .error .unsafeIri

/-! ## Accepted messages -/

/-- How a message gets to be stored: its context graph and sub-graph, the quads that the gates let
through, whether it is a replay, and the registration of its sub-graph. -/
structure Accepted (world : World B) (node : Node) (msg : Message B) (contextGraphId : Term)
    (subGraphName : Option Term) (normalized : List Quad) (isReplay : Bool)
    (registration : List Quad) : Prop where
  contextGraph : paranetId msg = .ok contextGraphId
  subGraph : subGraphOf msg.request = .ok subGraphName
  gates : ∃ metaSynced, passGates world node contextGraphId msg.fromPeerId
    (normalize (scopeUri contextGraphId subGraphName) (parseSimpleNQuads msg.request.nquads)) =
      .ok (metaSynced, normalized)
  validated : validate node.store msg.request contextGraphId subGraphName normalized = .ok isReplay
  registered : registrationQuads world node.store msg.request contextGraphId subGraphName =
    .ok registration

/-! ## Collections -/

def verifyGossipOnChain [DecidableEq B] (world : World B) (txHash : Term) (blockNumber : ℕ)
    (expectedMerkleRoot : B) (expectedPublisher : Term) (startKAId endKAId : ℕ) : Bool :=
  match world.listenForEvents with
  | none => false
  | some listenForEvents =>
    decide (0 < blockNumber) && (listenForEvents blockNumber).any fun event =>
      event.blockNumber = blockNumber ∧
        (txHash = [] ∨
          (event.txHash ≠ [] ∧ event.txHash.map toLowerCase = txHash.map toLowerCase)) ∧
        event.merkleRoot = expectedMerkleRoot ∧
        event.publisherAddress.map toLowerCase = expectedPublisher.map toLowerCase ∧
        event.startKAId = startKAId ∧ event.endKAId = endKAId

/-- `computeFlatKCRoot` of the public quads and the private roots of the message. -/
def flatRoot [LinearOrder B] [Zero B] (hashing : Sync.Verification.Hashing B)
    (request : PublishRequest B) (normalized : List Quad) : B :=
  computeFlatKCRootV10 hashing.keccak256 hashing.hashPair normalized
    (request.kas.filterMap KAEntry.privateMerkleRoot)

def assetOf (request : PublishRequest B) (group : Term × List Quad) : KAMetadata B :=
  let kaEntry := request.kas.find? fun ka => ka.rootEntity = group.1
  { rootEntity := group.1
    kcUal := request.ual
    tokenId := (kaEntry.map fun ka => protoToNumber ka.tokenId).getD 0
    publicTripleCount := group.2.length
    privateTripleCount := (kaEntry.map KAEntry.privateTripleCount).getD 0
    privateMerkleRoot := kaEntry.bind KAEntry.privateMerkleRoot }

section

variable [LinearOrder B] [Zero B]

def collectionOf (hashing : Sync.Verification.Hashing B) (world : World B)
    (request : PublishRequest B) (contextGraphId : Term) (subGraphName : Option Term)
    (normalized : List Quad) : Collection B :=
  let merkleRoot := flatRoot hashing request normalized
  let assets := (autoPartition normalized).entries.map (assetOf request)
  { kc := {
      ual := request.ual
      contextGraphId := contextGraphId
      merkleRoot := merkleRoot
      kaCount := assets.length
      publisherPeerId := orUnknown request.publisherAddress
      accessPolicy := none
      allowedPeers := []
      timestamp := world.now
      subGraphName := subGraphName }
    assets := assets
    verified := decide (request.txHash ≠ [] ∧ 0 < protoToNumber request.blockNumber ∧
        0 < request.startKAId ∧ request.publisherAddress ≠ []) &&
      verifyGossipOnChain world request.txHash (protoToNumber request.blockNumber) merkleRoot
        request.publisherAddress request.startKAId request.endKAId }

/-- What a message that passes the validation stores. -/
def storedBy (hashing : Sync.Verification.Hashing B) (world : World B) (request : PublishRequest B)
    (contextGraphId : Term) (subGraphName : Option Term) (registration normalized : List Quad)
    (isReplay : Bool) : Stored B where
  registration := registration
  data := if isReplay then [] else normalized
  collection :=
    if request.ual = [] then none
    else some (collectionOf hashing world request contextGraphId subGraphName normalized)

/-- The messages that pass the gates: what they store. -/
def accept (hashing : Sync.Verification.Hashing B) (world : World B) (store : TripleStore)
    (request : PublishRequest B) (contextGraphId : Term) (subGraphName : Option Term)
    (normalized : List Quad) : Except Drop (Stored B) := do
  let isReplay ← validate store request contextGraphId subGraphName normalized
  let registration ← registrationQuads world store request contextGraphId subGraphName
  return storedBy hashing world request contextGraphId subGraphName registration normalized isReplay

def checkPayload (request : PublishRequest B) (quads : List Quad) : Except Drop Unit :=
  if quads = [] ∧ request.ual = [] then .error .empty else .ok ()

/-- A message up to the point where it stores: the subscriptions, and what it stores. -/
def receive (hashing : Sync.Verification.Hashing B) (world : World B) (node : Node)
    (msg : Message B) : Except Drop (KeyedList Term Bool × Except Drop (Stored B)) := do
  let contextGraphId ← paranetId msg
  let quads := parseSimpleNQuads msg.request.nquads
  checkPayload msg.request quads
  let subGraphName ← subGraphOf msg.request
  let gated ← passGates world node contextGraphId msg.fromPeerId
    (normalize (scopeUri contextGraphId subGraphName) quads)
  return (gated.1, accept hashing world node.store msg.request contextGraphId subGraphName gated.2)

def promoteGossipToConfirmed (store : TripleStore) (ual contextGraphId : Term) : TripleStore :=
  (store.insert [getConfirmedStatusQuad ual contextGraphId]).delete
    [getTentativeStatusQuad ual contextGraphId]

def storeCollection (hashing : Sync.Verification.Hashing B) (store : TripleStore)
    (c : Collection B) : TripleStore :=
  let tentative := store.insert (generateTentativeMetadata hashing.toHex c.kc c.assets)
  if c.verified then promoteGossipToConfirmed tentative c.kc.ual c.kc.contextGraphId else tentative

def Stored.run (hashing : Sync.Verification.Hashing B) (store : TripleStore) (stored : Stored B) :
    TripleStore :=
  let withData := (store.insert stored.registration).insert stored.data
  match stored.collection with
  | none => withData
  | some c => storeCollection hashing withData c

def handlePublishMessage (hashing : Sync.Verification.Hashing B) (world : World B) (node : Node)
    (msg : Message B) : Node :=
  match receive hashing world node msg with
  | .error _ => node
  | .ok (metaSynced, .error _) => { node with metaSynced := metaSynced }
  | .ok (metaSynced, .ok stored) =>
    { store := stored.run hashing node.store, metaSynced := metaSynced }

/-! ## What is stored -/

variable {hashing : Sync.Verification.Hashing B} {world : World B} {node : Node} {msg : Message B}
  {stored : Stored B} {metaSynced : KeyedList Term Bool}

/-- A message that stores something has passed the gates and the validation. -/
lemma accepted_of_receive (h : receive hashing world node msg = .ok (metaSynced, .ok stored)) :
    ∃ contextGraphId subGraphName normalized isReplay registration,
      Accepted world node msg contextGraphId subGraphName normalized isReplay registration ∧
        stored = storedBy hashing world msg.request contextGraphId subGraphName registration
          normalized isReplay := by
  unfold receive at h
  obtain ⟨contextGraphId, hcontextGraph, h⟩ := exists_ok_of_bind h
  obtain ⟨_, _, h⟩ := exists_ok_of_bind h
  obtain ⟨subGraphName, hsubGraph, h⟩ := exists_ok_of_bind h
  obtain ⟨gated, hgates, h⟩ := exists_ok_of_bind h
  have haccept : accept hashing world node.store msg.request contextGraphId subGraphName gated.2 =
      .ok stored := (Prod.mk.inj (Except.ok.inj h)).2
  unfold accept at haccept
  obtain ⟨isReplay, hvalid, haccept⟩ := exists_ok_of_bind haccept
  obtain ⟨registration, hregistration, haccept⟩ := exists_ok_of_bind haccept
  cases haccept
  exact ⟨contextGraphId, subGraphName, gated.2, isReplay, registration,
    ⟨hcontextGraph, hsubGraph, ⟨gated.1, hgates⟩, hvalid, hregistration⟩, rfl⟩

lemma receive_ok (h : receive hashing world node msg = .ok (metaSynced, .ok stored)) :
    ∃ contextGraphId subGraphName registration normalized isReplay,
      validate node.store msg.request contextGraphId subGraphName normalized = .ok isReplay ∧
        registrationQuads world node.store msg.request contextGraphId subGraphName =
          .ok registration ∧
        stored = storedBy hashing world msg.request contextGraphId subGraphName registration
          normalized isReplay := by
  obtain ⟨contextGraphId, subGraphName, normalized, isReplay, registration, haccepted, hstored⟩ :=
    accepted_of_receive h
  exact ⟨contextGraphId, subGraphName, registration, normalized, isReplay, haccepted.validated,
    haccepted.registered, hstored⟩

omit [LinearOrder B] [Zero B] in
lemma registration_of_ok {store : TripleStore} {request : PublishRequest B}
    {contextGraphId : Term} {subGraphName : Option Term} {registration : List Quad}
    (h : registrationQuads world store request contextGraphId subGraphName = .ok registration) :
    registration = [] ∨ ∃ reg : SubGraphRegistration, reg.contextGraphId = contextGraphId ∧
      registration = generateSubGraphRegistration reg := by
  cases subGraphName with
  | none =>
    cases h
    exact .inl rfl
  | some name =>
    simp only [registrationQuads] at h
    split at h
    · split at h
      · cases h
        exact .inl rfl
      · cases h
        exact .inr ⟨_, rfl, rfl⟩
    · cases h

/-- The record of a message names only assets of its collection. -/
lemma collectionOf_assets {request : PublishRequest B} {contextGraphId : Term}
    {subGraphName : Option Term} {normalized : List Quad} :
    ∀ ka ∈ (collectionOf hashing world request contextGraphId subGraphName normalized).assets,
      ka.kcUal = request.ual := by
  intro ka h
  obtain ⟨_, _, rfl⟩ := List.mem_map.mp h
  rfl

end

end Dkg.Gossip
