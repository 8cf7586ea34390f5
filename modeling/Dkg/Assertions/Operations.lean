import Dkg.Assertions.Lifecycle
import Dkg.Publisher.AutoPartition
import Dkg.Publisher.NQuads

/-! # Operations on assertions

`assertionCreate`, `assertionWrite`, `assertionPromote` and `assertionDiscard` of the publisher.
Each one checks its arguments before it changes anything, so that an operation that throws leaves
the node as it was. A promotion is planned first (`planPromotion`): it moves the triples of its root
entities from the assertion graph to the shared memory, and then marks the whole graph as shared.
-/

namespace Dkg.Assertions

open Lib SharedMemory Publisher

/-- The publisher's store and its map of the owned entities of each scope. -/
structure Node where
  store : TripleStore
  sharedMemoryOwnedEntities : KeyedList Term (KeyedList Term Term)

inductive AssertionError
  | invalidSubGraph (reason : Term)
  | unsafeIri (value : Term)
  | notRegistered (subGraphName contextGraphId : Term)
  | reservedNamespace (subject : Term)
  | noRootEntities
  | tooLarge (encodedLength : ℕ)
  | ownedByPeer (root owner caller : Term)
  deriving DecidableEq

/-! ## Checks -/

/-- The characters that would end an IRI or a name in a query. -/
def delimiters : List Char := ['<', '>', '\x22', '\x7b', '\x7d', '|', '^', '\x60', '\\']

def isUnsafeChar (c : Char) : Bool := c ∈ delimiters || isWhiteSpace c

/-- The reason why a name is no name of a sub-graph. -/
def validateSubGraphName (name : Term) : Option Term :=
  if name = [] then some "Sub-graph name cannot be empty".toList
  else if ['_'] <+: name then
    some "Sub-graph names starting with \x22_\x22 are reserved for protocol graphs".toList
  else if '/' ∈ name then some "Sub-graph names cannot contain \x22/\x22".toList
  else if name.any isUnsafeChar then
    some "Sub-graph name contains characters unsafe for IRIs".toList
  else if name ∈ ["context".toList, "assertion".toList, "draft".toList] then
    some ('\x22' :: (name ++ "\x22 is a reserved path segment".toList))
  else none

def validateOptionalSubGraph : Option Term → Except AssertionError Unit
  | none => .ok ()
  | some name =>
    match validateSubGraphName name with
    | some reason => .error (.invalidSubGraph reason)
    | none => .ok ()

/-- `UNSAFE_IRI_CHARS`. -/
def isUnsafeIriChar (c : Char) : Bool := c ∈ delimiters || c.toNat ≤ 0x20

def assertSafeIri (value : Term) : Except AssertionError Unit :=
  if value = [] ∨ value.any isUnsafeIriChar then .error (.unsafeIri value) else .ok ()

/-- The query of `isSubGraphRegistered`. -/
def IsRegistered (store : TripleStore) (contextGraphId subGraphName : Term) : Prop :=
  let sgUri := scopeUri contextGraphId (some subGraphName)
  let metaGraph := contextGraphMetaUri contextGraphId
  (⟨sgUri, rdfType, dkg "SubGraph", metaGraph⟩ : Quad) ∈ store ∧
    (⟨sgUri, "http://schema.org/name".toList, lit subGraphName, metaGraph⟩ : Quad) ∈ store ∧
    ∃ q ∈ store, q.subject = sgUri ∧ q.predicate = dkg "createdBy" ∧ q.graph = metaGraph
  deriving Decidable

def ensureSubGraphRegistered (store : TripleStore) (contextGraphId : Term) :
    Option Term → Except AssertionError Unit
  | none => .ok ()
  | some name => do
      validateOptionalSubGraph (some name)
      assertSafeIri contextGraphId
      assertSafeIri (scopeUri contextGraphId (some name))
      if IsRegistered store contextGraphId name then .ok ()
      else .error (.notRegistered name contextGraphId)

/-- `toLowerCase` as far as it makes letters of ASCII. -/
def toLowerCase (c : Char) : Char := if c.toNat = 0x212A then 'k' else c.toLower

/-- `isReservedSubject`. -/
def IsReservedSubject (subject : Term) : Prop :=
  ∃ front ∈ ["urn:dkg:file:".toList, "urn:dkg:extraction:".toList],
      front <+: subject.map toLowerCase
  deriving Decidable

/-- `rejectReservedSubjectPrefixes`. -/
def rejectReservedSubjects (quads : List Quad) : Except AssertionError Unit :=
  match quads.find? fun q => IsReservedSubject q.subject with
  | some q => .error (.reservedNamespace q.subject)
  | none => .ok ()

/-! ## Creating and writing -/

/-- A quad of the lifecycle record or of one of its events. -/
def IsStale (a : AssertionId) (q : Quad) : Prop :=
  q.graph = contextGraphMetaUri a.contextGraphId ∧
    (q.subject = assertionLifecycleUri a ∨ assertionLifecycleUri a ++ ['/'] <+: q.subject)
  deriving Decidable

/-- The layer of the graph itself, beside that of the record. -/
def graphLayerQuad (a : AssertionId) (layer : MemoryLayer) : Quad :=
  mq (contextGraphAssertionUri a) (dkg "memoryLayer") (lit layer.text)
    (contextGraphMetaUri a.contextGraphId)

def assertionCreate (node : Node) (a : AssertionId) (stamp : Stamp) :
    Except AssertionError Node := do
  ensureSubGraphRegistered node.store a.contextGraphId a.subGraphName
  let cleared : TripleStore := node.store.filter fun q => ¬ IsStale a q
  return { node with
    store := (cleared.insert (generateAssertionCreatedMetadata a stamp)).insert
      [graphLayerQuad a .workingMemory] }

/-- The quads of the input in the assertion graph. -/
def inGraph (graph : Term) (quads : List Quad) : List Quad := quads.map fun q =>
    { q with graph := graph }

def assertionWrite (node : Node) (a : AssertionId) (input : List Quad) :
    Except AssertionError Node := do
  ensureSubGraphRegistered node.store a.contextGraphId a.subGraphName
  let quads := inGraph (contextGraphAssertionUri a) input
  rejectReservedSubjects quads
  return { node with store := node.store.insert quads }

/-! ## Promoting -/

/-- The options of a promotion, with what it gets from elsewhere: the triples of the assertion graph
as the query returns them, the number of the operation and the length of the encoded message. -/
structure PromoteOptions where
  /-- The entities, or all. -/
  entities : Option (List Term)
  publisherPeerId : Option Term
  rows : List Quad
  operationId : Term
  encodedLength : ℕ
  stamp : Stamp

/-- The caller, unless it is empty. -/
def PromoteOptions.caller (opts : PromoteOptions) : Option Term :=
    opts.publisherPeerId.filter (· ≠ [])

def IsSelected (entities : Option (List Term)) (q : Quad) : Prop :=
  match entities with
  | none => True
  | some entities => q.subject ∈ entities ∨ ∃ e ∈ entities, e ++ genidSegment <+: q.subject

instance decidableIsSelected (entities : Option (List Term)) (q : Quad) :
    Decidable (IsSelected entities q) :=
  match entities with
  | none => instDecidableTrue
  | some _ => instDecidableOr

def quadsToPromote (opts : PromoteOptions) : List Quad :=
  (opts.rows.filter fun q => ¬ IsReservedSubject q.subject).filter (IsSelected opts.entities ·)

/-- The root entities that are skipped since another peer owns them. -/
def checkOwners (swmOwned : KeyedList Term Term) (caller : Option Term) :
    List Term → Except AssertionError (List Term)
  | [] => .ok []
  | root :: rest =>
    match (swmOwned.get root).filter (· ≠ []) with
    | none => checkOwners swmOwned caller rest
    | some owner =>
      match caller with
      | some peer =>
        if owner ≠ peer then .error (.ownedByPeer root owner peer)
        else checkOwners swmOwned caller rest
      | none => (root :: ·) <$> checkOwners swmOwned caller rest

/-- The subject is under no skipped root entity. -/
def NotSkipped (skippedRoots : List Term) (q : Quad) : Prop :=
  q.subject ∉ skippedRoots ∧ (rootEntityFromSkolemized q.subject).getD q.subject ∉ skippedRoots
  deriving Decidable

/-- What a promotion does, once it is checked. -/
structure Promotion where
  effectiveRoots : List Term
  effectiveQuads : List Quad
  /-- The triples that leave the assertion graph. -/
  effectivePromoteQuads : List Quad

def maxGossipMessageSize : ℕ := 512 * 1024

/-- The part of `assertionPromote` before it changes anything; nothing to promote is `none`. -/
def planPromotion (node : Node) (a : AssertionId) (opts : PromoteOptions) :
    Except AssertionError (Option Promotion) := do
  ensureSubGraphRegistered node.store a.contextGraphId a.subGraphName
  if quadsToPromote opts = [] then return none
  let kaMap := autoPartition (quadsToPromote opts)
  if kaMap.entries = [] then throw .noRootEntities
  if opts.caller ≠ none ∧ maxGossipMessageSize < opts.encodedLength then
    throw (.tooLarge opts.encodedLength)
  let swmOwned :=
    (node.sharedMemoryOwnedEntities.get (ownershipKey a.contextGraphId a.subGraphName)).getD .empty
  let skippedRoots ← checkOwners swmOwned opts.caller kaMap.keys
  let effectiveRoots := kaMap.keys.filter (· ∉ skippedRoots)
  if effectiveRoots = [] then return none
  return some {
    effectiveRoots := effectiveRoots
    effectiveQuads := (allQuads kaMap).filter (NotSkipped skippedRoots ·)
    effectivePromoteQuads := (quadsToPromote opts).filter (NotSkipped skippedRoots ·) }

/-- The triples of a root entity and their metadata are replaced, when it is owned. -/
def replaceRoot (swmOwned : KeyedList Term Term) (swmGraph swmMetaGraph : Term)
    (store : TripleStore) (root : Term) : TripleStore :=
  if swmOwned.get root ≠ none then
    deleteMetaForRoot ((store.deleteByPattern ⟨root, [], [], swmGraph⟩).deleteBySubjectPrefix
        swmGraph
      (root ++ genidSegment)) swmMetaGraph root
  else store

/-- The metadata of the share, and the owner of the root entities that have none. -/
def recordShare (node : Node) (a : AssertionId) (opts : PromoteOptions) (roots : List Term)
    (peer : Term) : Node :=
  let swmMetaGraph := sharedMemoryMetaUri a.contextGraphId a.subGraphName
  let key := ownershipKey a.contextGraphId a.subGraphName
  let liveOwned := (node.sharedMemoryOwnedEntities.get key).getD .empty
  let entries := (roots.filter fun r => liveOwned.get r = none).map fun r => (r, peer)
  let shared := node.store.insert (generateShareMetadata {
    shareOperationId := opts.operationId
    contextGraphId := a.contextGraphId
    rootEntities := roots
    publisherPeerId := peer
    timestamp := opts.stamp.timestamp } swmMetaGraph)
  let cleared := entries.foldl (fun store entry =>
    store.deleteByPattern ⟨entry.1, dkg "workspaceOwner", [], swmMetaGraph⟩) shared
  { store := cleared.insert (generateOwnershipQuads entries swmMetaGraph)
    sharedMemoryOwnedEntities := node.sharedMemoryOwnedEntities.set key
      (entries.foldl (fun owned entry => owned.set entry.1 entry.2) liveOwned) }

/-- The layer of the assertion graph, from the working memory to the shared memory. -/
def markShared (store : TripleStore) (a : AssertionId) : TripleStore :=
  (store.deleteByPattern ⟨contextGraphAssertionUri a, dkg "memoryLayer", [],
    contextGraphMetaUri a.contextGraphId⟩).insert [graphLayerQuad a .sharedWorkingMemory]

/-- The triples of the promotion are in the shared memory, and no longer in the assertion graph. -/
def movedStore (node : Node) (a : AssertionId) (plan : Promotion) : TripleStore :=
  let swmGraph := sharedMemoryUri a.contextGraphId a.subGraphName
  let swmMetaGraph := sharedMemoryMetaUri a.contextGraphId a.subGraphName
  let swmOwned :=
    (node.sharedMemoryOwnedEntities.get (ownershipKey a.contextGraphId a.subGraphName)).getD .empty
  let replaced := plan.effectiveRoots.foldl (replaceRoot swmOwned swmGraph swmMetaGraph) node.store
  (replaced.insert (inGraph swmGraph plan.effectiveQuads)).delete
    (inGraph (contextGraphAssertionUri a) plan.effectivePromoteQuads)

/-- The layers and records of the promotion are set too. -/
def promotedStore (node : Node) (a : AssertionId) (opts : PromoteOptions) (plan : Promotion) :
    TripleStore :=
  let transition := (markShared (movedStore node a plan) a).insert
      (generateShareTransitionMetadata {
    contextGraphId := a.contextGraphId
    operationId := opts.operationId
    agentAddress := a.agentAddress
    assertionName := a.name
    entities := (plan.effectiveQuads.map Quad.subject).dedup
    timestamp := opts.stamp.timestamp })
  let promoted := generateAssertionPromotedMetadata a opts.stamp opts.operationId
      plan.effectiveRoots
  (transition.delete promoted.delete).insert promoted.insert

def executePromotion (node : Node) (a : AssertionId) (opts : PromoteOptions) (plan : Promotion) :
    Node :=
  let recorded : Node := { node with store := promotedStore node a opts plan }
  match opts.caller with
  | none => recorded
  | some peer => recordShare recorded a opts plan.effectiveRoots peer

/-- The node afterwards and `promotedCount`. -/
def assertionPromote (node : Node) (a : AssertionId) (opts : PromoteOptions) :
    Except AssertionError (Node × ℕ) := do
  match ← planPromotion node a opts with
  | none => return (node, 0)
  | some plan => return (executePromotion node a opts plan, plan.effectiveQuads.length)

/-! ## Discarding -/

def assertionDiscard (node : Node) (a : AssertionId) (stamp : Stamp) :
    Except AssertionError Node := do
  validateOptionalSubGraph a.subGraphName
  let discarded := generateAssertionDiscardedMetadata a stamp
  let recorded := (node.store.delete discarded.delete).insert discarded.insert
  let cleared := recorded.deleteByPattern
    ⟨contextGraphAssertionUri a, [], [], contextGraphMetaUri a.contextGraphId⟩
  return { node with store := cleared.filter fun q => q.graph ≠ contextGraphAssertionUri a }

end Dkg.Assertions
