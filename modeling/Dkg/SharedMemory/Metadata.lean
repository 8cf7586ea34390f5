import Dkg.Publisher.Store

/-! # Metadata of the shared memory

The graphs of the shared memory, the records that say which operation has written a root entity
(`generateShareMetadata`) and which peer owns it (`generateOwnershipQuads`), and their removal
(`deleteMetaForRoot`).
-/

namespace Dkg.SharedMemory

/-! ## Terms -/

def rdfType : Term := "http://www.w3.org/".toList ++ "1999/02/22-rdf-syntax-ns#type".toList

def dkg (name : String) : Term := "http://dkg.io/ontology/".toList ++ name.toList

def prov (name : String) : Term := "http://www.w3.org/ns/prov#".toList ++ name.toList

def escape (c : Char) : List Char :=
  if c = '\\' then ['\\', '\\']
  else if c = '\x22' then ['\\', '\x22']
  else if c = '\n' then ['\\', 'n']
  else if c = '\r' then ['\\', 'r']
  else [c]

def lit (val : Term) : Term := '\x22' :: (val.flatMap escape ++ ['\x22'])

/-- `dateLit` of a date as `toISOString` writes it. -/
def dateLit (d : Term) : Term :=
  '\x22' :: (d ++ ("\x22^^<http://www.w3.org/".toList ++ "2001/XMLSchema#dateTime>".toList))

/-- `mq`, in the order of its arguments. -/
def mq (s p o g : Term) : Quad := ⟨s, p, o, g⟩

/-! ## Graphs -/

def scopeUri (contextGraphId : Term) (subGraphName : Option Term) : Term :=
  contextGraphDataUri contextGraphId ++ (subGraphName.map ('/' :: ·)).getD []

def sharedMemoryUri (contextGraphId : Term) (subGraphName : Option Term) : Term :=
  scopeUri contextGraphId subGraphName ++ "/_shared_memory".toList

def sharedMemoryMetaUri (contextGraphId : Term) (subGraphName : Option Term) : Term :=
  scopeUri contextGraphId subGraphName ++ "/_shared_memory_meta".toList

/-- The key of a scope in the map of owned entities. -/
def ownershipKey (contextGraphId : Term) (subGraphName : Option Term) : Term :=
  contextGraphId ++ (subGraphName.map ('\x00' :: ·)).getD []

/-! ## Records -/

structure ShareMetadata where
  (shareOperationId contextGraphId : Term)
  rootEntities : List Term
  (publisherPeerId timestamp : Term)

def generateShareMetadata (m : ShareMetadata) (swmMetaGraph : Term) : List Quad :=
  let subject := "urn:dkg:share:".toList ++ m.contextGraphId ++ ':' :: m.shareOperationId
  [mq subject rdfType (dkg "WorkspaceOperation") swmMetaGraph,
    mq subject (prov "wasAttributedTo") (lit m.publisherPeerId) swmMetaGraph,
    mq subject (dkg "publishedAt") (dateLit m.timestamp) swmMetaGraph] ++
    m.rootEntities.map fun rootEntity => mq subject (dkg "rootEntity") rootEntity swmMetaGraph

structure ShareTransitionMetadata where
  (contextGraphId operationId agentAddress assertionName : Term)
  entities : List Term
  timestamp : Term

def generateShareTransitionMetadata (m : ShareTransitionMetadata) : List Quad :=
  let metaGraph := sharedMemoryMetaUri m.contextGraphId none
  let subject := "urn:dkg:share:".toList ++ m.operationId
  [mq subject rdfType (dkg "ShareTransition") metaGraph,
    mq subject (dkg "source")
      (lit ("assertion/".toList ++ m.agentAddress ++ '/' :: m.assertionName)) metaGraph,
    mq subject (dkg "agent") ("did:dkg:agent:".toList ++ m.agentAddress) metaGraph,
    mq subject (dkg "timestamp") (dateLit m.timestamp) metaGraph] ++
    m.entities.map fun entity => mq subject (dkg "entities") entity metaGraph

/-- The entries are root entities with the peers that created them. -/
def generateOwnershipQuads (rootEntities : List (Term × Term)) (swmMetaGraph : Term) : List Quad :=
  rootEntities.map fun entry => mq entry.1 (dkg "workspaceOwner") (lit entry.2) swmMetaGraph

/-! ## Removal of records -/

def IsOperationOf (store : TripleStore) (metaGraph rootEntity op : Term) : Prop :=
  (⟨op, dkg "rootEntity", rootEntity, metaGraph⟩ : Quad) ∈ store
  deriving Decidable

/-- An operation that has no root entity but this one. -/
def HasNoOtherRoot (store : TripleStore) (metaGraph rootEntity op : Term) : Prop :=
  ∀ q ∈ store, q.graph = metaGraph → q.subject = op → q.predicate = dkg "rootEntity" →
    q.object = rootEntity
  deriving Decidable

/-- A quad that `deleteMetaForRoot` removes: that the operation has the root entity, and everything
about an operation with no other root entity. An operation with a blank subject is not found again:
`count` does not see its other root entities, and the pattern does not match it. -/
def MetaRemoved (store : TripleStore) (metaGraph rootEntity : Term) (q : Quad) : Prop :=
  q.graph = metaGraph ∧ IsOperationOf store metaGraph rootEntity q.subject ∧
    ((q.predicate = dkg "rootEntity" ∧ q.object = rootEntity) ∨
      (HasNoOtherRoot store metaGraph rootEntity q.subject ∧ ¬ IsBlankNode q.subject))
  deriving Decidable

def deleteMetaForRoot (store : TripleStore) (metaGraph rootEntity : Term) : TripleStore :=
  store.filter fun q => ¬ MetaRemoved store metaGraph rootEntity q

@[simp]
lemma mem_deleteMetaForRoot {store : TripleStore} {metaGraph rootEntity : Term} {q : Quad} :
    q ∈ deleteMetaForRoot store metaGraph rootEntity ↔
      q ∈ store ∧ ¬ MetaRemoved store metaGraph rootEntity q := by
  simp [deleteMetaForRoot]

/-! ## Metadata graphs of context graphs -/

/-- The URI of a graph of metadata: the sync responder never serves it as data. -/
def IsMetaGraph (graph : Term) : Prop := "/_meta".toList <:+ graph
  deriving Decidable

lemma isMetaGraph_contextGraphMetaUri (contextGraphId : Term) :
    IsMetaGraph (contextGraphMetaUri contextGraphId) := ⟨_, rfl⟩

/-- A graph that ends otherwise is no metadata graph. -/
lemma not_isMetaGraph_of_append {front suffix : Term} (hlength : 6 ≤ suffix.length)
    (h : ¬ IsMetaGraph suffix) : ¬ IsMetaGraph (front ++ suffix) := by
  intro hmeta
  refine h (List.suffix_of_suffix_length_le hmeta (List.suffix_append front suffix) ?_)
  exact hlength

lemma not_isMetaGraph_sharedMemory (contextGraphId : Term) (subGraphName : Option Term) :
    ¬ IsMetaGraph (sharedMemoryUri contextGraphId subGraphName) ∧
      ¬ IsMetaGraph (sharedMemoryMetaUri contextGraphId subGraphName) :=
  ⟨not_isMetaGraph_of_append (by decide) (by decide),
    not_isMetaGraph_of_append (by decide) (by decide)⟩

end Dkg.SharedMemory
