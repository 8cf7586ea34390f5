import Dkg.SharedMemory.Metadata

/-! # Records of assertions

An assertion is a graph of an agent in a context graph or one of its sub-graphs. Its lifecycle
record in the metadata graph names the graph and the memory layer that it is in; every transition
adds an event of its own (`generateAssertionCreatedMetadata` and the others).
-/

namespace Dkg.Assertions

open SharedMemory List

structure AssertionId where
  (contextGraphId agentAddress name : Term)
  subGraphName : Option Term
  deriving DecidableEq

def contextGraphAssertionUri (a : AssertionId) : Term :=
  scopeUri a.contextGraphId a.subGraphName ++ "/assertion/".toList ++ a.agentAddress ++ '/' ::
      a.name

def assertionLifecycleUri (a : AssertionId) : Term :=
  "urn:dkg:assertion:".toList ++ a.contextGraphId ++ (a.subGraphName.map (':' :: ·)).getD [] ++
    ':' :: a.agentAddress ++ ':' :: a.name

/-! ## Memory layers -/

inductive MemoryLayer
  | workingMemory
  | sharedWorkingMemory
  | verifiedMemory
  deriving DecidableEq

open MemoryLayer

def MemoryLayer.text : MemoryLayer → Term
  | .workingMemory => "WM".toList
  | .sharedWorkingMemory => "SWM".toList
  | .verifiedMemory => "VM".toList

def assertionStateQuad (lifecycleUri : Term) (state : String) (metaGraph : Term) : Quad :=
  mq lifecycleUri (dkg "state") (lit state.toList) metaGraph

def assertionLayerQuad (lifecycleUri : Term) (layer : MemoryLayer) (metaGraph : Term) : Quad :=
  mq lifecycleUri (dkg "memoryLayer") (lit layer.text) metaGraph

/-! ## Transitions -/

/-- The number of an event and the time of a transition. -/
structure Stamp where
  (eventId timestamp : Term)

def eventUri (a : AssertionId) (stamp : Stamp) : Term :=
  assertionLifecycleUri a ++ "/event/".toList ++ stamp.eventId

def agentUri (a : AssertionId) : Term := "did:dkg:agent:".toList ++ a.agentAddress

def generateAssertionCreatedMetadata (a : AssertionId) (stamp : Stamp) : List Quad :=
  let metaGraph := contextGraphMetaUri a.contextGraphId
  let subject := assertionLifecycleUri a
  let event := eventUri a stamp
  [mq subject rdfType (prov "Entity") metaGraph,
    mq subject rdfType (dkg "Assertion") metaGraph,
    mq subject (prov "wasAttributedTo") (agentUri a) metaGraph,
    mq subject (prov "wasGeneratedBy") event metaGraph,
    mq subject (dkg "contextGraph") (contextGraphDataUri a.contextGraphId) metaGraph,
    mq subject (dkg "assertionName") (lit a.name) metaGraph,
    mq subject (dkg "assertionGraph") (contextGraphAssertionUri a) metaGraph,
    mq subject (dkg "state") (lit "created".toList) metaGraph,
    mq subject (dkg "memoryLayer") (lit workingMemory.text) metaGraph,
    mq event rdfType (prov "Activity") metaGraph,
    mq event rdfType (dkg "AssertionCreated") metaGraph,
    mq event (prov "startedAtTime") (dateLit stamp.timestamp) metaGraph,
    mq event (prov "wasAssociatedWith") (agentUri a) metaGraph,
    mq event (prov "generated") subject metaGraph,
    mq event (dkg "fromLayer") (lit "none".toList) metaGraph,
    mq event (dkg "toLayer") (lit workingMemory.text) metaGraph]

/-- The quads that a transition inserts and those that it deletes. -/
structure Transition where
  (insert delete : List Quad)

def generateAssertionPromotedMetadata (a : AssertionId) (stamp : Stamp) (shareOperationId : Term)
    (rootEntities : List Term) : Transition :=
  let metaGraph := contextGraphMetaUri a.contextGraphId
  let subject := assertionLifecycleUri a
  let event := eventUri a stamp
  { delete := [assertionStateQuad subject "created" metaGraph,
      assertionLayerQuad subject .workingMemory metaGraph]
    insert := [mq subject (dkg "state") (lit "promoted".toList) metaGraph,
      mq subject (dkg "memoryLayer") (lit sharedWorkingMemory.text) metaGraph,
      mq event rdfType (prov "Activity") metaGraph,
      mq event rdfType (dkg "AssertionPromoted") metaGraph,
      mq event (prov "startedAtTime") (dateLit stamp.timestamp) metaGraph,
      mq event (prov "wasAssociatedWith") (agentUri a) metaGraph,
      mq event (prov "used") subject metaGraph,
      mq event (dkg "fromLayer") (lit workingMemory.text) metaGraph,
      mq event (dkg "toLayer") (lit sharedWorkingMemory.text) metaGraph,
      mq event (dkg "shareOperationId") (lit shareOperationId) metaGraph] ++
      rootEntities.map fun entity => mq event (dkg "rootEntity") entity metaGraph }

def generateAssertionDiscardedMetadata (a : AssertionId) (stamp : Stamp) : Transition :=
  let metaGraph := contextGraphMetaUri a.contextGraphId
  let subject := assertionLifecycleUri a
  let event := eventUri a stamp
  { insert := [mq subject (dkg "state") (lit "discarded".toList) metaGraph,
      mq subject (prov "wasInvalidatedBy") event metaGraph,
      mq event rdfType (prov "Activity") metaGraph,
      mq event rdfType (dkg "AssertionDiscarded") metaGraph,
      mq event (prov "startedAtTime") (dateLit stamp.timestamp) metaGraph,
      mq event (prov "wasAssociatedWith") (agentUri a) metaGraph,
      mq event (prov "used") subject metaGraph,
      mq event (dkg "fromLayer") (lit workingMemory.text) metaGraph,
      mq event (dkg "toLayer") (lit "none".toList) metaGraph]
    delete := [assertionStateQuad subject "created" metaGraph,
      assertionLayerQuad subject .workingMemory metaGraph] }

/-- The adapter finds the quads that a transition deletes. -/
lemma isStable_delete (a : AssertionId) (stamp : Stamp) (shareOperationId : Term)
    (rootEntities : List Term) :
    (∀ q ∈ (generateAssertionPromotedMetadata a stamp shareOperationId rootEntities).delete,
        q.IsStable) ∧
      ∀ q ∈ (generateAssertionDiscardedMetadata a stamp).delete, q.IsStable := by
  constructor
  · exact List.forall_mem_cons.mpr ⟨rfl, List.forall_mem_singleton.mpr rfl⟩
  · exact List.forall_mem_cons.mpr ⟨rfl, List.forall_mem_singleton.mpr rfl⟩

/-! ## What a transition may change -/

def NamesGraph (q : Quad) : Prop := q.predicate = dkg "assertionGraph"
  deriving Decidable

/-- A quad that gives a record a layer other than the working memory. -/
def IsShared (q : Quad) : Prop :=
  q.predicate = dkg "memoryLayer" ∧ q.object ≠ lit workingMemory.text
  deriving Decidable

variable {q : Quad} {predicate : Term}

/-- No other predicate is that of a name or of a layer. -/
lemma not_names_of_predicate (h : q.predicate = predicate)
    (hne : predicate ≠ dkg "assertionGraph") :
    ¬ NamesGraph q := fun hnames => hne (h.symm.trans hnames)

lemma not_shared_of_predicate (h : q.predicate = predicate) (hne : predicate ≠ dkg "memoryLayer") :
    ¬ IsShared q := fun hshared => hne (h.symm.trans hshared.1)

lemma created_spec (a : AssertionId) (stamp : Stamp)
    (h : q ∈ generateAssertionCreatedMetadata a stamp) :
    q.graph = contextGraphMetaUri a.contextGraphId ∧
      (NamesGraph q → q.subject = assertionLifecycleUri a) ∧ ¬ IsShared q := by
  simp only [generateAssertionCreatedMetadata, mq, mem_cons, not_mem_nil, or_false] at h
  rcases h with rfl | rfl | rfl | rfl | rfl | rfl | rfl | rfl | rfl | rfl | rfl | rfl | rfl | rfl |
    rfl | rfl
  -- the quads of the record have its subject; the layer that it gets is the working memory
  case' inr.inr.inr.inr.inr.inr.inr.inr.inl => exact ⟨rfl, fun _ => rfl, fun h => h.2 rfl⟩
  all_goals
    refine ⟨rfl, fun hnames => ?_, not_shared_of_predicate rfl (by dsimp only; decide)⟩
    first
      | rfl
      | exact absurd hnames (not_names_of_predicate rfl (by dsimp only; decide))

lemma promoted_spec (a : AssertionId) (stamp : Stamp) (shareOperationId : Term)
    (rootEntities : List Term)
    (h : q ∈ (generateAssertionPromotedMetadata a stamp shareOperationId rootEntities).insert) :
    q.graph = contextGraphMetaUri a.contextGraphId ∧ ¬ NamesGraph q ∧
      (IsShared q → q.subject = assertionLifecycleUri a) := by
  simp only [generateAssertionPromotedMetadata, mq, mem_append, mem_cons, mem_map,
    not_mem_nil, or_false] at h
  rcases h with (rfl | rfl | rfl | rfl | rfl | rfl | rfl | rfl | rfl | rfl) | ⟨entity, _, rfl⟩
  all_goals
    refine ⟨rfl, not_names_of_predicate rfl (by dsimp only; decide), fun hshared => ?_⟩
    first
      | rfl
      | exact absurd hshared (not_shared_of_predicate rfl (by dsimp only; decide))

lemma discarded_spec (a : AssertionId) (stamp : Stamp)
    (h : q ∈ (generateAssertionDiscardedMetadata a stamp).insert) :
    q.graph = contextGraphMetaUri a.contextGraphId ∧ ¬ NamesGraph q ∧ ¬ IsShared q := by
  simp only [generateAssertionDiscardedMetadata, mq, mem_cons, not_mem_nil, or_false] at h
  rcases h with rfl | rfl | rfl | rfl | rfl | rfl | rfl | rfl | rfl
  all_goals
    exact ⟨rfl, not_names_of_predicate rfl (by dsimp only; decide),
      not_shared_of_predicate rfl (by dsimp only; decide)⟩

end Dkg.Assertions
