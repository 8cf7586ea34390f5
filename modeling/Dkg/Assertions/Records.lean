import Dkg.Assertions.Confinement

/-! # The records of assertions

The state of an assertion is a quad of its lifecycle record; its layer is a quad of the record and
one of the assertion graph. A transition deletes the values that it expects and inserts new ones.
What the metadata graph of a context graph has after an operation is said here once for each
operation; the other graphs that an operation changes are no metadata graphs, but for the assertion
graph itself.
-/

namespace Dkg.Assertions

open Lib TripleStore List SharedMemory

/-! ## States -/

inductive AssertionState
  | created
  | promoted
  | published
  | finalized
  | discarded
  deriving DecidableEq

def AssertionState.text : AssertionState → String
  | .created => "created"
  | .promoted => "promoted"
  | .published => "published"
  | .finalized => "finalized"
  | .discarded => "discarded"

/-- `VALID_ASSERTION_TRANSITIONS`. -/
def validTransitions : AssertionState → List AssertionState
  | .created => [.promoted, .discarded]
  | .promoted => [.published]
  | .published => [.finalized]
  | _ => []

/-- `ASSERTION_STATE_TO_LAYER`. -/
def stateToLayer : AssertionState → Option MemoryLayer
  | .created => some .workingMemory
  | .promoted => some .sharedWorkingMemory
  | .published | .finalized => some .verifiedMemory
  | .discarded => none

variable {store store' : TripleStore} {a b : AssertionId} {node node' : Node} {q : Quad}

/-- A quad of the record, of one of its events, or about the assertion graph. -/
def IsRecordQuad (a : AssertionId) (q : Quad) : Prop :=
  IsStale a q ∨
    (q.graph = contextGraphMetaUri a.contextGraphId ∧ q.subject = contextGraphAssertionUri a)

/-- The record has one state, and the record and the graph have the layer of this state. -/
structure IsRecorded (store : TripleStore) (a : AssertionId) (state : AssertionState) : Prop where
  recordState : ∀ o, mq (assertionLifecycleUri a) (dkg "state") o
    (contextGraphMetaUri a.contextGraphId) ∈ store ↔ o = lit state.text.toList
  recordLayer : ∀ o, mq (assertionLifecycleUri a) (dkg "memoryLayer") o
    (contextGraphMetaUri a.contextGraphId) ∈ store ↔
      ∃ layer ∈ stateToLayer state, o = lit layer.text
  graphLayer : ∀ o, mq (contextGraphAssertionUri a) (dkg "memoryLayer") o
    (contextGraphMetaUri a.contextGraphId) ∈ store ↔
      ∃ layer ∈ stateToLayer state, o = lit layer.text

lemma IsRecorded.congr {state : AssertionState} (h : IsRecorded store a state)
    (hsame : ∀ q, IsRecordQuad a q → (q ∈ store' ↔ q ∈ store)) : IsRecorded store' a state where
  recordState := fun o => (hsame _ (.inl ⟨rfl, .inl rfl⟩)).trans (h.recordState o)
  recordLayer := fun o => (hsame _ (.inl ⟨rfl, .inl rfl⟩)).trans (h.recordLayer o)
  graphLayer := fun o => (hsame _ (.inr ⟨rfl, rfl⟩)).trans (h.graphLayer o)

/-! ## URIs -/

lemma graph_ne_of_urn {rest : Term} :
    contextGraphAssertionUri a ≠ "urn:dkg:assertion:".toList ++ rest := by
  intro h
  have hfirst : some 'd' = some 'u' := congrArg head? h
  exact absurd hfirst (by decide)

lemma graph_ne_record : contextGraphAssertionUri a ≠ assertionLifecycleUri b := by
  unfold assertionLifecycleUri
  rw [append_assoc, append_assoc, append_assoc]
  exact graph_ne_of_urn

lemma not_isBlankNode_graph : ¬ IsBlankNode (contextGraphAssertionUri a) := by
  rintro ⟨rest, h⟩
  have hfirst : some '_' = some 'd' := congrArg head? h
  exact absurd hfirst (by decide)

/-! ## What the transitions insert -/

/-- Quads of a record and its event that set a state and, if it has one, its layer. -/
structure Sets (a : AssertionId) (state : AssertionState) (quads : List Quad) : Prop where
  stale : ∀ q ∈ quads, IsStale a q
  recordState : ∀ q ∈ quads, q.predicate = dkg "state" →
    q = assertionStateQuad (assertionLifecycleUri a) state.text
      (contextGraphMetaUri a.contextGraphId)
  recordLayer : ∀ q ∈ quads, q.predicate = dkg "memoryLayer" → ∃ layer ∈ stateToLayer state,
    q = assertionLayerQuad (assertionLifecycleUri a) layer (contextGraphMetaUri a.contextGraphId)
  state_mem : assertionStateQuad (assertionLifecycleUri a) state.text
    (contextGraphMetaUri a.contextGraphId) ∈ quads
  layer_mem : ∀ layer ∈ stateToLayer state, assertionLayerQuad (assertionLifecycleUri a) layer
    (contextGraphMetaUri a.contextGraphId) ∈ quads

lemma Sets.of_forall {state : AssertionState} {quads : List Quad} (h : ∀ q ∈ quads, IsStale a q ∧
      (q.predicate = dkg "state" → q = assertionStateQuad (assertionLifecycleUri a) state.text
        (contextGraphMetaUri a.contextGraphId)) ∧
      (q.predicate = dkg "memoryLayer" → ∃ layer ∈ stateToLayer state,
        q = assertionLayerQuad (assertionLifecycleUri a) layer
          (contextGraphMetaUri a.contextGraphId)))
    (hstate : assertionStateQuad (assertionLifecycleUri a) state.text
      (contextGraphMetaUri a.contextGraphId) ∈ quads)
    (hlayer : ∀ layer ∈ stateToLayer state, assertionLayerQuad (assertionLifecycleUri a) layer
      (contextGraphMetaUri a.contextGraphId) ∈ quads) : Sets a state quads :=
  ⟨fun q hq => (h q hq).1, fun q hq => (h q hq).2.1, fun q hq => (h q hq).2.2, hstate, hlayer⟩

lemma isStale_record (p o : Term) :
    IsStale a (mq (assertionLifecycleUri a) p o (contextGraphMetaUri a.contextGraphId)) :=
  ⟨rfl, .inl rfl⟩

lemma isStale_event (stamp : Stamp) (p o : Term) :
    IsStale a (mq (eventUri a stamp) p o (contextGraphMetaUri a.contextGraphId)) := by
  refine ⟨rfl, .inr ⟨"event/".toList ++ stamp.eventId, ?_⟩⟩
  show _ ++ _ ++ _ = assertionLifecycleUri a ++ "/event/".toList ++ stamp.eventId
  rw [append_assoc, append_assoc]
  rfl

lemma created_sets (a : AssertionId) (stamp : Stamp) :
    Sets a .created (generateAssertionCreatedMetadata a stamp) := by
  refine .of_forall ?_ ?_ ?_
  · intro q h
    simp only [generateAssertionCreatedMetadata, mem_cons, not_mem_nil, or_false] at h
    rcases h with rfl | rfl | rfl | rfl | rfl | rfl | rfl | rfl | rfl | rfl | rfl | rfl | rfl |
      rfl | rfl | rfl
    all_goals
      refine ⟨?_, fun hpredicate => ?_, fun hpredicate => ?_⟩
      · first
          | with_reducible exact isStale_record _ _
          | with_reducible exact isStale_event stamp _ _
      all_goals
        first
          | exact absurd hpredicate (by dsimp only [mq]; decide)
          | rfl
          | exact ⟨_, rfl, rfl⟩
  · simp only [generateAssertionCreatedMetadata, assertionStateQuad, AssertionState.text,
      mem_cons, true_or, or_true]
  · intro layer hlayer
    cases hlayer
    simp only [generateAssertionCreatedMetadata, assertionLayerQuad, mem_cons, true_or, or_true]

lemma promoted_sets (a : AssertionId) (stamp : Stamp) (shareOperationId : Term)
    (rootEntities : List Term) :
    Sets a .promoted
      (generateAssertionPromotedMetadata a stamp shareOperationId rootEntities).insert := by
  refine .of_forall ?_ ?_ ?_
  · intro q h
    simp only [generateAssertionPromotedMetadata, mem_append, mem_cons, mem_map,
      not_mem_nil, or_false] at h
    rcases h with (rfl | rfl | rfl | rfl | rfl | rfl | rfl | rfl | rfl | rfl) | ⟨entity, _, rfl⟩
    all_goals
      refine ⟨?_, fun hpredicate => ?_, fun hpredicate => ?_⟩
      · first
          | with_reducible exact isStale_record _ _
          | with_reducible exact isStale_event stamp _ _
      all_goals
        first
          | exact absurd hpredicate (by dsimp only [mq]; decide)
          | rfl
          | exact ⟨_, rfl, rfl⟩
  · simp only [generateAssertionPromotedMetadata, assertionStateQuad, AssertionState.text,
      mem_append, mem_cons, true_or]
  · intro layer hlayer
    cases hlayer
    simp only [generateAssertionPromotedMetadata, assertionLayerQuad, mem_append,
      mem_cons, true_or, or_true]

lemma discarded_sets (a : AssertionId) (stamp : Stamp) :
    Sets a .discarded (generateAssertionDiscardedMetadata a stamp).insert := by
  refine .of_forall ?_ ?_ ?_
  · intro q h
    simp only [generateAssertionDiscardedMetadata, mem_cons, not_mem_nil, or_false] at h
    rcases h with rfl | rfl | rfl | rfl | rfl | rfl | rfl | rfl | rfl
    all_goals
      refine ⟨?_, fun hpredicate => ?_, fun hpredicate => ?_⟩
      · first
          | with_reducible exact isStale_record _ _
          | with_reducible exact isStale_event stamp _ _
      all_goals
        first
          | exact absurd hpredicate (by dsimp only [mq]; decide)
          | rfl
  · simp only [generateAssertionDiscardedMetadata, assertionStateQuad, AssertionState.text,
      mem_cons, true_or]
  · intro layer hlayer
    cases hlayer

/-- No quad of a record or its events is about an assertion graph. -/
lemma IsStale.subject_ne (h : IsStale a q) : q.subject ≠ contextGraphAssertionUri b := by
  intro hsubject
  rcases h.2 with hrecord | ⟨rest, hevent⟩
  · exact graph_ne_record (hsubject.symm.trans hrecord)
  · rw [hsubject] at hevent
    unfold assertionLifecycleUri at hevent
    rw [append_assoc, append_assoc, append_assoc, append_assoc, append_assoc] at hevent
    exact graph_ne_of_urn hevent.symm

section

variable {state : AssertionState} {quads : List Quad} {o : Term}

lemma Sets.state_iff (h : Sets a state quads) :
    mq (assertionLifecycleUri a) (dkg "state") o (contextGraphMetaUri a.contextGraphId) ∈ quads ↔
      o = lit state.text.toList := by
  constructor
  · intro hmem
    exact congrArg Quad.object (h.recordState _ hmem rfl)
  · rintro rfl
    exact h.state_mem

lemma Sets.layer_iff (h : Sets a state quads) :
    mq (assertionLifecycleUri a) (dkg "memoryLayer") o (contextGraphMetaUri a.contextGraphId) ∈
      quads ↔ ∃ layer ∈ stateToLayer state, o = lit layer.text := by
  constructor
  · intro hmem
    obtain ⟨layer, hlayer, heq⟩ := h.recordLayer _ hmem rfl
    exact ⟨layer, hlayer, congrArg Quad.object heq⟩
  · rintro ⟨layer, hlayer, rfl⟩
    exact h.layer_mem layer hlayer

lemma Sets.graph_notMem (h : Sets a state quads) {p g : Term} :
    mq (contextGraphAssertionUri a) p o g ∉ quads := fun hmem =>
  (h.stale _ hmem).subject_ne rfl

end

/-! ## What an operation leaves in a metadata graph -/

lemma mem_assertionCreate {stamp : Stamp} (h : assertionCreate node a stamp = .ok node') :
    q ∈ node'.store ↔ (q ∈ node.store ∧ ¬ IsStale a q) ∨
      q ∈ generateAssertionCreatedMetadata a stamp ∨ q = graphLayerQuad a .workingMemory := by
  unfold assertionCreate at h
  cases hcheck : ensureSubGraphRegistered node.store a.contextGraphId a.subGraphName with
  | error e =>
    rw [hcheck] at h
    cases h
  | ok _ =>
    rw [hcheck] at h
    cases h
    rw [mem_insert, mem_insert, Finset.mem_filter, mem_singleton, or_assoc]

lemma mem_assertionWrite {input : List Quad} (h : assertionWrite node a input = .ok node')
    (hgraph : q.graph ≠ contextGraphAssertionUri a) : q ∈ node'.store ↔ q ∈ node.store := by
  rw [assertionWrite_store h, mem_insert]
  constructor
  · rintro (hold | hnew)
    · exact hold
    · exact absurd (graph_of_mem_inGraph hnew) hgraph
  · exact .inl

lemma matches_graph_iff {p : Term} :
    Quad.Matches ⟨contextGraphAssertionUri a, p, [], contextGraphMetaUri a.contextGraphId⟩ q ↔
      q.subject = contextGraphAssertionUri a ∧ PatternMatches p q.predicate ∧
        q.graph = contextGraphMetaUri a.contextGraphId := by
  have hsubject : contextGraphAssertionUri a ≠ [] := by
    intro h
    have hfirst : some 'd' = none := congrArg head? h
    cases hfirst
  have hgraph : contextGraphMetaUri a.contextGraphId ≠ [] := by
    intro h
    have hfirst : some 'd' = none := congrArg head? h
    cases hfirst
  constructor
  · rintro ⟨hs, hp, -, hg⟩
    have hs' := hs.resolve_left hsubject
    exact ⟨hs'.1.symm, hp, (hg.resolve_left hgraph).symm⟩
  · rintro ⟨hs, hp, hg⟩
    refine ⟨.inr ⟨hs.symm, ?_⟩, hp, .inl rfl, .inr hg.symm⟩
    rw [hs]
    exact not_isBlankNode_graph

lemma mem_assertionDiscard {stamp : Stamp} (h : assertionDiscard node a stamp = .ok node')
    (hgraph : q.graph ≠ contextGraphAssertionUri a) : q ∈ node'.store ↔
      ((q ∈ node.store ∧ q ∉ (generateAssertionDiscardedMetadata a stamp).delete) ∨
        q ∈ (generateAssertionDiscardedMetadata a stamp).insert) ∧
      ¬ (q.subject = contextGraphAssertionUri a ∧
        q.graph = contextGraphMetaUri a.contextGraphId) := by
  unfold assertionDiscard at h
  cases hcheck : validateOptionalSubGraph a.subGraphName with
  | error e =>
    rw [hcheck] at h
    cases h
  | ok _ =>
    rw [hcheck] at h
    cases h
    rw [Finset.mem_filter, mem_deleteByPattern, mem_insert, mem_delete, matches_graph_iff,
      map_reparsed (isStable_delete a stamp [] []).2]
    simp [PatternMatches, hgraph]

/-! ### Promoting -/

section

variable {swmGraph swmMetaGraph : Term} {opts : PromoteOptions} {plan : Promotion}

/-- A pattern with a graph leaves the other graphs as they are. -/
lemma not_matches_of_graph {s p o g : Term} (hg : g ≠ []) (hgraph : q.graph ≠ g) :
    ¬ Quad.Matches ⟨s, p, o, g⟩ q := fun h =>
  hgraph (h.2.2.2.resolve_left hg).symm

lemma sharedMemory_ne_nil (contextGraphId : Term) (subGraphName : Option Term) :
    sharedMemoryUri contextGraphId subGraphName ≠ [] ∧
      sharedMemoryMetaUri contextGraphId subGraphName ≠ [] := by
  constructor
  · intro h
    have hfirst : some 'd' = none := congrArg head? h
    cases hfirst
  · intro h
    have hfirst : some 'd' = none := congrArg head? h
    cases hfirst

lemma mem_replaceRoots {swmOwned : KeyedList Term Term} {roots : List Term}
    (hnil : swmGraph ≠ []) (hgraph : q.graph ≠ swmGraph) (hmeta : q.graph ≠ swmMetaGraph) :
    q ∈ roots.foldl (replaceRoot swmOwned swmGraph swmMetaGraph) store ↔ q ∈ store := by
  induction roots generalizing store with
  | nil => exact Iff.rfl
  | cons root rest ih =>
    rw [foldl_cons, ih]
    unfold replaceRoot
    split
    · rw [mem_deleteMetaForRoot, mem_deleteBySubjectPrefix, mem_deleteByPattern]
      constructor
      · exact fun h => h.1.1.1
      · intro h
        exact ⟨⟨⟨h, not_matches_of_graph hnil hgraph⟩, fun hfront => hgraph hfront.1⟩,
          fun hremoved => hmeta hremoved.1⟩
    · exact Iff.rfl

lemma graph_of_mem_reparsed {graph : Term} {quads : List Quad}
    (h : q ∈ (inGraph graph quads).map Quad.reparsed) : q.graph = graph := by
  obtain ⟨p, hp, rfl⟩ := mem_map.mp h
  have hgraph : p.graph = graph := graph_of_mem_inGraph hp
  exact hgraph

lemma mem_movedStore (hswm : q.graph ≠ sharedMemoryUri a.contextGraphId a.subGraphName)
    (hmeta : q.graph ≠ sharedMemoryMetaUri a.contextGraphId a.subGraphName)
    (hgraph : q.graph ≠ contextGraphAssertionUri a) :
    q ∈ movedStore node a plan ↔ q ∈ node.store := by
  rw [movedStore, mem_delete, mem_insert, mem_replaceRoots (sharedMemory_ne_nil _ _).1 hswm hmeta]
  constructor
  · rintro ⟨hold | hnew, -⟩
    · exact hold
    · exact absurd (graph_of_mem_inGraph hnew) hswm
  · intro hold
    exact ⟨.inl hold, fun hmoved => hgraph (graph_of_mem_reparsed hmoved)⟩

lemma mem_recordShare_iff {roots : List Term} {peer : Term} (hmeta : IsMetaGraph q.graph) :
    q ∈ (recordShare node a opts roots peer).store ↔ q ∈ node.store := by
  have hne : q.graph ≠ sharedMemoryMetaUri a.contextGraphId a.subGraphName := fun h =>
    (not_isMetaGraph_sharedMemory _ _).2 (h ▸ hmeta)
  have hcleared : ∀ (entries : List (Term × Term)) (store : TripleStore),
      q ∈ entries.foldl (fun store entry => deleteByPattern store
        ⟨entry.1, dkg "workspaceOwner", [], sharedMemoryMetaUri a.contextGraphId a.subGraphName⟩)
          store ↔ q ∈ store := by
    intro entries
    induction entries with
    | nil => exact fun _ => Iff.rfl
    | cons entry rest ih =>
      intro store
      rw [foldl_cons, ih, mem_deleteByPattern]
      exact and_iff_left (not_matches_of_graph (sharedMemory_ne_nil _ _).2 hne)
  constructor
  · intro h
    exact (mem_recordShare h).resolve_right hne
  · intro h
    rw [recordShare, mem_insert, hcleared, mem_insert]
    exact .inl (.inl h)

/-- **What a promotion leaves** in a metadata graph. -/
lemma mem_promotion_iff (hmeta : IsMetaGraph q.graph)
    (hgraph : q.graph ≠ contextGraphAssertionUri a) :
    q ∈ (executePromotion node a opts plan).store ↔
      (((q ∈ node.store ∧ ¬ (q.subject = contextGraphAssertionUri a ∧
          q.predicate = dkg "memoryLayer" ∧ q.graph = contextGraphMetaUri a.contextGraphId)) ∨
        q = graphLayerQuad a .sharedWorkingMemory) ∧
          q ∉ (generateAssertionPromotedMetadata a opts.stamp opts.operationId
            plan.effectiveRoots).delete) ∨
      q ∈ (generateAssertionPromotedMetadata a opts.stamp opts.operationId
        plan.effectiveRoots).insert := by
  have hne : ∀ cg sub, q.graph ≠ sharedMemoryUri cg sub ∧ q.graph ≠ sharedMemoryMetaUri cg sub := by
    intro cg sub
    exact ⟨fun h => (not_isMetaGraph_sharedMemory cg sub).1 (h ▸ hmeta),
      fun h => (not_isMetaGraph_sharedMemory cg sub).2 (h ▸ hmeta)⟩
  have hlayer : PatternMatches (dkg "memoryLayer") q.predicate ↔
      q.predicate = dkg "memoryLayer" := by
    have hnil : dkg "memoryLayer" ≠ [] := by decide
    constructor
    · exact fun h => (h.resolve_left hnil).symm
    · exact fun h => .inr h.symm
  have htransition : ∀ m : ShareTransitionMetadata, q ∉ generateShareTransitionMetadata m :=
    fun m hmem => (hne m.contextGraphId none).2 (shareTransition_graph hmem)
  have hshared : q ∈ (executePromotion node a opts plan).store ↔
      q ∈ promotedStore node a opts plan := by
    unfold executePromotion
    split
    · rfl
    · rw [mem_recordShare_iff hmeta]
  rw [hshared, promotedStore, mem_insert, mem_delete, mem_insert, markShared, mem_insert,
    mem_deleteByPattern, mem_singleton, matches_graph_iff, mem_movedStore (hne _ _).1 (hne _ _).2
    hgraph, hlayer, or_iff_left (htransition _), map_reparsed (isStable_delete a _ _ _).1]

end

/-! ## The assertion's own record -/

lemma graph_ne_meta : contextGraphAssertionUri a ≠ contextGraphMetaUri a.contextGraphId := by
  intro h
  have hlength := congrArg length h
  simp only [contextGraphAssertionUri, scopeUri, contextGraphMetaUri, length_append,
    length_cons] at hlength
  have hassertion : "/assertion/".toList.length = 11 := by decide
  have hmeta : "/_meta".toList.length = 6 := by decide
  omega

/-- No layer but that of the working memory is recorded for the graph. -/
def HasNoOtherLayer (store : TripleStore) (a : AssertionId) : Prop :=
  ∀ q ∈ store, q.graph = contextGraphMetaUri a.contextGraphId →
    q.subject = contextGraphAssertionUri a → q.predicate = dkg "memoryLayer" →
      q.object = lit MemoryLayer.workingMemory.text
  deriving Decidable

variable {layer : MemoryLayer} {o : Term} {stamp : Stamp} {x : AssertionState}
  {opts : PromoteOptions} {plan : Promotion}

lemma layerQuad_eq_iff :
    mq (contextGraphAssertionUri a) (dkg "memoryLayer") o (contextGraphMetaUri a.contextGraphId) =
      graphLayerQuad a layer ↔ o = lit layer.text :=
  ⟨fun h => congrArg Quad.object h, fun h => by rw [h]; rfl⟩

lemma record_ne_layerQuad {p g : Term} :
    mq (assertionLifecycleUri a) p o g ≠ graphLayerQuad b layer := fun h =>
  graph_ne_record (congrArg Quad.subject h).symm

/-- **Creating** an assertion begins its record anew. -/
lemma assertionCreate_isRecorded (h : assertionCreate node a stamp = .ok node')
    (hlayer : HasNoOtherLayer node.store a) : IsRecorded node'.store a .created where
  recordState := by
    intro o
    rw [mem_assertionCreate h, (created_sets a stamp).state_iff]
    constructor
    · rintro (⟨-, hstale⟩ | hstate | hgraph)
      · exact absurd (isStale_record _ _) hstale
      · exact hstate
      · exact absurd hgraph record_ne_layerQuad
    · exact fun ho => .inr (.inl ho)
  recordLayer := by
    intro o
    rw [mem_assertionCreate h, (created_sets a stamp).layer_iff]
    constructor
    · rintro (⟨-, hstale⟩ | hset | hgraph)
      · exact absurd (isStale_record _ _) hstale
      · exact hset
      · exact absurd hgraph record_ne_layerQuad
    · exact fun ho => .inr (.inl ho)
  graphLayer := by
    intro o
    rw [mem_assertionCreate h, layerQuad_eq_iff]
    constructor
    · rintro (⟨hold, -⟩ | hset | hgraph)
      · exact ⟨.workingMemory, rfl, hlayer _ hold rfl rfl rfl⟩
      · exact absurd hset (created_sets a stamp).graph_notMem
      · exact ⟨.workingMemory, rfl, hgraph⟩
    · rintro ⟨layer, hset, ho⟩
      cases hset
      exact .inr (.inr ho)

/-- The values that a transition expects and deletes. -/
def expected (a : AssertionId) : List Quad :=
  [assertionStateQuad (assertionLifecycleUri a) "created" (contextGraphMetaUri a.contextGraphId),
    assertionLayerQuad (assertionLifecycleUri a) .workingMemory
      (contextGraphMetaUri a.contextGraphId)]

/-- A record in the expected state, or in the new one already, comes to the new state. -/
lemma IsRecorded.advance {y : AssertionState} {quads : List Quad} (hx : IsRecorded store a x)
    (hxy : x = .created ∨ x = y) (hsets : Sets a y quads)
    (hrecord : ∀ p o, mq (assertionLifecycleUri a) p o (contextGraphMetaUri a.contextGraphId) ∈
      store' ↔ (mq (assertionLifecycleUri a) p o (contextGraphMetaUri a.contextGraphId) ∈ store ∧
        mq (assertionLifecycleUri a) p o (contextGraphMetaUri a.contextGraphId) ∉ expected a) ∨
          mq (assertionLifecycleUri a) p o (contextGraphMetaUri a.contextGraphId) ∈ quads)
    (hgraph : ∀ o, mq (contextGraphAssertionUri a) (dkg "memoryLayer") o
      (contextGraphMetaUri a.contextGraphId) ∈ store' ↔
        ∃ layer ∈ stateToLayer y, o = lit layer.text) : IsRecorded store' a y where
  recordState := by
    intro o
    rw [hrecord, hx.recordState, hsets.state_iff]
    constructor
    · rintro (⟨ho, hnot⟩ | hnew)
      · rcases hxy with rfl | rfl
        · subst ho
          exact absurd mem_cons_self hnot
        · exact ho
      · exact hnew
    · exact .inr
  recordLayer := by
    intro o
    rw [hrecord, hx.recordLayer, hsets.layer_iff]
    constructor
    · rintro (⟨⟨layer, hlayer, ho⟩, hnot⟩ | hnew)
      · rcases hxy with rfl | rfl
        · cases hlayer
          subst ho
          exact absurd (mem_cons_of_mem _ mem_cons_self) hnot
        · exact ⟨layer, hlayer, ho⟩
      · exact hnew
    · exact .inr
  graphLayer := hgraph

lemma executePromotion_isRecorded (hx : IsRecorded node.store a x)
    (hstate : x = .created ∨ x = .promoted) :
    IsRecorded (executePromotion node a opts plan).store a .promoted := by
  have hmeta := isMetaGraph_contextGraphMetaUri a.contextGraphId
  refine hx.advance hstate (promoted_sets a opts.stamp opts.operationId plan.effectiveRoots) ?_ ?_
  · intro p o
    rw [mem_promotion_iff hmeta graph_ne_meta.symm]
    have hkeep : ¬ (assertionLifecycleUri a = contextGraphAssertionUri a ∧ p = dkg "memoryLayer" ∧
        contextGraphMetaUri a.contextGraphId = contextGraphMetaUri a.contextGraphId) := fun h =>
      graph_ne_record h.1.symm
    rw [or_iff_left record_ne_layerQuad]
    exact or_congr_left (and_congr_left' (and_iff_left hkeep))
  · intro o
    rw [mem_promotion_iff hmeta graph_ne_meta.symm, layerQuad_eq_iff,
      or_iff_left (promoted_sets _ _ _ _).graph_notMem]
    have hnot : mq (contextGraphAssertionUri a) (dkg "memoryLayer") o
        (contextGraphMetaUri a.contextGraphId) ∉ expected a := by
      intro hmem
      rcases mem_cons.mp hmem with h | h
      · exact graph_ne_record (congrArg Quad.subject h)
      · exact graph_ne_record (congrArg Quad.subject (mem_singleton.mp h))
    constructor
    · rintro ⟨⟨-, hold⟩ | hnew, -⟩
      · exact absurd ⟨rfl, rfl, rfl⟩ hold
      · exact ⟨_, rfl, hnew⟩
    · rintro ⟨layer, hlayer, ho⟩
      cases hlayer
      exact ⟨.inr ho, hnot⟩

lemma assertionDiscard_isRecorded (h : assertionDiscard node a stamp = .ok node')
    (hx : IsRecorded node.store a x) (hstate : x = .created ∨ x = .discarded) :
    IsRecorded node'.store a .discarded := by
  refine hx.advance hstate (discarded_sets a stamp) ?_ ?_
  · intro p o
    rw [mem_assertionDiscard h graph_ne_meta.symm]
    have hsubject : (mq (assertionLifecycleUri a) p o
        (contextGraphMetaUri a.contextGraphId)).subject ≠ contextGraphAssertionUri a :=
      graph_ne_record.symm
    rw [and_iff_left fun h => hsubject h.1]
    exact Iff.rfl
  · intro o
    rw [mem_assertionDiscard h graph_ne_meta.symm]
    constructor
    · rintro ⟨-, hcleared⟩
      exact absurd ⟨rfl, rfl⟩ hcleared
    · rintro ⟨layer, hlayer, -⟩
      cases hlayer

/-! ## The records of other assertions -/

/-- The two assertions have quads of their own in the metadata graph of their context graph: neither
record lies among the events of the other, and the graphs differ. -/
def Apart (a b : AssertionId) : Prop :=
  a.contextGraphId = b.contextGraphId →
    assertionLifecycleUri a ≠ assertionLifecycleUri b ∧
    ¬ assertionLifecycleUri a ++ ['/'] <+: assertionLifecycleUri b ∧
    ¬ assertionLifecycleUri b ++ ['/'] <+: assertionLifecycleUri a ∧
    contextGraphAssertionUri a ≠ contextGraphAssertionUri b
  deriving Decidable

lemma Apart.not_stale (h : Apart a b) (ha : IsStale a q) : ¬ IsStale b q := by
  intro hb
  obtain ⟨hne, hab, hba, -⟩ := h (contextGraphMetaUri_injective (ha.1.symm.trans hb.1))
  rcases ha.2 with ha' | ha'
  · rcases hb.2 with hb' | hb'
    · exact hne (ha'.symm.trans hb')
    · exact hba (ha' ▸ hb')
  · rcases hb.2 with hb' | hb'
    · exact hab (hb' ▸ ha')
    · -- two records that begin one URI: one begins the other
      rcases prefix_or_prefix_of_prefix ha' hb' with hlong | hlong
      · rcases prefix_concat_iff.mp hlong with heq | hshort
        · exact hne (append_cancel_right heq)
        · exact hab hshort
      · rcases prefix_concat_iff.mp hlong with heq | hshort
        · exact hne (append_cancel_right heq).symm
        · exact hba hshort

lemma Apart.not_recordQuad (h : Apart a b) (hb : IsRecordQuad b q) : ¬ IsRecordQuad a q := by
  rintro (ha | ⟨hagraph, hasubject⟩)
  · rcases hb with hb | ⟨-, hbsubject⟩
    · exact h.not_stale ha hb
    · exact ha.subject_ne hbsubject
  · rcases hb with hb | ⟨hbgraph, hbsubject⟩
    · exact hb.subject_ne hasubject
    · exact (h (contextGraphMetaUri_injective (hagraph.symm.trans hbgraph))).2.2.2
        (hasubject.symm.trans hbsubject)

lemma IsRecordQuad.graph (h : IsRecordQuad a q) :
    q.graph = contextGraphMetaUri a.contextGraphId := by
  rcases h with h | h
  · exact h.1
  · exact h.1

lemma isRecordQuad_of_expected (h : q ∈ expected a) : IsRecordQuad a q := by
  rcases mem_cons.mp h with rfl | h
  · exact .inl (isStale_record _ _)
  · rw [mem_singleton] at h
    subst h
    exact .inl (isStale_record _ _)

/-- **Creating** an assertion changes quads of its record only. -/
lemma assertionCreate_frame (h : assertionCreate node a stamp = .ok node')
    (hq : ¬ IsRecordQuad a q) : q ∈ node'.store ↔ q ∈ node.store := by
  rw [mem_assertionCreate h]
  constructor
  · rintro (hold | hnew | rfl)
    · exact hold.1
    · exact absurd (.inl ((created_sets a stamp).stale q hnew)) hq
    · exact absurd (.inr ⟨rfl, rfl⟩) hq
  · exact fun hold => .inl ⟨hold, fun hstale => hq (.inl hstale)⟩

/-- **Promoting** an assertion changes in metadata graphs quads of its record only. -/
lemma executePromotion_frame (hmeta : IsMetaGraph q.graph)
    (hgraph : q.graph ≠ contextGraphAssertionUri a) (hq : ¬ IsRecordQuad a q) :
    q ∈ (executePromotion node a opts plan).store ↔ q ∈ node.store := by
  rw [mem_promotion_iff hmeta hgraph]
  constructor
  · rintro (⟨hold | rfl, -⟩ | hnew)
    · exact hold.1
    · exact absurd (.inr ⟨rfl, rfl⟩) hq
    · exact absurd (.inl ((promoted_sets _ _ _ _).stale q hnew)) hq
  · intro hold
    exact .inl ⟨.inl ⟨hold, fun h => hq (.inr ⟨h.2.2, h.1⟩)⟩,
      fun h => hq (isRecordQuad_of_expected h)⟩

/-- **Discarding** an assertion changes in metadata graphs quads of its record only. -/
lemma assertionDiscard_frame (h : assertionDiscard node a stamp = .ok node')
    (hgraph : q.graph ≠ contextGraphAssertionUri a) (hq : ¬ IsRecordQuad a q) :
    q ∈ node'.store ↔ q ∈ node.store := by
  rw [mem_assertionDiscard h hgraph]
  constructor
  · rintro ⟨hold | hnew, -⟩
    · exact hold.1
    · exact absurd (.inl ((discarded_sets a stamp).stale q hnew)) hq
  · intro hold
    exact ⟨.inl ⟨hold, fun h => hq (isRecordQuad_of_expected h)⟩,
      fun h => hq (.inr ⟨h.2, h.1⟩)⟩

end Dkg.Assertions
