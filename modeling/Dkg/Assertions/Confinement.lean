import Dkg.Assertions.SyncHandler

/-! # Working memory that is not promoted

A run is any sequence of operations on assertions. `unpromoted` has the triples that were written to
assertion graphs and not moved to the shared memory since. The durable answers have none of them in
every run in which no triple is written to a graph that is already shown as shared, every promotion
that marks a graph as shared moves all its triples, and no assertion graph is a metadata graph
(`working_memory_not_served`). The operations check none of this: what is written after a promotion
is served (`written_after_promotion_served`).
-/

namespace Dkg.Assertions

open Lib TripleStore Machine.Reachable Finset SharedMemory

inductive Operation
  | create (a : AssertionId) (stamp : Stamp)
  | write (a : AssertionId) (input : List Quad)
  | promote (a : AssertionId) (opts : PromoteOptions)
  | discard (a : AssertionId) (stamp : Stamp)

/-- The store, and the quads of the assertions that were not promoted. -/
structure State where
  node : Node
  unpromoted : Finset Quad

/-- The quads that leave the assertion graph. -/
def Promotion.moved (plan : Promotion) (a : AssertionId) : List Quad :=
  inGraph (contextGraphAssertionUri a) plan.effectivePromoteQuads

/-- The rows of a promotion are the triples of the assertion graph. -/
def Operation.Answered (node : Node) : Operation → Prop
  | .promote a opts => opts.rows.Nodup ∧ ∀ q, q ∈ opts.rows ↔ q.graph = [] ∧
      ({ q with graph := contextGraphAssertionUri a } : Quad) ∈ node.store
  | _ => True

/-- An operation; one that throws changes nothing. -/
def exec (s : State) : Operation → State
  | .create a stamp =>
    match assertionCreate s.node a stamp with
    | .ok node => { s with node := node }
    | .error _ => s
  | .write a input =>
    match assertionWrite s.node a input with
    | .ok node => { node := node
                    unpromoted := s.unpromoted ∪
                      (inGraph (contextGraphAssertionUri a) input).toFinset }
    | .error _ => s
  | .promote a opts =>
    match planPromotion s.node a opts with
    | .ok (some plan) => { node := executePromotion s.node a opts plan
                           unpromoted := s.unpromoted \ (plan.moved a).toFinset }
    | _ => s
  | .discard a stamp =>
    match assertionDiscard s.node a stamp with
    | .ok node => { node := node
                    unpromoted := s.unpromoted.filter fun q =>
                      q.graph ≠ contextGraphAssertionUri a }
    | .error _ => s

/-- Nothing is written yet; what else is stored is arbitrary. -/
def machine : Machine State Operation where
  init s := s.unpromoted = ∅
  step s op s' := op.Answered s.node ∧ s' = exec s op

/-- Some shared record names the graph. -/
def IsShown (store : TripleStore) (graph : Term) : Prop :=
  ∃ named ∈ store, ∃ layered ∈ store, NamesGraph named ∧ IsShared layered ∧
    IsMetaGraph named.graph ∧ layered.graph = named.graph ∧ layered.subject = named.subject ∧
      named.object = graph
  deriving Decidable

/-- The graph is named by a record whose layer the promotion sets. -/
def IsMarked (store : TripleStore) (a : AssertionId) (graph : Term) : Prop :=
  ∃ named ∈ store, NamesGraph named ∧ named.graph = contextGraphMetaUri a.contextGraphId ∧
    named.subject ∈ [assertionLifecycleUri a, contextGraphAssertionUri a] ∧ named.object = graph
  deriving Decidable

/-- A write goes to a graph that is no metadata graph and is not shown as shared, and a promotion
moves every unpromoted triple of the graphs that it marks. -/
def Confined (s : State) : Operation → Prop
  | .write a _ => ¬ IsMetaGraph (contextGraphAssertionUri a) ∧
      ¬ IsShown s.node.store (contextGraphAssertionUri a)
  | .promote a opts => ∀ plan, planPromotion s.node a opts = .ok (some plan) →
      ∀ q ∈ s.unpromoted, IsMarked s.node.store a q.graph → q ∈ plan.moved a
  | _ => True

instance decidableConfined (s : State) : (op : Operation) → Decidable (Confined s op)
  | .create _ _ | .discard _ _ => instDecidableTrue
  | .write _ _ => instDecidableAnd
  | .promote a opts =>
    match h : planPromotion s.node a opts with
    | .ok (some plan) =>
      decidable_of_iff (∀ q ∈ s.unpromoted, IsMarked s.node.store a q.graph → q ∈ plan.moved a)
        ⟨fun hall plan' hplan => by rw [h] at hplan; cases hplan; exact hall,
          fun hall => hall plan h⟩
    | .ok none | .error _ => .isTrue fun plan' hplan => by rw [h] at hplan; cases hplan

/-! ## What the operations show -/

variable {store store' : TripleStore} {graph : Term} {a : AssertionId} {node node' : Node}
    {q : Quad}
  {s : State}

/-- What one store shows, another does that has its names and layers. -/
lemma IsShown.mono (h : IsShown store graph)
    (hnames : ∀ q ∈ store, IsMetaGraph q.graph → NamesGraph q → q ∈ store')
    (hlayers : ∀ q ∈ store, IsMetaGraph q.graph → IsShared q → q ∈ store') : IsShown store'
      graph := by
  obtain ⟨named, hnamed, layered, hlayered, hnames', hshared, hmeta, hgraph, hrest⟩ := h
  exact ⟨named, hnames named hnamed hmeta hnames', layered,
    hlayers layered hlayered (hgraph ▸ hmeta) hshared, hnames', hshared, hmeta, hgraph, hrest⟩

variable {contextGraphId swmGraph swmMetaGraph : Term} {input : List Quad}
  {swmOwned : KeyedList Term Term} {roots : List Term} {entries : List (Term × Term)}
  {opts : PromoteOptions} {plan : Promotion}

lemma IsShown.of_visible (h : IsVisible store contextGraphId graph) : IsShown store graph := by
  obtain ⟨named, hnamed, layered, hlayered, hnames, hshared, hmeta, hrest⟩ := h
  refine ⟨named, hnamed, layered, hlayered, hnames, hshared, ?_, hrest⟩
  rw [hmeta]
  exact isMetaGraph_contextGraphMetaUri contextGraphId

lemma not_shared_graphLayerQuad : ¬ IsShared (graphLayerQuad a .workingMemory) := fun h => h.2 rfl

lemma not_names_graphLayerQuad (layer : MemoryLayer) : ¬ NamesGraph (graphLayerQuad a layer) :=
  not_names_of_predicate (show _ = dkg "memoryLayer" from rfl) (by decide)

/-- **Creating** an assertion shows nothing: the layers of its record are gone, and the new one is
the working memory. -/
lemma assertionCreate_isShown {stamp : Stamp} (h : assertionCreate node a stamp = .ok node')
    (hshown : IsShown node'.store graph) : IsShown node.store graph := by
  have hstore : node'.store = insert (insert
      (node.store.filter fun q => ¬ IsStale a q) (generateAssertionCreatedMetadata a stamp))
        [graphLayerQuad a .workingMemory] := by
    unfold assertionCreate at h
    cases hcheck : ensureSubGraphRegistered node.store a.contextGraphId a.subGraphName with
    | error e => rw [hcheck] at h; cases h
    | ok _ => rw [hcheck] at h; cases h; rfl
  have hold : ∀ q ∈ node'.store, q ∈ generateAssertionCreatedMetadata a stamp ∨
      q = graphLayerQuad a .workingMemory ∨ (q ∈ node.store ∧ ¬ IsStale a q) := by
    intro q hq
    rw [hstore, mem_insert, mem_insert, mem_filter, List.mem_singleton] at hq
    tauto
  obtain ⟨named, hnamed, layered, hlayered, hnames, hshared, hmeta, hgraph, hsubject, hobject⟩ :=
    hshown
  -- the layer was there before, and not in the record that was cleared
  have hlayer : layered ∈ node.store ∧ ¬ IsStale a layered := by
    rcases hold layered hlayered with hnew | rfl | hold
    · exact absurd hshared (created_spec a stamp hnew).2.2
    · exact absurd hshared not_shared_graphLayerQuad
    · exact hold
  -- so the name is not that of the record
  have hname : named ∈ node.store := by
    rcases hold named hnamed with hnew | rfl | hold
    · obtain ⟨hg, hs, _⟩ := created_spec a stamp hnew
      exact absurd ⟨hgraph.trans hg, .inl (hsubject.trans (hs hnames))⟩ hlayer.2
    · exact absurd hnames (not_names_graphLayerQuad _)
    · exact hold.1
  exact ⟨named, hname, layered, hlayer.1, hnames, hshared, hmeta, hgraph, hsubject, hobject⟩

lemma assertionWrite_store (h : assertionWrite node a input = .ok node') :
    node'.store = node.store.insert (inGraph (contextGraphAssertionUri a) input) := by
  unfold assertionWrite at h
  cases hcheck : ensureSubGraphRegistered node.store a.contextGraphId a.subGraphName with
  | error e => rw [hcheck] at h; cases h
  | ok _ =>
    rw [hcheck] at h
    cases hreserved : rejectReservedSubjects (inGraph (contextGraphAssertionUri a) input) with
    | error e => simp [bind, Except.bind, hreserved] at h
    | ok _ =>
      simp only [bind, Except.bind, hreserved] at h
      cases h
      rfl

lemma graph_of_mem_inGraph {quads : List Quad} (h : q ∈ inGraph graph quads) : q.graph = graph := by
  obtain ⟨_, _, rfl⟩ := List.mem_map.mp h
  rfl

/-- **Writing** to a graph that is no metadata graph shows nothing. -/
lemma assertionWrite_isShown (h : assertionWrite node a input = .ok node')
    (hmeta : ¬ IsMetaGraph (contextGraphAssertionUri a)) (hshown : IsShown node'.store graph) :
    IsShown node.store graph := by
  have hold : ∀ q ∈ node'.store, IsMetaGraph q.graph → q ∈ node.store := by
    intro q hq hq'
    rw [assertionWrite_store h, mem_insert] at hq
    rcases hq with hq | hnew
    · exact hq
    · exact absurd (graph_of_mem_inGraph hnew ▸ hq') hmeta
  exact hshown.mono (fun q hq hm _ => hold q hq hm) (fun q hq hm _ => hold q hq hm)

/-- **Discarding** an assertion shows nothing. -/
lemma assertionDiscard_isShown {stamp : Stamp} (h : assertionDiscard node a stamp = .ok node')
    (hshown : IsShown node'.store graph) : IsShown node.store graph := by
  have hold : ∀ q ∈ node'.store, q ∈ node.store ∨
      q ∈ (generateAssertionDiscardedMetadata a stamp).insert := by
    intro q hq
    unfold assertionDiscard at h
    cases hcheck : validateOptionalSubGraph a.subGraphName with
    | error e => rw [hcheck] at h; cases h
    | ok _ =>
      rw [hcheck] at h
      cases h
      simp only [mem_filter, mem_deleteByPattern, mem_insert, mem_delete] at hq
      tauto
  refine hshown.mono (fun q hq _ hnames => ?_) (fun q hq _ hshared => ?_)
  · exact (hold q hq).resolve_right fun hnew => (discarded_spec a stamp hnew).2.1 hnames
  · exact (hold q hq).resolve_right fun hnew => (discarded_spec a stamp hnew).2.2 hshared

/-! ### Promoting -/

lemma mem_of_mem_replaceRoot {root : Term}
    (h : q ∈ replaceRoot swmOwned swmGraph swmMetaGraph store root) : q ∈ store := by
  unfold replaceRoot at h
  split at h
  · rw [mem_deleteMetaForRoot, mem_deleteBySubjectPrefix, mem_deleteByPattern] at h
    exact h.1.1.1
  · exact h

lemma mem_of_mem_replaceRoots
    (h : q ∈ roots.foldl (replaceRoot swmOwned swmGraph swmMetaGraph) store) : q ∈ store := by
  induction roots generalizing store with
  | nil => exact h
  | cons root rest ih => exact mem_of_mem_replaceRoot (ih h)

lemma mem_markShared (h : q ∈ markShared store a) :
    q ∈ store ∨ q = graphLayerQuad a .sharedWorkingMemory := by
  rw [markShared, mem_insert, mem_deleteByPattern, List.mem_singleton] at h
  tauto

lemma shareTransition_graph {m : ShareTransitionMetadata}
    (h : q ∈ generateShareTransitionMetadata m) : q.graph = sharedMemoryMetaUri m.contextGraphId
      none := by
  simp only [generateShareTransitionMetadata, mq, List.mem_append, List.mem_cons, List.mem_map,
    List.not_mem_nil, or_false] at h
  rcases h with (rfl | rfl | rfl | rfl) | ⟨_, _, rfl⟩
  all_goals rfl

lemma shareMetadata_graph {m : ShareMetadata} (h : q ∈ generateShareMetadata m swmMetaGraph) :
    q.graph = swmMetaGraph := by
  simp only [generateShareMetadata, mq, List.mem_append, List.mem_cons, List.mem_map,
    List.not_mem_nil, or_false] at h
  rcases h with (rfl | rfl | rfl) | ⟨_, _, rfl⟩
  all_goals rfl

lemma ownershipQuads_graph (h : q ∈ generateOwnershipQuads entries swmMetaGraph) :
    q.graph = swmMetaGraph := by
  obtain ⟨_, _, rfl⟩ := List.mem_map.mp h
  rfl

lemma mem_of_mem_foldl_pattern {pattern : Term × Term → Quad}
    (h : q ∈ entries.foldl (fun store entry => deleteByPattern store (pattern entry)) store) :
    q ∈ store := by
  induction entries generalizing store with
  | nil => exact h
  | cons entry rest ih => exact (mem_deleteByPattern.mp (ih h)).1

lemma mem_recordShare {peer : Term} (h : q ∈ (recordShare node a opts roots peer).store) :
    q ∈ node.store ∨ q.graph = sharedMemoryMetaUri a.contextGraphId a.subGraphName := by
  rw [recordShare, mem_insert] at h
  rcases h with h | hnew
  · have hmem := mem_of_mem_foldl_pattern h
    rw [mem_insert] at hmem
    exact hmem.imp_right shareMetadata_graph
  · exact .inr (ownershipQuads_graph hnew)

/-- **What a promotion adds** to metadata graphs: the records of the promotion and the layer of the
graph. -/
lemma mem_promotedStore (h : q ∈ promotedStore node a opts plan) (hmeta : IsMetaGraph q.graph) :
    q ∈ node.store ∨ q = graphLayerQuad a .sharedWorkingMemory ∨
      q ∈ (generateAssertionPromotedMetadata a opts.stamp opts.operationId
        plan.effectiveRoots).insert := by
  rw [promotedStore, mem_insert, mem_delete, mem_insert] at h
  rcases h with ⟨hmarked | htransition, _⟩ | hpromoted
  · rcases mem_markShared hmarked with hmoved | hlayer
    · rw [movedStore, mem_delete, mem_insert] at hmoved
      rcases hmoved.1 with hreplaced | hswm
      · exact .inl (mem_of_mem_replaceRoots hreplaced)
      · exact absurd (graph_of_mem_inGraph hswm ▸ hmeta) (not_isMetaGraph_sharedMemory _ _).1
    · exact .inr (.inl hlayer)
  · exact absurd (shareTransition_graph htransition ▸ hmeta) (not_isMetaGraph_sharedMemory _ _).2
  · exact .inr (.inr hpromoted)

lemma mem_executePromotion (h : q ∈ (executePromotion node a opts plan).store)
    (hmeta : IsMetaGraph q.graph) :
    q ∈ node.store ∨ q = graphLayerQuad a .sharedWorkingMemory ∨
      q ∈ (generateAssertionPromotedMetadata a opts.stamp opts.operationId
        plan.effectiveRoots).insert := by
  unfold executePromotion at h
  split at h
  · exact mem_promotedStore h hmeta
  · rcases mem_recordShare h with h | hgraph
    · exact mem_promotedStore h hmeta
    · exact absurd (hgraph ▸ hmeta) (not_isMetaGraph_sharedMemory _ _).2

/-- **Promoting** shows the graphs that it marks. -/
lemma executePromotion_isShown (hshown : IsShown (executePromotion node a opts plan).store graph) :
    IsShown node.store graph ∨ IsMarked node.store a graph := by
  obtain ⟨named, hnamed, layered, hlayered, hnames, hshared, hmeta, hgraph, hsubject, hobject⟩ :=
    hshown
  have hname : named ∈ node.store := by
    rcases mem_executePromotion hnamed hmeta with hold | rfl | hnew
    · exact hold
    · exact absurd hnames (not_names_graphLayerQuad _)
    · exact absurd hnames (promoted_spec a _ _ _ hnew).2.1
  have hmarks : layered.graph = contextGraphMetaUri a.contextGraphId →
      layered.subject ∈ [assertionLifecycleUri a, contextGraphAssertionUri a] →
        IsMarked node.store a graph := by
    intro hg hs
    exact ⟨named, hname, hnames, hgraph.symm.trans hg, hsubject ▸ hs, hobject⟩
  rcases mem_executePromotion hlayered (hgraph ▸ hmeta) with hold | rfl | hnew
  · exact .inl ⟨named, hname, layered, hold, hnames, hshared, hmeta, hgraph, hsubject, hobject⟩
  · exact .inr (hmarks rfl (List.mem_cons_of_mem _ List.mem_cons_self))
  · obtain ⟨hg, _, hs⟩ := promoted_spec a _ _ _ hnew
    exact .inr (hmarks hg (hs hshared ▸ List.mem_cons_self))

/-! ## Runs -/

/-- The graphs of unpromoted triples are assertion graphs, no metadata graphs, and not shown. -/
def Hidden (s : State) : Prop :=
  ∀ q ∈ s.unpromoted, IsAssertionGraph q.graph ∧ ¬ IsMetaGraph q.graph ∧
    ¬ IsShown s.node.store q.graph

lemma Hidden.exec (h : Hidden s) {op : Operation} (hop : Confined s op) : Hidden (exec s op) := by
  cases op with
  | create a stamp =>
    cases hcreate : assertionCreate s.node a stamp with
    | error e =>
      rw [Assertions.exec, hcreate]
      exact h
    | ok node =>
      rw [Assertions.exec, hcreate]
      intro q hq
      obtain ⟨hgraph, hmeta, hno⟩ := h q hq
      exact ⟨hgraph, hmeta, fun hshown => hno (assertionCreate_isShown hcreate hshown)⟩
  | write a input =>
    cases hwrite : assertionWrite s.node a input with
    | error e =>
      rw [Assertions.exec, hwrite]
      exact h
    | ok node =>
      rw [Assertions.exec, hwrite]
      intro q hq
      obtain ⟨hgraph, hmeta, hno⟩ : IsAssertionGraph q.graph ∧ ¬ IsMetaGraph q.graph ∧
          ¬ IsShown s.node.store q.graph := by
        rcases Finset.mem_union.mp hq with hold | hnew
        · exact h q hold
        · rw [graph_of_mem_inGraph (List.mem_toFinset.mp hnew)]
          exact ⟨isAssertionGraph_uri a, hop⟩
      exact ⟨hgraph, hmeta, fun hshown => hno (assertionWrite_isShown hwrite hop.1 hshown)⟩
  | promote a opts =>
    rw [Assertions.exec]
    split
    next plan hplan =>
      intro q hq
      rw [mem_sdiff, List.mem_toFinset] at hq
      obtain ⟨hgraph, hmeta, hno⟩ := h q hq.1
      refine ⟨hgraph, hmeta, fun hshown => ?_⟩
      rcases executePromotion_isShown hshown with hshown | hmarked
      · exact hno hshown
      · exact hq.2 (hop plan hplan q hq.1 hmarked)
    next => exact h
  | discard a stamp =>
    cases hdiscard : assertionDiscard s.node a stamp with
    | error e =>
      rw [Assertions.exec, hdiscard]
      exact h
    | ok node =>
      rw [Assertions.exec, hdiscard]
      intro q hq
      obtain ⟨hgraph, hmeta, hno⟩ := h q (Finset.mem_filter.mp hq).1
      exact ⟨hgraph, hmeta, fun hshown => hno (assertionDiscard_isShown hdiscard hshown)⟩

lemma hidden (h : (machine.restrict Confined).Reachable s) : Hidden s := by
  refine invariant ?_ ?_ h
  · intro s hinit q hq
    rw [show s.unpromoted = ∅ from hinit] at hq
    exact absurd hq (notMem_empty q)
  · rintro s op s' hs ⟨hconfined, _, rfl⟩
    exact hs.exec hconfined

/-- **Unpromoted triples are not served.** In every run in which a triple is only written to a graph
that is no metadata graph and is not shown as shared, and a promotion moves all triples of the
graphs that it marks, no page of a durable answer has an unpromoted triple. -/
theorem working_memory_not_served (h : (machine.restrict Confined).Reachable s)
    (contextGraphId : Term) (phase : DurablePhase) (rows : List Quad)
    (hrows : AreRows s.node.store contextGraphId phase rows) (syncPageSize offset limit : ℕ) :
    ∀ q ∈ s.unpromoted, q ∉ durablePage syncPageSize rows offset limit := by
  intro q hq hpage
  obtain ⟨hgraph, hmeta, hno⟩ := hidden h q hq
  have hserved := hrows.served syncPageSize offset limit hpage
  exact hno (.of_visible (hserved.isVisible hgraph hmeta))

/-! ## Drafts -/

lemma exists_page {phase : DurablePhase} (hq : q ∈ store)
    (hserved : Served store contextGraphId phase q) :
    ∃ rows, AreRows store contextGraphId phase rows ∧
      ∃ syncPageSize, q ∈ durablePage syncPageSize rows 0 syncPageSize := by
  have hrows : AreRows store contextGraphId phase
      (store.filter fun q => Served store contextGraphId phase q).toList :=
    ⟨nodup_toList _, fun q => by rw [mem_toList, mem_filter]⟩
  refine ⟨_, hrows, (store.filter fun q => Served store contextGraphId phase q).toList.length, ?_⟩
  have hoffset : Sync.clampOffset 0 = 0 := by decide
  have hlimit : ∀ n, n ≤ Sync.clampLimit n n := by
    intro n
    unfold Sync.clampLimit
    rw [ite_self, min_self]
    exact le_max_right 1 n
  rw [durablePage, hoffset, List.drop_zero, List.take_of_length_le (hlimit _), mem_toList,
    mem_filter]
  exact ⟨hq, hserved⟩

lemma answered_of_mem (hnodup : opts.rows.Nodup) (hrows : ∀ r ∈ opts.rows, r.graph = [] ∧
      ({ r with graph := contextGraphAssertionUri a } : Quad) ∈ node.store)
    (hall : ∀ q ∈ node.store, q.graph = contextGraphAssertionUri a →
      ({ q with graph := [] } : Quad) ∈ opts.rows) : (Operation.promote a opts).Answered node := by
  refine ⟨hnodup, fun q => ⟨hrows q, ?_⟩⟩
  rintro ⟨hgraph, hmem⟩
  have h := hall _ hmem rfl
  cases q
  cases hgraph
  exact h

namespace Draft

def stamp : Stamp := ⟨['1'], ['t']⟩

def note : AssertionId := ⟨['c'], ['a'], ['n'], none⟩

def first : Quad := ⟨['e'], ['p'], ['o'], []⟩

def second : Quad := ⟨['f'], ['p'], ['o'], []⟩

def promoteAll : Operation :=
  .promote note {
    entities := none
    publisherPeerId := none
    rows := [first]
    operationId := ['2']
    encodedLength := 0
    stamp := stamp }

def empty : State := ⟨⟨∅, .empty⟩, ∅⟩

def written : State := exec (exec empty (.create note stamp)) (.write note [first])

def promoted : State := exec written promoteAll

/-- A draft that is written after the promotion. -/
def appended : State := exec promoted (.write note [second])

/-- A draft that is written after the assertion was created again. -/
def redrafted : State := exec (exec promoted (.create note stamp)) (.write note [second])

def secondInGraph : Quad := { second with graph := contextGraphAssertionUri note }

lemma promoteAll_answered : promoteAll.Answered written.node :=
  answered_of_mem (by decide) (by decide +kernel) (by decide +kernel)

lemma promoted_reachable : machine.Reachable promoted := by
  have hcreate := step (c := Operation.create note stamp)
    (init (show machine.init empty from rfl)) ⟨trivial, rfl⟩
  have hwrite := step (c := Operation.write note [first]) hcreate ⟨trivial, rfl⟩
  exact step (c := promoteAll) hwrite ⟨promoteAll_answered, rfl⟩

lemma redrafted_reachable : (machine.restrict Confined).Reachable redrafted := by
  have hcreate := step (M := machine.restrict Confined) (c := Operation.create note stamp)
    (init (show machine.init empty from rfl)) ⟨trivial, trivial, rfl⟩
  have hwrite := step (c := Operation.write note [first]) hcreate ⟨by decide +kernel, trivial, rfl⟩
  have hpromote := step (c := promoteAll) hwrite ⟨by decide +kernel, promoteAll_answered, rfl⟩
  have hagain := step (c := Operation.create note stamp) hpromote ⟨trivial, trivial, rfl⟩
  exact step (c := Operation.write note [second]) hagain ⟨by decide +kernel, trivial, rfl⟩

end Draft

/-- A draft that is written after the assertion was created again is not served. -/
theorem redrafted_not_served : Draft.secondInGraph ∈ Draft.redrafted.unpromoted ∧
    Draft.secondInGraph ∉ durablePage 10 (Draft.redrafted.node.store.filter fun q =>
      Served Draft.redrafted.node.store ['c'] .data q).toList 0 10 := by
  have hmem : Draft.secondInGraph ∈ Draft.redrafted.unpromoted := by decide +kernel
  refine ⟨hmem, ?_⟩
  refine working_memory_not_served Draft.redrafted_reachable ['c'] .data _ ?_ 10 0 10 _ hmem
  exact ⟨nodup_toList _, fun q => by rw [mem_toList, mem_filter]⟩

/-- A draft that is written after the promotion is served. -/
theorem written_after_promotion_served : machine.Reachable Draft.appended ∧
    Draft.secondInGraph ∈ Draft.appended.unpromoted ∧
    ∃ rows, AreRows Draft.appended.node.store ['c'] .data rows ∧
      ∃ syncPageSize, Draft.secondInGraph ∈ durablePage syncPageSize rows 0 syncPageSize := by
  refine ⟨.step (c := Operation.write Draft.note [Draft.second]) Draft.promoted_reachable ⟨trivial,
      rfl⟩,
    by decide +kernel, exists_page ?_ ?_⟩
  · decide +kernel
  · decide +kernel

end Dkg.Assertions
