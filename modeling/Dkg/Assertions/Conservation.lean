import Dkg.Assertions.Renaming
import Dkg.Assertions.States

/-! # What a promotion conserves

A promotion is a list of writes to the store (`promotionWrites`), any of which may fail; it then
throws, and the writes before it stay. What it does to the assertion graph and to the graph of
the shared memory is told by what each write spares.

`promote_conserves_iff` says for which assertion graphs, owners and options nothing is lost,
whatever the shared memory has. `orphan_lost` is a promotion that loses a triple, `escaped_stays`
one that leaves a triple in both graphs.
-/

namespace Dkg.Assertions

open Lib TripleStore List SharedMemory Publisher

/-! ## The writes -/

/-- A call that changes the store. -/
abbrev StoreWrite := TripleStore → TripleStore

def runWrites (store : TripleStore) (writes : List StoreWrite) : TripleStore :=
  writes.foldl (fun store write => write store) store

def Node.swmOwned (node : Node) (a : AssertionId) : KeyedList Term Term :=
  (node.sharedMemoryOwnedEntities.get (ownershipKey a.contextGraphId a.subGraphName)).getD .empty

/-- The writes of `replaceRoot`. Those of `deleteMetaForRoot` are all in the metadata graph, and one
here. -/
def replaceWrites (swmOwned : KeyedList Term Term) (swmGraph swmMetaGraph root : Term) :
    List StoreWrite :=
  if swmOwned.get root ≠ none then
    [(·.deleteByPattern ⟨root, [], [], swmGraph⟩),
      (·.deleteBySubjectPrefix swmGraph (root ++ genidSegment)),
      (deleteMetaForRoot · swmMetaGraph root)]
  else []

/-- The writes of `recordShare`. -/
def shareWrites (node : Node) (a : AssertionId) (opts : PromoteOptions) (roots : List Term)
    (peer : Term) : List StoreWrite :=
  let swmMetaGraph := sharedMemoryMetaUri a.contextGraphId a.subGraphName
  let entries := (roots.filter fun r => (node.swmOwned a).get r = none).map fun r => (r, peer)
  (·.insert (generateShareMetadata {
    shareOperationId := opts.operationId
    contextGraphId := a.contextGraphId
    rootEntities := roots
    publisherPeerId := peer
    timestamp := opts.stamp.timestamp } swmMetaGraph)) ::
  if entries = [] then []
  else entries.map (fun entry store =>
      deleteByPattern store ⟨entry.1, dkg "workspaceOwner", [], swmMetaGraph⟩) ++
    [(·.insert (generateOwnershipQuads entries swmMetaGraph))]

/-- The writes after the triples are moved. -/
def recordWrites (node : Node) (a : AssertionId) (opts : PromoteOptions) (plan : Promotion) :
    List StoreWrite :=
  let promoted :=
    generateAssertionPromotedMetadata a opts.stamp opts.operationId plan.effectiveRoots
  [(·.deleteByPattern ⟨contextGraphAssertionUri a, dkg "memoryLayer", [],
      contextGraphMetaUri a.contextGraphId⟩),
    (·.insert [graphLayerQuad a .sharedWorkingMemory]),
    (·.insert (generateShareTransitionMetadata {
      contextGraphId := a.contextGraphId
      operationId := opts.operationId
      agentAddress := a.agentAddress
      assertionName := a.name
      entities := (plan.effectiveQuads.map Quad.subject).dedup
      timestamp := opts.stamp.timestamp })),
    (·.delete promoted.delete),
    (·.insert promoted.insert)] ++
  match opts.caller with
  | none => []
  | some peer => shareWrites node a opts plan.effectiveRoots peer

/-- The triples of the owned root entities are replaced. -/
def clearWrites (node : Node) (a : AssertionId) (plan : Promotion) : List StoreWrite :=
  plan.effectiveRoots.flatMap (replaceWrites (node.swmOwned a)
    (sharedMemoryUri a.contextGraphId a.subGraphName)
    (sharedMemoryMetaUri a.contextGraphId a.subGraphName))

def promotionWrites (node : Node) (a : AssertionId) (opts : PromoteOptions) (plan : Promotion) :
    List StoreWrite :=
  clearWrites node a plan ++
    (·.insert (inGraph (sharedMemoryUri a.contextGraphId a.subGraphName) plan.effectiveQuads)) ::
    (·.delete (plan.moved a)) :: recordWrites node a opts plan

/-- A call returns or throws. -/
inductive PromoteOutcome
  | returned (node : Node) (promotedCount : ℕ)
  | threw (store : TripleStore)

/-- `assertionPromote`, where a write to the store may fail: the first one is number 0. -/
def promoteWith (failing : Option ℕ) (node : Node) (a : AssertionId) (opts : PromoteOptions) :
    PromoteOutcome :=
  match planPromotion node a opts with
  | .error _ => .threw node.store
  | .ok none => .returned node 0
  | .ok (some plan) =>
    match failing.filter (· < (promotionWrites node a opts plan).length) with
    | some k => .threw (runWrites node.store ((promotionWrites node a opts plan).take k))
    | none => .returned (executePromotion node a opts plan) plan.effectiveQuads.length

/-! ## What is conserved -/

/-- The triples that leave the assertion graph. -/
def leftQuads (a : AssertionId) (node node' : Node) : Finset Quad :=
  node.store.filter fun q => q.graph = contextGraphAssertionUri a ∧ q ∉ node'.store

/-- What the triples of the assertion become: a call that throws leaves them, and the shared memory,
as they are; one that returns keeps each of them or has it in the shared memory under one renaming,
and tells how many left. -/
def Conserves (a : AssertionId) (node : Node) : PromoteOutcome → Prop
  | .returned node' promotedCount =>
    promotedCount = (leftQuads a node node').card ∧
      ∃ name, IsRenaming name (leftQuads a node node').toList ∧
        ∀ q ∈ node.store, q.graph = contextGraphAssertionUri a → ¬ IsReservedSubject q.subject →
          q ∈ node'.store ∨ { q.rename name with
            graph := sharedMemoryUri a.contextGraphId a.subGraphName } ∈ node'.store
  | .threw store => ∀ q : Quad, q.graph = contextGraphAssertionUri a ∨
      q.graph = sharedMemoryUri a.contextGraphId a.subGraphName → (q ∈ store ↔ q ∈ node.store)

/-- The shared memory of the two may be different. -/
structure SameBesidesShared (a : AssertionId) (node node' : Node) : Prop where
  owned : node'.sharedMemoryOwnedEntities = node.sharedMemoryOwnedEntities
  store : ∀ q : Quad, q.graph ≠ sharedMemoryUri a.contextGraphId a.subGraphName →
    (q ∈ node'.store ↔ q ∈ node.store)

/-- The root entities that another peer may own, when no caller is named. -/
def skippedRoots (node : Node) (a : AssertionId) (opts : PromoteOptions) : List Term :=
  if opts.caller = none then
    (rootEntities (quadsToPromote opts)).filter fun root =>
      ((node.swmOwned a).get root).filter (· ≠ []) ≠ none
  else []

/-- No write fails, and the quads move whole and have no escapes; or the first write fails. -/
def MayPromote (failing : Option ℕ) (node : Node) (a : AssertionId) (opts : PromoteOptions)
    (plan : Promotion) : Prop :=
  failing = some 0 ∨ ((∀ k, failing = some k → (promotionWrites node a opts plan).length ≤ k) ∧
    MovesWhole (quadsToPromote opts) (skippedRoots node a opts) ∧
    ∀ q ∈ chosenQuads (quadsToPromote opts) (skippedRoots node a opts), q.IsStable)

variable {node node' : Node} {a : AssertionId} {opts : PromoteOptions} {plan : Promotion}
  {store : TripleStore} {q : Quad} {write : StoreWrite} {writes : List StoreWrite} {graph : Term}
  {failing : Option ℕ}

/-! ## The plan -/

variable {roots : List Term} {quads : List Quad} {peer : Term}

lemma checkOwners_eq {swmOwned : KeyedList Term Term} {caller : Option Term} {skipped : List Term}
    (h : checkOwners swmOwned caller roots = .ok skipped) :
    skipped = if caller = none then
      roots.filter fun root => (swmOwned.get root).filter (· ≠ []) ≠ none else [] := by
  induction roots generalizing skipped with
  | nil =>
    cases h
    split
    · rfl
    · rfl
  | cons first rest ih =>
    unfold checkOwners at h
    cases hfirst : (swmOwned.get first).filter (· ≠ []) with
    | none =>
      rw [hfirst] at h
      have hnot : ¬ (swmOwned.get first).filter (· ≠ []) ≠ none := not_not.mpr hfirst
      have hfilter : ((first :: rest).filter fun root =>
          (swmOwned.get root).filter (· ≠ []) ≠ none) =
            rest.filter fun root => (swmOwned.get root).filter (· ≠ []) ≠ none := by
        rw [filter_cons, if_neg (by simpa only [decide_eq_true_eq] using hnot)]
      rw [ih h, hfilter]
    | some owner =>
      rw [hfirst] at h
      cases caller with
      | some peer =>
        simp only at h
        split at h
        · cases h
        · exact ih h
      | none =>
        cases hrest : checkOwners swmOwned none rest with
        | error e =>
          simp only [hrest] at h
          cases h
        | ok skippedRest =>
          simp only [hrest] at h
          cases h
          have howned : (swmOwned.get first).filter (· ≠ []) ≠ none := by
            rw [hfirst]
            exact Option.some_ne_none owner
          rw [if_pos rfl, filter_cons, if_pos (by simpa only [decide_eq_true_eq]),
            ih hrest, if_pos rfl]

lemma plan_eq (h : planPromotion node a opts = .ok (some plan)) :
    ensureSubGraphRegistered node.store a.contextGraphId a.subGraphName = .ok () ∧
      plan.effectiveRoots ≠ [] ∧
      plan.effectiveRoots =
        (rootEntities (quadsToPromote opts)).filter (· ∉ skippedRoots node a opts) ∧
      plan.effectiveQuads = partedQuads (quadsToPromote opts) (skippedRoots node a opts) ∧
      plan.effectivePromoteQuads =
        chosenQuads (quadsToPromote opts) (skippedRoots node a opts) := by
  unfold planPromotion at h
  rcases exists_ok_of_bind h with ⟨_, hregistered, h⟩
  refine ⟨hregistered, ?_⟩
  split at h
  · cases h
  simp only [bind, Except.bind] at h
  split at h
  · cases h
  split at h
  · cases h
  cases hskipped : checkOwners (node.swmOwned a) opts.caller
      (autoPartition (quadsToPromote opts)).keys with
  | error e =>
    unfold Node.swmOwned at hskipped
    rw [hskipped] at h
    cases h
  | ok skipped =>
    have hroots : skipped = skippedRoots node a opts := by
      rw [checkOwners_eq hskipped, autoPartition_keys]
      rfl
    unfold Node.swmOwned at hskipped
    rw [hskipped, hroots] at h
    simp only at h
    split at h
    next => cases h
    next hne =>
      cases h
      rw [autoPartition_keys] at hne ⊢
      exact ⟨hne, rfl, rfl, rfl⟩

lemma isRootEntity_of_skipped {root : Term} (h : root ∈ skippedRoots node a opts) :
    IsRootEntity root := by
  unfold skippedRoots at h
  split at h
  · exact (mem_rootEntities.mp (mem_of_mem_filter h)).1
  · cases h

/-! ## The graphs -/

lemma graph_ne_sharedMemory : contextGraphAssertionUri a ≠
    sharedMemoryUri a.contextGraphId a.subGraphName := by
  intro h
  unfold contextGraphAssertionUri sharedMemoryUri at h
  rw [append_assoc, append_assoc] at h
  have hletter : some 'a' = some '_' :=
    congrArg (fun t : Term => t.tail.head?) (append_cancel_left h)
  exact absurd hletter (by decide)

lemma graph_ne_sharedMemoryMeta : contextGraphAssertionUri a ≠
    sharedMemoryMetaUri a.contextGraphId a.subGraphName := by
  intro h
  unfold contextGraphAssertionUri sharedMemoryMetaUri at h
  rw [append_assoc, append_assoc] at h
  have hletter : some 'a' = some '_' :=
    congrArg (fun t : Term => t.tail.head?) (append_cancel_left h)
  exact absurd hletter (by decide)

/-- The name of a sub-graph does not begin like those of the protocol's graphs. -/
lemma graph_ne_transitions
    (h : ensureSubGraphRegistered node.store a.contextGraphId a.subGraphName = .ok ()) :
    contextGraphAssertionUri a ≠ sharedMemoryMetaUri a.contextGraphId none := by
  intro heq
  cases hsub : a.subGraphName with
  | none =>
    rw [← hsub] at heq
    exact graph_ne_sharedMemoryMeta heq
  | some name =>
    rw [hsub] at h
    have hvalid : validateSubGraphName name = none := by
      rcases exists_ok_of_bind h with ⟨_, hvalid, _⟩
      cases hname : validateSubGraphName name with
      | none => rfl
      | some reason =>
        simp only [validateOptionalSubGraph, hname] at hvalid
        cases hvalid
    unfold validateSubGraphName at hvalid
    split_ifs at hvalid with hnil hfront
    unfold contextGraphAssertionUri sharedMemoryMetaUri scopeUri at heq
    rw [hsub, append_assoc, append_assoc, append_assoc, Option.map_none,
      Option.getD_none, append_nil] at heq
    have htail := append_cancel_left heq
    cases name with
    | nil => exact hnil rfl
    | cons c rest =>
      have hletter : some c = some '_' := congrArg (fun t : Term => t.tail.head?) htail
      exact hfront ⟨rest, by rw [Option.some.inj hletter]; rfl⟩

lemma sharedMemory_ne_records (sub : Option Term) :
    sharedMemoryUri a.contextGraphId a.subGraphName ≠ contextGraphMetaUri a.contextGraphId ∧
      sharedMemoryUri a.contextGraphId a.subGraphName ≠
        sharedMemoryMetaUri a.contextGraphId sub := by
  constructor
  · intro h
    apply (not_isMetaGraph_sharedMemory a.contextGraphId a.subGraphName).1
    rw [h]
    exact isMetaGraph_contextGraphMetaUri _
  · intro h
    have hlast := congrArg List.getLast? h
    unfold sharedMemoryUri sharedMemoryMetaUri at hlast
    rw [getLast?_append, getLast?_append] at hlast
    have hletter : some 'y' = some 'a' := hlast
    exact absurd hletter (by decide)

/-! ## What each write spares -/

/-- The write leaves the graph as it is. -/
def Spares (write : StoreWrite) (graph : Term) : Prop :=
  ∀ (store : TripleStore) (q : Quad), q.graph = graph → (q ∈ write store ↔ q ∈ store)

lemma mem_runWrites (h : ∀ write ∈ writes, Spares write q.graph) :
    q ∈ runWrites store writes ↔ q ∈ store := by
  induction writes generalizing store with
  | nil => exact Iff.rfl
  | cons write rest ih =>
    show q ∈ runWrites (write store) rest ↔ q ∈ store
    rw [ih fun w hw => h w (mem_cons_of_mem _ hw)]
    exact h write mem_cons_self store q rfl

lemma runWrites_cons (write : StoreWrite) (rest : List StoreWrite) :
    runWrites store (write :: rest) = runWrites (write store) rest := rfl

lemma runWrites_append (first rest : List StoreWrite) :
    runWrites store (first ++ rest) = runWrites (runWrites store first) rest := foldl_append

lemma spares_insert (h : ∀ q ∈ quads, q.graph ≠ graph) : Spares (·.insert quads) graph := by
  intro store q hq
  show q ∈ insert store quads ↔ q ∈ store
  rw [mem_insert, or_iff_left fun hmem => h q hmem hq]

lemma spares_delete (h : ∀ q ∈ quads, q.graph ≠ graph) : Spares (·.delete quads) graph := by
  intro store q hq
  show q ∈ delete store quads ↔ q ∈ store
  rw [mem_delete, and_iff_left]
  intro hmem
  obtain ⟨p, hp, rfl⟩ := mem_map.mp hmem
  exact h p hp hq

lemma spares_deleteByPattern {pattern : Quad} (hnil : pattern.graph ≠ [])
    (h : graph ≠ pattern.graph) : Spares (·.deleteByPattern pattern) graph := by
  intro store q hq
  show q ∈ deleteByPattern store pattern ↔ q ∈ store
  rw [mem_deleteByPattern, and_iff_left]
  exact fun hmatch => h (hq.symm.trans (hmatch.2.2.2.resolve_left hnil).symm)

/-- The writes of `recordShare` are all in the metadata of the shared memory. -/
lemma spares_shareWrites (h : graph ≠ sharedMemoryMetaUri a.contextGraphId a.subGraphName)
    (hwrite : write ∈ shareWrites node a opts roots peer) : Spares write graph := by
  unfold shareWrites at hwrite
  rcases mem_cons.mp hwrite with rfl | hwrite
  · exact spares_insert fun q hq heq => h (heq.symm.trans (shareMetadata_graph hq))
  · split at hwrite
    · cases hwrite
    · rcases mem_append.mp hwrite with hpattern | hlast
      · rcases mem_map.mp hpattern with ⟨entry, _, rfl⟩
        exact spares_deleteByPattern (sharedMemory_ne_nil _ _).2 h
      · rw [mem_singleton.mp hlast]
        exact spares_insert fun q hq heq => h (heq.symm.trans (ownershipQuads_graph hq))

lemma spares_recordWrites (hmeta : graph ≠ contextGraphMetaUri a.contextGraphId)
    (hshare : graph ≠ sharedMemoryMetaUri a.contextGraphId a.subGraphName)
    (htransitions : graph ≠ sharedMemoryMetaUri a.contextGraphId none)
    (hwrite : write ∈ recordWrites node a opts plan) : Spares write graph := by
  have hnil : contextGraphMetaUri a.contextGraphId ≠ [] := by
    intro h
    have hfirst : some 'd' = none := congrArg List.head? h
    cases hfirst
  unfold recordWrites at hwrite
  rcases mem_append.mp hwrite with hwrite | hwrite
  · simp only [mem_cons, not_mem_nil, or_false] at hwrite
    rcases hwrite with rfl | rfl | rfl | rfl | rfl
    · exact spares_deleteByPattern hnil hmeta
    · apply spares_insert
      intro q hq heq
      rw [mem_singleton.mp hq] at heq
      exact hmeta heq.symm
    · exact spares_insert fun q hq heq => htransitions (heq.symm.trans (shareTransition_graph hq))
    · apply spares_delete
      intro q hq heq
      rcases mem_cons.mp hq with rfl | hq
      · exact hmeta heq.symm
      · rw [mem_singleton.mp hq] at heq
        exact hmeta heq.symm
    · exact spares_insert fun q hq heq => hmeta (heq.symm.trans (promoted_spec _ _ _ _ hq).1)
  · split at hwrite
    · cases hwrite
    · exact spares_shareWrites hshare hwrite

/-- The writes for the owned root entities touch the shared memory and its metadata. -/
lemma spares_clearWrites (hswm : graph ≠ sharedMemoryUri a.contextGraphId a.subGraphName)
    (hshare : graph ≠ sharedMemoryMetaUri a.contextGraphId a.subGraphName)
    (hwrite : write ∈ clearWrites node a plan) : Spares write graph := by
  rcases mem_flatMap.mp hwrite with ⟨root, _, hwrite⟩
  unfold replaceWrites at hwrite
  split at hwrite
  · simp only [mem_cons, not_mem_nil, or_false] at hwrite
    rcases hwrite with rfl | rfl | rfl
    · exact spares_deleteByPattern (sharedMemory_ne_nil _ _).1 hswm
    · intro store q hq
      show q ∈ deleteBySubjectPrefix store _ _ ↔ q ∈ store
      rw [mem_deleteBySubjectPrefix, and_iff_left]
      exact fun hfront => hswm (hq.symm.trans hfront.1)
    · intro store q hq
      rw [mem_deleteMetaForRoot, and_iff_left]
      exact fun hremoved => hshare (hq.symm.trans hremoved.1)
  · cases hwrite

lemma mem_of_mem_clearWrites (hwrites : ∀ write ∈ writes, write ∈ clearWrites node a plan)
    (h : q ∈ runWrites store writes) : q ∈ store := by
  induction writes generalizing store with
  | nil => exact h
  | cons write rest ih =>
    have hrest := ih (fun w hw => hwrites w (mem_cons_of_mem _ hw)) h
    rcases mem_flatMap.mp (hwrites write mem_cons_self) with ⟨root, _, hwrite⟩
    unfold replaceWrites at hwrite
    split at hwrite
    · simp only [mem_cons, not_mem_nil, or_false] at hwrite
      rcases hwrite with rfl | rfl | rfl
      · exact (mem_deleteByPattern.mp hrest).1
      · exact (mem_deleteBySubjectPrefix.mp hrest).1
      · exact (mem_deleteMetaForRoot.mp hrest).1
    · cases hwrite

/-! ## The two graphs afterwards -/

lemma runWrites_clearWrites :
    runWrites store (clearWrites node a plan) = plan.effectiveRoots.foldl
      (replaceRoot (node.swmOwned a) (sharedMemoryUri a.contextGraphId a.subGraphName)
        (sharedMemoryMetaUri a.contextGraphId a.subGraphName)) store := by
  unfold clearWrites
  induction plan.effectiveRoots generalizing store with
  | nil => rfl
  | cons root rest ih =>
    rw [flatMap_cons, runWrites_append, ih, foldl_cons]
    congr 1
    unfold replaceWrites replaceRoot
    split
    · rfl
    · rfl

lemma runWrites_shareWrites :
    runWrites node.store (shareWrites node a opts roots peer) =
      (recordShare node a opts roots peer).store := by
  unfold shareWrites
  dsimp only
  split
  next hentries =>
    have hnil : ((roots.filter fun r => (((node.sharedMemoryOwnedEntities.get
        (ownershipKey a.contextGraphId a.subGraphName)).getD .empty).get r) = none).map
          fun r => (r, peer)) = [] := hentries
    simp only [recordShare, hnil]
    apply Finset.ext
    intro q
    rw [mem_insert]
    show _ ↔ _ ∨ q ∈ []
    rw [or_iff_left not_mem_nil]
    exact Iff.rfl
  next =>
    rw [runWrites_cons, runWrites_append]
    unfold runWrites
    rw [foldl_map]
    rfl

/-- The triples are moved between the other writes. -/
lemma runWrites_split : runWrites store (promotionWrites node a opts plan) =
    runWrites (((runWrites store (clearWrites node a plan)).insert
      (inGraph (sharedMemoryUri a.contextGraphId a.subGraphName) plan.effectiveQuads)).delete
        (plan.moved a)) (recordWrites node a opts plan) := by
  unfold promotionWrites
  rw [runWrites_append, runWrites_cons, runWrites_cons]

lemma runWrites_promotionWrites : runWrites node.store (promotionWrites node a opts plan) =
    (executePromotion node a opts plan).store := by
  have hmoved : ((runWrites node.store (clearWrites node a plan)).insert
      (inGraph (sharedMemoryUri a.contextGraphId a.subGraphName) plan.effectiveQuads)).delete
        (plan.moved a) = movedStore node a plan := by
    rw [runWrites_clearWrites]
    rfl
  rw [runWrites_split, hmoved]
  unfold recordWrites executePromotion
  dsimp only
  rw [runWrites_append]
  cases opts.caller with
  | none => rfl
  | some peer =>
    let recorded : Node := { node with store := promotedStore node a opts plan }
    have hshared : runWrites recorded.store
        (shareWrites recorded a opts plan.effectiveRoots peer) =
          (recordShare recorded a opts plan.effectiveRoots peer).store := runWrites_shareWrites
    exact hshared

/-- The graph has none of the records of the assertion. -/
structure HasNoRecord (a : AssertionId) (graph : Term) : Prop where
  ne_meta : graph ≠ contextGraphMetaUri a.contextGraphId
  ne_share : graph ≠ sharedMemoryMetaUri a.contextGraphId a.subGraphName
  ne_transitions : graph ≠ sharedMemoryMetaUri a.contextGraphId none

lemma HasNoRecord.spares (h : HasNoRecord a graph)
    (hwrite : write ∈ recordWrites node a opts plan) : Spares write graph :=
  spares_recordWrites h.ne_meta h.ne_share h.ne_transitions hwrite

lemma hasNoRecord_graph
    (h : ensureSubGraphRegistered node.store a.contextGraphId a.subGraphName = .ok ()) :
    HasNoRecord a (contextGraphAssertionUri a) :=
  ⟨graph_ne_meta, graph_ne_sharedMemoryMeta, graph_ne_transitions h⟩

lemma hasNoRecord_sharedMemory : HasNoRecord a (sharedMemoryUri a.contextGraphId a.subGraphName) :=
  ⟨(sharedMemory_ne_records none).1, (sharedMemory_ne_records _).2, (sharedMemory_ne_records _).2⟩

/-- The chosen quads leave the assertion graph, as far as the adapter finds them. -/
lemma mem_executePromotion_graph
    (h : ensureSubGraphRegistered node.store a.contextGraphId a.subGraphName = .ok ())
    (hgraph : q.graph = contextGraphAssertionUri a) :
    q ∈ (executePromotion node a opts plan).store ↔
      q ∈ node.store ∧ q ∉ (plan.moved a).map Quad.reparsed := by
  have hclear : ∀ write ∈ clearWrites node a plan, Spares write q.graph := by
    intro write hwrite
    rw [hgraph]
    exact spares_clearWrites graph_ne_sharedMemory graph_ne_sharedMemoryMeta hwrite
  have hinsert :
      q ∉ inGraph (sharedMemoryUri a.contextGraphId a.subGraphName) plan.effectiveQuads :=
    fun hmem => graph_ne_sharedMemory (hgraph.symm.trans (graph_of_mem_inGraph hmem))
  have hrecord : ∀ write ∈ recordWrites node a opts plan, Spares write q.graph := by
    intro write hwrite
    rw [hgraph]
    exact (hasNoRecord_graph h).spares hwrite
  rw [← runWrites_promotionWrites, runWrites_split, mem_runWrites hrecord, mem_delete,
    mem_insert, or_iff_left hinsert, mem_runWrites hclear]

/-- The quads of the groups come to the shared memory, where others may only go. -/
lemma mem_executePromotion_shared
    (hgraph : q.graph = sharedMemoryUri a.contextGraphId a.subGraphName) :
    (q ∈ inGraph (sharedMemoryUri a.contextGraphId a.subGraphName) plan.effectiveQuads →
      q ∈ (executePromotion node a opts plan).store) ∧
    (q ∈ (executePromotion node a opts plan).store → q ∈ node.store ∨
      q ∈ inGraph (sharedMemoryUri a.contextGraphId a.subGraphName) plan.effectiveQuads) := by
  have hdelete : q ∉ (plan.moved a).map Quad.reparsed := fun hmem =>
    graph_ne_sharedMemory ((graph_of_mem_reparsed hmem).symm.trans hgraph)
  have hiff : q ∈ (executePromotion node a opts plan).store ↔
      q ∈ runWrites node.store (clearWrites node a plan) ∨
        q ∈ inGraph (sharedMemoryUri a.contextGraphId a.subGraphName) plan.effectiveQuads := by
    have hrecord : ∀ write ∈ recordWrites node a opts plan, Spares write q.graph := by
      intro write hwrite
      rw [hgraph]
      exact hasNoRecord_sharedMemory.spares hwrite
    rw [← runWrites_promotionWrites, runWrites_split, mem_runWrites hrecord, mem_delete,
      mem_insert, and_iff_left hdelete]
  rw [hiff]
  exact ⟨.inr, Or.imp_left fun h => mem_of_mem_clearWrites (fun _ hwrite => hwrite) h⟩

/-! ## What else the shared memory may have -/

namespace SameBesidesShared

section

variable (h : SameBesidesShared a node node')

include h

lemma registered_eq : ensureSubGraphRegistered node'.store a.contextGraphId a.subGraphName =
      ensureSubGraphRegistered node.store a.contextGraphId a.subGraphName := by
  cases hsub : a.subGraphName with
  | none => rfl
  | some name =>
    have hregistered : IsRegistered node'.store a.contextGraphId name ↔
        IsRegistered node.store a.contextGraphId name := by
      have hmem : ∀ q : Quad, q.graph = contextGraphMetaUri a.contextGraphId →
          (q ∈ node'.store ↔ q ∈ node.store) := by
        intro q hq
        apply h.store
        rw [hq]
        exact (sharedMemory_ne_records none).1.symm
      unfold IsRegistered
      apply and_congr (hmem _ rfl)
      apply and_congr (hmem _ rfl)
      constructor
      · rintro ⟨q, hq, hs, hp, hg⟩
        exact ⟨q, (hmem q hg).mp hq, hs, hp, hg⟩
      · rintro ⟨q, hq, hs, hp, hg⟩
        exact ⟨q, (hmem q hg).mpr hq, hs, hp, hg⟩
    unfold ensureSubGraphRegistered
    simp only [hregistered]

lemma swmOwned_eq : node'.swmOwned a = node.swmOwned a := by
  unfold Node.swmOwned
  rw [h.owned]

lemma plan_eq : planPromotion node' a opts = planPromotion node a opts := by
  unfold planPromotion
  rw [h.registered_eq, h.owned]

lemma promotionWrites_eq :
    promotionWrites node' a opts plan = promotionWrites node a opts plan := by
  unfold promotionWrites clearWrites recordWrites shareWrites
  rw [h.swmOwned_eq]

end

lemma refl : SameBesidesShared a node node := ⟨rfl, fun _ _ => Iff.rfl⟩

lemma shared (quads : List Quad)
    (hquads : ∀ q ∈ quads, q.graph = sharedMemoryUri a.contextGraphId a.subGraphName) :
    SameBesidesShared a node { node with
      store := insert (node.store.filter fun q =>
        q.graph ≠ sharedMemoryUri a.contextGraphId a.subGraphName) quads } := by
  refine ⟨rfl, fun q hq => ?_⟩
  rw [mem_insert, Finset.mem_filter, or_iff_left fun hmem => hq (hquads q hmem), and_iff_left hq]

end SameBesidesShared

/-! ## Calls that throw -/

lemma clearWrites_cons (h : clearWrites node a plan ≠ []) : ∃ root rest,
    clearWrites node a plan = (·.deleteByPattern
      ⟨root, [], [], sharedMemoryUri a.contextGraphId a.subGraphName⟩) :: rest ∧
        root ∈ plan.effectiveRoots := by
  unfold clearWrites at h ⊢
  generalize plan.effectiveRoots = roots at h ⊢
  induction roots with
  | nil => exact absurd rfl h
  | cons first roots ih =>
    rw [flatMap_cons] at h ⊢
    by_cases howned : (node.swmOwned a).get first ≠ none
    · rw [replaceWrites, if_pos howned, cons_append]
      exact ⟨first, _, rfl, mem_cons_self⟩
    · have hnil : replaceWrites (node.swmOwned a)
          (sharedMemoryUri a.contextGraphId a.subGraphName)
          (sharedMemoryMetaUri a.contextGraphId a.subGraphName) first = [] := if_neg howned
      rw [hnil, nil_append] at h ⊢
      rcases ih h with ⟨root, rest, hrest, hroot⟩
      exact ⟨root, rest, hrest, mem_cons_of_mem _ hroot⟩

/-- A root entity that is not skipped has a quad that goes to the shared memory. -/
lemma effectiveQuads_ne_nil (hplan : planPromotion node a opts = .ok (some plan))
    (hrdf : ∀ q ∈ opts.rows, q.IsRdf) : plan.effectiveQuads ≠ [] := by
  rcases plan_eq hplan with ⟨_, hne, hroots, hquads, _⟩
  rcases exists_mem_of_ne_nil _ hne with ⟨root, hroot⟩
  rw [hroots, mem_filter, decide_eq_true_eq] at hroot
  rcases mem_rootEntities.mp hroot.1 with ⟨hentity, q, hq, rfl⟩
  have hrows : ∀ q ∈ quadsToPromote opts, q.IsRdf := fun q hq =>
    hrdf q (mem_of_mem_filter (mem_of_mem_filter hq))
  have hsubject : (placed q.subject q).subject = q.subject := by
    rw [placed_root hentity]
    exact renameTerm_of_not_blank hentity.1
  have hnone : rootEntityFromSkolemized q.subject = none := by
    apply Option.eq_none_iff_forall_ne_some.mpr
    intro root heq
    exact hentity.2 (isSkolemizedUri_iff.mpr ⟨root, heq⟩)
  rw [hquads]
  apply ne_nil_of_mem (a := placed q.subject q)
  rw [partedQuads, mem_filter, decide_eq_true_eq]
  refine ⟨(mem_allQuads hrows).mpr ⟨_, hroot.1, q, hq, groupOf_root hentity, rfl⟩, ?_⟩
  unfold NotSkipped
  rw [hsubject, hnone]
  exact ⟨hroot.2, hroot.2⟩

/-- A write that fails after another one leaves the shared memory changed, or may do so. -/
lemma not_conserves_of_fails (hplan : planPromotion node a opts = .ok (some plan))
    (hrdf : ∀ q ∈ opts.rows, q.IsRdf) {k : ℕ} (hpos : k ≠ 0) :
    ∃ node', SameBesidesShared a node node' ∧ ¬ Conserves a node'
      (.threw (runWrites node'.store ((promotionWrites node a opts plan).take k))) := by
  by_cases hclear : k ≤ (clearWrites node a plan).length
  · have hne : clearWrites node a plan ≠ [] := by
      intro hnil
      rw [hnil] at hclear
      exact hpos (Nat.le_zero.mp hclear)
    rcases clearWrites_cons hne with ⟨root, rest, hcons, hroot⟩
    let old : Quad := ⟨root, [], [], sharedMemoryUri a.contextGraphId a.subGraphName⟩
    refine ⟨_, .shared [old] fun q hq => by rw [mem_singleton.mp hq], fun h => ?_⟩
    have hmem := (h old (.inr rfl)).mpr (by
      rw [mem_insert]
      exact .inr mem_cons_self)
    unfold promotionWrites at hmem
    rw [take_append_of_le_length hclear] at hmem
    cases k with
    | zero => exact hpos rfl
    | succ k =>
      rw [hcons, take_succ_cons, runWrites_cons] at hmem
      have hsub : ∀ write ∈ rest.take k, write ∈ clearWrites node a plan := by
        intro write hwrite
        rw [hcons]
        exact mem_cons_of_mem _ (mem_of_mem_take hwrite)
      have hcleared := mem_of_mem_clearWrites hsub hmem
      have hentity : IsRootEntity root := by
        rw [(plan_eq hplan).2.2.1] at hroot
        exact (mem_rootEntities.mp (mem_of_mem_filter hroot)).1
      exact (mem_deleteByPattern.mp hcleared).2
        ⟨.inr ⟨rfl, hentity.1⟩, .inl rfl, .inl rfl, .inr rfl⟩
  · have hsplit : ∃ m, k = (clearWrites node a plan).length + (m + 1) :=
      ⟨k - (clearWrites node a plan).length - 1, by omega⟩
    rcases hsplit with ⟨m, rfl⟩
    rcases exists_mem_of_ne_nil _ (effectiveQuads_ne_nil hplan hrdf) with ⟨p, hp⟩
    let new : Quad := { p with graph := sharedMemoryUri a.contextGraphId a.subGraphName }
    refine ⟨_, .shared [] (fun q hq => absurd hq not_mem_nil), fun h => ?_⟩
    have hnew := (h new (.inr rfl)).mp (by
      unfold promotionWrites
      rw [take_length_add_append, take_succ_cons, runWrites_append, runWrites_cons,
        mem_runWrites, mem_insert]
      · exact .inr (mem_map_of_mem hp)
      · intro write hwrite
        rcases mem_cons.mp (mem_of_mem_take hwrite) with rfl | hrecord
        · apply spares_delete
          intro q hq heq
          exact graph_ne_sharedMemory ((graph_of_mem_inGraph hq).symm.trans heq)
        · exact hasNoRecord_sharedMemory.spares hrecord)
    rw [mem_insert, or_iff_left not_mem_nil, Finset.mem_filter] at hnew
    exact hnew.2 rfl

/-! ## Calls that return -/

lemma IsRenaming.congr {name : Term → Term} {quads quads' : List Quad}
    (h : IsRenaming name quads) (hterms : ∀ t, IsTermOf quads' t → IsTermOf quads t) :
    IsRenaming name quads' where
  iri := fun bn hbn => h.iri bn (hterms bn hbn)
  apart := fun t ht t' ht' heq => h.apart (hterms t ht) (hterms t' ht') heq

lemma mem_rows_of_chosen {skipped : List Term} (h : q ∈ chosenQuads (quadsToPromote opts) skipped) :
    q ∈ opts.rows ∧ ¬ IsReservedSubject q.subject := by
  have hselected := mem_of_mem_filter (mem_chosenQuads.mp h).1
  rw [mem_filter, decide_eq_true_eq] at hselected
  exact hselected

section

variable (hplan : planPromotion node a opts = .ok (some plan))
  (hanswered : (Operation.promote a opts).Answered node)
  (hstable : ∀ q ∈ chosenQuads (quadsToPromote opts) (skippedRoots node a opts), q.IsStable)

include hplan hanswered hstable

lemma mem_leftQuads : q ∈ leftQuads a node (executePromotion node a opts plan) ↔
    ∃ p ∈ chosenQuads (quadsToPromote opts) (skippedRoots node a opts),
      ({ p with graph := contextGraphAssertionUri a } : Quad) = q := by
  rcases plan_eq hplan with ⟨hregistered, _, _, _, hchosen⟩
  have hmoved : q ∈ plan.moved a ↔
      ∃ p ∈ chosenQuads (quadsToPromote opts) (skippedRoots node a opts),
        ({ p with graph := contextGraphAssertionUri a } : Quad) = q := by
    rw [Promotion.moved, hchosen, inGraph, mem_map]
  have hfound : (plan.moved a).map Quad.reparsed = plan.moved a := by
    refine map_reparsed fun q hq => ?_
    rw [Promotion.moved, hchosen, inGraph] at hq
    obtain ⟨p, hp, rfl⟩ := mem_map.mp hq
    exact (hstable p hp).inGraph _
  rw [leftQuads, Finset.mem_filter, ← hmoved]
  constructor
  · rintro ⟨hq, hgraph, hleft⟩
    rw [mem_executePromotion_graph hregistered hgraph, hfound] at hleft
    exact not_not.mp fun hnot => hleft ⟨hq, hnot⟩
  · intro hq
    have hgraph := graph_of_mem_inGraph hq
    refine ⟨?_, hgraph, ?_⟩
    · rcases hmoved.mp hq with ⟨p, hp, rfl⟩
      exact ((hanswered.2 p).mp (mem_rows_of_chosen hp).1).2
    · rw [mem_executePromotion_graph hregistered hgraph, hfound]
      exact fun h => h.2 hq

lemma card_leftQuads : (leftQuads a node (executePromotion node a opts plan)).card =
    (chosenQuads (quadsToPromote opts) (skippedRoots node a opts)).length := by
  have hnodup : (chosenQuads (quadsToPromote opts) (skippedRoots node a opts)).Nodup :=
    ((hanswered.1.filter _).filter _).filter _
  have himage : leftQuads a node (executePromotion node a opts plan) =
      ((chosenQuads (quadsToPromote opts) (skippedRoots node a opts)).map fun p =>
        ({ p with graph := contextGraphAssertionUri a } : Quad)).toFinset := by
    apply Finset.ext
    intro q
    rw [mem_leftQuads hplan hanswered hstable, mem_toFinset, mem_map]
  rw [himage, toFinset_card_of_nodup, length_map]
  apply List.Nodup.map_on _ hnodup
  intro q hq p hp heq
  have hgraph : ∀ {q}, q ∈ chosenQuads (quadsToPromote opts) (skippedRoots node a opts) →
      q.graph = [] := fun hq => ((hanswered.2 _).mp (mem_rows_of_chosen hq).1).1
  rw [Quad.mk.injEq] at heq
  show Quad.mk q.subject q.predicate q.object q.graph = _
  rw [heq.1, heq.2.1, heq.2.2.1, hgraph hq, ← hgraph hp]

lemma isTermOf_leftQuads (t : Term) :
    IsTermOf (leftQuads a node (executePromotion node a opts plan)).toList t ↔
      IsTermOf (chosenQuads (quadsToPromote opts) (skippedRoots node a opts)) t := by
  constructor
  · rintro ⟨q, hq, ht⟩
    rw [Finset.mem_toList, mem_leftQuads hplan hanswered hstable] at hq
    rcases hq with ⟨p, hp, rfl⟩
    exact ⟨p, hp, ht⟩
  · rintro ⟨p, hp, ht⟩
    refine ⟨{ p with graph := contextGraphAssertionUri a }, ?_, ht⟩
    rw [Finset.mem_toList, mem_leftQuads hplan hanswered hstable]
    exact ⟨p, hp, rfl⟩

lemma conserves_of_movesWhole (hrdf : ∀ q ∈ opts.rows, q.IsRdf)
    (h : MovesWhole (quadsToPromote opts) (skippedRoots node a opts)) :
    Conserves a node
      (.returned (executePromotion node a opts plan) plan.effectiveQuads.length) := by
  have hrows : ∀ q ∈ quadsToPromote opts, q.IsRdf := fun q hq =>
    hrdf q (mem_of_mem_filter (mem_of_mem_filter hq))
  have hrenamed := h.isRenamed hrows fun root => isRootEntity_of_skipped
  have hparted := (plan_eq hplan).2.2.2.1
  refine ⟨?_, ?_⟩
  · rw [hparted, hrenamed.length, card_leftQuads hplan hanswered hstable]
  · rcases hrenamed.renamed with ⟨name, hname, hmem⟩
    refine ⟨name, hname.congr fun t => (isTermOf_leftQuads hplan hanswered hstable t).mp, ?_⟩
    intro q hq hgraph _
    by_cases hleft : q ∈ (executePromotion node a opts plan).store
    · exact .inl hleft
    · right
      rcases (mem_leftQuads hplan hanswered hstable).mp
          (Finset.mem_filter.mpr ⟨hq, hgraph, hleft⟩) with
        ⟨p, hp, rfl⟩
      apply (mem_executePromotion_shared rfl).1
      rw [hparted]
      exact mem_map.mpr ⟨_, hmem p hp, rfl⟩

/-- Where the shared memory was empty, it has what the promotion puts there. -/
lemma movesWhole_of_conserves (hrdf : ∀ q ∈ opts.rows, q.IsRdf)
    (hempty : ∀ q ∈ node.store, q.graph ≠ sharedMemoryUri a.contextGraphId a.subGraphName)
    (h : Conserves a node
      (.returned (executePromotion node a opts plan) plan.effectiveQuads.length)) :
    MovesWhole (quadsToPromote opts) (skippedRoots node a opts) := by
  have hrows : ∀ q ∈ quadsToPromote opts, q.IsRdf := fun q hq =>
    hrdf q (mem_of_mem_filter (mem_of_mem_filter hq))
  have hgraphs : ∀ q ∈ quadsToPromote opts, q.graph = [] := fun q hq =>
    ((hanswered.2 q).mp (mem_of_mem_filter (mem_of_mem_filter hq))).1
  have hparted := (plan_eq hplan).2.2.2.1
  rcases h with ⟨hcount, name, hname, hmem⟩
  have hrenamed : IsRenamed (quadsToPromote opts) (skippedRoots node a opts) := by
    constructor
    · refine ⟨name, hname.congr fun t => (isTermOf_leftQuads hplan hanswered hstable t).mpr, ?_⟩
      intro q hq
      have hleft := (mem_leftQuads hplan hanswered hstable).mpr ⟨q, hq, rfl⟩
      rw [leftQuads, Finset.mem_filter] at hleft
      have hnew := (hmem _ hleft.1 rfl (mem_rows_of_chosen hq).2).resolve_left hleft.2.2
      have hinserted := ((mem_executePromotion_shared rfl).2 hnew).resolve_left
        fun hold => hempty _ hold rfl
      rw [hparted] at hinserted
      rcases mem_map.mp hinserted with ⟨p, hp, heq⟩
      have hgraph : p.graph = [] := by
        rcases (mem_allQuads hrows).mp (mem_of_mem_filter hp) with ⟨root, _, p', hp', _, rfl⟩
        rw [← hgraphs p' hp']
        unfold placed
        split
        · rfl
        · rfl
      have hsame : p = q.rename name := by
        rw [Quad.mk.injEq] at heq
        show Quad.mk p.subject p.predicate p.object p.graph = _
        rw [heq.1, heq.2.1, heq.2.2.1, hgraph, ← hgraphs q (mem_chosenQuads.mp hq).1]
        rfl
      exact hsame ▸ hp
    · rw [← hparted, hcount, card_leftQuads hplan hanswered hstable]
  have hnodup : (quadsToPromote opts).Nodup := (hanswered.1.filter _).filter _
  exact hrenamed.movesWhole hrows hnodup fun root => isRootEntity_of_skipped

end

/-! ## The promotion -/

lemma SameBesidesShared.answered (h : SameBesidesShared a node node')
    (hanswered : (Operation.promote a opts).Answered node) :
    (Operation.promote a opts).Answered node' := by
  refine ⟨hanswered.1, fun q => ?_⟩
  rw [h.store _ graph_ne_sharedMemory]
  exact hanswered.2 q

lemma SameBesidesShared.skippedRoots_eq (h : SameBesidesShared a node node') :
    skippedRoots node' a opts = skippedRoots node a opts := by
  unfold skippedRoots
  rw [h.swmOwned_eq]

/-- Without a failing write it is the promotion of the model without failures. -/
lemma promoteWith_none (hplan : planPromotion node a opts = .ok (some plan)) :
    promoteWith none node a opts =
      .returned (executePromotion node a opts plan) plan.effectiveQuads.length := by
  unfold promoteWith
  rw [hplan]
  rfl

lemma promoteWith_some {k : ℕ} (hplan : planPromotion node a opts = .ok (some plan)) :
    promoteWith (some k) node a opts =
      if k < (promotionWrites node a opts plan).length then
        .threw (runWrites node.store ((promotionWrites node a opts plan).take k))
      else .returned (executePromotion node a opts plan) plan.effectiveQuads.length := by
  unfold promoteWith
  rw [hplan]
  by_cases hk : k < (promotionWrites node a opts plan).length
  · have hfilter : (some k).filter (· < (promotionWrites node a opts plan).length) = some k := by
      rw [Option.filter_some, if_pos (decide_eq_true hk)]
    simp only [hfilter, if_pos hk]
  · have hfilter : (some k).filter (· < (promotionWrites node a opts plan).length) = none := by
      rw [Option.filter_some, if_neg (by rwa [decide_eq_true_eq])]
    simp only [hfilter, if_neg hk]

/-- A promotion with nothing to move leaves everything as it is. -/
lemma conserves_idle : Conserves a node (.returned node 0) := by
  have hnone : leftQuads a node node = ∅ := by
    apply Finset.filter_eq_empty_iff.mpr
    intro q hq h
    exact h.2 hq
  refine ⟨?_, id, ?_, fun q hq _ _ => .inl hq⟩
  · rw [hnone, Finset.card_empty]
  · rw [hnone, Finset.toList_empty]
    constructor
    · rintro bn ⟨q, hq, _⟩
      cases hq
    · rintro t ⟨q, hq, _⟩
      cases hq

/-- **What a promotion conserves.** For every assertion graph, owners of root entities and options,
and whichever write fails: whatever the shared memory has, a promotion that returns keeps each
triple or moves it under one renaming, and counts those that it moves, and one that throws changes
neither graph, if nothing is moved, the first write fails, or none does and the quads that are moved
are moved whole and have no escapes. Where no triple of the assertion has an escape, only if. -/
theorem promote_conserves_iff (node : Node) (a : AssertionId) (opts : PromoteOptions)
    (failing : Option ℕ) (hanswered : (Operation.promote a opts).Answered node)
    (hrdf : ∀ q ∈ opts.rows, q.IsRdf) :
    ((∀ plan, planPromotion node a opts = .ok (some plan) → MayPromote failing node a opts plan) →
      ∀ node', SameBesidesShared a node node' →
        Conserves a node' (promoteWith failing node' a opts)) ∧
    ((∀ q ∈ opts.rows, q.IsStable) →
      (∀ node', SameBesidesShared a node node' →
        Conserves a node' (promoteWith failing node' a opts)) →
      ∀ plan, planPromotion node a opts = .ok (some plan) →
        MayPromote failing node a opts plan) := by
  refine And.symm ⟨?_, ?_⟩
  · intro hrows h plan hplan
    have hstable : ∀ q ∈ chosenQuads (quadsToPromote opts) (skippedRoots node a opts),
        q.IsStable := fun q hq => hrows q (mem_rows_of_chosen hq).1
    have hreturns : (∀ node', SameBesidesShared a node node' → Conserves a node'
        (.returned (executePromotion node' a opts plan) plan.effectiveQuads.length)) →
        MovesWhole (quadsToPromote opts) (skippedRoots node a opts) := by
      intro hall
      have hsame : SameBesidesShared a node _ := .shared [] fun q hq => absurd hq not_mem_nil
      rw [← hsame.skippedRoots_eq]
      apply movesWhole_of_conserves (hsame.plan_eq.trans hplan) (hsame.answered hanswered)
        (hsame.skippedRoots_eq ▸ hstable) hrdf _ (hall _ hsame)
      intro q hq
      rw [mem_insert, or_iff_left not_mem_nil, Finset.mem_filter] at hq
      exact hq.2
    cases failing with
    | none =>
      refine .inr ⟨nofun, hreturns fun node' hsame => ?_, hstable⟩
      rw [← promoteWith_none (hsame.plan_eq.trans hplan)]
      exact h node' hsame
    | some k =>
      by_cases hk : k < (promotionWrites node a opts plan).length
      · left
        by_contra hpos
        have hne : k ≠ 0 := fun hzero => hpos (congrArg some hzero)
        rcases not_conserves_of_fails hplan hrdf hne with ⟨node', hsame, hnot⟩
        have hthrown := h node' hsame
        rw [promoteWith_some (hsame.plan_eq.trans hplan), hsame.promotionWrites_eq, if_pos hk]
          at hthrown
        exact hnot hthrown
      · refine .inr ⟨?_, hreturns fun node' hsame => ?_, hstable⟩
        · intro k' heq
          rw [← Option.some.inj heq]
          exact Nat.le_of_not_lt hk
        · have hreturned := h node' hsame
          rw [promoteWith_some (hsame.plan_eq.trans hplan), hsame.promotionWrites_eq, if_neg hk]
            at hreturned
          exact hreturned
  · intro h node' hsame
    cases hplan : planPromotion node a opts with
    | error e =>
      unfold promoteWith
      rw [hsame.plan_eq, hplan]
      exact fun q _ => Iff.rfl
    | ok found =>
      cases found with
      | none =>
        unfold promoteWith
        rw [hsame.plan_eq, hplan]
        exact conserves_idle
      | some plan =>
        have hplan' := hsame.plan_eq.trans hplan
        rcases h plan hplan with rfl | ⟨hnever, hwhole, hstable⟩
        · rw [promoteWith_some hplan', if_pos]
          · exact fun q _ => Iff.rfl
          · unfold promotionWrites
            rw [length_append, length_cons]
            omega
        · have hreturned := conserves_of_movesWhole hplan' (hsame.answered hanswered)
            (hsame.skippedRoots_eq ▸ hstable) hrdf (hsame.skippedRoots_eq ▸ hwhole)
          cases failing with
          | none =>
            rw [promoteWith_none hplan']
            exact hreturned
          | some k =>
            rw [promoteWith_some hplan', hsame.promotionWrites_eq,
              if_neg (Nat.not_lt.mpr (hnever k rfl))]
            exact hreturned

def draftOptions : PromoteOptions where
  entities := none
  publisherPeerId := none
  rows := [Draft.first]
  operationId := ['2']
  encodedLength := 0
  stamp := Draft.stamp

/-- A draft with one triple is moved whole. -/
theorem promote_conserves_draft :
    Conserves Draft.note Draft.written.node
      (promoteWith none Draft.written.node Draft.note draftOptions) := by
  apply (promote_conserves_iff Draft.written.node Draft.note draftOptions none
    Draft.promoteAll_answered (by decide)).1 _ _ SameBesidesShared.refl
  intro plan _
  refine .inr ⟨nofun, ?_, by decide +kernel⟩
  have hplain : ∀ q ∈ chosenQuads (quadsToPromote draftOptions)
      (skippedRoots Draft.written.node Draft.note draftOptions),
      ¬ IsBlankNode q.subject ∧ ¬ IsBlankNode q.object := by decide +kernel
  constructor
  · decide +kernel
  · exact fun q hq _ => (hplain q hq).2
  · exact fun q hq p hp hb => absurd hb (hplain q hq).2
  · intro q hq root _ bn hb hbn
    rcases hbn with rfl | rfl
    · exact absurd hb (hplain q hq).1
    · exact absurd hb (hplain q hq).2

namespace Orphan

def triple (subject object : Term) : Quad := ⟨subject, ['p'], object, []⟩

/-- A blank node that no entity refers to. -/
def rows : List Quad := [triple ['e'] ['o'], triple "_:x".toList ['o']]

def stored : Node := ⟨(inGraph (contextGraphAssertionUri Draft.note) rows).toFinset, .empty⟩

def options : PromoteOptions where
  entities := none
  publisherPeerId := none
  rows := rows
  operationId := ['2']
  encodedLength := 0
  stamp := Draft.stamp

end Orphan

/-- The triple of the blank node is deleted and not inserted. -/
theorem orphan_lost : (Operation.promote Draft.note Orphan.options).Answered Orphan.stored ∧
    ¬ Conserves Draft.note Orphan.stored
      (promoteWith none Orphan.stored Draft.note Orphan.options) := by
  have hanswered : (Operation.promote Draft.note Orphan.options).Answered Orphan.stored :=
    answered_of_mem (by decide) (by decide +kernel) (by decide +kernel)
  refine ⟨hanswered, fun h => ?_⟩
  have hplanned : (planPromotion Orphan.stored Draft.note Orphan.options).toOption.join.isSome := by
    decide +kernel
  match hplan : planPromotion Orphan.stored Draft.note Orphan.options with
  | .error e =>
    rw [hplan] at hplanned
    cases hplanned
  | .ok none =>
    rw [hplan] at hplanned
    cases hplanned
  | .ok (some plan) =>
    rw [promoteWith_none hplan] at h
    have hcount := h.1
    rw [card_leftQuads hplan hanswered (by decide +kernel), (plan_eq hplan).2.2.2.1] at hcount
    revert hcount
    decide +kernel

namespace Escaped

/-- A literal with a quotation mark in it. -/
def rows : List Quad := [Orphan.triple ['e'] "\x22a\\\x22b\x22".toList]

def stored : Node := ⟨(inGraph (contextGraphAssertionUri Draft.note) rows).toFinset, .empty⟩

def options : PromoteOptions := { Orphan.options with rows := rows }

end Escaped

/-- The triple comes to the shared memory and is counted, but it does not leave the assertion. -/
theorem escaped_stays : ¬ Conserves Draft.note Escaped.stored
    (promoteWith none Escaped.stored Draft.note Escaped.options) := by
  intro h
  have hcounts : (match promoteWith none Escaped.stored Draft.note Escaped.options with
      | .returned node n => decide (n = 1 ∧ (leftQuads Draft.note Escaped.stored node).card = 0)
      | .threw _ => false) = true := by decide +kernel
  cases hrun : promoteWith none Escaped.stored Draft.note Escaped.options with
  | threw store =>
    rw [hrun] at hcounts
    cases hcounts
  | returned node n =>
    rw [hrun] at h hcounts
    obtain ⟨hone, hnone⟩ := of_decide_eq_true hcounts
    have hcount := h.1
    omega

end Dkg.Assertions
