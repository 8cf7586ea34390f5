import Dkg.Publisher.UpdateHandler

/-! # What a KA update may touch

A message is `Authentic` when it leaves every graph as it is, or changes only triples under the
roots of a payload whose Merkle root is the chain's, in the context graph the batch belongs to. The
metadata graph, where the new root is recorded, is left out.

The payload's roots are checked against the manifest, but the manifest is the sender's, and all its
roots are deleted; and the binding of the batch is enforced only when it is known. `authentic_iff`
says which accepted messages are authentic.
-/

namespace Dkg.Publisher

open Lib List

variable {B : Type}

/-- The chain's answer to a verified update is the root that the transaction gave the batch. -/
def Truthful (env : Env B) (ledger : Term → ℕ → Option B) : Prop :=
  ∃ verifyKAUpdate, env.verifyKAUpdate = some verifyKAUpdate ∧
    ∀ txHash batchId publisherAddress, (verifyKAUpdate txHash batchId publisherAddress).verified →
      ∃ root, (verifyKAUpdate txHash batchId publisherAddress).onChainMerkleRoot = some root ∧
        ledger txHash batchId = some root

variable [LinearOrder B] [Zero B]

/-- A triple that the message adds or deletes. -/
def Changed (env : Env B) (node : Node) (request : KAUpdateRequest B) (q : Quad) : Prop :=
  ¬ (q ∈ (handle env node request).1.store ↔ q ∈ node.store)

/-- Only authenticated data is touched; `home` is the context graph a batch belongs to. -/
def Authentic (env : Env B) (ledger : Term → ℕ → Option B) (home : ℕ → Option Term) (node : Node)
    (request : KAUpdateRequest B) : Prop :=
  (∀ q, q.graph ≠ contextGraphMetaUri request.contextGraphId → ¬ Changed env node request q) ∨
  (ledger request.txHash request.batchId = some (computedRoot env request) ∧
    ∀ q, q.graph ≠ contextGraphMetaUri request.contextGraphId → Changed env node request q →
      (∃ contextGraphId, home request.batchId = some contextGraphId ∧
        q.graph = contextGraphDataUri contextGraphId) ∧
      ∃ root ∈ request.payloadRoots, q.Under root)

/-- The stored triples under the roots of the manifest are those of the payload. -/
def ChangesNothing (node : Node) (request : KAUpdateRequest B) : Prop :=
  (∀ q ∈ request.authenticatedQuads, q ∈ node.store) ∧
    ∀ q ∈ node.store, ∀ root ∈ request.roots, RemovedWith request.dataGraph root q →
      q ∈ request.authenticatedQuads

/-- The batch is in the context graph of the message, and what stands under the roots of the
manifest there stands under those of the payload. -/
def DeletesItsOwn (home : ℕ → Option Term) (node : Node) (request : KAUpdateRequest B) : Prop :=
  home request.batchId = some request.contextGraphId ∧
    ∀ q ∈ node.store, ∀ root ∈ request.roots, RemovedWith request.dataGraph root q →
      ∃ payloadRoot ∈ request.payloadRoots, q.Under payloadRoot

variable {env : Env B} {ledger : Term → ℕ → Option B} {home : ℕ → Option Term} {node : Node}
  {request : KAUpdateRequest B} {q : Quad}

omit [LinearOrder B] [Zero B] in
lemma dataGraph_ne_nil : request.dataGraph ≠ [] := by
  have hscheme : "did:dkg:context-graph:".toList ≠ [] := by decide
  exact append_ne_nil_of_left_ne_nil hscheme _

lemma Accepted.root_eq (h : Accepted env node request) (htruth : Truthful env ledger) :
    ledger request.txHash request.batchId = some (computedRoot env request) := by
  obtain ⟨answer, plan, _, hchain, _, hpayload⟩ := h
  obtain ⟨verifyKAUpdate, hsome, hanswer⟩ := htruth
  unfold checkChain at hchain
  rw [hsome] at hchain
  simp only at hchain
  split at hchain
  next hverified =>
    obtain ⟨root, hroot, hledger⟩ := hanswer _ _ _ hverified
    obtain ⟨_, _, heq, _⟩ := checkPayload_ok.mp hpayload
    cases hchain
    simp only [hroot, Option.getD_some] at heq
    rw [hledger, heq]
  next => cases hchain

/-- Where an accepted message changes something. -/
lemma Accepted.changed_iff (h : Accepted env node request)
    (hgraph : q.graph ≠ contextGraphMetaUri request.contextGraphId) :
    Changed env node request q ↔
      (q ∈ request.authenticatedQuads ∧ q ∉ node.store) ∨
      (q ∈ node.store ∧ q ∉ request.authenticatedQuads ∧
        ∃ root ∈ request.roots, RemovedWith request.dataGraph root q) := by
  rw [Changed, mem_handle_of_accepted h hgraph]
  by_cases hnew : q ∈ request.authenticatedQuads
  · by_cases hold : q ∈ node.store
    · simp [hnew, hold]
    · simp [hnew, hold]
  · by_cases hold : q ∈ node.store
    · simp [hnew, hold]
    · simp [hnew, hold]

lemma Accepted.changed_graph (h : Accepted env node request)
    (hgraph : q.graph ≠ contextGraphMetaUri request.contextGraphId)
    (hchanged : Changed env node request q) : q.graph = request.dataGraph := by
  rcases (h.changed_iff hgraph).mp hchanged with ⟨hnew, _⟩ | ⟨_, _, root, _, hremoved⟩
  · exact (mem_authenticatedQuads hnew).1
  · exact ((removedWith_iff dataGraph_ne_nil).mp hremoved).1

lemma authentic_of_own (htruth : Truthful env ledger)
    (h : Accepted env node request → ChangesNothing node request ∨
      DeletesItsOwn home node request) :
    Authentic env ledger home node request := by
  by_cases haccepted : Accepted env node request
  · rcases h haccepted with ⟨hpresent, hkept⟩ | ⟨hhome, hown⟩
    · refine .inl fun q hgraph hchanged => ?_
      rcases (haccepted.changed_iff hgraph).mp hchanged with ⟨hnew, hold⟩ | ⟨hold, hnew, root, hr⟩
      · exact hold (hpresent q hnew)
      · exact hnew (hkept q hold root hr.1 hr.2)
    · refine .inr ⟨haccepted.root_eq htruth, fun q hgraph hchanged => ⟨⟨_, hhome,
        haccepted.changed_graph hgraph hchanged⟩, ?_⟩⟩
      rcases (haccepted.changed_iff hgraph).mp hchanged with ⟨hnew, _⟩ | ⟨hold, _, root, hr⟩
      · exact (mem_authenticatedQuads hnew).2
      · exact hown q hold root hr.1 hr.2
  · refine .inl fun q _ hchanged => hchanged ?_
    rw [handle_store_of_not_accepted haccepted]

lemma own_of_authentic (haccepted : Accepted env node request)
    (h : Authentic env ledger home node request) :
    ChangesNothing node request ∨ DeletesItsOwn home node request := by
  have hne : ∀ {q : Quad}, q.graph = request.dataGraph →
      q.graph ≠ contextGraphMetaUri request.contextGraphId := by
    intro q hq
    rw [hq]
    exact contextGraphDataUri_ne_meta _
  have hremovedGraph : ∀ {q : Quad} {root : Term}, RemovedWith request.dataGraph root q →
      q.graph = request.dataGraph := fun hr => ((removedWith_iff dataGraph_ne_nil).mp hr).1
  by_cases hsome : ∃ q, q.graph = request.dataGraph ∧ Changed env node request q
  · rcases h with hnone | ⟨_, honly⟩
    · obtain ⟨q, hq, hchanged⟩ := hsome
      exact absurd hchanged (hnone q (hne hq))
    · obtain ⟨q, hq, hchanged⟩ := hsome
      obtain ⟨⟨contextGraphId, hhome, hgraph⟩, _⟩ := honly q (hne hq) hchanged
      have hid : request.contextGraphId = contextGraphId := by
        rw [hq] at hgraph
        exact append_cancel_left hgraph
      refine .inr ⟨hid ▸ hhome, fun p hp root hroot hremoved => ?_⟩
      by_cases hnew : p ∈ request.authenticatedQuads
      · exact (mem_authenticatedQuads hnew).2
      · have hgraph := hne (hremovedGraph hremoved)
        exact (honly p hgraph
          ((haccepted.changed_iff hgraph).mpr (.inr ⟨hp, hnew, root, hroot, hremoved⟩))).2
  · refine .inl ⟨fun q hnew => ?_, fun q hold root hroot hremoved => ?_⟩
    · by_contra hold
      have hq := (mem_authenticatedQuads hnew).1
      exact hsome ⟨q, hq, (haccepted.changed_iff (hne hq)).mpr (.inl ⟨hnew, hold⟩)⟩
    · by_contra hnew
      have hq := hremovedGraph hremoved
      exact hsome ⟨q, hq, (haccepted.changed_iff (hne hq)).mpr
        (.inr ⟨hold, hnew, root, hroot, hremoved⟩)⟩

/-! ## Authentic messages -/

/-- **When a message touches only authenticated data.** -/
theorem authentic_iff (htruth : Truthful env ledger) :
    Authentic env ledger home node request ↔
      (Accepted env node request →
        ChangesNothing node request ∨ DeletesItsOwn home node request) :=
  ⟨fun h haccepted => own_of_authentic haccepted h, authentic_of_own htruth⟩

/-- A chain on which every transaction gives every batch the root `1`, which every triple has. -/
def plainEnv : Env ℕ where
  keccak256 := fun _ => 1
  hashPair := fun _ _ => 0
  byteLength := fun _ => 32
  toHex := fun _ => []
  chainId := "evm".toList
  verifyKAUpdate := some fun _ _ _ => ⟨true, some 1, some 5, some 0⟩
  first := fun _ => none
  first_mem := fun h => by cases h

def plainLedger : Term → ℕ → Option ℕ := fun _ _ => some 1

def plainHome : ℕ → Option Term := fun _ => some "cg".toList

/-- A node with a triple of `victim` and one of `r` in the context graph, and one of `r` in another
one. -/
def plainNode (known : Option Term) : Node where
  store := {⟨"victim".toList, "p".toList, "o".toList, contextGraphDataUri "cg".toList⟩,
    ⟨"r".toList, "p".toList, "old".toList, contextGraphDataUri "cg".toList⟩,
    ⟨"r".toList, "p".toList, "old".toList, contextGraphDataUri "other".toList⟩}
  knownBatchContextGraphs := fun _ => known
  appliedUpdates := fun _ => none

/-- An update of `r` whose manifest names `roots`. -/
def plainRequest (contextGraphId : String) (roots : List String) : KAUpdateRequest ℕ where
  contextGraphId := contextGraphId.toList
  batchId := 7
  nquads := "<r> <p> <o> .".toList
  manifest := roots.map fun root => ⟨root.toList, none⟩
  publisherAddress := []
  txHash := []
  newMerkleRoot := 0

lemma plainEnv_truthful : Truthful plainEnv plainLedger :=
  ⟨_, rfl, fun _ _ _ _ => ⟨1, rfl, rfl⟩⟩

lemma plainRequest_quads (contextGraphId : String) (roots : List String) :
    (plainRequest contextGraphId roots).quads =
      [⟨"r".toList, "p".toList, "o".toList, []⟩] := by
  show parseSimpleNQuads "<r> <p> <o> .".toList = _
  decide

lemma plainRequest_payloadRoots (contextGraphId : String) (roots : List String) :
    (plainRequest contextGraphId roots).payloadRoots = ["r".toList] := by
  unfold KAUpdateRequest.payloadRoots
  rw [plainRequest_quads]
  decide

lemma plainRequest_accepted {contextGraphId : String} {roots : List String} {known : Option Term}
    (hroots : "r" ∈ roots) (hknown : known = none ∨ known = some contextGraphId.toList) :
    Accepted plainEnv (plainNode known) (plainRequest contextGraphId roots) := by
  have hroot : computedRoot plainEnv (plainRequest contextGraphId roots) = 1 := by
    unfold computedRoot
    rw [plainRequest_quads]
    have hprivate : ((plainRequest contextGraphId roots).manifest.filterMap
        KAUpdateManifestEntry.privateMerkleRoot) = [] := by
      simp [plainRequest, filterMap_map]
    rw [hprivate]
    exact computeFlatKCRootV10_single _ _ _
  refine ⟨⟨some 1, some ⟨5, 0⟩⟩, _, ?_, rfl, rfl, checkPayload_ok.mpr ⟨?_, rfl, hroot, rfl⟩⟩
  · rcases hknown with rfl | rfl
    · rfl
    · unfold knownContextGraph plainNode
      by_cases hempty : contextGraphId.toList = []
      · simp [hempty, Option.filter, lookupBatchContextGraph, plainEnv, checkBinding]
      · simp [hempty, Option.filter, checkBinding, plainRequest]
  · rw [plainRequest_payloadRoots]
    intro root hroot
    rw [mem_singleton.mp hroot]
    exact List.mem_map.mpr ⟨⟨"r".toList, none⟩, List.mem_map_of_mem hroots, rfl⟩

/-- The update of `r` alone, with the binding known. -/
theorem authentic_plainRequest :
    Accepted plainEnv (plainNode (some "cg".toList)) (plainRequest "cg" ["r"]) ∧
      Authentic plainEnv plainLedger plainHome (plainNode (some "cg".toList))
        (plainRequest "cg" ["r"]) := by
  refine ⟨plainRequest_accepted (by decide) (.inr rfl),
    (authentic_iff plainEnv_truthful).mpr fun _ => .inr ⟨rfl, ?_⟩⟩
  intro q _ root hroot hremoved
  have hr : root = "r".toList := by simpa [KAUpdateRequest.roots, plainRequest] using hroot
  subst hr
  rcases ((removedWith_iff dataGraph_ne_nil).mp hremoved).2 with hnil | ⟨hunder, _⟩
  · exact absurd hnil (by decide)
  · exact ⟨"r".toList, by rw [plainRequest_payloadRoots]; decide, hunder⟩

/-- A root of the manifest that is not in the payload is deleted, an empty one deletes the whole
data graph, and a batch that the node does not know is applied to any context graph. -/
theorem unauthentic_requests :
    (∀ root ∈ ["victim", ""], ¬ Authentic plainEnv plainLedger plainHome
      (plainNode (some "cg".toList)) (plainRequest "cg" ["r", root])) ∧
    ¬ Authentic plainEnv plainLedger plainHome (plainNode none) (plainRequest "other" ["r"]) := by
  have hvictim : ∀ {known}, (⟨"victim".toList, "p".toList, "o".toList,
      contextGraphDataUri "cg".toList⟩ : Quad) ∈ (plainNode known).store := by
    intro known
    exact Finset.mem_insert_self _ _
  constructor
  · intro root hroot h
    have hremoved : RemovedWith (plainRequest "cg" ["r", root]).dataGraph root.toList
        ⟨"victim".toList, "p".toList, "o".toList, contextGraphDataUri "cg".toList⟩ := by
      rw [removedWith_iff dataGraph_ne_nil]
      rcases mem_pair.mp hroot with rfl | rfl
      · exact ⟨rfl, .inr ⟨.inl rfl, by decide⟩⟩
      · exact ⟨rfl, .inl (by decide)⟩
    have hmem : root.toList ∈ (plainRequest "cg" ["r", root]).roots := by
      simp [KAUpdateRequest.roots, plainRequest]
    have haccepted : Accepted plainEnv (plainNode (some "cg".toList))
        (plainRequest "cg" ["r", root]) := plainRequest_accepted (by simp) (.inr rfl)
    have hunder : ∃ payloadRoot ∈ (plainRequest "cg" ["r", root]).payloadRoots,
        Quad.Under payloadRoot ⟨"victim".toList, "p".toList, "o".toList,
          contextGraphDataUri "cg".toList⟩ := by
      rcases own_of_authentic haccepted h with ⟨_, hkept⟩ | ⟨_, hown⟩
      · exact (mem_authenticatedQuads (hkept _ hvictim _ hmem hremoved)).2
      · exact hown _ hvictim _ hmem hremoved
    rw [plainRequest_payloadRoots] at hunder
    obtain ⟨payloadRoot, hpayload, hunder⟩ := hunder
    rw [mem_singleton] at hpayload
    subst hpayload
    exact absurd hunder (by decide)
  · intro h
    have hold : (⟨"r".toList, "p".toList, "old".toList, contextGraphDataUri "other".toList⟩ : Quad)
        ∈
        (plainNode none).store := by simp [plainNode]
    have hremoved : RemovedWith (plainRequest "other" ["r"]).dataGraph "r".toList
        ⟨"r".toList, "p".toList, "old".toList, contextGraphDataUri "other".toList⟩ :=
      (removedWith_iff dataGraph_ne_nil).mpr ⟨rfl, .inr ⟨.inl rfl, by decide⟩⟩
    have hmem : "r".toList ∈ (plainRequest "other" ["r"]).roots := by
      simp [KAUpdateRequest.roots, plainRequest]
    have haccepted : Accepted plainEnv (plainNode none) (plainRequest "other" ["r"]) :=
      plainRequest_accepted (by simp) (.inl rfl)
    rcases own_of_authentic haccepted h with ⟨_, hkept⟩ | ⟨hhome, _⟩
    · have hnew := hkept _ hold _ hmem hremoved
      rw [KAUpdateRequest.authenticatedQuads, plainRequest_quads] at hnew
      exact absurd hnew (by decide)
    · exact absurd hhome (by decide)

end Dkg.Publisher
