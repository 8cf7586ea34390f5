import Dkg.Publisher.AutoPartition
import Dkg.Publisher.NQuads
import Dkg.Publisher.Store

/-! # KA updates by gossip

`UpdateHandler.handle` in stretches between its awaits. `Progress` says which stretch is next, and
`advance` runs it: the binding of the batch to a context graph, the answer of the chain, the order
of updates, the payload, then one deletion after the other, the insertion, the order mark and the
root in the metadata. `handle` runs a message alone, as the source does between two others
(`advance_handle`).

The digests are of an arbitrary type `B`, as in the Merkle tree; the chain and the store's choice
among the answers to a `LIMIT 1` query come from outside (`Env`).
-/

namespace Dkg.Publisher

open Lib List

structure KAUpdateManifestEntry (B : Type) where
  rootEntity : Term
  privateMerkleRoot : Option B

/-- `KAUpdateRequest`, with the payload as text. -/
structure KAUpdateRequest (B : Type) where
  contextGraphId : Term
  batchId : ℕ
  nquads : List Char
  manifest : List (KAUpdateManifestEntry B)
  (publisherAddress txHash : Term)
  newMerkleRoot : B

structure KAUpdateVerification (B : Type) where
  verified : Bool
  onChainMerkleRoot : Option B
  (blockNumber txIndex : Option ℕ)

/-- What the handler gets from elsewhere. -/
structure Env (B : Type) where
  keccak256 : Term → B
  hashPair : B → B → B
  byteLength : B → ℕ
  toHex : B → Term
  chainId : Term
  verifyKAUpdate : Option (Term → ℕ → Term → KAUpdateVerification B)
  /-- The answer to a `LIMIT 1` query that these quads match. -/
  first : Finset Quad → Option Quad
  first_mem : ∀ {quads q}, first quads = some q → q ∈ quads

structure AppliedUpdate where
  (blockNumber txIndex : ℕ)
  deriving DecidableEq

/-- The handler's maps and the store. -/
structure Node where
  store : TripleStore
  knownBatchContextGraphs : ℕ → Option Term
  appliedUpdates : Term → Option AppliedUpdate

open Node

/-- Why a message is dropped. -/
inductive Rejection
  | boundElsewhere (contextGraphId : Term)
  | noVerification
  | notVerified
  | skipped
  | unauthenticatedRoot (payloadRoot : Term)
  | rootLength
  | rootMismatch
  deriving DecidableEq

variable {B : Type}

/-! ## The context graph of a batch -/

def dkgBatchId : Term := "http://dkg.io/".toList ++ "ontology/batchId".toList

def dkgMerkleRoot : Term := "http://dkg.io/".toList ++ "ontology/merkleRoot".toList

/-- `"n"^^xsd:integer`. -/
def integerLiteral (n : ℕ) : Term :=
  '\x22' :: (Nat.toDigits 10 n ++
    ("\x22^^<http://www.w3.org/".toList ++ "2001/XMLSchema#integer>".toList))

/-- The context graph whose metadata graph it is. -/
def contextGraphOfMeta (graphUri : Term) : Option Term :=
  let metaSuffix := "/_meta".toList
  let front := "did:dkg:context-graph:".toList
  if metaSuffix <:+ graphUri then
    let base := graphUri.take (graphUri.length - metaSuffix.length)
    if front <+: base then some (base.drop front.length) else none
  else none

/-- The quads of named graphs that say which batch something is in. -/
def batchQuads (store : TripleStore) (batchId : ℕ) : Finset Quad :=
  store.filter fun q => q.predicate = dkgBatchId ∧ q.object = integerLiteral batchId ∧ q.graph ≠ []

def lookupBatchContextGraph (env : Env B) (store : TripleStore) (batchId : ℕ) : Option Term :=
  (env.first (batchQuads store batchId)).bind fun q => contextGraphOfMeta q.graph

/-- The binding from the map, else from the metadata; an empty name counts as none. -/
def knownContextGraph (env : Env B) (node : Node) (batchId : ℕ) : Option Term :=
  match (node.knownBatchContextGraphs batchId).filter (· ≠ []) with
  | some known => some known
  | none => (lookupBatchContextGraph env node.store batchId).filter (· ≠ [])

/-- What is found in the metadata is kept in the map. -/
def Node.bind (node : Node) (batchId : ℕ) : Option Term → Node
  | some known => { node with
      knownBatchContextGraphs := Function.update node.knownBatchContextGraphs batchId (some known) }
  | none => node

def checkBinding (known : Option Term) (request : KAUpdateRequest B) : Except Rejection Unit :=
  match known with
  | some known =>
    if known ≠ request.contextGraphId then .error (.boundElsewhere known) else .ok ()
  | none => .ok ()

/-! ## The chain -/

/-- The root and the place of the transaction, as the chain has them. -/
structure Verified (B : Type) where
  merkleRoot : Option B
  mark : Option AppliedUpdate

def checkChain (env : Env B) (request : KAUpdateRequest B) : Except Rejection (Verified B) :=
  match env.verifyKAUpdate with
  | none =>
    if env.chainId ≠ "none".toList then .error .noVerification else .ok ⟨none, none⟩
  | some verifyKAUpdate =>
    let verification := verifyKAUpdate request.txHash request.batchId request.publisherAddress
    if verification.verified then
      .ok ⟨verification.onChainMerkleRoot, verification.blockNumber.map fun blockNumber =>
        ⟨blockNumber, verification.txIndex.getD 0⟩⟩
    else .error .notVerified

/-- `${contextGraphId}:${batchId}`. -/
def orderKey (request : KAUpdateRequest B) : Term :=
  request.contextGraphId ++ [':'] ++ Nat.toDigits 10 request.batchId

/-- The order of the chain. -/
def AppliedUpdate.Before (a b : AppliedUpdate) : Prop :=
  a.blockNumber < b.blockNumber ∨ (a.blockNumber = b.blockNumber ∧ a.txIndex < b.txIndex)
  deriving Decidable

/-- An update that does not come after the last one is skipped. -/
def checkOrder (last mark : Option AppliedUpdate) : Except Rejection Unit :=
  match mark, last with
  | some mark, some last =>
    if mark.blockNumber < last.blockNumber then .error .skipped
    else if mark.blockNumber = last.blockNumber ∧ mark.txIndex ≤ last.txIndex then .error .skipped
    else .ok ()
  | _, _ => .ok ()

/-! ## The payload -/

/-- What the update does to the data graph. -/
structure Plan (B : Type) where
  dataGraph : Term
  manifestRoots : List Term
  authenticatedQuads : List Quad
  computedRoot : B

/-- The members of a set of strings, in the order in which they were added. -/
def distinct (terms : List Term) : List Term :=
  terms.foldl (fun seen t => if t ∈ seen then seen else seen ++ [t]) []

def KAUpdateRequest.roots (request : KAUpdateRequest B) : List Term :=
  request.manifest.map KAUpdateManifestEntry.rootEntity

def KAUpdateRequest.quads (request : KAUpdateRequest B) : List Quad :=
  parseSimpleNQuads request.nquads

def KAUpdateRequest.payloadRoots (request : KAUpdateRequest B) : List Term :=
  (autoPartition request.quads).keys

def KAUpdateRequest.dataGraph (request : KAUpdateRequest B) : Term :=
  contextGraphDataUri request.contextGraphId

/-- The quads of the manifest's roots, in the data graph. -/
def KAUpdateRequest.authenticatedQuads (request : KAUpdateRequest B) : List Quad :=
  (distinct request.roots).flatMap fun root =>
    (((autoPartition request.quads).get root).getD []).map fun q =>
      { q with graph := request.dataGraph }

variable [LinearOrder B] [Zero B]

def computedRoot (env : Env B) (request : KAUpdateRequest B) : B :=
  computeFlatKCRootV10 env.keccak256 env.hashPair request.quads
    ((request.manifest.filterMap KAUpdateManifestEntry.privateMerkleRoot).filter
      fun root => 0 < env.byteLength root)

def checkPayload (env : Env B) (request : KAUpdateRequest B) (merkleRoot : Option B) :
    Except Rejection (Plan B) :=
  match request.payloadRoots.find? fun root => root ∉ request.roots with
  | some root => .error (.unauthenticatedRoot root)
  | none =>
    let referenceRoot := merkleRoot.getD request.newMerkleRoot
    if env.byteLength referenceRoot ≠ 32 then .error .rootLength
    else if computedRoot env request ≠ referenceRoot then .error .rootMismatch
    else .ok {
      dataGraph := request.dataGraph
      manifestRoots := request.roots
      authenticatedQuads := request.authenticatedQuads
      computedRoot := computedRoot env request }

/-! ## The metadata -/

/-- The characters that are not put into a SPARQL query. -/
def IsSafeForSparql (s : Term) : Prop :=
  ∀ c ∈ s, ¬ isWhiteSpace c ∧ c ∉ "<>\x22\x7b\x7d|^\x60\\".toList
  deriving Decidable

/-- `updateMetaMerkleRoot`; an error is only logged. -/
def updateMetaMerkleRoot (env : Env B) (store : TripleStore) (contextGraphId : Term) (batchId : ℕ)
    (newMerkleRoot : B) : TripleStore :=
  let metaGraph := contextGraphMetaUri contextGraphId
  if IsSafeForSparql contextGraphId then
    match env.first ((batchQuads store batchId).filter fun q => q.graph = metaGraph) with
    | some found =>
      if found.subject ≠ [] ∧ IsSafeForSparql found.subject then
        TripleStore.insert
          (store.filter fun q => ¬ (q.graph = metaGraph ∧ q.subject = found.subject ∧
            q.predicate = dkgMerkleRoot))
          [⟨found.subject, dkgMerkleRoot, '\x22' :: (env.toHex newMerkleRoot ++ ['\x22']),
            metaGraph⟩]
      else store
    | none => store
  else store

/-! ## The handler -/

/-- The deletions of the roots of the manifest. -/
def Plan.deletions (plan : Plan B) : List Deletion :=
  plan.manifestRoots.flatMap (deleteEntityTriples plan.dataGraph)

/-- Where a message stands. -/
inductive Progress (B : Type)
  | received
  | bound
  | verified (answer : Verified B)
  | ordered (answer : Verified B)
  | deleting (plan : Plan B) (mark : Option AppliedUpdate) (todo : List Deletion)
  | inserted (plan : Plan B) (mark : Option AppliedUpdate)
  | recorded (plan : Plan B)
  | finished (rejection : Option Rejection)

def Node.record (node : Node) (key : Term) : Option AppliedUpdate → Node
  | some mark => { node with appliedUpdates := Function.update node.appliedUpdates key (some mark) }
  | none => node

def Node.updateMeta (env : Env B) (request : KAUpdateRequest B) (node : Node) (plan : Plan B) :
    Node where
  store := updateMetaMerkleRoot env node.store request.contextGraphId request.batchId
    plan.computedRoot
  knownBatchContextGraphs := node.knownBatchContextGraphs
  appliedUpdates := node.appliedUpdates

/-- The next stretch of a message. -/
def advance (env : Env B) (request : KAUpdateRequest B) (node : Node) :
    Progress B → Node × Progress B
  | .received =>
    let known := knownContextGraph env node request.batchId
    (node.bind request.batchId known,
      match checkBinding known request with
      | .ok () => .bound
      | .error rejection => .finished (some rejection))
  | .bound =>
    (node, match checkChain env request with
      | .ok answer => .verified answer
      | .error rejection => .finished (some rejection))
  | .verified answer =>
    (node, match checkOrder (node.appliedUpdates (orderKey request)) answer.mark with
      | .ok () => .ordered answer
      | .error rejection => .finished (some rejection))
  | .ordered answer =>
    (node, match checkPayload env request answer.merkleRoot with
      | .ok plan => .deleting plan answer.mark plan.deletions
      | .error rejection => .finished (some rejection))
  | .deleting plan mark (d :: todo) =>
    ({ node with store := d.run node.store }, .deleting plan mark todo)
  | .deleting plan mark [] =>
    ({ node with store := node.store.insert plan.authenticatedQuads }, .inserted plan mark)
  | .inserted plan mark => (node.record (orderKey request) mark, .recorded plan)
  | .recorded plan => (updateMeta env request node plan, .finished none)
  | .finished rejection => (node, .finished rejection)

/-- The part of the handler that changes the data graph. -/
def Node.apply (env : Env B) (request : KAUpdateRequest B) (node : Node) (plan : Plan B)
    (mark : Option AppliedUpdate) : Node :=
  let store := (plan.deletions.foldl Deletion.run node.store).insert plan.authenticatedQuads
  updateMeta env request (record { node with store := store } (orderKey request) mark) plan

/-- `handle`, with nothing else running. -/
def handle (env : Env B) (node : Node) (request : KAUpdateRequest B) : Node × Option Rejection :=
  let known := knownContextGraph env node request.batchId
  let node := node.bind request.batchId known
  match checkBinding known request with
  | .error rejection => (node, some rejection)
  | .ok () =>
    match checkChain env request with
    | .error rejection => (node, some rejection)
    | .ok answer =>
      match checkOrder (node.appliedUpdates (orderKey request)) answer.mark with
      | .error rejection => (node, some rejection)
      | .ok () =>
        match checkPayload env request answer.merkleRoot with
        | .error rejection => (node, some rejection)
        | .ok plan => (node.apply env request plan answer.mark, none)

variable {env : Env B} {request : KAUpdateRequest B} {node : Node} {plan : Plan B}
  {mark : Option AppliedUpdate} {answer : Verified B}

/-! ## What the checks say -/

lemma checkPayload_ok {merkleRoot : Option B} :
    checkPayload env request merkleRoot = .ok plan ↔
      (∀ root ∈ request.payloadRoots, root ∈ request.roots) ∧
        env.byteLength (merkleRoot.getD request.newMerkleRoot) = 32 ∧
        computedRoot env request = merkleRoot.getD request.newMerkleRoot ∧
        plan = ⟨request.dataGraph, request.roots, request.authenticatedQuads,
          computedRoot env request⟩ := by
  unfold checkPayload
  cases hfind : request.payloadRoots.find? fun root => root ∉ request.roots with
  | some root =>
    have hroot : root ∉ request.roots := by simpa using find?_some hfind
    have hmem := mem_of_find?_eq_some hfind
    simp only [reduceCtorEq, false_iff]
    exact fun h => hroot (h.1 root hmem)
  | none =>
    have hall : ∀ root ∈ request.payloadRoots, root ∈ request.roots := by
      simpa [find?_eq_none] using hfind
    by_cases hlength : env.byteLength (merkleRoot.getD request.newMerkleRoot) = 32
    · by_cases hroot : computedRoot env request = merkleRoot.getD request.newMerkleRoot
      · simp only [hlength, ne_eq, not_true_eq_false, if_false, hroot, Except.ok.injEq,
          true_and, and_iff_right hall]
        exact eq_comm
      · simp [hlength, hroot]
    · simp [hlength]

omit [LinearOrder B] [Zero B] in
lemma mem_authenticatedQuads {q : Quad} (h : q ∈ request.authenticatedQuads) :
    q.graph = request.dataGraph ∧ ∃ root ∈ request.payloadRoots, q.Under root := by
  obtain ⟨root, _, hq⟩ := mem_flatMap.mp h
  obtain ⟨p, hp, rfl⟩ := mem_map.mp hq
  refine ⟨rfl, root, ?_⟩
  cases hget : (autoPartition request.quads).get root with
  | none => simp [hget] at hp
  | some group =>
    rw [hget, Option.getD_some] at hp
    have hentry := KeyedList.mem_of_get hget
    have hunder : p.Under root := group_subjects hentry hp
    exact ⟨mem_map_of_mem hentry, hunder⟩

/-! ## The whole message -/

/-- All checks of the handler pass. -/
def Accepted (env : Env B) (node : Node) (request : KAUpdateRequest B) : Prop :=
  ∃ answer plan, checkBinding (knownContextGraph env node request.batchId) request = .ok () ∧
    checkChain env request = .ok answer ∧
    checkOrder (node.appliedUpdates (orderKey request)) answer.mark = .ok () ∧
    checkPayload env request answer.merkleRoot = .ok plan

@[simp]
lemma Node.bind_store (batchId : ℕ) (known : Option Term) :
    (node.bind batchId known).store = node.store := by
  cases known <;> rfl

@[simp]
lemma Node.bind_appliedUpdates (batchId : ℕ) (known : Option Term) :
    (node.bind batchId known).appliedUpdates = node.appliedUpdates := by
  cases known <;> rfl

@[simp]
lemma Node.record_store (key : Term) : (node.record key mark).store = node.store := by
  cases mark <;> rfl

omit [LinearOrder B] [Zero B] in
@[simp]
lemma Node.updateMeta_known : (updateMeta env request node plan).knownBatchContextGraphs =
    node.knownBatchContextGraphs := by
  rw [updateMeta]

lemma handle_of_accepted (hbinding : checkBinding (knownContextGraph env node request.batchId)
      request = .ok ()) (hchain : checkChain env request = .ok answer)
    (horder : checkOrder (node.appliedUpdates (orderKey request)) answer.mark = .ok ())
    (hpayload : checkPayload env request answer.merkleRoot = .ok plan) :
    handle env node request = (apply env request (node.bind request.batchId
      (knownContextGraph env node request.batchId)) plan answer.mark, none) := by
  simp [handle, hbinding, hchain, horder, hpayload]

/-- A message that is not accepted changes nothing in the store. -/
lemma handle_store_of_not_accepted (h : ¬ Accepted env node request) :
    (handle env node request).1.store = node.store := by
  unfold handle
  cases hbinding : checkBinding (knownContextGraph env node request.batchId) request with
  | error rejection => simp [hbinding]
  | ok =>
    cases hchain : checkChain env request with
    | error rejection => simp [hbinding]
    | ok answer =>
      cases horder : checkOrder (node.appliedUpdates (orderKey request)) answer.mark with
      | error rejection => simp [hbinding, horder]
      | ok =>
        cases hpayload : checkPayload env request answer.merkleRoot with
        | error rejection => simp [hbinding, horder, hpayload]
        | ok plan => exact absurd ⟨answer, plan, hbinding, hchain, horder, hpayload⟩ h

section

omit [LinearOrder B] [Zero B]

/-- The metadata update stays in the metadata graph. -/
lemma mem_updateMetaMerkleRoot {store : TripleStore} {contextGraphId : Term} {batchId : ℕ}
    {newMerkleRoot : B} {q : Quad} (hgraph : q.graph ≠ contextGraphMetaUri contextGraphId) :
    q ∈ updateMetaMerkleRoot env store contextGraphId batchId newMerkleRoot ↔ q ∈ store := by
  simp only [updateMetaMerkleRoot]
  split
  next =>
    split
    next found _ =>
      split
      next =>
        rw [TripleStore.mem_insert, Finset.mem_filter, mem_singleton]
        constructor
        · rintro (h | rfl)
          · exact h.1
          · exact absurd rfl hgraph
        · exact fun h => .inl ⟨h, fun hmeta => hgraph hmeta.1⟩
      next => rfl
    next => rfl
  next => rfl

lemma mem_deletions {q : Quad} : (∀ d ∈ plan.deletions, ¬ d.Removes q) ↔
    ∀ root ∈ plan.manifestRoots, ¬ RemovedWith plan.dataGraph root q := by
  simp only [Plan.deletions, mem_flatMap, RemovedWith]
  constructor
  · rintro h root hroot ⟨d, hd, hremoves⟩
    exact h d ⟨root, hroot, hd⟩ hremoves
  · rintro h d ⟨root, hroot, hd⟩ hremoves
    exact h root hroot ⟨d, hd, hremoves⟩

/-- What an update leaves in the graphs other than the metadata graph. -/
lemma mem_apply {q : Quad} (hgraph : q.graph ≠ contextGraphMetaUri request.contextGraphId) :
    q ∈ (apply env request node plan mark).store ↔
      (q ∈ node.store ∧ ∀ root ∈ plan.manifestRoots, ¬ RemovedWith plan.dataGraph root q) ∨
        q ∈ plan.authenticatedQuads := by
  simp only [apply, updateMeta, record_store, mem_updateMetaMerkleRoot hgraph,
    TripleStore.mem_insert, mem_runDeletions, mem_deletions]

lemma Node.apply_appliedUpdates {mark : AppliedUpdate} :
    (apply env request node plan (some mark)).appliedUpdates (orderKey request) = some mark :=
  Function.update_self ..

end

lemma mem_handle_of_accepted (h : Accepted env node request) {q : Quad}
    (hgraph : q.graph ≠ contextGraphMetaUri request.contextGraphId) :
    q ∈ (handle env node request).1.store ↔
      (q ∈ node.store ∧ ∀ root ∈ request.roots, ¬ RemovedWith request.dataGraph root q) ∨
        q ∈ request.authenticatedQuads := by
  obtain ⟨answer, plan, hbinding, hchain, horder, hpayload⟩ := h
  obtain ⟨_, _, _, rfl⟩ := checkPayload_ok.mp hpayload
  rw [handle_of_accepted hbinding hchain horder hpayload]
  simp only [mem_apply hgraph, bind_store]

/-- The stretches of a message with nothing between them. -/
def Runs (env : Env B) (request : KAUpdateRequest B) :
    Node × Progress B → Node × Progress B → Prop :=
  Relation.ReflTransGen fun s s' => s' = advance env request s.1 s.2

lemma Runs.next {progress : Progress B} {s : Node × Progress B}
    (h : Runs env request (advance env request node progress) s) :
    Runs env request (node, progress) s := .head rfl h

lemma runs_deletions (todo : List Deletion) (node : Node) :
    Runs env request (node, .deleting plan mark todo)
      ({ node with store := todo.foldl Deletion.run node.store }, .deleting plan mark []) := by
  induction todo generalizing node with
  | nil => exact .refl
  | cons d todo ih => exact Runs.next (ih { node with store := d.run node.store })

/-- The stretches before the payload is read. -/
lemma runs_checks (hbinding : checkBinding (knownContextGraph env node request.batchId)
      request = .ok ()) (hchain : checkChain env request = .ok answer)
    (horder : checkOrder (node.appliedUpdates (orderKey request)) answer.mark = .ok ()) :
    Runs env request (node, .received)
      (node.bind request.batchId (knownContextGraph env node request.batchId), .ordered
        answer) := by
  refine Runs.next ?_
  simp only [advance, hbinding]
  refine Runs.next ?_
  simp only [advance, hchain]
  refine Runs.next ?_
  simp only [advance, bind_appliedUpdates, horder]
  exact .refl

/-- The stretches from the payload on. -/
lemma runs_apply (hpayload : checkPayload env request answer.merkleRoot = .ok plan) :
    Runs env request (node, .ordered answer)
      (apply env request node plan answer.mark, .finished none) := by
  refine Runs.next ?_
  simp only [advance, hpayload]
  -- the deletions, then the insertion, the mark and the metadata
  exact (runs_deletions plan.deletions node).trans (Runs.next (Runs.next (Runs.next .refl)))

/-- Run alone, the stretches of a message are `handle`. -/
lemma advance_handle : Runs env request (node, .received)
    ((handle env node request).1, .finished (handle env node request).2) := by
  cases hbinding : checkBinding (knownContextGraph env node request.batchId) request with
  | error rejection =>
    refine Runs.next ?_
    simp only [advance, handle, hbinding]
    exact .refl
  | ok =>
    cases hchain : checkChain env request with
    | error rejection =>
      refine Runs.next ?_
      simp only [advance, handle, hbinding, hchain]
      refine Runs.next ?_
      simp only [advance, hchain]
      exact .refl
    | ok answer =>
      cases horder : checkOrder (node.appliedUpdates (orderKey request)) answer.mark with
      | error rejection =>
        refine Runs.next ?_
        simp only [advance, handle, hbinding, hchain, bind_appliedUpdates, horder]
        refine Runs.next ?_
        simp only [advance, hchain]
        refine Runs.next ?_
        simp only [advance, bind_appliedUpdates, horder]
        exact .refl
      | ok =>
        have hchecks := runs_checks hbinding hchain horder
        cases hpayload : checkPayload env request answer.merkleRoot with
        | error rejection =>
          refine hchecks.trans (Runs.next ?_)
          simp only [advance, handle, hbinding, hchain, bind_appliedUpdates, horder, hpayload]
          exact .refl
        | ok plan =>
          rw [handle_of_accepted hbinding hchain horder hpayload]
          exact hchecks.trans (runs_apply hpayload)

end Dkg.Publisher
