import Dkg.Lib.Interleaving
import Dkg.Publisher.UpdateAuthenticity

/-! # The order of KA updates

Verified updates of one batch are handled at once, their stretches in any order. When all are done
the node should hold, for every root entity that some update names, the triples of the greatest
update in the order of the chain, and that update's mark (`Converged`).

The order is checked long before the update is applied, and an update replaces only the roots it
names. So the node converges in the runs in which no update changes the store or the mark once a
greater one has begun to be applied, if the greatest update names all roots (`updates_converge`).
-/

namespace Dkg.Publisher

open Lib List

variable {B ι : Type} [LinearOrder B] [Zero B]

/-- Verified updates of one batch, at different places of the chain. -/
structure Updates (env : Env B) (ι : Type) where
  request : ι → KAUpdateRequest B
  contextGraphId : Term
  batchId : ℕ
  contextGraph_eq : ∀ i, (request i).contextGraphId = contextGraphId
  batch_eq : ∀ i, (request i).batchId = batchId
  merkleRoot : ι → Option B
  mark : ι → AppliedUpdate
  plan : ι → Plan B
  chain : ∀ i, checkChain env (request i) = .ok ⟨merkleRoot i, some (mark i)⟩
  payload : ∀ i, checkPayload env (request i) (merkleRoot i) = .ok (plan i)
  distinct : Function.Injective mark

namespace Updates

variable {env : Env B} (u : Updates env ι)

def dataGraph : Term := contextGraphDataUri u.contextGraphId

def key : Term := u.contextGraphId ++ [':'] ++ Nat.toDigits 10 u.batchId

/-- The updates have arrived, and none of the batch was applied before. -/
def Starts (s : Pool ι Node (Progress B)) : Prop :=
  s.shared.appliedUpdates u.key = none ∧ ∀ i, s.place i = .received

variable [DecidableEq ι]

/-- The handler at work on all updates. -/
def machine : Machine (Pool ι Node (Progress B)) ι :=
  Pool.machine (fun i => advance env (u.request i)) u.Starts

omit [DecidableEq ι]

/-- All updates are processed. -/
def Done (s : Pool ι Node (Progress B)) : Prop :=
  ∀ i, ∃ rejection, s.place i = .finished rejection

/-- The data graph and the mark are those of the update `last`. -/
def Converged (last : ι) (s : Pool ι Node (Progress B)) : Prop :=
  s.shared.appliedUpdates u.key = some (u.mark last) ∧
    ∀ i, ∀ root ∈ (u.request i).roots, ¬ IsBlankNode root → ∀ q : Quad, q.graph = u.dataGraph →
      q.Under root → (q ∈ s.shared.store ↔ q ∈ (u.request last).authenticatedQuads)

end Updates

/-- The next stretch deletes, inserts or records. -/
def Progress.Mutates : Progress B → Prop
  | .deleting .. => True
  | .inserted .. => True
  | _ => False

/-- The update has begun to be applied. -/
def Progress.Begun : Progress B → Prop
  | .deleting .. | .inserted .. | .recorded .. | .finished none => True
  | _ => False

/-- The condition on the steps: the batch is not bound to another context graph, and nothing is
changed for an update once a greater one has begun. -/
def Updates.Allowed {env : Env B} (u : Updates env ι) (s : Pool ι Node (Progress B)) (i : ι) :
    Prop :=
  (∀ known, knownContextGraph env s.shared u.batchId = some known → known = u.contextGraphId) ∧
    ((s.place i).Mutates → ∀ j, (u.mark i).Before (u.mark j) → ¬ (s.place j).Begun)

namespace Updates

variable {env : Env B} {u : Updates env ι} {s : Pool ι Node (Progress B)} {i last : ι}

lemma orderKey_eq (i : ι) : orderKey (u.request i) = u.key := by
  rw [orderKey, u.contextGraph_eq, u.batch_eq]
  rfl

lemma plan_eq (i : ι) : (u.plan i).dataGraph = u.dataGraph ∧
    (u.plan i).manifestRoots = (u.request i).roots ∧
    (u.plan i).authenticatedQuads = (u.request i).authenticatedQuads := by
  obtain ⟨_, _, _, heq⟩ := checkPayload_ok.mp (u.payload i)
  rw [heq]
  exact ⟨by rw [KAUpdateRequest.dataGraph, u.contextGraph_eq]; rfl, rfl, rfl⟩

lemma dataGraph_nonempty (u : Updates env ι) : u.dataGraph ≠ [] := by
  have hscheme : "did:dkg:context-graph:".toList ≠ [] := by decide
  exact append_ne_nil_of_left_ne_nil hscheme _

/-! ## What each place says -/

/-- What a place says about its own update. -/
def Consistent (u : Updates env ι) (i : ι) : Progress B → Prop
  | .verified answer | .ordered answer => answer = ⟨u.merkleRoot i, some (u.mark i)⟩
  | .deleting plan mark _ | .inserted plan mark => plan = u.plan i ∧ mark = some (u.mark i)
  | .recorded plan => plan = u.plan i
  | _ => True

/-- The mark of the batch is before that of `last`. -/
def MarkBefore (u : Updates env ι) (last : ι) (node : Node) : Prop :=
  ∀ mark, node.appliedUpdates u.key = some mark → mark.Before (u.mark last)

/-- The triples that `last` deletes are those that it inserts. -/
def Holds (u : Updates env ι) (last : ι) (node : Node) : Prop :=
  ∀ q, (∃ root ∈ (u.request last).roots, RemovedWith u.dataGraph root q) →
    (q ∈ node.store ↔ q ∈ (u.request last).authenticatedQuads)

/-- What the place of the update `last` says about the node. -/
def LastAt (u : Updates env ι) (last : ι) (node : Node) : Progress B → Prop
  | .received | .bound | .verified _ | .ordered _ => u.MarkBefore last node
  | .deleting _ _ todo => u.MarkBefore last node ∧ ∃ done,
      done ++ todo = (u.plan last).deletions ∧ ∀ d ∈ done, ∀ q ∈ node.store, ¬ d.Removes q
  | .inserted _ _ => u.MarkBefore last node ∧ u.Holds last node
  | .recorded _ | .finished none =>
    node.appliedUpdates u.key = some (u.mark last) ∧ u.Holds last node
  | .finished (some _) => False

/-- The invariant of the runs. -/
structure Inv (u : Updates env ι) (last : ι) (s : Pool ι Node (Progress B)) : Prop where
  consistent : ∀ i, u.Consistent i (s.place i)
  last : u.LastAt last s.shared (s.place last)

variable {node : Node} {progress : Progress B} {q : Quad}

lemma consistent_advance (h : u.Consistent i progress) :
    u.Consistent i (advance env (u.request i) node progress).2 := by
  cases progress with
  | received =>
    simp only [advance]
    split
    next => trivial
    next => trivial
  | bound =>
    simp only [advance, u.chain i]
    rfl
  | verified answer =>
    simp only [advance]
    split
    next => exact h
    next => trivial
  | ordered answer =>
    have hanswer : answer = ⟨u.merkleRoot i, some (u.mark i)⟩ := h
    subst hanswer
    simp only [advance, u.payload i]
    exact ⟨rfl, rfl⟩
  | deleting plan mark todo =>
    cases todo with
    | nil => exact h
    | cons d todo => exact h
  | inserted plan mark => exact h.1
  | recorded plan => trivial
  | finished rejection => trivial

/-- A deletion of the greatest update is about the data graph. -/
lemma removes_deletions {d : Deletion} (hd : d ∈ (u.plan i).deletions) (h : d.Removes q) :
    ∃ root ∈ (u.request i).roots, RemovedWith u.dataGraph root q := by
  obtain ⟨root, hroot, hmem⟩ := mem_flatMap.mp hd
  obtain ⟨hgraph, hroots, _⟩ := u.plan_eq i
  exact ⟨root, hroots ▸ hroot, d, hgraph ▸ hmem, h⟩

lemma removedWith_graph {root : Term} (h : RemovedWith u.dataGraph root q) :
    q.graph = u.dataGraph := ((removedWith_iff u.dataGraph_nonempty).mp h).1

/-- The metadata update leaves the data graph alone. -/
lemma mem_updateMeta {plan : Plan B} (hgraph : q.graph = u.dataGraph) :
    q ∈ (Node.updateMeta env (u.request i) node plan).store ↔ q ∈ node.store := by
  have hne : q.graph ≠ contextGraphMetaUri (u.request i).contextGraphId := by
    rw [hgraph, u.contextGraph_eq]
    exact contextGraphDataUri_ne_meta _
  simp only [Node.updateMeta, mem_updateMetaMerkleRoot hne]

/-- Nodes with the same mark and the same triples in the data graph. -/
def SameFor (u : Updates env ι) (node node' : Node) : Prop :=
  node'.appliedUpdates u.key = node.appliedUpdates u.key ∧
    ∀ q : Quad, q.graph = u.dataGraph → (q ∈ node'.store ↔ q ∈ node.store)

lemma LastAt.congr {node' : Node} (hsame : u.SameFor node node') (h : u.LastAt last node progress) :
    u.LastAt last node' progress := by
  obtain ⟨hmark, hstore⟩ := hsame
  have hbefore : u.MarkBefore last node → u.MarkBefore last node' := fun hb mark hm =>
    hb mark (hmark ▸ hm)
  have hholds : u.Holds last node → u.Holds last node' := by
    rintro hh q ⟨root, hroot, hremoved⟩
    rw [hstore q (removedWith_graph hremoved)]
    exact hh q ⟨root, hroot, hremoved⟩
  cases progress with
  | received | bound | verified answer | ordered answer => exact hbefore h
  | deleting plan mark todo =>
    obtain ⟨hb, done, hdone, hcleared⟩ := h
    refine ⟨hbefore hb, done, hdone, fun d hd q hq hremoves => ?_⟩
    have hmem : d ∈ (u.plan last).deletions := hdone ▸ mem_append_left todo hd
    obtain ⟨root, _, hremoved⟩ := removes_deletions hmem hremoves
    exact hcleared d hd q ((hstore q (removedWith_graph hremoved)).mp hq) hremoves
  | inserted plan mark => exact ⟨hbefore h.1, hholds h.2⟩
  | recorded plan => exact ⟨hmark.trans h.1, hholds h.2⟩
  | finished rejection =>
    cases rejection with
    | none => exact ⟨hmark.trans h.1, hholds h.2⟩
    | some _ => exact h

/-- A stretch that does not change anything for the data graph. -/
lemma sameFor_advance (h : ¬ progress.Mutates) :
    u.SameFor node (advance env (u.request i) node progress).1 := by
  have hsame : ∀ known, u.SameFor node (node.bind (u.request i).batchId known) :=
    fun known => ⟨by rw [Node.bind_appliedUpdates], fun q _ => by rw [Node.bind_store]⟩
  cases progress with
  | received => exact hsame _
  | bound | verified answer | ordered answer | finished rejection => exact ⟨rfl, fun _ _ => Iff.rfl⟩
  | deleting plan mark todo | inserted plan mark => exact absurd trivial h
  | recorded plan => exact ⟨rfl, fun q hq => mem_updateMeta hq⟩

/-! ## The steps -/

lemma lastAt_advance (hknown : ∀ known, knownContextGraph env s.shared u.batchId = some known →
      known = u.contextGraphId) (h : u.Inv last s) :
    u.LastAt last (advance env (u.request last) s.shared (s.place last)).1
      (advance env (u.request last) s.shared (s.place last)).2 := by
  have hconsistent := h.consistent last
  have hat := h.last
  obtain ⟨hgraph, hroots, hquads⟩ := u.plan_eq last
  cases hplace : s.place last with
  | received =>
    rw [hplace] at hat
    have hbinding : checkBinding (knownContextGraph env s.shared (u.request last).batchId)
        (u.request last) = .ok () := by
      rw [u.batch_eq]
      cases hsome : knownContextGraph env s.shared u.batchId with
      | none => rfl
      | some known =>
        rw [checkBinding, u.contextGraph_eq, if_neg (not_not.mpr (hknown known hsome))]
    have hsame : u.SameFor s.shared (advance env (u.request last) s.shared .received).1 :=
      sameFor_advance id
    simp only [advance, hbinding] at hsame ⊢
    have hnext : u.LastAt last s.shared .bound := hat
    exact hnext.congr hsame
  | bound =>
    rw [hplace] at hat
    simp only [advance, u.chain last]
    exact hat
  | verified answer =>
    rw [hplace] at hat hconsistent
    have hanswer : answer = ⟨u.merkleRoot last, some (u.mark last)⟩ := hconsistent
    have horder : checkOrder (s.shared.appliedUpdates u.key) (some (u.mark last)) = .ok () := by
      cases hmark : s.shared.appliedUpdates u.key with
      | none => rfl
      | some mark =>
        have hbefore : mark.Before (u.mark last) := hat mark hmark
        unfold AppliedUpdate.Before at hbefore
        simp only [checkOrder]
        rw [if_neg (by omega), if_neg (by omega)]
    simp only [advance, orderKey_eq, hanswer, horder]
    exact hat
  | ordered answer =>
    rw [hplace] at hat hconsistent
    have hanswer : answer = ⟨u.merkleRoot last, some (u.mark last)⟩ := hconsistent
    simp only [advance, hanswer, u.payload last]
    exact ⟨hat, [], rfl, fun d hd => by cases hd⟩
  | deleting plan mark todo =>
    rw [hplace] at hat hconsistent
    obtain ⟨hbefore, done, hdone, hcleared⟩ := hat
    cases todo with
    | cons d todo =>
      refine ⟨hbefore, done ++ [d], by rw [append_assoc]; exact hdone, ?_⟩
      intro d' hd' q hq
      have hmem : q ∈ s.shared.store ∧ ¬ d.Removes q := (Deletion.mem_run d).mp hq
      rcases mem_append.mp hd' with hold | hnew
      · exact hcleared d' hold q hmem.1
      · rw [mem_singleton.mp hnew]
        exact hmem.2
    | nil =>
      obtain ⟨rfl, _⟩ := hconsistent
      rw [append_nil] at hdone
      refine ⟨hbefore, fun q hremoved => ?_⟩
      obtain ⟨root, hroot, d, hd, hremoves⟩ := hremoved
      have hgone : q ∉ s.shared.store := by
        refine fun hq => hcleared d ?_ q hq hremoves
        rw [hdone, Plan.deletions, hroots, hgraph]
        exact mem_flatMap.mpr ⟨root, hroot, hd⟩
      simp only [advance, TripleStore.mem_insert, hquads]
      exact ⟨fun hq => hq.resolve_left hgone, .inr⟩
  | inserted plan mark =>
    rw [hplace] at hat hconsistent
    obtain ⟨_, rfl⟩ := hconsistent
    refine ⟨?_, hat.2⟩
    simp [advance, Node.record, orderKey_eq]
  | recorded plan =>
    rw [hplace] at hat
    have hsame : u.SameFor s.shared (advance env (u.request last) s.shared (.recorded plan)).1 :=
      sameFor_advance id
    have hnext : u.LastAt last s.shared (.finished none) := hat
    exact hnext.congr hsame
  | finished rejection =>
    rw [hplace] at hat
    exact hat

lemma lastAt_other (hlast : (u.mark i).Before (u.mark last)) (hallowed : u.Allowed s i)
    (h : u.Inv last s) :
    u.LastAt last (advance env (u.request i) s.shared (s.place i)).1 (s.place last) := by
  by_cases hmutates : (s.place i).Mutates
  · -- `last` has not begun, so only the mark matters
    have hbegun := hallowed.2 hmutates last hlast
    have hat := h.last
    have hmark : u.MarkBefore last s.shared →
        u.MarkBefore last (advance env (u.request i) s.shared (s.place i)).1 := by
      intro hbefore
      have hconsistent := h.consistent i
      cases hplace : s.place i with
      | deleting plan mark todo =>
        cases todo with
        | nil | cons d todo => exact hbefore
      | inserted plan mark =>
        rw [hplace] at hconsistent
        obtain ⟨_, rfl⟩ := hconsistent
        intro mark hm
        simp only [advance, Node.record, orderKey_eq, Function.update_self, Option.some.injEq] at hm
        rw [← hm]
        exact hlast
      | received | bound | verified answer | ordered answer | recorded plan | finished rejection =>
        exact absurd hmutates (by rw [hplace]; exact id)
    cases hplace : s.place last with rw [hplace] at hbegun hat
    | received | bound | verified answer | ordered answer => exact hmark hat
    | deleting plan mark todo | inserted plan mark | recorded plan => exact absurd trivial hbegun
    | finished rejection =>
      cases rejection with
      | none => exact absurd trivial hbegun
      | some _ => exact hat
  · exact h.last.congr (sameFor_advance hmutates)

variable [DecidableEq ι]

/-- **The step lemma**, for the update that comes last on the chain. -/
lemma Inv.step (hlast : ∀ i, i = last ∨ (u.mark i).Before (u.mark last))
    (hallowed : u.Allowed s i) (h : u.Inv last s) :
    u.Inv last (s.step (fun i => advance env (u.request i)) i) where
  consistent := by
    intro j
    unfold Pool.step
    by_cases hj : j = i
    · subst hj
      rw [Pool.settle_place_self]
      exact consistent_advance (h.consistent j)
    · rw [Pool.settle_place_of_ne hj]
      exact h.consistent j
  last := by
    unfold Pool.step
    by_cases hi : i = last
    · subst hi
      rw [Pool.settle_place_self]
      exact lastAt_advance hallowed.1 h
    · rw [Pool.settle_place_of_ne (Ne.symm hi)]
      exact lastAt_other ((hlast i).resolve_left hi) hallowed h

lemma Inv.reachable (hlast : ∀ i, i = last ∨ (u.mark i).Before (u.mark last))
    (h : (u.machine.restrict u.Allowed).Reachable s) : u.Inv last s := by
  refine h.invariant (fun s hs => ?_) fun s i s' hinv hstep => ?_
  · obtain ⟨hmark, hplace⟩ := hs
    refine ⟨fun i => by rw [hplace]; trivial, ?_⟩
    rw [hplace]
    intro mark hm
    rw [hmark] at hm
    cases hm
  · obtain ⟨hallowed, rfl⟩ := hstep
    exact hinv.step hlast hallowed

omit [DecidableEq ι] in
/-- A processed batch holds the triples and the mark of its greatest update. -/
lemma Inv.converged (h : u.Inv last s) (hdone : Done s)
    (hnames : ∀ i, ∀ root ∈ (u.request i).roots, root ∈ (u.request last).roots) :
    u.Converged last s := by
  obtain ⟨rejection, hplace⟩ := hdone last
  have hat := h.last
  rw [hplace] at hat
  cases rejection with
  | some _ => exact absurd hat id
  | none =>
    obtain ⟨hmark, hholds⟩ := hat
    refine ⟨hmark, fun i root hroot hblank q hgraph hunder => ?_⟩
    have hsubject : ¬ IsBlankNode q.subject := by
      rcases hunder with heq | ⟨rest, hrest⟩
      · exact heq ▸ hblank
      · exact hrest ▸ fun hb => hblank ((isBlankNode_append_iff root rest).mp hb)
    exact hholds q ⟨root, hnames i root hroot,
      (removedWith_iff u.dataGraph_nonempty).mpr ⟨hgraph, .inr ⟨hunder, hsubject⟩⟩⟩

end Updates

/-! ## Convergence -/

variable [DecidableEq ι] {env : Env B}

/-- **Two nodes that process the same updates agree.** -/
theorem updates_converge (u : Updates env ι) {last : ι}
    (hlast : ∀ i, i = last ∨ (u.mark i).Before (u.mark last))
    (hnames : ∀ i, ∀ root ∈ (u.request i).roots, root ∈ (u.request last).roots)
    {s s' : Pool ι Node (Progress B)} (h : (u.machine.restrict u.Allowed).Reachable s)
    (h' : (u.machine.restrict u.Allowed).Reachable s') (hdone : Updates.Done s)
    (hdone' : Updates.Done s') :
    u.Converged last s ∧ u.Converged last s' ∧
      ∀ i, ∀ root ∈ (u.request i).roots, ¬ IsBlankNode root → ∀ q : Quad, q.graph = u.dataGraph →
        q.Under root → (q ∈ s.shared.store ↔ q ∈ s'.shared.store) := by
  have hs := (Updates.Inv.reachable hlast h).converged hdone hnames
  have hs' := (Updates.Inv.reachable hlast h').converged hdone' hnames
  refine ⟨hs, hs', fun i root hroot hblank q hgraph hunder => ?_⟩
  rw [hs.2 i root hroot hblank q hgraph hunder, hs'.2 i root hroot hblank q hgraph hunder]

/-! ## Two updates -/

/-- A chain on which the length of the hash is the number of the block. -/
def blockEnv : Env ℕ :=
  { plainEnv with
    verifyKAUpdate := some fun txHash _ _ => ⟨true, some 1, some txHash.length, some 0⟩ }

def freshNode : Node where
  store := ∅
  knownBatchContextGraphs := fun _ => none
  appliedUpdates := fun _ => none

def blockRequest (txHash text root : String) : KAUpdateRequest ℕ where
  contextGraphId := "cg".toList
  batchId := 7
  nquads := text.toList
  manifest := [⟨root.toList, none⟩]
  publisherAddress := []
  txHash := txHash.toList
  newMerkleRoot := 0

/-- The text has one triple, which is of the root. -/
def IsSingle (text root : String) : Prop :=
  ∃ q, parseSimpleNQuads text.toList = [q] ∧ (autoPartition [q]).keys = [root.toList]

lemma blockRequest_payload (txHash : String) {text root : String} (h : IsSingle text root) :
    checkPayload blockEnv (blockRequest txHash text root) (some 1) =
      .ok ⟨contextGraphDataUri "cg".toList, [root.toList],
        (blockRequest txHash text root).authenticatedQuads, 1⟩ := by
  obtain ⟨q, hquads, hkeys⟩ := h
  have hparsed : (blockRequest txHash text root).quads = [q] := hquads
  have hroot : computedRoot blockEnv (blockRequest txHash text root) = 1 := by
    unfold computedRoot
    rw [hparsed]
    exact computeFlatKCRootV10_single _ _ _
  refine checkPayload_ok.mpr ⟨fun r hr => ?_, rfl, hroot, by rw [hroot]; rfl⟩
  rw [KAUpdateRequest.payloadRoots, hparsed, hkeys] at hr
  exact hr

/-- An update in block 0 and one in block 1. -/
def pairUpdates {text root text' root' : String} (h : IsSingle text root)
    (h' : IsSingle text' root') : Updates blockEnv Bool where
  request := fun i => bif i then blockRequest "x" text' root' else blockRequest "" text root
  contextGraphId := "cg".toList
  batchId := 7
  contextGraph_eq := fun i => by cases i <;> rfl
  batch_eq := fun i => by cases i <;> rfl
  merkleRoot := fun _ => some 1
  mark := fun i => bif i then ⟨1, 0⟩ else ⟨0, 0⟩
  plan := fun i => bif i then _ else _
  chain := fun i => by cases i <;> rfl
  payload := fun i => match i with
    | true => blockRequest_payload "x" h'
    | false => blockRequest_payload "" h
  distinct := fun i j => by cases i <;> cases j <;> decide

lemma single_a : IsSingle "<a> <p> <o> ." "a" :=
  ⟨⟨"a".toList, "p".toList, "o".toList, []⟩, by decide, by decide⟩

lemma single_a' : IsSingle "<a> <p> <n> ." "a" :=
  ⟨⟨"a".toList, "p".toList, "n".toList, []⟩, by decide, by decide⟩

lemma single_b : IsSingle "<b> <p> <o> ." "b" :=
  ⟨⟨"b".toList, "p".toList, "o".toList, []⟩, by decide, by decide⟩

/-- No batch is known. -/
def KnowsNothing (node : Node) : Prop := node.knownBatchContextGraphs = fun _ => none

lemma KnowsNothing.known {node : Node} (h : KnowsNothing node) (batchId : ℕ) :
    knownContextGraph blockEnv node batchId = none := by
  have hnone : node.knownBatchContextGraphs batchId = none := by rw [h]
  simp [knownContextGraph, hnone, lookupBatchContextGraph, blockEnv, plainEnv]

lemma KnowsNothing.advance {request : KAUpdateRequest ℕ} (node : Node) (progress : Progress ℕ)
    (h : KnowsNothing node) : KnowsNothing (advance blockEnv request node progress).1 := by
  cases progress with
  | received =>
    simp only [Publisher.advance, h.known, Node.bind]
    exact h
  | deleting plan mark todo =>
    cases todo with
    | nil => exact h
    | cons d todo => exact h
  | inserted plan mark =>
    cases mark with
    | none => exact h
    | some mark => exact h
  | recorded plan =>
    have hsame : (Publisher.advance blockEnv request node
        (.recorded plan)).1.knownBatchContextGraphs = node.knownBatchContextGraphs :=
      Node.updateMeta_known
    exact hsame.trans h
  | bound | verified answer | ordered answer | finished rejection => exact h

variable {text root text' root' : String} {h : IsSingle text root} {h' : IsSingle text' root'}

lemma pairUpdates_before {i j : Bool} : ((pairUpdates h h').mark i).Before
    ((pairUpdates h h').mark j) → i = false ∧ j = true := by
  have key : ∀ i j : Bool, (bif i then (⟨1, 0⟩ : AppliedUpdate) else ⟨0, 0⟩).Before
      (bif j then ⟨1, 0⟩ else ⟨0, 0⟩) → i = false ∧ j = true := by decide
  exact key i j

lemma pairUpdates_last (i : Bool) : i = true ∨
    ((pairUpdates h h').mark i).Before ((pairUpdates h h').mark true) := by
  cases i with
  | true => exact .inl rfl
  | false => exact .inr (.inl Nat.zero_lt_one)

lemma pairUpdates_roots (i : Bool) : ((pairUpdates h h').request i).roots =
    bif i then [root'.toList] else [root.toList] := by
  cases i <;> rfl

def pairStart : Pool Bool Node (Progress ℕ) := ⟨freshNode, fun _ => .received⟩

lemma Updates.done_settle {ι B : Type} [DecidableEq ι] {s : Pool ι Node (Progress B)} {i : ι}
    {node : Node} {rejection : Option Rejection}
    (h : ∀ j, j ≠ i → ∃ rejection, s.place j = .finished rejection) :
    Updates.Done (s.settle i (node, .finished rejection)) := by
  intro j
  by_cases hj : j = i
  · subst hj
    exact ⟨rejection, Pool.settle_place_self⟩
  · rw [Pool.settle_place_of_ne hj]
    exact h j hj

/-- What the handler, run alone, comes to. -/
def handled {B : Type} [LinearOrder B] [Zero B] (env : Env B) (node : Node)
    (request : KAUpdateRequest B) : Node × Progress B :=
  ((handle env node request).1, .finished (handle env node request).2)

/-- An update that is handled alone keeps the condition, if no greater update has begun. -/
lemma pairUpdates_handle {i : Bool} {s : Pool Bool Node (Progress ℕ)}
    (hidle : i = true ∨ s.place true = .received) (hreceived : s.place i = .received)
    (hs : ((pairUpdates h h').machine.restrict (pairUpdates h h').Allowed).Reachable s)
    (hknows : KnowsNothing s.shared) :
    ((pairUpdates h h').machine.restrict (pairUpdates h h').Allowed).Reachable
      (s.settle i (handled blockEnv s.shared ((pairUpdates h h').request i))) ∧
      KnowsNothing (handle blockEnv s.shared ((pairUpdates h h').request i)).1 := by
  have hrun : Runs blockEnv ((pairUpdates h h').request i) (s.shared, s.place i)
      (handled blockEnv s.shared ((pairUpdates h h').request i)) := by
    rw [hreceived]
    exact advance_handle
  refine Pool.reachable_of_alone (P := KnowsNothing) (fun x p hx => hx.advance x p) ?_ hs
    hknows hrun
  intro s' hs' hothers
  refine ⟨fun known hk => ?_, fun _ j hj => ?_⟩
  · rw [hs'.known] at hk
    cases hk
  · obtain ⟨rfl, rfl⟩ := pairUpdates_before hj
    rw [hothers true (by decide), hidle.resolve_left (by decide)]
    exact id

lemma pairUpdates_inTurn (h : IsSingle text root) (h' : IsSingle text' root') :
    ∃ s, ((pairUpdates h h').machine.restrict (pairUpdates h h').Allowed).Reachable s ∧
      Updates.Done s ∧ s.shared = (handle blockEnv
        (handle blockEnv freshNode ((pairUpdates h h').request false)).1
        ((pairUpdates h h').request true)).1 := by
  have hstart : ((pairUpdates h h').machine.restrict (pairUpdates h h').Allowed).Reachable
      pairStart := .init ⟨rfl, fun _ => rfl⟩
  have hfirst := pairUpdates_handle (i := false) (.inr rfl) rfl hstart rfl
  have hwaits : (pairStart.settle false (handled blockEnv freshNode
      ((pairUpdates h h').request false))).place true = .received :=
    Pool.settle_place_of_ne (by decide)
  have hsecond := pairUpdates_handle (.inl rfl) hwaits hfirst.1 hfirst.2
  refine ⟨_, hsecond.1, Updates.done_settle fun j hj => ?_, rfl⟩
  rw [Bool.eq_false_of_not_eq_true hj]
  exact ⟨_, Pool.settle_place_self⟩

/-- The first update is checked, then the second one is handled, then the first one is applied. -/
lemma interleaved {env : Env B} (u : Updates env Bool) {s : Pool Bool Node (Progress B)}
    (hs : (u.machine.restrict fun _ _ => True).Reachable s)
    (hplace : s.place = fun _ => .received) (hmark : s.shared.appliedUpdates u.key = none)
    (hknown : knownContextGraph env s.shared u.batchId = none) :
    ∃ s' node, u.machine.Reachable s' ∧ Updates.Done s' ∧ s'.shared =
      Node.apply env (u.request false) node (u.plan false) (some (u.mark false)) := by
  have alone : ∀ {i : Bool} {s : Pool Bool Node (Progress B)} {b : Node × Progress B},
      (u.machine.restrict fun _ _ => True).Reachable s →
      Runs env (u.request i) (s.shared, s.place i) b →
      (u.machine.restrict fun _ _ => True).Reachable (s.settle i b) :=
    fun hs hrun => (Pool.reachable_of_alone (P := fun _ => True) (fun _ _ _ => trivial)
      (fun _ _ _ => trivial) hs trivial hrun).1
  have hchecks : Runs env (u.request false) (s.shared, s.place false)
      (s.shared.bind (u.request false).batchId (knownContextGraph env s.shared
        (u.request false).batchId), .ordered ⟨u.merkleRoot false, some (u.mark false)⟩) := by
    rw [hplace]
    refine runs_checks ?_ (u.chain false) ?_
    · rw [u.batch_eq, hknown]
      rfl
    · rw [Updates.orderKey_eq, hmark]
      rfl
  have hchecked := alone hs hchecks
  set s₁ := s.settle false _ with hs₁
  have hother : Runs env (u.request true) (s₁.shared, s₁.place true)
      (handled env s₁.shared (u.request true)) := by
    rw [hs₁, Pool.settle_place_of_ne (by decide), hplace]
    exact advance_handle
  have hbetween := alone hchecked hother
  set s₂ := s₁.settle true _ with hs₂
  have happly : Runs env (u.request false) (s₂.shared, s₂.place false)
      (Node.apply env (u.request false) s₂.shared (u.plan false) (some (u.mark false)),
        .finished none) := by
    rw [hs₂, Pool.settle_place_of_ne (by decide), hs₁, Pool.settle_place_self]
    exact runs_apply (u.payload false)
  refine ⟨_, s₂.shared, (alone hbetween happly).of_restrict, Updates.done_settle fun j hj => ?_,
    rfl⟩
  rw [Bool.eq_true_of_not_eq_false hj, hs₂]
  exact ⟨_, Pool.settle_place_self⟩

/-- Two updates of one root, in turn. -/
theorem converged_inTurn : ∃ s,
    ((pairUpdates single_a single_a').machine.restrict
      (pairUpdates single_a single_a').Allowed).Reachable s ∧ Updates.Done s ∧
        (pairUpdates single_a single_a').Converged true s := by
  obtain ⟨s, hs, hdone, _⟩ := pairUpdates_inTurn single_a single_a'
  refine ⟨s, hs, hdone, (updates_converge (pairUpdates single_a single_a') pairUpdates_last
    (fun i root hroot => ?_) hs hs hdone hdone).1⟩
  rw [pairUpdates_roots] at hroot ⊢
  cases i with
  | true => exact hroot
  | false => exact hroot

/-- Updates of different roots, in turn: the triples of the first root stay. Updates of one root,
the second of which is applied between the check of the first and its triples: the first one
stays. -/
theorem updates_diverge :
    (∃ s, (pairUpdates single_a single_b).machine.Reachable s ∧ Updates.Done s ∧
      ¬ (pairUpdates single_a single_b).Converged true s) ∧
    ∃ s, (pairUpdates single_a single_a').machine.Reachable s ∧ Updates.Done s ∧
      ¬ (pairUpdates single_a single_a').Converged true s := by
  constructor
  · obtain ⟨s, hs, hdone, hshared⟩ := pairUpdates_inTurn single_a single_b
    refine ⟨s, hs.of_restrict, hdone, fun hconverged => ?_⟩
    let q : Quad := ⟨"a".toList, "p".toList, "o".toList, contextGraphDataUri "cg".toList⟩
    have hgraph : q.graph ≠ contextGraphMetaUri "cg".toList := contextGraphDataUri_ne_meta _
    have hfirst :
        q ∈ (handle blockEnv freshNode (blockRequest "" "<a> <p> <o> ." "a")).1.store := by
      have haccepted : Accepted blockEnv freshNode (blockRequest "" "<a> <p> <o> ." "a") :=
        ⟨⟨some 1, some ⟨0, 0⟩⟩, _, rfl, rfl, rfl, blockRequest_payload "" single_a⟩
      rw [mem_handle_of_accepted haccepted hgraph]
      exact .inr (by decide)
    have hnot : ∀ root ∈ (blockRequest "x" "<b> <p> <o> ." "b").roots,
        ¬ RemovedWith (blockRequest "x" "<b> <p> <o> ." "b").dataGraph root q := by decide
    have hsecond : q ∈ s.shared.store := by
      rw [hshared]
      by_cases haccepted : Accepted blockEnv
          (handle blockEnv freshNode (blockRequest "" "<a> <p> <o> ." "a")).1
          (blockRequest "x" "<b> <p> <o> ." "b")
      · exact (mem_handle_of_accepted haccepted hgraph).mpr (.inl ⟨hfirst, hnot⟩)
      · have hsame := handle_store_of_not_accepted haccepted
        exact hsame.symm ▸ hfirst
    have hin := (hconverged.2 false "a".toList (by decide) (by decide) q rfl
      (.inl rfl)).mp hsecond
    have hout : q ∉ (blockRequest "x" "<b> <p> <o> ." "b").authenticatedQuads := by decide
    exact hout hin
  · obtain ⟨s, node, hs, hdone, hshared⟩ := interleaved (pairUpdates single_a single_a')
      (s := pairStart) (.init ⟨rfl, fun _ => rfl⟩) rfl rfl (@KnowsNothing.known freshNode rfl 7)
    refine ⟨s, hs, hdone, fun hconverged => ?_⟩
    have hmark := hconverged.1
    rw [hshared, ← Updates.orderKey_eq false, Node.apply_appliedUpdates] at hmark
    have heq := (pairUpdates single_a single_a').distinct (Option.some.inj hmark)
    exact absurd heq (by decide)

end Dkg.Publisher
