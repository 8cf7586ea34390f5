import Dkg.Assertions.Records
import Dkg.Lib.Failure

/-! # The states of assertions over runs

A `History` has the node and the assertions that were created so far. In every run in which
assertions are promoted and discarded only from a state that allows it (`InOrder`), each record has
one state and its layer, states change along `validTransitions`, and an operation leaves the records
of other assertions as they are (`records_in_order`). The operations do not look at the state: they
delete the value that they expect, whether it is there or not (`discarded_after_promotion`).
-/

namespace Dkg.Assertions

open Lib Machine.Reachable SharedMemory Publisher List

structure History where
  node : Node
  created : List AssertionId

namespace Operation

def target : Operation → AssertionId
  | .create a _ | .write a _ | .promote a _ | .discard a _ => a

/-- The node after the operation, if it returns. -/
def run (node : Node) : Operation → Except AssertionError Node
  | .create a stamp => assertionCreate node a stamp
  | .write a input => assertionWrite node a input
  | .promote a opts => (assertionPromote node a opts).map Prod.fst
  | .discard a stamp => assertionDiscard node a stamp

def createdAfter (created : List AssertionId) : Operation → List AssertionId
  | .create a _ => a :: created
  | _ => created

end Operation

/-- Nothing was created at first; what is stored then is arbitrary. -/
def records : Machine History Operation where
  init h := h.created = []
  step h op h' := op.Answered h.node ∧ op.run h.node = .ok h'.node ∧
    h'.created = op.createdAfter h.created

/-! ## Operations in order -/

def HasState (store : TripleStore) (a : AssertionId) (state : AssertionState) : Prop :=
  assertionStateQuad (assertionLifecycleUri a) state.text (contextGraphMetaUri a.contextGraphId) ∈
    store
  deriving Decidable

/-- The assertion graph is not the metadata graph of a created assertion. -/
def KeepsRecords (created : List AssertionId) (a : AssertionId) : Prop :=
  ∀ b ∈ created, contextGraphAssertionUri a ≠ contextGraphMetaUri b.contextGraphId
  deriving Decidable

/-- Some root entity moves: the caller may own it, or nobody does. -/
def HasRootToMove (node : Node) (a : AssertionId) (opts : PromoteOptions) : Prop :=
  ∃ root ∈ (autoPartition (quadsToPromote opts)).keys, opts.caller ≠ none ∨
    (((node.sharedMemoryOwnedEntities.get (ownershipKey a.contextGraphId a.subGraphName)).getD
      .empty).get root).filter (· ≠ []) = none
  deriving Decidable

/-- An assertion is created apart from the others and when its graph has no layer of a promotion; it
is promoted from `created` or `promoted`, and discarded from `created` or `discarded`. -/
def InOrder (h : History) : Operation → Prop
  | .create a _ => (∀ b ∈ h.created, b ≠ a → Apart a b) ∧ HasNoOtherLayer h.node.store a
  | .write a _ => KeepsRecords h.created a
  | .promote a opts => HasRootToMove h.node a opts → a ∈ h.created ∧
      (HasState h.node.store a .created ∨ HasState h.node.store a .promoted) ∧
        KeepsRecords h.created a
  | .discard a _ => a ∈ h.created ∧
      (HasState h.node.store a .created ∨ HasState h.node.store a .discarded) ∧
        KeepsRecords h.created a

instance decidableInOrder (h : History) : (op : Operation) → Decidable (InOrder h op)
  | .create _ _ => instDecidableAnd
  | .write _ _ => inferInstanceAs (Decidable (KeepsRecords ..))
  | .promote _ _ => inferInstanceAs (Decidable (_ → _))
  | .discard _ _ => instDecidableAnd

/-! ## A promotion has a root entity to move -/

variable {node : Node} {a b : AssertionId} {opts : PromoteOptions} {plan : Promotion}

/-- Without a caller, every owned root entity is skipped. -/
lemma mem_skipped {swmOwned : KeyedList Term Term} {roots skipped : List Term} {root : Term}
    (h : checkOwners swmOwned none roots = .ok skipped) (hroot : root ∈ roots)
    (howned : (swmOwned.get root).filter (· ≠ []) ≠ none) : root ∈ skipped := by
  induction roots generalizing skipped with
  | nil => cases hroot
  | cons first rest ih =>
    unfold checkOwners at h
    cases hfirst : (swmOwned.get first).filter (· ≠ []) with
    | none =>
      rw [hfirst] at h
      rcases mem_cons.mp hroot with rfl | hrest
      · exact absurd hfirst howned
      · exact ih h hrest
    | some owner =>
      rw [hfirst] at h
      cases hskipped : checkOwners swmOwned none rest with
      | error e =>
        simp only [hskipped] at h
        cases h
      | ok skippedRest =>
        simp only [hskipped] at h
        cases h
        rcases mem_cons.mp hroot with rfl | hrest
        · exact mem_cons_self
        · exact mem_cons_of_mem _ (ih hskipped hrest)

lemma hasRootToMove_of_plan (h : planPromotion node a opts = .ok (some plan)) :
    HasRootToMove node a opts := by
  unfold planPromotion at h
  obtain ⟨_, -, h⟩ := exists_ok_of_bind h
  split at h
  · cases h
  simp only [bind, Except.bind] at h
  split at h
  · cases h
  split at h
  · cases h
  unfold HasRootToMove
  generalize (node.sharedMemoryOwnedEntities.get
    (ownershipKey a.contextGraphId a.subGraphName)).getD .empty = swmOwned at h ⊢
  cases hskipped : checkOwners swmOwned opts.caller (autoPartition (quadsToPromote opts)).keys with
  | error e =>
    rw [hskipped] at h
    cases h
  | ok skippedRoots =>
    rw [hskipped] at h
    simp only at h
    split at h
    next => cases h
    next hroots =>
      obtain ⟨root, hroot⟩ := exists_mem_of_ne_nil _ hroots
      rw [mem_filter, decide_eq_true_eq] at hroot
      refine ⟨root, hroot.1, ?_⟩
      cases hcaller : opts.caller with
      | some peer => exact .inl (Option.some_ne_none peer)
      | none =>
        rw [hcaller] at hskipped
        exact .inr (not_not.mp fun howned => hroot.2 (mem_skipped hskipped hroot.1 howned))

/-! ## One operation -/

/-- The states change along a transition, or the assertion is created again. -/
def StateKept (store store' : TripleStore) (op : Operation) (a : AssertionId) : Prop :=
  (∀ o, mq (assertionLifecycleUri a) (dkg "state") o (contextGraphMetaUri a.contextGraphId) ∈
    store' ↔ mq (assertionLifecycleUri a) (dkg "state") o (contextGraphMetaUri a.contextGraphId) ∈
      store) ∨
  (∃ x y, IsRecorded store a x ∧ IsRecorded store' a y ∧ y ∈ validTransitions x) ∨
  ((∃ stamp, op = .create a stamp) ∧ IsRecorded store' a .created)

/-- What an operation does to the records. -/
structure StepKept (h : History) (op : Operation) (h' : History) : Prop where
  others : ∀ b ∈ h.created, b ≠ op.target → ∀ q, IsRecordQuad b q →
    (q ∈ h'.node.store ↔ q ∈ h.node.store)
  states : ∀ a, a ∈ h'.created ∨ a = op.target → StateKept h.node.store h'.node.store op a

/-- Created assertions have records, apart from one another. -/
structure Kept (h : History) : Prop where
  recorded : ∀ a ∈ h.created, ∃ state, IsRecorded h.node.store a state
  apart : ∀ a ∈ h.created, ∀ b ∈ h.created, a ≠ b → Apart a b

lemma AssertionState.lit_injective {x y : AssertionState}
    (h : lit x.text.toList = lit y.text.toList) : x = y := by
  cases x <;> cases y
  all_goals
    first
      | rfl
      | exact absurd h (by decide)

lemma IsRecorded.state_eq {store : TripleStore} {x y : AssertionState} (hx : IsRecorded store a x)
    (hy : HasState store a y) : x = y :=
  AssertionState.lit_injective ((hx.recordState _).mp hy).symm

lemma Apart.symm (h : Apart a b) : Apart b a := fun heq =>
  have hparts := h heq.symm
  ⟨hparts.1.symm, hparts.2.2.1, hparts.2.1, hparts.2.2.2.symm⟩

variable {h h' : History} {op : Operation}

/-- An operation that leaves the quads of the records alone changes no state. -/
lemma stateKept_of_same {store store' : TripleStore}
    (hsame : ∀ q, IsRecordQuad a q → (q ∈ store' ↔ q ∈ store)) : StateKept store store' op a :=
  .inl fun _ => hsame _ (.inl (isStale_record _ _))

lemma Kept.target_state (hk : Kept h) (ha : a ∈ h.created) {x y : AssertionState}
    (hstate : HasState h.node.store a x ∨ HasState h.node.store a y) :
    ∃ state, IsRecorded h.node.store a state ∧ (state = x ∨ state = y) := by
  obtain ⟨state, hrecorded⟩ := hk.recorded a ha
  exact ⟨state, hrecorded, hstate.imp hrecorded.state_eq hrecorded.state_eq⟩

/-- The quads of the records of the other assertions are the same. -/
def Others (h : History) (op : Operation) (h' : History) : Prop :=
  ∀ b ∈ h.created, b ≠ op.target → ∀ q, IsRecordQuad b q → (q ∈ h'.node.store ↔ q ∈ h.node.store)

/-- It is enough to look at the target. -/
lemma Others.stepKept (ho : Others h op h')
    (hcreated : ∀ b ∈ h'.created, b ∈ h.created ∨ b = op.target)
    (htarget : StateKept h.node.store h'.node.store op op.target) : StepKept h op h' where
  others := ho
  states := by
    intro b hb
    by_cases hne : b = op.target
    · rw [hne]
      exact htarget
    · have hold : b ∈ h.created := (hb.elim (hcreated b) .inr).resolve_right hne
      exact stateKept_of_same (ho b hold hne)

lemma Others.kept (ho : Others h op h') (hk : Kept h)
    (hcreated : ∀ b ∈ h'.created, b ∈ h.created ∨ b = op.target)
    (htarget : op.target ∈ h'.created → ∃ state, IsRecorded h'.node.store op.target state)
    (hapart : op.target ∈ h'.created → ∀ b ∈ h.created, b ≠ op.target → Apart op.target b) :
    Kept h' where
  recorded := by
    intro b hb
    by_cases hne : b = op.target
    · rw [hne] at hb ⊢
      exact htarget hb
    · have hold : b ∈ h.created := (hcreated b hb).resolve_right hne
      cases hk.recorded b hold with
      | intro state hrecorded => exact ⟨state, hrecorded.congr (ho b hold hne)⟩
  apart := by
    intro b hb c hc hne
    have hold : ∀ d ∈ h'.created, d ≠ op.target → d ∈ h.created := fun d hd hdne =>
      (hcreated d hd).resolve_right hdne
    by_cases hbt : b = op.target
    · subst hbt
      exact hapart hb c (hold c hc hne.symm) hne.symm
    · by_cases hct : c = op.target
      · subst hct
        exact (hapart hc b (hold b hb hbt) hbt).symm
      · exact hk.apart b (hold b hb hbt) c (hold c hc hct) hne

lemma KeepsRecords.graph_ne (hkeeps : KeepsRecords h.created a) (hb : b ∈ h.created) {q : Quad}
    (hq : IsRecordQuad b q) : q.graph ≠ contextGraphAssertionUri a := fun heq =>
  hkeeps b hb (heq.symm.trans hq.graph)

lemma IsRecordQuad.isMetaGraph {q : Quad} (hq : IsRecordQuad b q) : IsMetaGraph q.graph := by
  rw [hq.graph]
  exact isMetaGraph_contextGraphMetaUri _

lemma Kept.create (hk : Kept h) {stamp : Stamp} (hop : InOrder h (.create a stamp))
    (hrun : assertionCreate h.node a stamp = .ok h'.node) (hcreated : h'.created = a :: h.created) :
    Kept h' ∧ StepKept h (.create a stamp) h' := by
  have hothers : Others h (.create a stamp) h' := by
    intro b hb hne q hq
    exact assertionCreate_frame hrun ((hop.1 b hb hne).not_recordQuad hq)
  have hmem : ∀ b ∈ h'.created, b ∈ h.created ∨ b = a := by
    intro b hb
    rw [hcreated] at hb
    exact (mem_cons.mp hb).symm
  have hnew := assertionCreate_isRecorded hrun hop.2
  exact ⟨hothers.kept hk hmem (fun _ => ⟨_, hnew⟩) (fun _ => hop.1),
    hothers.stepKept hmem (.inr (.inr ⟨⟨stamp, rfl⟩, hnew⟩))⟩

lemma Kept.write (hk : Kept h) {input : List Quad} (hop : KeepsRecords h.created a)
    (hrun : assertionWrite h.node a input = .ok h'.node) (hcreated : h'.created = h.created) :
    Kept h' ∧ StepKept h (.write a input) h' := by
  have hsame : ∀ q, IsRecordQuad a q → (q ∈ h'.node.store ↔ q ∈ h.node.store) := fun q hq =>
    mem_assertionWrite hrun (hq.graph ▸ graph_ne_meta.symm)
  have hothers : Others h (.write a input) h' := fun b hb _ q hq =>
    mem_assertionWrite hrun (hop.graph_ne hb hq)
  have hmem : ∀ b ∈ h'.created, b ∈ h.created ∨ b = a := fun b hb => .inl (hcreated ▸ hb)
  refine ⟨hothers.kept hk hmem (fun ha => ?_) (fun ha b hb hne => ?_),
    hothers.stepKept hmem (stateKept_of_same hsame)⟩
  · cases hk.recorded a (hcreated ▸ ha) with
    | intro state hrecorded => exact ⟨state, hrecorded.congr hsame⟩
  · exact hk.apart a (hcreated ▸ ha) b hb hne.symm

/-- The record of a created assertion is replaced. -/
lemma Others.replaced {op : Operation} {state next : AssertionState} (ho : Others h op h')
    (hk : Kept h) (ha : op.target ∈ h.created) (hrecorded : IsRecorded h.node.store op.target state)
    (hnew : IsRecorded h'.node.store op.target next) (hcases : state = .created ∨ state = next)
    (hnext : next ∈ validTransitions .created) (hcreated : h'.created = h.created) :
    Kept h' ∧ StepKept h op h' := by
  have hmem : ∀ b ∈ h'.created, b ∈ h.created ∨ b = op.target := fun b hb => .inl (hcreated ▸ hb)
  refine ⟨ho.kept hk hmem (fun _ => ⟨_, hnew⟩) (fun _ b hb hne => hk.apart _ ha b hb hne.symm),
    ho.stepKept hmem ?_⟩
  rcases hcases with rfl | rfl
  · exact .inr (.inl ⟨_, _, hrecorded, hnew, hnext⟩)
  · exact .inl fun o => (hnew.recordState o).trans (hrecorded.recordState o).symm

/-- **Promoting** an assertion, when something moves. -/
lemma Kept.promote (hk : Kept h) (ha : a ∈ h.created)
    (hstate : HasState h.node.store a .created ∨ HasState h.node.store a .promoted)
    (hkeeps : KeepsRecords h.created a) (hrun : h'.node = executePromotion h.node a opts plan)
    (hcreated : h'.created = h.created) : Kept h' ∧ StepKept h (.promote a opts) h' := by
  obtain ⟨state, hrecorded, hcases⟩ := hk.target_state ha hstate
  have hnew : IsRecorded h'.node.store a .promoted := by
    rw [hrun]
    exact executePromotion_isRecorded hrecorded hcases
  have hothers : Others h (.promote a opts) h' := by
    intro b hb hne q hq
    rw [hrun]
    exact executePromotion_frame hq.isMetaGraph (hkeeps.graph_ne hb hq)
      ((hk.apart a ha b hb (Ne.symm hne)).not_recordQuad hq)
  exact hothers.replaced hk ha hrecorded hnew hcases (by decide) hcreated

lemma Kept.discard (hk : Kept h) {stamp : Stamp} (hop : InOrder h (.discard a stamp))
    (hrun : assertionDiscard h.node a stamp = .ok h'.node) (hcreated : h'.created = h.created) :
    Kept h' ∧ StepKept h (.discard a stamp) h' := by
  obtain ⟨ha, hstate, hkeeps⟩ := hop
  obtain ⟨state, hrecorded, hcases⟩ := hk.target_state ha hstate
  have hnew := assertionDiscard_isRecorded hrun hrecorded hcases
  have hothers : Others h (.discard a stamp) h' := by
    intro b hb hne q hq
    exact assertionDiscard_frame hrun (hkeeps.graph_ne hb hq)
      ((hk.apart a ha b hb (Ne.symm hne)).not_recordQuad hq)
  exact hothers.replaced hk ha hrecorded hnew hcases (by decide) hcreated

/-! ## Runs -/

/-- A promotion moves what it planned, or changes nothing. -/
lemma promote_cases {node' : Node} (hrun : (Operation.promote a opts).run node = .ok node') :
    node' = node ∨ ∃ plan, planPromotion node a opts = .ok (some plan) ∧
      node' = executePromotion node a opts plan := by
  have hpromote : (assertionPromote node a opts).map Prod.fst = .ok node' := hrun
  unfold assertionPromote at hpromote
  cases hplan : planPromotion node a opts with
  | error e =>
    rw [hplan] at hpromote
    cases hpromote
  | ok plan =>
    rw [hplan] at hpromote
    cases plan with
    | none =>
      cases hpromote
      exact .inl rfl
    | some plan =>
      cases hpromote
      exact .inr ⟨plan, rfl, rfl⟩

/-- **The step lemma.** Every operation in its order keeps the records. -/
lemma Kept.step (hk : Kept h) (hstep : (records.restrict InOrder).step h op h') :
    Kept h' ∧ StepKept h op h' := by
  obtain ⟨hop, -, hrun, hcreated⟩ := hstep
  cases op with
  | create a stamp => exact hk.create hop hrun hcreated
  | write a input => exact hk.write hop hrun hcreated
  | promote a opts =>
    have hcreated : h'.created = h.created := hcreated
    rcases promote_cases hrun with hsame | ⟨plan, hplan, hnode⟩
    · have hothers : Others h (.promote a opts) h' := fun _ _ _ _ _ => by rw [hsame]
      have hmem : ∀ b ∈ h'.created, b ∈ h.created ∨ b = a := fun b hb => .inl (hcreated ▸ hb)
      refine ⟨hothers.kept hk hmem (fun ha => ?_) (fun ha b hb hne => ?_),
        hothers.stepKept hmem (stateKept_of_same fun _ _ => by rw [hsame])⟩
      · rw [hsame]
        exact hk.recorded a (hcreated ▸ ha)
      · exact hk.apart a (hcreated ▸ ha) b hb hne.symm
    · obtain ⟨ha, hstate, hkeeps⟩ := hop (hasRootToMove_of_plan hplan)
      exact hk.promote ha hstate hkeeps hnode hcreated
  | discard a stamp => exact hk.discard hop hrun hcreated

lemma kept (hr : (records.restrict InOrder).Reachable h) : Kept h := by
  refine hr.invariant (fun h hinit => ?_) (fun _ _ _ hk hstep => (hk.step hstep).1)
  have hnil : h.created = [] := hinit
  exact ⟨by simp [hnil], by simp [hnil]⟩

/-- In a run whose operations come in order, every created assertion has one state on record, with
its layer, and every operation keeps to its own record and to the transitions. -/
theorem records_in_order (hr : (records.restrict InOrder).Reachable h) :
    (∀ a ∈ h.created, ∃ state, IsRecorded h.node.store a state) ∧
    ∀ op h', (records.restrict InOrder).step h op h' → StepKept h op h' :=
  ⟨(kept hr).recorded, fun _ _ hstep => ((kept hr).step hstep).2⟩

namespace Draft

def discardNote : Operation := .discard note stamp

def createdHistory : History := ⟨(exec empty (.create note stamp)).node, [note]⟩

def writtenHistory : History := ⟨written.node, [note]⟩

def promotedHistory : History := ⟨promoted.node, [note]⟩

/-- The note is discarded after it was promoted. -/
def discardedHistory : History := ⟨(exec promoted discardNote).node, [note]⟩

lemma written_in_order : (records.restrict InOrder).Reachable writtenHistory := by
  have hempty := init (M := records.restrict InOrder)
    (show records.init ⟨empty.node, []⟩ from rfl)
  have hcreate : (records.restrict InOrder).Reachable createdHistory :=
    step (c := Operation.create note stamp) hempty
      ⟨by decide +kernel, trivial, rfl, rfl⟩
  exact step (c := Operation.write note [first]) hcreate
    ⟨by decide +kernel, trivial, rfl, rfl⟩

lemma promoted_in_order : (records.restrict InOrder).Reachable promotedHistory :=
  step (c := promoteAll) written_in_order
    ⟨by decide +kernel, promoteAll_answered, rfl, rfl⟩

end Draft

/-- A note that is written and promoted has one state on record. -/
theorem promoted_in_order_recorded :
    ∃ state, IsRecorded Draft.promotedHistory.node.store Draft.note state :=
  (records_in_order Draft.promoted_in_order).1 Draft.note (by decide)

/-- A note that is discarded after its promotion is on record as promoted and as discarded. -/
theorem discarded_after_promotion : records.Reachable Draft.discardedHistory ∧
    HasState Draft.discardedHistory.node.store Draft.note .promoted ∧
    HasState Draft.discardedHistory.node.store Draft.note .discarded ∧
    ¬ ∃ state, IsRecorded Draft.discardedHistory.node.store Draft.note state := by
  have hpromoted : HasState Draft.discardedHistory.node.store Draft.note .promoted := by
    decide +kernel
  have hdiscarded : HasState Draft.discardedHistory.node.store Draft.note .discarded := by
    decide +kernel
  refine ⟨?_, hpromoted, hdiscarded, ?_⟩
  · exact step (c := Draft.discardNote) Draft.promoted_in_order.of_restrict
      ⟨trivial, rfl, rfl⟩
  · rintro ⟨state, hrecorded⟩
    have heq := (hrecorded.state_eq hpromoted).symm.trans (hrecorded.state_eq hdiscarded)
    exact absurd heq (by decide)

end Dkg.Assertions
