import Dkg.Gossip.PublishHandler

/-! # Policy bindings that pass the filter

`filterInvalidOntologyPolicyBindings` decides about a binding by the first quad that it has under
each predicate, and about a policy by the first reference of each rejected binding. What a quad
after the first one says is never looked at (`NothingUnseen`).

A subject is kept or dropped with all of its quads, so a kept binding has in the result what it has
in the message.
-/

namespace Dkg.Gossip

open Lib List Publisher SharedMemory Assertions

variable {B : Type} (world : World B) (quads : List Quad)

/-- The objects of a subject under a predicate of the ontology, in their order. -/
def bindingObjects (quads : List Quad) (subject : Term) (name : String) : List Term :=
  (quads.filter fun q => q.subject = subject ∧ q.predicate = ontology name).map Quad.object

/-- The owner of the context graph that the URI names, unless it is unknown. -/
def graphOwner (paranetUri : Term) : Option Term :=
  ((boundParanet paranetUri).bind world.getContextGraphOwner).filter (· ≠ [])

/-- Who has approved or revoked a binding. -/
def deciders (quads : List Quad) (subject : Term) : List Term :=
  bindingObjects quads subject "approvedBy" ++ bindingObjects quads subject "revokedBy"

/-- Something that only a decision gives to a binding. -/
def IsDecided (quads : List Quad) (subject : Term) : Prop :=
  ∃ name ∈ ["activePolicy", "approvedAt", "revokedAt", "policyBindingStatus"],
    bindingObjects quads subject name ≠ []

/-! ## What is dropped -/

/-- The binding is rejected by its first quads. -/
def Rejected (subject : Term) : Prop :=
  subject ∈ bindingSubjects quads ∧ isInvalidBinding world quads subject = true

/-- The first policy of a rejected binding. -/
def RidesAlong (subject : Term) : Prop :=
  ∃ bindingUri, Rejected world quads bindingUri ∧
    firstObject quads bindingUri (ontology "activePolicy") = some subject

def Kept (subject : Term) : Prop :=
  ¬ Rejected world quads subject ∧ ¬ RidesAlong world quads subject

/-- The bindings of a message that are not in the result any more. -/
def droppedBindings (quads result : List Quad) : List Term :=
  (bindingSubjects quads).filter fun s => s ∉ result.map Quad.subject

/-- The quads about neither dropped bindings nor the policies that these refer to. -/
def unrelated (quads result : List Quad) (qs : List Quad) : List Quad :=
  qs.filter fun q => q.subject ∉ droppedBindings quads result ∧
    q.subject ∉ (droppedBindings quads result).flatMap fun s =>
      bindingObjects quads s "activePolicy"

/-- Only decisions of the owners of context graphs are in the result. -/
structure OnlyOwnersDecide (result : List Quad) : Prop where
  known : ∀ s ∈ bindingSubjects result, ∀ g ∈ bindingObjects result s "appliesToParanet",
    (graphOwner world g).isSome
  decidedByOwner : ∀ s ∈ bindingSubjects result, ∀ who ∈ deciders result s,
    ∀ g ∈ bindingObjects result s "appliesToParanet", graphOwner world g = some who
  decided : ∀ s ∈ bindingSubjects result, IsDecided result s → deciders result s ≠ []
  policies : ∀ s ∈ droppedBindings quads result, ∀ policy ∈ bindingObjects quads s "activePolicy",
    (∀ t ∈ bindingSubjects result, policy ∉ bindingObjects result t "activePolicy") →
    policy ∉ result.map Quad.subject
  unrelatedKept : unrelated quads result result = unrelated quads result quads

/-- What the filter does not look at: later context graphs, later and empty deciders, decisions
without a time, and policies after the first one of a rejected binding. -/
structure NothingUnseen : Prop where
  laterGraphs : ∀ s ∈ bindingSubjects quads, Kept world quads s →
    ∀ g ∈ (bindingObjects quads s "appliesToParanet").tail, (graphOwner world g).isSome ∧
      (deciders quads s ≠ [] →
        graphOwner world g =
          ((bindingObjects quads s "appliesToParanet").head?).bind (graphOwner world))
  laterDeciders : ∀ s ∈ bindingSubjects quads, Kept world quads s →
    ∀ who ∈ (bindingObjects quads s "approvedBy").tail ++
      (bindingObjects quads s "revokedBy").tail,
      ((bindingObjects quads s "appliesToParanet").head?).bind (graphOwner world) = some who
  emptyDeciders : ∀ s ∈ bindingSubjects quads, Kept world quads s →
    (bindingObjects quads s "approvedBy").head? ≠ some [] ∧
      (bindingObjects quads s "revokedBy").head? ≠ some []
  undecided : ∀ s ∈ bindingSubjects quads, Kept world quads s → IsDecided quads s →
    deciders quads s ≠ []
  laterPolicies : ∀ s ∈ bindingSubjects quads, ¬ Kept world quads s →
    ∀ policy ∈ bindingObjects quads s "activePolicy",
      (∀ t ∈ bindingSubjects quads, Kept world quads t →
        policy ∉ bindingObjects quads t "activePolicy") →
      policy ∈ quads.map Quad.subject → ¬ Kept world quads policy

variable {world} {quads} {s p : Term} {q : Quad}

/-! ## The result -/

lemma mem_filterBindings :
    q ∈ filterInvalidOntologyPolicyBindings world quads ↔
      q ∈ quads ∧ Kept world quads q.subject := by
  have hrejected : ∀ {t}, t ∈ (bindingSubjects quads).filter (isInvalidBinding world quads) ↔
      Rejected world quads t := mem_filter
  simp only [filterInvalidOntologyPolicyBindings, mem_filter, decide_eq_true_iff, Kept,
    mem_filterMap, RidesAlong, hrejected, Rejected]

lemma filter_filterBindings (f : Quad → Bool)
    (h : ∀ q ∈ quads.filter f, Kept world quads q.subject) :
    (filterInvalidOntologyPolicyBindings world quads).filter f = quads.filter f := by
  rw [filterInvalidOntologyPolicyBindings, filter_filter]
  apply filter_congr
  intro q hq
  by_cases hf : f q = true
  · have hq' := mem_filterBindings.mpr ⟨hq, h q (mem_filter.mpr ⟨hq, hf⟩)⟩
    rw [filterInvalidOntologyPolicyBindings, mem_filter] at hq'
    rw [hq'.2, Bool.and_true]
  · rw [Bool.eq_false_iff.mpr hf, Bool.false_and]

/-- A subject has all of its objects, or none. -/
lemma bindingObjects_filterBindings (h : Kept world quads s) (name : String) :
    bindingObjects (filterInvalidOntologyPolicyBindings world quads) s name =
      bindingObjects quads s name := by
  refine congrArg _ (filter_filterBindings _ fun q hq => ?_)
  have hs := of_decide_eq_true (mem_filter.mp hq).2
  exact hs.1 ▸ h

lemma mem_bindingSubjects_filterBindings :
    s ∈ bindingSubjects (filterInvalidOntologyPolicyBindings world quads) ↔
      s ∈ bindingSubjects quads ∧ Kept world quads s := by
  simp only [bindingSubjects, mem_map, mem_filter, mem_filterBindings]
  constructor
  · rintro ⟨q, ⟨⟨hq, hkept⟩, hbinding⟩, rfl⟩
    exact ⟨⟨q, ⟨hq, hbinding⟩, rfl⟩, hkept⟩
  · rintro ⟨⟨q, ⟨hq, hbinding⟩, rfl⟩, hkept⟩
    exact ⟨q, ⟨⟨hq, hkept⟩, hbinding⟩, rfl⟩

lemma mem_subjects_of_binding (h : s ∈ bindingSubjects quads) : s ∈ quads.map Quad.subject := by
  rcases mem_map.mp h with ⟨q, hq, rfl⟩
  exact mem_map_of_mem (mem_filter.mp hq).1

lemma mem_subjects_filterBindings :
    s ∈ (filterInvalidOntologyPolicyBindings world quads).map Quad.subject ↔
      s ∈ quads.map Quad.subject ∧ Kept world quads s := by
  simp only [mem_map, mem_filterBindings]
  constructor
  · rintro ⟨q, ⟨hq, hkept⟩, rfl⟩
    exact ⟨⟨q, hq, rfl⟩, hkept⟩
  · rintro ⟨⟨q, hq, rfl⟩, hkept⟩
    exact ⟨q, ⟨hq, hkept⟩, rfl⟩

lemma mem_droppedBindings :
    s ∈ droppedBindings quads (filterInvalidOntologyPolicyBindings world quads) ↔
      s ∈ bindingSubjects quads ∧ ¬ Kept world quads s := by
  rw [droppedBindings, mem_filter, decide_eq_true_iff, mem_subjects_filterBindings]
  constructor
  · rintro ⟨hs, hnot⟩
    exact ⟨hs, fun hkept => hnot ⟨mem_subjects_of_binding hs, hkept⟩⟩
  · rintro ⟨hs, hnot⟩
    exact ⟨hs, fun hboth => hnot hboth.2⟩

lemma firstObject_eq (name : String) :
    firstObject quads s (ontology name) =
      ((bindingObjects quads s name).head?).filter (· ≠ []) := by
  rw [firstObject, bindingObjects, head?_map, head?_filter]

lemma mem_of_firstObject {name : String}
    (h : firstObject quads s (ontology name) = some p) : p ∈ bindingObjects quads s name := by
  rw [firstObject_eq, Option.filter_eq_some_iff] at h
  exact mem_of_head? h.1

/-- What is dropped is a rejected binding, or the policy of one. -/
lemma unrelated_filterBindings :
    unrelated quads (filterInvalidOntologyPolicyBindings world quads)
        (filterInvalidOntologyPolicyBindings world quads) =
      unrelated quads (filterInvalidOntologyPolicyBindings world quads) quads := by
  have hkept : ∀ q ∈ unrelated quads (filterInvalidOntologyPolicyBindings world quads) quads,
      Kept world quads q.subject := by
    intro q hq
    rw [unrelated, mem_filter, decide_eq_true_iff] at hq
    constructor
    · intro hrejected
      exact hq.2.1 (mem_droppedBindings.mpr ⟨hrejected.1, fun h => h.1 hrejected⟩)
    · rintro ⟨b, hrejected, hpolicy⟩
      have hdropped := mem_droppedBindings.mpr ⟨hrejected.1, fun h => h.1 hrejected⟩
      exact hq.2.2 (mem_flatMap.mpr ⟨b, hdropped, mem_of_firstObject hpolicy⟩)
  exact filter_filterBindings _ hkept

/-! ## A binding that is not rejected -/

/-- Its first context graph has a known owner, who is its first approver and its first revoker. -/
structure AcceptedBinding (world : World B) (quads : List Quad) (s graph owner : Term) :
    Prop where
  first : (bindingObjects quads s "appliesToParanet").head? = some graph
  known : graphOwner world graph = some owner
  approvedBy : ∀ who ∈ (bindingObjects quads s "approvedBy").head?, who ≠ [] → who = owner
  revokedBy : ∀ who ∈ (bindingObjects quads s "revokedBy").head?, who ≠ [] → who = owner

lemma acceptedBinding (h : isInvalidBinding world quads s = false) :
    ∃ graph owner, AcceptedBinding world quads s graph owner := by
  have hdecider : ∀ {name : String} {owner : Term},
      (firstObject quads s (ontology name)).any (· ≠ owner) = false →
      ∀ who ∈ (bindingObjects quads s name).head?, who ≠ [] → who = owner := by
    intro name owner hany who hwho hne
    rw [firstObject_eq, Option.mem_def.mp hwho] at hany
    simpa [hne] using hany
  unfold isInvalidBinding at h
  simp only at h
  split at h
  next => cases h
  next owner howner =>
    simp only [Bool.or_eq_false_iff] at h
    rw [firstObject_eq] at howner
    cases hgraph : (bindingObjects quads s "appliesToParanet").head? with
    | none =>
      rw [hgraph] at howner
      cases howner
    | some graph =>
      have hne : graph ≠ [] := by
        rintro rfl
        rw [hgraph] at howner
        cases howner
      refine ⟨graph, owner, hgraph, ?_, hdecider h.1.1.2, hdecider h.2⟩
      rw [hgraph, Option.filter_some, if_pos (by simpa using hne)] at howner
      exact howner

lemma graphOwner_ne_nil {graph owner : Term} (h : graphOwner world graph = some owner) :
    owner ≠ [] := by
  rw [graphOwner, Option.filter_eq_some_iff] at h
  exact of_decide_eq_true h.2

/-- The first decider is the owner or empty, so only the later ones are left to look at. -/
lemma forall_decider_iff {whos : List Term} {owner : Term} (howner : owner ≠ [])
    (hfirst : ∀ who ∈ whos.head?, who ≠ [] → who = owner) :
    (∀ who ∈ whos, who = owner) ↔ whos.head? ≠ some [] ∧ ∀ who ∈ whos.tail, who = owner := by
  cases whos with
  | nil => simp
  | cons who rest =>
    have hwho := hfirst who rfl
    rw [forall_mem_cons, tail_cons]
    refine and_congr_left fun _ => ⟨?_, ?_⟩
    · rintro rfl
      simpa using howner
    · intro hne
      exact hwho fun hnil => hne (congrArg some hnil)

/-- What is left to look at for a binding that is not rejected. -/
lemma AcceptedBinding.decided_iff {graph owner : Term}
    (h : AcceptedBinding world quads s graph owner) :
    ((∀ g ∈ bindingObjects quads s "appliesToParanet", (graphOwner world g).isSome) ∧
        ∀ who ∈ deciders quads s, ∀ g ∈ bindingObjects quads s "appliesToParanet",
          graphOwner world g = some who) ↔
      (∀ g ∈ (bindingObjects quads s "appliesToParanet").tail, (graphOwner world g).isSome ∧
          (deciders quads s ≠ [] → graphOwner world g = some owner)) ∧
        ((∀ who ∈ bindingObjects quads s "approvedBy", who = owner) ∧
          ∀ who ∈ bindingObjects quads s "revokedBy", who = owner) := by
  cases hgraphs : bindingObjects quads s "appliesToParanet" with
  | nil =>
    have hfirst := h.first
    rw [hgraphs] at hfirst
    cases hfirst
  | cons g gs =>
    have hg : g = graph := by
      have hfirst := h.first
      rw [hgraphs] at hfirst
      exact Option.some.inj hfirst
    subst hg
    rw [tail_cons, ← forall_mem_append, ← deciders]
    constructor
    · rintro ⟨hknown, hdecided⟩
      have heq : ∀ who ∈ deciders quads s, who = owner := by
        intro who hwho
        have hgraph := hdecided who hwho g mem_cons_self
        rw [h.known] at hgraph
        exact (Option.some.inj hgraph).symm
      refine ⟨fun g' hg' => ⟨hknown g' (mem_cons_of_mem g hg'), fun hne => ?_⟩, heq⟩
      obtain ⟨who, hwho⟩ := exists_mem_of_ne_nil _ hne
      rw [hdecided who hwho g' (mem_cons_of_mem g hg'), heq who hwho]
    · rintro ⟨hlater, heq⟩
      constructor
      · intro g' hg'
        rcases mem_cons.mp hg' with rfl | hg'
        · rw [h.known]
          rfl
        · exact (hlater g' hg').1
      · intro who hwho g' hg'
        rw [heq who hwho]
        rcases mem_cons.mp hg' with rfl | hg'
        · exact h.known
        · exact (hlater g' hg').2 (ne_nil_of_mem hwho)

lemma Kept.acceptedBinding (hkept : Kept world quads s) (hs : s ∈ bindingSubjects quads) :
    ∃ graph owner, AcceptedBinding world quads s graph owner := by
  apply Gossip.acceptedBinding
  rw [← Bool.not_eq_true]
  exact fun hinvalid => hkept.1 ⟨hs, hinvalid⟩

lemma deciders_filterBindings (h : Kept world quads s) :
    deciders (filterInvalidOntologyPolicyBindings world quads) s = deciders quads s := by
  rw [deciders, deciders, bindingObjects_filterBindings h, bindingObjects_filterBindings h]

lemma isDecided_filterBindings (h : Kept world quads s) :
    IsDecided (filterInvalidOntologyPolicyBindings world quads) s ↔ IsDecided quads s := by
  simp only [IsDecided, bindingObjects_filterBindings h]

lemma policies_filterBindings_iff :
    (∀ s ∈ droppedBindings quads (filterInvalidOntologyPolicyBindings world quads),
      ∀ policy ∈ bindingObjects quads s "activePolicy",
        (∀ t ∈ bindingSubjects (filterInvalidOntologyPolicyBindings world quads),
          policy ∉ bindingObjects (filterInvalidOntologyPolicyBindings world quads) t
            "activePolicy") →
        policy ∉ (filterInvalidOntologyPolicyBindings world quads).map Quad.subject) ↔
    ∀ s ∈ bindingSubjects quads, ¬ Kept world quads s →
      ∀ policy ∈ bindingObjects quads s "activePolicy",
        (∀ t ∈ bindingSubjects quads, Kept world quads t →
          policy ∉ bindingObjects quads t "activePolicy") →
        policy ∈ quads.map Quad.subject → ¬ Kept world quads policy := by
  have hothers : ∀ {policy},
      (∀ t ∈ bindingSubjects (filterInvalidOntologyPolicyBindings world quads),
        policy ∉ bindingObjects (filterInvalidOntologyPolicyBindings world quads) t
          "activePolicy") ↔
      ∀ t ∈ bindingSubjects quads, Kept world quads t →
        policy ∉ bindingObjects quads t "activePolicy" := by
    intro policy
    constructor
    · intro h t ht hkept
      rw [← bindingObjects_filterBindings hkept]
      exact h t (mem_bindingSubjects_filterBindings.mpr ⟨ht, hkept⟩)
    · intro h t ht
      have hboth := mem_bindingSubjects_filterBindings.mp ht
      rw [bindingObjects_filterBindings hboth.2]
      exact h t hboth.1 hboth.2
  constructor
  · intro h s hs hdropped policy hpolicy hothers' hmem hkept
    exact h s (mem_droppedBindings.mpr ⟨hs, hdropped⟩) policy hpolicy (hothers.mpr hothers')
      (mem_subjects_filterBindings.mpr ⟨hmem, hkept⟩)
  · intro h s hs policy hpolicy hothers' hmem
    have hdropped := mem_droppedBindings.mp hs
    have hboth := mem_subjects_filterBindings.mp hmem
    exact h s hdropped.1 hdropped.2 policy hpolicy (hothers.mp hothers') hboth.1 hboth.2

/-- **Policy decisions of owners.** For every message and every lookup of owners: what passes the
filter holds decisions of the owners of the context graphs only, and nothing about the policies of
dropped bindings only, and keeps in order whatever has nothing to do with a dropped binding, if and
only if nothing in the message hides behind the quads that the filter looks at. -/
theorem filter_onlyOwnersDecide_iff (world : World B) (quads : List Quad) :
    OnlyOwnersDecide world quads (filterInvalidOntologyPolicyBindings world quads) ↔
      NothingUnseen world quads := by
  constructor
  · intro h
    have hsubject : ∀ {s}, s ∈ bindingSubjects quads → Kept world quads s →
        s ∈ bindingSubjects (filterInvalidOntologyPolicyBindings world quads) :=
      fun hs hkept => mem_bindingSubjects_filterBindings.mpr ⟨hs, hkept⟩
    have hunseen : ∀ {s}, s ∈ bindingSubjects quads → Kept world quads s →
        ∃ graph owner, AcceptedBinding world quads s graph owner ∧
          (∀ g ∈ (bindingObjects quads s "appliesToParanet").tail, (graphOwner world g).isSome ∧
            (deciders quads s ≠ [] → graphOwner world g = some owner)) ∧
          (∀ who ∈ bindingObjects quads s "approvedBy", who = owner) ∧
          ∀ who ∈ bindingObjects quads s "revokedBy", who = owner := by
      intro s hs hkept
      rcases hkept.acceptedBinding hs with ⟨graph, owner, haccepted⟩
      have hknown := h.known s (hsubject hs hkept)
      have hdecided := h.decidedByOwner s (hsubject hs hkept)
      rw [bindingObjects_filterBindings hkept] at hknown hdecided
      rw [deciders_filterBindings hkept] at hdecided
      exact ⟨graph, owner, haccepted, haccepted.decided_iff.mp ⟨hknown, hdecided⟩⟩
    constructor
    · intro s hs hkept g hg
      rcases hunseen hs hkept with ⟨graph, owner, haccepted, hlater, _, _⟩
      rw [haccepted.first, Option.bind_some, haccepted.known]
      exact hlater g hg
    · intro s hs hkept who hwho
      rcases hunseen hs hkept with ⟨graph, owner, haccepted, _, happroved, hrevoked⟩
      rw [haccepted.first, Option.bind_some, haccepted.known]
      rcases mem_append.mp hwho with hwho | hwho
      · rw [happroved who (mem_of_mem_tail hwho)]
      · rw [hrevoked who (mem_of_mem_tail hwho)]
    · intro s hs hkept
      rcases hunseen hs hkept with ⟨graph, owner, haccepted, _, happroved, hrevoked⟩
      have howner := graphOwner_ne_nil haccepted.known
      exact ⟨((forall_decider_iff howner haccepted.approvedBy).mp happroved).1,
        ((forall_decider_iff howner haccepted.revokedBy).mp hrevoked).1⟩
    · intro s hs hkept hdecided
      have hne := h.decided s (hsubject hs hkept) ((isDecided_filterBindings hkept).mpr hdecided)
      rwa [deciders_filterBindings hkept] at hne
    · exact policies_filterBindings_iff.mp h.policies
  · intro h
    have hseen : ∀ {s}, s ∈ bindingSubjects (filterInvalidOntologyPolicyBindings world quads) →
        Kept world quads s ∧
          (∀ g ∈ bindingObjects quads s "appliesToParanet", (graphOwner world g).isSome) ∧
          ∀ who ∈ deciders quads s, ∀ g ∈ bindingObjects quads s "appliesToParanet",
            graphOwner world g = some who := by
      intro s hs
      have hboth := mem_bindingSubjects_filterBindings.mp hs
      rcases hboth.2.acceptedBinding hboth.1 with ⟨graph, owner, haccepted⟩
      have howner := graphOwner_ne_nil haccepted.known
      have hgraphs := h.laterGraphs s hboth.1 hboth.2
      have hlater := h.laterDeciders s hboth.1 hboth.2
      have hempty := h.emptyDeciders s hboth.1 hboth.2
      rw [haccepted.first, Option.bind_some, haccepted.known] at hgraphs hlater
      have heq : ∀ who ∈ (bindingObjects quads s "approvedBy").tail ++
          (bindingObjects quads s "revokedBy").tail, who = owner :=
        fun who hwho => (Option.some.inj (hlater who hwho)).symm
      rw [forall_mem_append] at heq
      exact ⟨hboth.2, haccepted.decided_iff.mpr ⟨hgraphs,
        (forall_decider_iff howner haccepted.approvedBy).mpr ⟨hempty.1, heq.1⟩,
        (forall_decider_iff howner haccepted.revokedBy).mpr ⟨hempty.2, heq.2⟩⟩⟩
    constructor
    · intro s hs
      rw [bindingObjects_filterBindings (hseen hs).1]
      exact (hseen hs).2.1
    · intro s hs
      rw [bindingObjects_filterBindings (hseen hs).1, deciders_filterBindings (hseen hs).1]
      exact (hseen hs).2.2
    · intro s hs hdecided
      have hboth := mem_bindingSubjects_filterBindings.mp hs
      rw [deciders_filterBindings hboth.2]
      exact h.undecided s hboth.1 hboth.2 ((isDecided_filterBindings hboth.2).mp hdecided)
    · exact policies_filterBindings_iff.mpr h.laterPolicies
    · exact unrelated_filterBindings

/-! ### A second approver -/

/-- The context graph `g` belongs to the agent `a`. -/
def oneOwner : World ℕ where
  contextGraphExists := fun _ => true
  getContextGraphOwner := fun id =>
    if id = "g".toList then some "did:dkg:agent:a".toList else none
  hasConfirmedMetaState := fun _ => false
  listenForEvents := none
  now := []

/-- A binding that its owner approves, and then another agent. -/
def twoApprovers : List Quad :=
  let quad (name object : String) : Quad :=
    ⟨"urn:binding".toList, ontology name, object.toList, "did:dkg:context-graph:ontology".toList⟩
  [quad "appliesToParanet" "did:dkg:context-graph:g", quad "approvedBy" "did:dkg:agent:a",
    quad "approvedBy" "did:dkg:agent:b"]

/-- The binding passes, approved by somebody who is not the owner. -/
theorem twoApprovers_pass :
    filterInvalidOntologyPolicyBindings oneOwner twoApprovers = twoApprovers ∧
      ¬ OnlyOwnersDecide oneOwner twoApprovers
        (filterInvalidOntologyPolicyBindings oneOwner twoApprovers) := by
  have hsame : filterInvalidOntologyPolicyBindings oneOwner twoApprovers = twoApprovers := by
    decide +kernel
  refine ⟨hsame, fun h => ?_⟩
  rw [hsame] at h
  have howner := h.decidedByOwner "urn:binding".toList (by decide +kernel)
    "did:dkg:agent:b".toList (by decide +kernel) "did:dkg:context-graph:g".toList
    (by decide +kernel)
  revert howner
  decide +kernel

end Dkg.Gossip
