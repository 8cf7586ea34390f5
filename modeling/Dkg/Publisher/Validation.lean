import Dkg.Publisher.Terms

/-! # Validation of a publish request

`validatePublishRequest` with its five rules. The rules about the partition into knowledge assets
are 2, 3 and 5.
-/

namespace Dkg.Publisher

open List

structure KAManifestEntry where
  rootEntity : Term
  privateTripleCount : Option ℕ

structure ValidationOptions where
  /-- Skip rule 4 for the entities that the writer owns. -/
  allowUpsert : Bool
  upsertableEntities : List Term
  expectedGraph : Option Term

inductive RuleError
  | graph (graph contextGraph : Term)
  | subject (subject : Term)
  | noTriples (rootEntity : Term)
  | exists (rootEntity contextGraphId : Term)
  | blankSubject (subject : Term)
  deriving DecidableEq

def quoted (t : Term) : Term := '\x22' :: (t ++ ['\x22'])

def RuleError.text : RuleError → Term
  | .graph g contextGraph =>
    "Rule 1: Quad graph ".toList ++ quoted g ++ " does not match context graph ".toList ++
      quoted contextGraph
  | .subject s =>
    "Rule 2: Subject ".toList ++ quoted s ++
      " is not a rootEntity and not a skolemized child of one".toList
  | .noTriples rootEntity =>
    "Rule 3: rootEntity ".toList ++ quoted rootEntity ++ " has no triples in nquads".toList
  | .exists rootEntity contextGraphId =>
    "Rule 4: rootEntity ".toList ++ quoted rootEntity ++
      " already exists in context graph ".toList ++ quoted contextGraphId ++
      (". Use /api/update with the existing kcId to modify it, " ++
        "or use a unique rootEntity URI.").toList
  | .blankSubject s =>
    "Rule 5: Blank node subject ".toList ++ quoted s ++
      " found — must be skolemized before submission".toList

def RuleError.rule : RuleError → ℕ
  | .graph .. => 1
  | .subject .. => 2
  | .noTriples .. => 3
  | .exists .. => 4
  | .blankSubject .. => 5

/-- The rules of how the quads are partitioned among the entries of the manifest. -/
def RuleError.IsPartition (e : RuleError) : Prop := e.rule = 2 ∨ e.rule = 3 ∨ e.rule = 5

/-- The subject is the root entity, or a skolemized child of it. -/
def HasTriples (nquads : List Quad) (rootEntity : Term) : Prop :=
  ∃ q ∈ nquads, q.subject = rootEntity ∨
    (IsSkolemizedUri q.subject ∧ rootEntityFromSkolemized q.subject = some rootEntity)
  deriving Decidable

/-- The root entity of a skolemized subject, when it is one of the given ones. -/
def skolemizedRoot (rootEntities : List Term) (s : Term) : Option Term :=
  if IsSkolemizedUri s then
    (rootEntityFromSkolemized s).filter fun root => root ≠ [] ∧ root ∈ rootEntities
  else none

def validatePublishRequest (nquads : List Quad) (manifest : List KAManifestEntry)
    (contextGraphId : Term) (existingEntities : List Term) (options : ValidationOptions) :
    List RuleError :=
  let contextGraph :=
    options.expectedGraph.getD ("did:dkg:context-graph:".toList ++ contextGraphId)
  let rootEntities := manifest.map KAManifestEntry.rootEntity
  (nquads.filterMap fun q =>
    if q.graph ≠ [] ∧ q.graph ≠ contextGraph then some (.graph q.graph contextGraph) else none) ++
  (nquads.filterMap fun q =>
    if q.subject ∈ rootEntities then none
    else if (skolemizedRoot rootEntities q.subject).isSome then none
    else some (.subject q.subject)) ++
  (manifest.filterMap fun m =>
    let isFullyPrivate := 0 < m.privateTripleCount.getD 0 ∧ ¬ HasTriples nquads m.rootEntity
    if ¬ HasTriples nquads m.rootEntity ∧ ¬ isFullyPrivate then some (.noTriples m.rootEntity)
    else none) ++
  (manifest.filterMap fun m =>
    if m.rootEntity ∈ existingEntities then
      if options.allowUpsert ∧ m.rootEntity ∈ options.upsertableEntities then none
      else some (.exists m.rootEntity contextGraphId)
    else none) ++
  (nquads.filterMap fun q =>
    if IsBlankNode q.subject then some (.blankSubject q.subject) else none)

variable {nquads : List Quad} {manifest : List KAManifestEntry} {contextGraphId : Term}
  {existingEntities : List Term} {options : ValidationOptions} {rootEntities : List Term}
  {s root : Term}

lemma skolemizedRoot_eq_some : skolemizedRoot rootEntities s = some root ↔
    rootEntityFromSkolemized s = some root ∧ root ≠ [] ∧ root ∈ rootEntities := by
  unfold skolemizedRoot
  split
  next => simp
  next hs =>
    constructor
    · intro h
      cases h
    · rintro ⟨hroot, _⟩
      exact absurd (isSkolemizedUri_iff.mpr ⟨root, hroot⟩) hs

/-- When the rules of the partition are met. -/
lemma no_partition_errors_iff :
    (∀ e ∈ validatePublishRequest nquads manifest contextGraphId existingEntities options,
      ¬ e.IsPartition) ↔
    (∀ q ∈ nquads, q.subject ∈ manifest.map KAManifestEntry.rootEntity ∨
      (skolemizedRoot (manifest.map KAManifestEntry.rootEntity) q.subject).isSome) ∧
    (∀ m ∈ manifest, HasTriples nquads m.rootEntity ∨ 0 < m.privateTripleCount.getD 0) ∧
    (∀ q ∈ nquads, ¬ IsBlankNode q.subject) := by
  constructor
  · intro h
    refine ⟨fun q hq => ?_, fun m hm => ?_, fun q hq hblank => ?_⟩
    · by_contra hnot
      obtain ⟨hmem, hroot⟩ := not_or.mp hnot
      refine h (.subject q.subject) ?_ (.inl rfl)
      simp only [validatePublishRequest, mem_append, mem_filterMap]
      exact .inl (.inl (.inl (.inr ⟨q, hq, by rw [if_neg hmem, if_neg hroot]⟩)))
    · by_contra hnot
      obtain ⟨hmem, hprivate⟩ := not_or.mp hnot
      refine h (.noTriples m.rootEntity) ?_ (.inr (.inl rfl))
      simp only [validatePublishRequest, mem_append, mem_filterMap]
      exact .inl (.inl (.inr ⟨m, hm, if_pos ⟨hmem, fun hp => hprivate hp.1⟩⟩))
    · refine h (.blankSubject q.subject) ?_ (.inr (.inr rfl))
      simp only [validatePublishRequest, mem_append, mem_filterMap]
      exact .inr ⟨q, hq, if_pos hblank⟩
  · rintro ⟨hsubject, htriples, hblank⟩ e he
    simp only [validatePublishRequest, mem_append, mem_filterMap] at he
    -- one case for each rule
    rcases he with (((⟨q, hq, h⟩ | ⟨q, hq, h⟩) | ⟨m, hm, h⟩) | ⟨m, hm, h⟩) | ⟨q, hq, h⟩
    · split at h
      next => cases h; simp [RuleError.IsPartition, RuleError.rule]
      next => cases h
    · rcases hsubject q hq with hs | hs
      · simp [hs] at h
      · simp [hs] at h
    · rcases htriples m hm with hs | hs
      · simp [hs] at h
      · simp [hs] at h
    · split at h
      next =>
        split at h
        next => cases h
        next => cases h; simp [RuleError.IsPartition, RuleError.rule]
      next => cases h
    · simp [hblank q hq] at h

end Dkg.Publisher
