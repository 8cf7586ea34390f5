import Dkg.Publisher.Terms

/-! # The triple store

A store is a finite set of quads. A pattern of `deleteByPattern` leaves a term open by leaving it
empty, as all backends read it. Neither a pattern nor a prefix matches a blank subject: both are
written as IRIs.

`delete` is that of the default adapter (`adapters/oxigraph.ts`), which finds a literal with an
escape under another text than its own (`reparsedObject`) and leaves it.
-/

namespace Dkg

abbrev TripleStore := Finset Quad

/-- `pattern.x ? … : null`. -/
def PatternMatches (pattern term : Term) : Prop := pattern = [] ∨ pattern = term
  deriving Decidable

def Quad.Matches (pattern q : Quad) : Prop :=
  (pattern.subject = [] ∨ (pattern.subject = q.subject ∧ ¬ IsBlankNode q.subject)) ∧
    PatternMatches pattern.predicate q.predicate ∧ PatternMatches pattern.object q.object ∧
    PatternMatches pattern.graph q.graph
  deriving Decidable

def HasSubjectPrefix (graphUri front : Term) (q : Quad) : Prop :=
  q.graph = graphUri ∧ front <+: q.subject ∧ ¬ IsBlankNode q.subject
  deriving Decidable

/-! ## Terms of the adapter -/

/-- `escapeNQuadsLiteral`. -/
def escapeNQuadsLiteral (s : Term) : Term :=
  s.flatMap fun c =>
    if c = '\\' then ['\\', '\\']
    else if c = '\x22' then ['\\', '\x22']
    else if c = '\n' then ['\\', 'n']
    else if c = '\r' then ['\\', 'r']
    else [c]

/-- The text up to the first quotation mark that no backslash is before, and the text after it. -/
def literalParts : Term → Option (Term × Term)
  | [] => none
  | '\x22' :: suffix => some ([], suffix)
  | '\\' :: c :: rest => (literalParts rest).map fun p => ('\\' :: c :: p.1, p.2)
  | c :: rest => (literalParts rest).map fun p => (c :: p.1, p.2)

/-- What `parseTerm` makes of an object, as `termToString` writes it: the escapes of a literal are
not taken back, and so they are escaped themselves. -/
def reparsedObject : Term → Term
  | '\x22' :: rest =>
    match literalParts rest with
    | some (body, suffix) => '\x22' :: (escapeNQuadsLiteral body ++ '\x22' :: suffix)
    | none => '\x22' :: (escapeNQuadsLiteral rest.dropLast ++ ['\x22'])
  | object => object

def Quad.reparsed (q : Quad) : Quad := { q with object := reparsedObject q.object }

/-- The adapter finds the quad again by its own text. -/
def Quad.IsStable (q : Quad) : Prop := q.reparsed = q
  deriving Decidable

lemma literalParts_append {body : Term} (hbody : ∀ c ∈ body, c ≠ '\x22' ∧ c ≠ '\\')
    (suffix : Term) :
    literalParts (body ++ '\x22' :: suffix) = some (body, suffix) := by
  induction body with
  | nil => rfl
  | cons c body ih =>
    rw [List.forall_mem_cons] at hbody
    rw [List.cons_append, literalParts.eq_4 _ _ hbody.1.1 fun _ _ h => absurd h hbody.1.2,
        ih hbody.2]
    rfl

/-- **A literal without escapes is found again.** -/
lemma reparsedObject_literal {body : Term} (suffix : Term)
    (hbody : ∀ c ∈ body, c ≠ '\x22' ∧ c ≠ '\\' ∧ c ≠ '\n' ∧ c ≠ '\r') :
    reparsedObject ('\x22' :: (body ++ '\x22' :: suffix)) =
      '\x22' :: (body ++ '\x22' :: suffix) := by
  have hescape : escapeNQuadsLiteral body = body := by
    unfold escapeNQuadsLiteral
    conv_rhs => rw [← List.flatMap_singleton' body]
    refine List.flatMap_congr fun c hc => ?_
    simp [hbody c hc]
  have hparts := literalParts_append (fun c hc => (hbody c hc).imp_right And.left) suffix
  simp only [reparsedObject, hparts, hescape]

lemma Quad.IsStable.inGraph {q : Quad} (h : q.IsStable) (graph : Term) :
    ({ q with graph := graph } : Quad).IsStable := by
  have hobject : reparsedObject q.object = q.object := congrArg Quad.object h
  show Quad.mk _ _ (reparsedObject q.object) graph = _
  rw [hobject]

example : reparsedObject "\x22a\\\x22b\x22".toList = "\x22a\\\\\\\x22b\x22".toList := by decide

namespace TripleStore

def insert (store : TripleStore) (quads : List Quad) : TripleStore := store ∪ quads.toFinset

/-- The quads are looked for as the adapter parses them. -/
def delete (store : TripleStore) (quads : List Quad) : TripleStore :=
  store \ (quads.map Quad.reparsed).toFinset

def deleteByPattern (store : TripleStore) (pattern : Quad) : TripleStore :=
  store.filter fun q => ¬ Quad.Matches pattern q

def deleteBySubjectPrefix (store : TripleStore) (graphUri front : Term) : TripleStore :=
  store.filter fun q => ¬ HasSubjectPrefix graphUri front q

variable {store : TripleStore} {quads : List Quad} {q pattern : Quad} {graphUri front : Term}

@[simp]
lemma mem_insert : q ∈ store.insert quads ↔ q ∈ store ∨ q ∈ quads := by
  simp [TripleStore.insert]

@[simp]
lemma mem_delete : q ∈ store.delete quads ↔ q ∈ store ∧ q ∉ quads.map Quad.reparsed := by
  simp [TripleStore.delete]

lemma map_reparsed (h : ∀ q ∈ quads, q.IsStable) : quads.map Quad.reparsed = quads :=
  (List.map_congr_left h).trans (List.map_id quads)

@[simp]
lemma mem_deleteByPattern : q ∈ store.deleteByPattern pattern ↔
    q ∈ store ∧ ¬ Quad.Matches pattern q := by
  simp [deleteByPattern]

@[simp]
lemma mem_deleteBySubjectPrefix : q ∈ store.deleteBySubjectPrefix graphUri front ↔
    q ∈ store ∧ ¬ HasSubjectPrefix graphUri front q := by
  simp [deleteBySubjectPrefix]

end TripleStore

/-! ## Graphs -/

def contextGraphDataUri (contextGraphId : Term) : Term :=
  "did:dkg:context-graph:".toList ++ contextGraphId

def contextGraphMetaUri (contextGraphId : Term) : Term :=
  contextGraphDataUri contextGraphId ++ "/_meta".toList

lemma contextGraphMetaUri_injective : Function.Injective contextGraphMetaUri := by
  intro a b h
  exact List.append_cancel_left (List.append_cancel_right h)

lemma contextGraphDataUri_ne_meta (contextGraphId : Term) :
    contextGraphDataUri contextGraphId ≠ contextGraphMetaUri contextGraphId := by
  intro h
  have hlength := congrArg List.length h
  simp [contextGraphMetaUri] at hlength

/-! ## The triples of an entity -/

/-- The entity's own triples and those of its skolemized children. -/
def Quad.Under (rootEntity : Term) (q : Quad) : Prop :=
  q.subject = rootEntity ∨ rootEntity ++ genidSegment <+: q.subject
  deriving Decidable

/-- The calls that delete an entity's triples, in order. -/
inductive Deletion
  | pattern (pattern : Quad)
  | subjectPrefix (graphUri front : Term)

def Deletion.run (store : TripleStore) : Deletion → TripleStore
  | .pattern p => store.deleteByPattern p
  | .subjectPrefix graphUri front => store.deleteBySubjectPrefix graphUri front

def Deletion.Removes (q : Quad) : Deletion → Prop
  | .pattern p => Quad.Matches p q
  | .subjectPrefix graphUri front => HasSubjectPrefix graphUri front q

instance Deletion.decidableRemoves (q : Quad) : (d : Deletion) → Decidable (d.Removes q)
  | .pattern p => inferInstanceAs (Decidable (Quad.Matches p q))
  | .subjectPrefix .. => inferInstanceAs (Decidable (HasSubjectPrefix ..))

lemma Deletion.mem_run {store : TripleStore} {q : Quad} (d : Deletion) :
    q ∈ d.run store ↔ q ∈ store ∧ ¬ d.Removes q := by
  cases d with
  | pattern p => exact TripleStore.mem_deleteByPattern
  | subjectPrefix graphUri front => exact TripleStore.mem_deleteBySubjectPrefix

lemma mem_runDeletions {q : Quad} (ds : List Deletion) (store : TripleStore) :
    q ∈ ds.foldl Deletion.run store ↔ q ∈ store ∧ ∀ d ∈ ds, ¬ d.Removes q := by
  induction ds generalizing store with
  | nil => simp
  | cons d ds ih =>
    rw [List.foldl_cons, ih, Deletion.mem_run, List.forall_mem_cons, and_assoc]

def deleteEntityTriples (graph rootEntity : Term) : List Deletion :=
  [.pattern ⟨rootEntity, [], [], graph⟩, .subjectPrefix graph (rootEntity ++ genidSegment)]

/-- A quad that the deletion of an entity's triples removes. An empty entity is every entity. -/
def RemovedWith (graph rootEntity : Term) (q : Quad) : Prop :=
  ∃ d ∈ deleteEntityTriples graph rootEntity, d.Removes q
  deriving Decidable

lemma removedWith_iff {graph rootEntity : Term} {q : Quad} (hgraph : graph ≠ []) :
    RemovedWith graph rootEntity q ↔ q.graph = graph ∧
      (rootEntity = [] ∨ (q.Under rootEntity ∧ ¬ IsBlankNode q.subject)) := by
  have hsplit : RemovedWith graph rootEntity q ↔
      Quad.Matches ⟨rootEntity, [], [], graph⟩ q ∨
        HasSubjectPrefix graph (rootEntity ++ genidSegment) q := by
    simp [RemovedWith, deleteEntityTriples, Deletion.Removes]
  have hmatches : Quad.Matches ⟨rootEntity, [], [], graph⟩ q ↔ q.graph = graph ∧
      (rootEntity = [] ∨ (q.subject = rootEntity ∧ ¬ IsBlankNode q.subject)) := by
    simp only [Quad.Matches, PatternMatches, true_or, true_and, hgraph, false_or]
    constructor
    · rintro ⟨hs, rfl⟩
      exact ⟨rfl, hs.imp_right fun h => ⟨h.1.symm, h.2⟩⟩
    · rintro ⟨rfl, hs⟩
      exact ⟨hs.imp_right fun h => ⟨h.1.symm, h.2⟩, rfl⟩
  rw [hsplit, hmatches, HasSubjectPrefix, Quad.Under]
  constructor
  · rintro (⟨hg, hs | ⟨hs, hb⟩⟩ | ⟨hg, hs, hb⟩)
    · exact ⟨hg, .inl hs⟩
    · exact ⟨hg, .inr ⟨.inl hs, hb⟩⟩
    · exact ⟨hg, .inr ⟨.inr hs, hb⟩⟩
  · rintro ⟨hg, hs | ⟨hs | hs, hb⟩⟩
    · exact .inl ⟨hg, .inl hs⟩
    · exact .inl ⟨hg, .inr ⟨hs, hb⟩⟩
    · exact .inr ⟨hg, hs, hb⟩

end Dkg
