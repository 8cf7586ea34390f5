import Dkg.PrivateAccess.AccessHandler

/-! # The private content of entities

`PrivateContentStore` keeps the private triples of root entities in one graph, and the names of the
entities that have some. It reads the triples of an entity and of its skolemized children, but it
deletes every triple whose subject begins with the name of the entity. The content of an entity is
what was stored for it since its last deletion if and only if no name of a root entity begins with
another one (`content_isolated_iff`).
-/

namespace Dkg.PrivateAccess

open Function (update update_self)

open Assertions List

/-- A missing key of `privateEntities` has the empty set. -/
structure PrivateContentStore where
  store : TripleStore
  privateEntities : Term → Finset Term

namespace PrivateContentStore

def privateKey (contextGraphId : Term) (subGraphName : Option Term) : Term :=
  match subGraphName.filter (· ≠ []) with
  | some name => contextGraphId ++ '\x00' :: name
  | none => contextGraphId

variable (s : PrivateContentStore) (contextGraphId rootEntity : Term) (subGraphName : Option Term)

/-- The quads as they are stored. -/
def normalized (quads : List Quad) : List Quad :=
  quads.map fun q => { q with graph := privateGraph contextGraphId subGraphName }

def storePrivateTriples (quads : List Quad) : Except AssertionError PrivateContentStore := do
  if quads = [] then return s
  assertSafeIri rootEntity
  let key := privateKey contextGraphId subGraphName
  return {
    store := s.store.insert (normalized contextGraphId subGraphName quads)
    privateEntities :=
      update s.privateEntities key (insert rootEntity (s.privateEntities key)) }

/-- `getPrivateTriples` returns the rows, in any order. -/
def ReturnsPrivateTriples (rows : List Quad) : Prop :=
  assertSafeIri (privateGraph contextGraphId subGraphName) = .ok () ∧
    assertSafeIri rootEntity = .ok () ∧
    ArePrivateTriples s.store (privateGraph contextGraphId subGraphName) rootEntity rows

def hasPrivateTriples : Bool :=
  rootEntity ∈ s.privateEntities (privateKey contextGraphId subGraphName)

def deletePrivateTriples : PrivateContentStore :=
  let key := privateKey contextGraphId subGraphName
  { store := s.store.deleteBySubjectPrefix (privateGraph contextGraphId subGraphName) rootEntity
    privateEntities := update s.privateEntities key ((s.privateEntities key).erase rootEntity) }

end PrivateContentStore

/-! ## Runs -/

open PrivateContentStore

inductive ContentCall
  | store (rootEntity : Term) (quads : List Quad)
  | delete (rootEntity : Term)

namespace ContentCall

def rootEntity : ContentCall → Term
  | .store rootEntity _ | .delete rootEntity => rootEntity

/-- The quads are those of the root entity and of its children. -/
def Belongs : ContentCall → Prop
  | .store rootEntity quads => ∀ q ∈ quads, q.Under rootEntity
  | .delete _ => True

/-- A call that throws changes nothing. -/
def run (contextGraphId : Term) (subGraphName : Option Term) (s : PrivateContentStore) :
    ContentCall → PrivateContentStore
  | .store rootEntity quads =>
    match s.storePrivateTriples contextGraphId rootEntity subGraphName quads with
    | .ok s' => s'
    | .error _ => s
  | .delete rootEntity => s.deletePrivateTriples contextGraphId rootEntity subGraphName

/-- What is stored for the root entity after a call, where `content` was stored before. -/
def contentAfter (contextGraphId : Term) (subGraphName : Option Term) (root : Term)
    (content : Finset Quad) : ContentCall → Finset Quad
  | .store other quads =>
    if other = root then
      content ∪ (normalized contextGraphId subGraphName quads).toFinset
    else content
  | .delete other => if other = root then ∅ else content

end ContentCall

/-- A name that the calls accept. -/
structure IsRootEntity (root : Term) : Prop where
  safe : assertSafeIri root = .ok ()
  iri : ¬ IsBlankNode root

variable {contextGraphId : Term} {subGraphName : Option Term} {roots : Set Term} {root other : Term}
  {s : PrivateContentStore} {content : Term → Finset Quad} {q : Quad} {call : ContentCall}

/-- The private graph and the names are those of the contents. -/
structure Isolated (contextGraphId : Term) (subGraphName : Option Term) (roots : Set Term)
    (content : Term → Finset Quad) (s : PrivateContentStore) : Prop where
  triples : ∀ root ∈ roots, ∀ rows,
    s.ReturnsPrivateTriples contextGraphId root subGraphName rows → rows.toFinset = content root
  tracked : ∀ root ∈ roots,
    s.hasPrivateTriples contextGraphId root subGraphName = true ↔ content root ≠ ∅

/-- Nothing is stored yet. -/
def Fresh (contextGraphId : Term) (subGraphName : Option Term) (s : PrivateContentStore) : Prop :=
  (∀ q ∈ s.store, q.graph ≠ privateGraph contextGraphId subGraphName) ∧
    s.privateEntities (privateKey contextGraphId subGraphName) = ∅

/-- The content of every root entity after the calls. -/
def contentOf (contextGraphId : Term) (subGraphName : Option Term) (calls : List ContentCall)
    (root : Term) : Finset Quad :=
  calls.foldl (ContentCall.contentAfter contextGraphId subGraphName root) ∅

/-! ## Prefixes -/

lemma begins_of_under (h : q.Under root) : root <+: q.subject := by
  rcases h with heq | hprefix
  · rw [heq]
  · exact (prefix_append _ _).trans hprefix

/-- What belongs to an IRI is not blank. -/
lemma IsRootEntity.not_blank (hroot : IsRootEntity root) (h : q.Under root) :
    ¬ IsBlankNode q.subject := by
  intro hblank
  rcases prefix_or_prefix_of_prefix hblank (begins_of_under h) with hroot' | hshort
  · exact hroot.iri hroot'
  · have htake := prefix_iff_eq_take.mp hshort
    have hlength : root.length < 2 := by
      refine lt_of_le_of_ne hshort.length_le fun heq => hroot.iri ?_
      exact (hshort.eq_of_length heq) ▸ prefix_rfl
    have hcases : root = [] ∨ root = ['_'] := by
      rcases (by omega : root.length = 0 ∨ root.length = 1) with hn | hn
      · exact .inl (length_eq_zero_iff.mp hn)
      · exact .inr (by simpa [hn] using htake)
    rcases hcases with rfl | rfl
    · have hsafe := hroot.safe
      rw [assertSafeIri, if_pos (.inl rfl)] at hsafe
      cases hsafe
    · rcases h with heq | ⟨rest, heq⟩
      · rw [heq] at hblank
        exact absurd hblank (by decide)
      · have hsegment : genidSegment = '/' :: genidSegment.drop 1 := by decide
        have hmark : "_:".toList = ['_', ':'] := by decide
        rw [← heq, IsBlankNode, hmark, hsegment] at hblank
        simp at hblank

/-- No name begins with another one. -/
def PrefixFree (roots : Set Term) : Prop :=
  ∀ root ∈ roots, ∀ other ∈ roots, root <+: other → root = other

lemma PrefixFree.eq_of_prefix (h : PrefixFree roots) (hroot : root ∈ roots)
    (hother : other ∈ roots) {subject : Term} (h₁ : root <+: subject) (h₂ : other <+: subject) :
    root = other := by
  rcases prefix_or_prefix_of_prefix h₁ h₂ with hprefix | hprefix
  · exact h root hroot other hother hprefix
  · exact (h other hother root hroot hprefix).symm

/-! ## One call -/

/-- The triples in the store, in place of what a call returns. -/
structure Holds (contextGraphId : Term) (subGraphName : Option Term) (roots : Set Term)
    (content : Term → Finset Quad) (s : PrivateContentStore) : Prop where
  triples : ∀ root ∈ roots, ∀ q, q ∈ content root ↔
    q ∈ s.store ∧ q.graph = privateGraph contextGraphId subGraphName ∧ q.Under root
  tracked : ∀ root ∈ roots,
    s.hasPrivateTriples contextGraphId root subGraphName = true ↔ content root ≠ ∅

section

variable (hroots : ∀ root ∈ roots, IsRootEntity root)

include hroots

lemma Holds.run (hfree : PrefixFree roots)
    (h : Holds contextGraphId subGraphName roots content s) (hcall : call.rootEntity ∈ roots)
    (hbelongs : call.Belongs) :
    Holds contextGraphId subGraphName roots
      (fun root => call.contentAfter contextGraphId subGraphName root (content root))
      (call.run contextGraphId subGraphName s) := by
  cases call with
  | store other quads =>
    simp only [ContentCall.rootEntity, ContentCall.Belongs] at hcall hbelongs
    by_cases hquads : quads = []
    · have hsame : ContentCall.run contextGraphId subGraphName s (.store other quads) = s := by
        simp [ContentCall.run, storePrivateTriples, hquads]
        rfl
      have hcontent : ∀ root, ContentCall.contentAfter contextGraphId subGraphName root
          (content root) (.store other quads) = content root := by
        intro root
        simp [ContentCall.contentAfter, normalized, hquads]
      simp only [hsame, hcontent]
      exact h
    · have hsafe := (hroots other hcall).safe
      have hrun : ContentCall.run contextGraphId subGraphName s (.store other quads) = {
          store := s.store.insert (normalized contextGraphId subGraphName quads)
          privateEntities := update s.privateEntities
            (privateKey contextGraphId subGraphName)
            (insert other (s.privateEntities
              (privateKey contextGraphId subGraphName))) } := by
        simp [ContentCall.run, storePrivateTriples, hquads, hsafe]
      have hnew : ∀ q ∈ normalized contextGraphId subGraphName quads,
          q.graph = privateGraph contextGraphId subGraphName ∧ q.Under other := by
        intro q hq
        obtain ⟨q₀, hq₀, rfl⟩ := mem_map.mp hq
        exact ⟨rfl, hbelongs q₀ hq₀⟩
      rw [hrun]
      constructor
      · intro root hroot q
        have hold := h.triples root hroot q
        simp only [ContentCall.contentAfter, TripleStore.mem_insert]
        by_cases heq : other = root
        · subst heq
          rw [if_pos rfl, Finset.mem_union, mem_toFinset, hold, or_and_right]
          exact or_congr_right ⟨fun hq => ⟨hq, hnew q hq⟩, And.left⟩
        · rw [if_neg heq, hold]
          constructor
          · rintro ⟨hmem, hunder⟩
            exact ⟨.inl hmem, hunder⟩
          · rintro ⟨hmem | hq, hgraph, hunder⟩
            · exact ⟨hmem, hgraph, hunder⟩
            · exact absurd (hfree.eq_of_prefix hcall hroot (begins_of_under (hnew q hq).2)
                (begins_of_under hunder)) heq
      · intro root hroot
        have hold := h.tracked root hroot
        simp only [hasPrivateTriples, decide_eq_true_eq] at hold
        by_cases heq : other = root
        · subst heq
          simp [hasPrivateTriples, ContentCall.contentAfter, normalized, hquads]
        · simp [hasPrivateTriples, ContentCall.contentAfter, heq, Ne.symm heq, hold]
  | delete other =>
    simp only [ContentCall.rootEntity] at hcall
    constructor
    · intro root hroot q
      have hold := h.triples root hroot q
      simp only [ContentCall.contentAfter, ContentCall.run, deletePrivateTriples,
        TripleStore.mem_deleteBySubjectPrefix, HasSubjectPrefix]
      by_cases heq : other = root
      · subst heq
        rw [if_pos rfl]
        simp only [Finset.notMem_empty, false_iff]
        rintro ⟨⟨_, hkept⟩, hgraph, hunder⟩
        exact hkept ⟨hgraph, begins_of_under hunder, (hroots _ hroot).not_blank hunder⟩
      · rw [if_neg heq, hold]
        constructor
        · rintro ⟨hmem, hgraph, hunder⟩
          refine ⟨⟨hmem, ?_⟩, hgraph, hunder⟩
          rintro ⟨_, hprefix, _⟩
          exact heq (hfree.eq_of_prefix hcall hroot hprefix (begins_of_under hunder))
        · rintro ⟨⟨hmem, _⟩, hunder⟩
          exact ⟨hmem, hunder⟩
    · intro root hroot
      have hold := h.tracked root hroot
      simp only [hasPrivateTriples, decide_eq_true_eq] at hold
      by_cases heq : other = root
      · subst heq
        simp [hasPrivateTriples, ContentCall.contentAfter, ContentCall.run, deletePrivateTriples]
      · simp [hasPrivateTriples, ContentCall.contentAfter, ContentCall.run, deletePrivateTriples,
          heq, Ne.symm heq, hold]

lemma Holds.isolated (h : Holds contextGraphId subGraphName roots content s) :
    Isolated contextGraphId subGraphName roots content s where
  tracked := h.tracked
  triples := by
    rintro root hroot rows ⟨_, _, _, hrows⟩
    ext q
    rw [mem_toFinset, hrows, h.triples root hroot q, IsPrivateTriple]
    constructor
    · rintro ⟨hmem, hgraph, hunder, _⟩
      exact ⟨hmem, hgraph, hunder⟩
    · rintro ⟨hmem, hgraph, hunder⟩
      exact ⟨hmem, hgraph, hunder, (hroots root hroot).not_blank hunder⟩

lemma holds_run (hfree : PrefixFree roots)
    (hfresh : Fresh contextGraphId subGraphName s) {calls : List ContentCall}
    (hcalls : ∀ call ∈ calls, call.rootEntity ∈ roots ∧ call.Belongs) :
    Holds contextGraphId subGraphName roots (contentOf contextGraphId subGraphName calls)
      (calls.foldl (ContentCall.run contextGraphId subGraphName) s) := by
  induction calls using List.reverseRecOn with
  | nil =>
    constructor
    · intro root _ q
      simp only [contentOf, foldl_nil, Finset.notMem_empty, false_iff]
      exact fun hmem => hfresh.1 q hmem.1 hmem.2.1
    · intro root _
      simp [hasPrivateTriples, contentOf, hfresh.2]
  | append_singleton calls call ih =>
    have hlast := hcalls call (by simp)
    have hbefore := ih fun c hc => hcalls c (mem_append_left _ hc)
    have hcontent : contentOf contextGraphId subGraphName (calls ++ [call]) = fun root =>
        call.contentAfter contextGraphId subGraphName root
          (contentOf contextGraphId subGraphName calls root) := by
      funext root
      rw [contentOf, foldl_append, foldl_cons, foldl_nil, contentOf]
    rw [hcontent, foldl_append, foldl_cons, foldl_nil]
    exact hbefore.run hroots hfree hlast.1 hlast.2

/-! ## Isolation -/

end

/-- **The content of an entity is isolated** from the others, in every run of calls for the root
entities, just when no name of a root entity begins with another one. -/
theorem content_isolated_iff
    (hgraph : assertSafeIri (privateGraph contextGraphId subGraphName) = .ok ())
    (hroots : ∀ root ∈ roots, IsRootEntity root) (hfresh : Fresh contextGraphId subGraphName s) :
    (∀ calls : List ContentCall, (∀ call ∈ calls, call.rootEntity ∈ roots ∧ call.Belongs) →
      Isolated contextGraphId subGraphName roots (contentOf contextGraphId subGraphName calls)
        (calls.foldl (ContentCall.run contextGraphId subGraphName) s)) ↔ PrefixFree roots := by
  constructor
  · intro h root hroot other hother hprefix
    by_contra hne
    -- the deletion of one entity takes the triple of the other with it
    let q : Quad := ⟨other, [], [], []⟩
    have hcalls : ∀ call ∈ [ContentCall.store other [q], .delete root],
        call.rootEntity ∈ roots ∧ call.Belongs := by
      simp [ContentCall.rootEntity, ContentCall.Belongs, hother, hroot, q, Quad.Under]
    have hmatch := (h _ hcalls).triples other hother []
    have hcontent : contentOf contextGraphId subGraphName
        [ContentCall.store other [q], .delete root] other =
        {{ q with graph := privateGraph contextGraphId subGraphName }} := by
      simp [contentOf, ContentCall.contentAfter, normalized, hne]
    rw [hcontent] at hmatch
    refine absurd (hmatch ⟨hgraph, (hroots other hother).safe, nodup_nil, ?_⟩) (by simp)
    intro r
    simp only [not_mem_nil, false_iff, foldl_cons, foldl_nil, ContentCall.run, storePrivateTriples,
      (hroots other hother).safe, deletePrivateTriples]
    rintro ⟨hmem, hrgraph, hunder, hblank⟩
    obtain ⟨hmem, hkept⟩ := TripleStore.mem_deleteBySubjectPrefix.mp hmem
    rcases TripleStore.mem_insert.mp hmem with hold | hnew
    · exact hfresh.1 r hold hrgraph
    · exact hkept ⟨hrgraph, hprefix.trans (begins_of_under hunder), hblank⟩
  · intro hfree calls hcalls
    exact (holds_run hroots hfree hfresh hcalls).isolated hroots

/-- Entities `a` and `b`, neither of which begins with the other. -/
theorem content_isolated_two :
    (∀ calls : List ContentCall,
      (∀ call ∈ calls, call.rootEntity ∈ ({['a'], ['b']} : Set Term) ∧ call.Belongs) →
      Isolated ['g'] none {['a'], ['b']} (contentOf ['g'] none calls)
        (calls.foldl (ContentCall.run ['g'] none) ⟨∅, fun _ => ∅⟩)) ↔
      PrefixFree {['a'], ['b']} := by
  apply content_isolated_iff (by decide)
  · rintro root (rfl | rfl) <;> exact ⟨by decide, by decide⟩
  · exact ⟨by simp, rfl⟩

/-- A triple of one entity, and the deletion of an entity whose name is shorter. -/
def shorterDeleted : List ContentCall :=
  [.store ['a', 'b'] [⟨['a', 'b'], ['p'], ['o'], []⟩], .delete ['a']]

/-- The deletion of `a` takes the triples of `ab`. -/
theorem deletion_takes_longer_name :
    ¬ Isolated ['g'] none {['a'], ['a', 'b']} (contentOf ['g'] none shorterDeleted)
      (shorterDeleted.foldl (ContentCall.run ['g'] none) ⟨∅, fun _ => ∅⟩) := by
  intro h
  have hkept := (h.tracked ['a', 'b'] (by simp)).mp (by decide)
  have hrows := h.triples ['a', 'b'] (by simp) []
    ⟨by decide, by decide, nodup_nil, by simp; decide⟩
  exact hkept hrows.symm

end Dkg.PrivateAccess
