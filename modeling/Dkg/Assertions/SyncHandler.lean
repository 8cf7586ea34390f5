import Dkg.Assertions.Operations
import Dkg.Sync.PageFetch

/-! # The durable answers of the sync responder

The responder serves the graphs of a context graph and its metadata. It leaves out an assertion
graph unless a lifecycle record names it and has a layer other than the working memory
(`IsVisible`). The triples are not looked at one by one.
-/

namespace Dkg.Assertions

open SharedMemory

/-! ## The data phase -/

/-- A record in the metadata of the context graph names the graph and is shared. -/
def IsVisible (store : TripleStore) (contextGraphId graph : Term) : Prop :=
  ∃ named ∈ store, ∃ layered ∈ store, NamesGraph named ∧ IsShared layered ∧
    named.graph = contextGraphMetaUri contextGraphId ∧ layered.graph = named.graph ∧
      layered.subject = named.subject ∧ named.object = graph
  deriving Decidable

def IsAssertionGraph (graph : Term) : Prop := "/assertion/".toList <:+: graph
  deriving Decidable

/-- The filter of the data query. -/
def ServedAsData (store : TripleStore) (contextGraphId : Term) (q : Quad) : Prop :=
  (q.graph = contextGraphDataUri contextGraphId ∨
      contextGraphDataUri contextGraphId ++ ['/'] <+: q.graph) ∧
    ¬ IsMetaGraph q.graph ∧ ¬ "/_private".toList <:+: q.graph ∧
    (¬ IsAssertionGraph q.graph ∨ IsVisible store contextGraphId q.graph)
  deriving Decidable

/-! ## The metadata phase -/

/-- `STR` of an IRI or a literal. -/
def str : Term → List Char
  | '\x22' :: rest => content rest
  | term => term
where
  /-- The characters up to the closing quotation mark. -/
  content : List Char → List Char
    | [] => []
    | '\\' :: c :: rest => c :: content rest
    | c :: rest => if c = '\x22' then [] else c :: content rest

/-- A record that is shared is about the subject: it is the subject, names it as its graph, or has
its name at the end of the subject. -/
def IsAbout (store : TripleStore) (metaGraph lifecycle subject : Term) : Prop :=
  lifecycle = subject ∨ (⟨lifecycle, dkg "assertionGraph", subject, metaGraph⟩ : Quad) ∈ store ∨
    ∃ named ∈ store, named.subject = lifecycle ∧ named.predicate = dkg "assertionName" ∧
      named.graph = metaGraph ∧ IsAssertionGraph subject ∧ '/' :: str named.object <:+ subject
  deriving Decidable

/-- An event that generated or used something that is shared. -/
def IsSharedEvent (store : TripleStore) (metaGraph subject : Term) : Prop :=
  ∃ event ∈ store, ∃ layered ∈ store, event.subject = subject ∧ event.graph = metaGraph ∧
    event.predicate ∈ [prov "generated", prov "used"] ∧ layered.graph = metaGraph ∧
      layered.subject = event.object ∧ IsShared layered
  deriving Decidable

/-- The filter of the metadata query. A record counts as its own subject, whether or not the engine
sees `?lc` inside the group of the filter. -/
def ServedAsMeta (store : TripleStore) (contextGraphId : Term) (q : Quad) : Prop :=
  q.graph = contextGraphMetaUri contextGraphId ∧
    (q.subject = contextGraphDataUri contextGraphId ∨
      "did:dkg:activity:".toList <+: q.subject ∨ "did:dkg:join-request:".toList <+: q.subject ∨
      (∃ layered ∈ store, layered.graph = q.graph ∧ IsShared layered ∧
        IsAbout store q.graph layered.subject q.subject) ∨
      IsSharedEvent store q.graph q.subject)
  deriving Decidable

/-! ## The answer -/

inductive DurablePhase
  | metadata
  | data

def Served (store : TripleStore) (contextGraphId : Term) (phase : DurablePhase) (q : Quad) : Prop :=
  match phase with
  | .metadata => ServedAsMeta store contextGraphId q
  | .data => ServedAsData store contextGraphId q

instance decidableServed (store : TripleStore) (contextGraphId : Term) (phase : DurablePhase)
    (q : Quad) : Decidable (Served store contextGraphId phase q) :=
  match phase with
  | .metadata => inferInstanceAs (Decidable (ServedAsMeta ..))
  | .data => inferInstanceAs (Decidable (ServedAsData ..))

/-- The rows of the query, in the order that the engine gives them. -/
structure AreRows (store : TripleStore) (contextGraphId : Term) (phase : DurablePhase)
    (rows : List Quad) : Prop where
  nodup : rows.Nodup
  mem_iff : ∀ q, q ∈ rows ↔ q ∈ store ∧ Served store contextGraphId phase q

def durablePage (syncPageSize : ℕ) (rows : List Quad) (offset limit : ℕ) : List Quad :=
  (rows.drop (Sync.clampOffset offset)).take (Sync.clampLimit syncPageSize limit)

variable {store : TripleStore} {contextGraphId : Term} {phase : DurablePhase} {rows : List Quad}
  {q : Quad}

lemma AreRows.served (h : AreRows store contextGraphId phase rows) (syncPageSize offset limit : ℕ)
    (hq : q ∈ durablePage syncPageSize rows offset limit) : Served store contextGraphId phase q :=
  ((h.mem_iff q).mp (List.mem_of_mem_drop (List.mem_of_mem_take hq))).2

/-- **What is served of assertion graphs**: a graph that is no metadata graph is served when a
shared record names it. -/
lemma Served.isVisible (h : Served store contextGraphId phase q) (hgraph : IsAssertionGraph q.graph)
    (hmeta : ¬ IsMetaGraph q.graph) : IsVisible store contextGraphId q.graph := by
  cases phase with
  | metadata =>
    refine absurd ?_ hmeta
    rw [h.1]
    exact isMetaGraph_contextGraphMetaUri contextGraphId
  | data =>
    rcases h.2.2.2 with hno | hvisible
    · exact absurd hgraph hno
    · exact hvisible

lemma isAssertionGraph_uri (a : AssertionId) : IsAssertionGraph (contextGraphAssertionUri a) := by
  refine ⟨scopeUri a.contextGraphId a.subGraphName, a.agentAddress ++ '/' :: a.name, ?_⟩
  simp [contextGraphAssertionUri]

end Dkg.Assertions
