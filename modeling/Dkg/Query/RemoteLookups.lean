import Dkg.Query.RemoteHandler

/-! # What lookups of other agents tell

Two stores that differ only in graphs which the request may not read (`RemoteCall.Hidden`) should
give the same response; `RemoteCall.Keeps` says when, for each type of lookup. A lookup by UAL reads
the metadata of every context graph, so that all their policies have to let the peer in; a lookup by
type or by entity reads one graph, which the name of the context graph may place inside another one;
the text of a query reads that graph alone if it is `Scoped`: the engine writes the clause around
all of its pattern, and the ban sees every other clause.
-/

namespace Dkg.Query

open Lib List Finset
open SharedMemory (rdfType dkg)

open Aka.Encoding (JsNumber)

variable {evaluate : Evaluator} {graphs : TripleStore → List Term} {s t : TripleStore}

/-! ## Graphs that a request may not read -/

/-- The named graphs of a context graph: its data graph, and those whose URI goes on from there. -/
def Owns (contextGraphId uri : Term) : Prop :=
  uri = contextGraphDataUri contextGraphId ∨ contextGraphDataUri contextGraphId ++ ['/'] <+: uri

def Admits (config : QueryAccessConfig) (peerId : Term) (lookupType : LookupType)
    (contextGraphId : Term) : Prop :=
  match config.policyOf contextGraphId with
  | none => config.defaultPolicy = some .publicAccess
  | some policy =>
    (policy.policy = .publicAccess ∨
      policy.policy = .allowList ∧ peerId ∈ policy.allowedPeers.getD []) ∧
    (policy.allowedLookupTypes.getD [] = [] ∨ lookupType ∈ policy.allowedLookupTypes.getD []) ∧
    (lookupType = .sparqlQuery → policy.sparqlEnabled = some true)

/-- A request of a peer to a handler, and the context graphs of its node. -/
structure RemoteCall where
  config : QueryAccessConfig
  contextGraphs : Set Term
  late : Bool
  now : ℕ
  buckets : Buckets
  request : QueryRequest
  peerId : Term

variable {c : RemoteCall} {lookupType : LookupType}

/-- The request may not read the graphs of the context graph: its policy does not let the peer in,
or another one was asked for. -/
def RemoteCall.Withholds (c : RemoteCall) (contextGraphId : Term) : Prop :=
  ∀ lookupType, c.request.lookupType = some lookupType →
    ¬ Admits c.config c.peerId lookupType contextGraphId ∨
      lookupType ≠ .entityByUal ∧ contextGraphId ≠ c.request.contextGraph

def RemoteCall.Hidden (c : RemoteCall) (uri : Term) : Prop :=
  ∃ contextGraphId ∈ c.contextGraphs, c.Withholds contextGraphId ∧ Owns contextGraphId uri

/-- The stores differ only in graphs that the request may not read. -/
def RemoteCall.SameBut (c : RemoteCall) (s t : TripleStore) : Prop :=
  ∀ q, ¬ c.Hidden q.graph → (q ∈ s ↔ q ∈ t)

def RemoteCall.response (c : RemoteCall) (store : Backend) : QueryResponse :=
  (handle c.config store c.late c.now c.buckets c.request c.peerId).1

/-- The response is the same on stores that differ only in graphs which it may not read. -/
def RemoteCall.Confined (c : RemoteCall) (evaluate : Evaluator)
    (graphs : TripleStore → List Term) : Prop :=
  ∀ s t, c.SameBut s t →
    c.response (backend evaluate graphs s) = c.response (backend evaluate graphs t)

def IsSafe (iri : Term) : Prop := requireSafeIri iri = .ok ()

/-- The store refuses the text, whatever it holds. -/
def Refuses (evaluate : Evaluator) (sparql : Term) : Prop :=
  ∃ message, ∀ s, evaluate s sparql = .error message

/-- What `hasClause` looks for at a boundary. -/
def clauseFollows (word : String) (cs : List Char) : Bool :=
  (dropWord word cs).any fun rest => rest.head?.any (isWhiteSpace ·)

/-- The letters of the word stand in the code where the ban does not look for them: within a longer
word, or where its test fails. -/
def unseen (word : String) (test : List Char → Bool) :
    Option Char → Bool → List Char → Bool
  | _, _, [] => false
  | prev, named, c :: rest =>
    (!named && (dropWord word (c :: rest)).isSome && !(!(prev.any isWordChar) && test (c :: rest)))
      ||
      unseen word test (some c) (namedAfter named c) rest

/-- The engine rewrites the text at the group of its query, which the guard's scanner reads as
SPARQL does, and no clause that reads another graph escapes the ban. -/
structure Scoped (sparql : Term) : Prop where
  names_no_graph : mentions "graph " sparql = false
  names_no_dataset : mentions "from " sparql = false
  group : ∃ p code : Parts, cutGroup sparql = some (p.before, p.inner, p.after) ∧
    p.code = some code ∧ code.IsGroup ∧ stripLiteralsAndComments sparql = code.text
  graph_seen : unseen "GRAPH" (clauseFollows "GRAPH") none false
    (stripLiteralsAndComments sparql) = false
  from_seen : unseen "FROM" (clauseFollows "FROM") none false
    (stripLiteralsAndComments sparql) = false
  service_seen : unseen "SERVICE" (fun cs => (dropWholeWord "SERVICE" cs).isSome) none false
    (stripLiteralsAndComments sparql) = false
  no_describe : keywordIn "DESCRIBE" false (stripLiteralsAndComments sparql) = false

def RemoteCall.Keeps (c : RemoteCall) (evaluate : Evaluator) : LookupType → Prop
  | .entityByUal => ∀ ual, given c.request.ual = some ual → IsSafe ual →
      ¬ Refuses evaluate (assetText ual) →
        ∀ contextGraphId ∈ c.contextGraphs, Admits c.config c.peerId .entityByUal contextGraphId
  | .entitiesByType =>
    let dataGraph := contextGraphDataUri c.request.contextGraph
    ∀ type, given c.request.rdfType = some type → IsSafe dataGraph → IsSafe type →
      let sparql := typeText dataGraph type (numberText c.request.effectiveLimit)
      validateReadOnlySparql sparql = none → ¬ Refuses evaluate sparql →
        c.request.effectiveLimit.value ≠ some 0 → ¬ c.Hidden dataGraph
  | .entityTriples =>
    let dataGraph := contextGraphDataUri c.request.contextGraph
    ∀ uri, given c.request.entityUri = some uri → IsSafe dataGraph → IsSafe uri →
      let sparql := entityText dataGraph uri
      validateReadOnlySparql sparql = none → ¬ Refuses evaluate sparql → ¬ c.Hidden dataGraph
  | .sparqlQuery => ∀ sparql, given c.request.sparql = some sparql → bannedClause sparql = none →
      validateReadOnlySparql sparql = none → c.late = false →
        Scoped sparql ∧ IsPlainIri (contextGraphDataUri c.request.contextGraph) ∧
          ¬ c.Hidden (contextGraphDataUri c.request.contextGraph)
  | .other _ => True

/-! ## Responses -/

section

variable {contextGraphId value opId : Term} {text : Term → Term → Term}
  {finish : List Row → Except Term QueryResponse} {count : TripleStore → ℕ}

end

/-! ## The types of lookups -/

/-- What is returned for the lookup, once it is admitted. -/
def RemoteCall.answer (c : RemoteCall) (evaluate : Evaluator) (graphs : TripleStore → List Term)
    (lookupType : LookupType) (s : TripleStore) : QueryResponse :=
  respond c.request.opId (dispatch (backend evaluate graphs s) c.late c.request lookupType)

variable {opId ual graph : Term} {limit : JsNumber} {rows : List Row} {store : Backend} {row : Row}
  {request : Option Term}

def assetQuads (ual graph : Term) : TripleStore :=
  {⟨ual ++ "/1".toList, dkg "rootEntity", "urn:x".toList, graph⟩,
    ⟨ual ++ "/1".toList, dkg "partOf", ual, graph⟩,
    ⟨ual, dkg "paranet", contextGraphDataUri ['x'], graph⟩}

end Dkg.Query
