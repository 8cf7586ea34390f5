import Dkg.AkaEncodings.Canonical
import Dkg.Query.Exclusion
import Dkg.Sync.Verification

/-! # Queries of other agents

`QueryHandler.handle` answers a request that came over the network: it looks the context graph up in
the policies, counts the request against the peer's rate, runs the lookup on the node's own engine
and cuts an answer that is too long. The store is known by its answers, as in `Engine`; whether the
timer of a query is faster than the store is a parameter, `late`.
-/

namespace Dkg.Query

open Lib
open SharedMemory (rdfType dkg scopeUri)

open Assertions (assertSafeIri)

open Aka.Encoding (JsNumber)

/-! ## Requests and policies -/

inductive LookupType
  | entityByUal
  | entitiesByType
  | entityTriples
  | sparqlQuery
  /-- A name that is not in the type. -/
  | other (name : Term)
  deriving DecidableEq

def LookupType.name : LookupType → Term
  | .entityByUal => "ENTITY_BY_UAL".toList
  | .entitiesByType => "ENTITIES_BY_TYPE".toList
  | .entityTriples => "ENTITY_TRIPLES".toList
  | .sparqlQuery => "SPARQL_QUERY".toList
  | .other name => name

inductive QueryStatus
  | ok
  | error
  | accessDenied
  | rateLimited
  | gasLimitExceeded
  | unsupportedLookup
  deriving DecidableEq

def QueryStatus.name : QueryStatus → Term
  | .ok => "OK".toList
  | .error => "ERROR".toList
  | .accessDenied => "ACCESS_DENIED".toList
  | .rateLimited => "RATE_LIMITED".toList
  | .gasLimitExceeded => "GAS_LIMIT_EXCEEDED".toList
  | .unsupportedLookup => "UNSUPPORTED_LOOKUP".toList

structure QueryRequest where
  operationId : Option Term := none
  lookupType : Option LookupType
  contextGraphId : Option Term := none
  paranetId : Option Term := none
  ual : Option Term := none
  entityUri : Option Term := none
  rdfType : Option Term := none
  sparql : Option Term := none
  limit : Option JsNumber := none
  timeout : Option JsNumber := none

structure QueryResponse where
  operationId : Term
  status : QueryStatus
  ntriples : Option Utf16 := none
  bindings : Option Utf16 := none
  /-- A row that does not bind the entity gives `undefined`. -/
  entityUris : Option (List (Option Term)) := none
  truncated : Bool
  resultCount : ℕ
  error : Option Term := none
  deriving DecidableEq

inductive Policy
  | deny
  | publicAccess
  | allowList
  deriving DecidableEq

structure ContextGraphQueryPolicy where
  policy : Policy
  allowedPeers : Option (List Term) := none
  allowedLookupTypes : Option (List LookupType) := none
  sparqlEnabled : Option Bool := none

/-- The policy of the context graphs that are not configured. -/
inductive DefaultPolicy
  | deny
  | publicAccess
  deriving DecidableEq

/-- The policy of each context graph, and the default. -/
structure QueryAccessConfig where
  defaultPolicy : Option DefaultPolicy := none
  contextGraphs : Option (List (Term × ContextGraphQueryPolicy)) := none
  paranets : Option (List (Term × ContextGraphQueryPolicy)) := none
  rateLimitPerMinute : Option JsNumber := none

def errorResponse (opId : Term) (status : QueryStatus) (error : Term) : QueryResponse :=
  ⟨opId, status, none, none, none, false, 0, some error⟩

/-! ## Numbers of the language -/

def DEFAULT_LIMIT : ℕ := 100

def MAX_LIMIT : ℕ := 1000

def DEFAULT_TIMEOUT_MS : ℕ := 5000

def MAX_TIMEOUT_MS : ℕ := 30000

def MAX_RESULT_BYTES : ℕ := 1048576

lemma default_limit_lt : DEFAULT_LIMIT < 2 ^ 53 := by decide

lemma max_limit_lt : MAX_LIMIT < 2 ^ 53 := by decide

lemma default_timeout_lt : DEFAULT_TIMEOUT_MS < 2 ^ 53 := by decide

lemma max_timeout_lt : MAX_TIMEOUT_MS < 2 ^ 53 := by decide

/-- `Math.min` of a number and a bound. -/
def minWith (bound : Binary64) : JsNumber → JsNumber
  | .finite x => if x.value ≤ bound.value then .finite x else .finite bound
  | .infinity false => .finite bound
  | x => x

/-- `n > x`. -/
def exceeds (n : ℕ) : JsNumber → Bool
  | .finite x => x.value < n
  | .negativeZero => 0 < n
  | .infinity negative => negative
  | .nan => false

/-- `n >= x`. -/
def reaches (n : ℕ) : JsNumber → Bool
  | .finite x => x.value ≤ n
  | .negativeZero => true
  | .infinity negative => negative
  | .nan => false

/-- `rows.slice(0, x)`. -/
def slice {α : Type} (rows : List α) : JsNumber → List α
  | .finite x =>
    let i := x.value.num.tdiv x.value.den
    if i < 0 then rows.take (rows.length + i).toNat else rows.take i.toNat
  | .infinity false => rows
  | _ => []

def numberText : JsNumber → Term
  | .finite x => x.toText
  | .negativeZero => ['0']
  | .infinity negative => if negative then "-Infinity".toList else "Infinity".toList
  | .nan => "NaN".toList

def QueryRequest.effectiveLimit (request : QueryRequest) : JsNumber :=
  minWith (Binary64.ofNat MAX_LIMIT max_limit_lt)
    (request.limit.getD (.finite (Binary64.ofNat DEFAULT_LIMIT default_limit_lt)))

def QueryRequest.effectiveTimeout (request : QueryRequest) : JsNumber :=
  minWith (Binary64.ofNat MAX_TIMEOUT_MS max_timeout_lt)
    (request.timeout.getD (.finite (Binary64.ofNat DEFAULT_TIMEOUT_MS default_timeout_lt)))

/-! ## Access -/

def QueryAccessConfig.graphs (config : QueryAccessConfig) :
    Option (List (Term × ContextGraphQueryPolicy)) :=
  config.contextGraphs.or config.paranets

/-- What the configuration says of a context graph. -/
def QueryAccessConfig.policyOf (config : QueryAccessConfig) (contextGraphId : Term) :
    Option ContextGraphQueryPolicy :=
  (config.graphs.getD []).lookup contextGraphId

/-- The keys that every object has from its prototype. -/
def inheritedKeys : List Term :=
  ["constructor".toList, "__defineGetter__".toList, "__defineSetter__".toList,
    "hasOwnProperty".toList, "__lookupGetter__".toList, "__lookupSetter__".toList,
    "isPrototypeOf".toList, "propertyIsEnumerable".toList, "toString".toList, "valueOf".toList,
    "__proto__".toList, "toLocaleString".toList]

/-- What the handler reads under a key: nothing, a value of the prototype, which has no policy, or a
policy. -/
inductive Entry
  | missing
  | inherited
  | configured (policy : ContextGraphQueryPolicy)

def QueryAccessConfig.entry (config : QueryAccessConfig) (contextGraphId : Term) : Entry :=
  match config.policyOf contextGraphId with
  | some policy => .configured policy
  | none => if config.graphs.isSome ∧ contextGraphId ∈ inheritedKeys then .inherited else .missing

def hasAnyPublicContextGraph (config : QueryAccessConfig) : Bool :=
  config.defaultPolicy = some .publicAccess ||
    (config.graphs.getD []).any fun entry => entry.2.policy = .publicAccess

def notQueryable (contextGraphId : Term) : QueryResponse :=
  errorResponse [] .accessDenied
    ("Context graph '".toList ++ contextGraphId ++ "' is not queryable".toList)

def sparqlDisabled (contextGraphId : Term) : QueryResponse :=
  errorResponse [] .unsupportedLookup
    ("SPARQL queries are not enabled for context graph '".toList ++ contextGraphId ++ ['\''])

/-- The part of `checkAccess` for a policy. -/
def checkPolicy (policy : ContextGraphQueryPolicy) (lookupType : LookupType)
    (contextGraphId peerId : Term) : Option QueryResponse :=
  if policy.policy = .deny then some (notQueryable contextGraphId)
  else if policy.policy = .allowList ∧ peerId ∉ policy.allowedPeers.getD [] then
    some (errorResponse [] .accessDenied "Your peer ID is not in the allow list".toList)
  else if policy.allowedLookupTypes.getD [] ≠ [] ∧
      lookupType ∉ policy.allowedLookupTypes.getD [] then
    some (errorResponse [] .unsupportedLookup
      ("Lookup type '".toList ++ lookupType.name ++ "' is not allowed for context graph '".toList ++
        contextGraphId ++ ['\'']))
  else if lookupType = .sparqlQuery ∧ policy.sparqlEnabled ≠ some true then
    some (sparqlDisabled contextGraphId)
  else none

/-- A lookup by UAL names no context graph, and no policy is looked up for it. -/
def checkAccess (config : QueryAccessConfig) (lookupType : LookupType) (contextGraphId : Term)
    (peerId : Term) : Option QueryResponse :=
  let denied : Bool := config.defaultPolicy.getD .deny = .deny
  if lookupType = .entityByUal then
    if denied ∧ hasAnyPublicContextGraph config = false then
      some (errorResponse [] .accessDenied "No context graphs are queryable on this node".toList)
    else none
  else
    match config.entry contextGraphId with
    | .missing => if denied then some (notQueryable contextGraphId) else none
    | .inherited => if lookupType = .sparqlQuery then some (sparqlDisabled contextGraphId) else none
    | .configured policy => checkPolicy policy lookupType contextGraphId peerId

structure RateBucket where
  (count resetAt : ℕ)

abbrev Buckets := Term → Option RateBucket

/-- The bucket that the request is counted in. -/
def currentBucket (buckets : Buckets) (now : ℕ) (peerId : Term) : RateBucket :=
  ((buckets peerId).filter fun bucket => now < bucket.resetAt).getD ⟨0, now + 60000⟩

def checkRateLimit (config : QueryAccessConfig) (now : ℕ) (buckets : Buckets) (peerId : Term) :
    Option QueryResponse × Buckets :=
  let bucket := currentBucket buckets now peerId
  let counted : RateBucket := { bucket with count := bucket.count + 1 }
  let tooMany :=
    match config.rateLimitPerMinute with
    | some limit => exceeds counted.count limit
    | none => 60 < counted.count
  let retryAfter := (bucket.resetAt - now + 999) / 1000
  (if tooMany then
      some (errorResponse [] .rateLimited ("Rate limit exceeded. Retry after ".toList ++
        Nat.toDigits 10 retryAfter ++ " seconds".toList))
    else none,
    Function.update buckets peerId (some counted))

/-! ## Assets -/

def requireSafeIri (value : Term) : Except Term Unit :=
  (assertSafeIri value).mapError fun _ => "Unsafe or empty IRI value: ".toList ++ value

def escapeSparqlLiteral (value : Term) : Term :=
  value.flatMap fun c => if c = '\t' then ['\\', 't'] else SharedMemory.escape c

/-- `value.replace(/^"(.*)".*$/, '$1')`. -/
def subGraphText : Term → Term
  | '\x22' :: rest =>
    if rest.any Sync.Verification.isLineTerminator ∨ '\x22' ∉ rest then '\x22' :: rest
    else ((rest.reverse.dropWhile (· ≠ '\x22')).tail).reverse
  | value => value

example : subGraphText "\x22drafts\x22@en".toList = "drafts".toList := by decide

/-- A value without the first `did:dkg:context-graph:` in it. -/
def contextGraphIdOf (contextGraphUri : Term) : Term :=
  let front := "did:dkg:context-graph:".toList
  match indexOf front contextGraphUri with
  | some i => contextGraphUri.take i ++ contextGraphUri.drop (i + front.length)
  | none => contextGraphUri

structure ResolvedQuad where
  (subject predicate object : Option Term)
  graph : Term

structure ResolvedKA where
  (rootEntity contextGraphId : Term)
  quads : List ResolvedQuad

/-- The query for the metadata of an asset, over all graphs. -/
def assetText (ual : Term) : Term :=
  "SELECT ?rootEntity ?ctxGraph ".toList ++ "?sgName WHERE \x7b\n".toList ++
    "        GRAPH ?g \x7b\n".toList ++ "          ?ka <http://dkg.io/".toList ++
    "ontology/rootEntity> ".toList ++ "?rootEntity .\n".toList ++
    "          ?ka <http://dkg.io/".toList ++ "ontology/partOf> <".toList ++ ual ++
    "> .\n          <".toList ++ ual ++ "> <http://dkg.io/".toList ++
    "ontology/paranet> ".toList ++ "?ctxGraph .\n".toList ++ "          OPTIONAL \x7b <".toList ++
    ual ++ "> <http://dkg.io/".toList ++ "ontology/subGraphName> ".toList ++
    "?sgName \x7d\n        \x7d\n      \x7d".toList

/-- The query for the triples of an entity and of its blank nodes. -/
def rootText (dataGraph rootEntity : Term) : Term :=
  "SELECT ?s ?p ?o WHERE \x7b\n".toList ++ "        GRAPH <".toList ++ dataGraph ++
    "> \x7b\n".toList ++ "          ?s ?p ?o .\n".toList ++ "          FILTER(\n".toList ++
    "            ?s = <".toList ++ rootEntity ++ ">\n".toList ++
    "            || STRSTARTS(STR(?s), \x22".toList ++ escapeSparqlLiteral rootEntity ++
    "/.well-known/genid/\x22)\n".toList ++ "          )\n".toList ++
    "        \x7d\n      \x7d".toList

def resolvedGraph (contextGraphId : Term) (sgName : Option Term) : Term :=
  scopeUri contextGraphId (given ((given sgName).map subGraphText))

def resolveKA (store : Backend) (ual : Term) : Except Term ResolvedKA := do
  requireSafeIri ual
  let metaResult ← store.query (assetText ual)
  match metaResult.rows with
  | [] => .error ("KA not found for UAL: ".toList ++ ual)
  | row :: _ =>
    match row.lookup "rootEntity".toList, row.lookup "ctxGraph".toList with
    | some rootEntity, some contextGraphUri => do
        let contextGraphId := contextGraphIdOf contextGraphUri
        let dataGraph := resolvedGraph contextGraphId (row.lookup "sgName".toList)
        requireSafeIri dataGraph
        requireSafeIri rootEntity
        let dataResult ← store.query (rootText dataGraph rootEntity)
        return ⟨rootEntity, contextGraphId, dataResult.rows.map fun row =>
          ⟨row.lookup ['s'], row.lookup ['p'], row.lookup ['o'], dataGraph⟩⟩
    | _, _ => .error "Cannot read properties of undefined".toList

/-! ## Lookups -/

def shownValue (value : Option Term) : Term := value.getD "undefined".toList

def formatObject : Option Term → Except Term Term
  | none => .error "Cannot read properties of undefined".toList
  | some value =>
    .ok (if ['\x22'] <+: value ∨ ['\''] <+: value then value else '<' :: (value ++ ['>']))

def ntriple (subject predicate object : Option Term) : Except Term Term :=
  (formatObject object).map fun object =>
    '<' :: (shownValue subject ++ "> <".toList ++ shownValue predicate ++ "> ".toList ++ object ++
      " .".toList)

def joinLines (ntriples : List Term) : Utf16 := utf16 (['\n'].intercalate ntriples)

def assetResponse (opId : Term) (resolved : ResolvedKA) : Except Term QueryResponse := do
  let ntriples ← resolved.quads.mapM fun q => ntriple q.subject q.predicate q.object
  return { operationId := opId, status := .ok, ntriples := some (joinLines ntriples),
           truncated := false, resultCount := resolved.quads.length }

def lookupByUAL (store : Backend) (opId : Term) (ual : Option Term) : QueryResponse :=
  match given ual with
  | none => errorResponse opId .error "Invalid request: missing ual".toList
  | some ual =>
    match (resolveKA store ual).bind (assetResponse opId) with
    | .ok response => response
    | .error _ => errorResponse opId .error ("Failed to resolve UAL: ".toList ++ ual)

def typeText (dataGraph rdfType limit : Term) : Term :=
  "SELECT DISTINCT ?entity WHERE \x7b GRAPH <".toList ++ dataGraph ++ "> \x7b ?entity a <".toList ++
    rdfType ++ "> \x7d \x7d LIMIT ".toList ++ limit

def typeResponse (opId : Term) (limit : JsNumber) (rows : List Row) : QueryResponse :=
  let entityUris := rows.map (·.lookup "entity".toList)
  { operationId := opId, status := .ok, entityUris := some entityUris,
    truncated := reaches entityUris.length limit, resultCount := entityUris.length }

def lookupIn (store : Backend) (contextGraphId value : Term) (text : Term → Term → Term)
    (finish : List Row → Except Term QueryResponse) : Except Term QueryResponse := do
  let dataGraph := contextGraphDataUri contextGraphId
  requireSafeIri dataGraph
  requireSafeIri value
  let result ← query store (text dataGraph value) {}
  finish result.bindings

def lookupByType (store : Backend) (opId contextGraphId : Term) (rdfType : Option Term)
    (limit : JsNumber) : Except Term QueryResponse :=
  match given rdfType with
  | none => .ok (errorResponse opId .error "Invalid request: missing rdfType".toList)
  | some rdfType =>
    lookupIn store contextGraphId rdfType
      (fun dataGraph rdfType => typeText dataGraph rdfType (numberText limit))
      fun rows => .ok (typeResponse opId limit rows)

def entityText (dataGraph entityUri : Term) : Term :=
  "SELECT ?p ?o WHERE \x7b GRAPH <".toList ++ dataGraph ++ "> \x7b <".toList ++ entityUri ++
    "> ?p ?o \x7d \x7d".toList

def entityResponse (opId entityUri : Term) (rows : List Row) : Except Term QueryResponse := do
  let ntriples ← rows.mapM fun row =>
    ntriple (some entityUri) (row.lookup ['p']) (row.lookup ['o'])
  return { operationId := opId, status := .ok, ntriples := some (joinLines ntriples),
           truncated := false, resultCount := rows.length }

def lookupEntityTriples (store : Backend) (opId contextGraphId : Term)
    (entityUri : Option Term) : Except Term QueryResponse :=
  match given entityUri with
  | none => .ok (errorResponse opId .error "Invalid request: missing entityUri".toList)
  | some entityUri =>
    lookupIn store contextGraphId entityUri entityText (entityResponse opId entityUri)

/-! ## SPARQL -/

/-- A position after no character of a word where the test succeeds. -/
def occursAtBoundary (test : List Char → Bool) (prev : Option Char) : List Char → Bool
  | [] => false
  | c :: rest =>
    (!(prev.any isWordChar) && test (c :: rest)) || occursAtBoundary test (some c) rest

/-- `/\bword\s+/i`. -/
def hasClause (word : String) (stripped : Term) : Bool :=
  occursAtBoundary (fun cs => (dropWord word cs).any fun rest => rest.head?.any (isWhiteSpace ·))
    none stripped

/-- The clauses that a text of another agent must not have. -/
def bannedClause (sparql : Term) : Option Term :=
  let stripped := stripLiteralsAndComments sparql
  if occursAtBoundary (fun cs => (dropWholeWord "SERVICE" cs).isSome) none stripped then
    some "SERVICE clauses are not allowed in remote queries".toList
  else if hasClause "GRAPH" stripped then
    some ("Explicit GRAPH clauses are not allowed in remote queries — ".toList ++
      "queries are automatically scoped to the target context graph".toList)
  else if hasClause "FROM" stripped then
    some ("FROM/FROM NAMED clauses are not allowed in remote queries — ".toList ++
      "queries are automatically scoped to the target context graph".toList)
  else none

/-- `JSON.stringify` of rows. -/
def rowsText (rows : List Row) : List Char :=
  (Json.array (rows.map fun row =>
    .object (row.map fun binding => (utf16 binding.1, .string (utf16 binding.2))))).render

/-- The response to rows that the engine returned. -/
def sparqlResponse (opId : Term) (limit : JsNumber) (rows : List Row) : QueryResponse :=
  { operationId := opId, status := .ok, bindings := some (utf16 (rowsText (slice rows limit))),
    truncated := exceeds rows.length limit, resultCount := rows.length }

/-- What becomes of the engine's result. -/
def sparqlOutcome (opId : Term) (limit timeout : JsNumber) :
    Except Term QueryResult → Except Term QueryResponse
  | .ok result => .ok (sparqlResponse opId limit result.bindings)
  | .error message =>
    -- The timer rejects with this message, and a store may as well.
    if message = "timeout".toList then
      .ok (errorResponse opId .gasLimitExceeded
        ("Query exceeded time limit (".toList ++ numberText timeout ++ "ms)".toList))
    else .error message

def executeSparql (store : Backend) (late : Bool) (opId contextGraphId : Term)
    (sparql : Option Term) (limit timeout : JsNumber) : Except Term QueryResponse :=
  match given sparql with
  | none => .ok (errorResponse opId .error "Invalid request: missing sparql".toList)
  | some sparql =>
    match bannedClause sparql, validateReadOnlySparql sparql with
    | some reason, _ => .ok (errorResponse opId .error reason)
    | none, some reason =>
      .ok (errorResponse opId .error ("SPARQL rejected: ".toList ++ reason))
    | none, none =>
      sparqlOutcome opId limit timeout
        (if late then .error "timeout".toList
          else query store sparql { contextGraphId := some contextGraphId })

/-! ## Responses -/

/-- The fields of a response that are not `undefined`, as `JSON.stringify` writes them. -/
def QueryResponse.fields (response : QueryResponse) : List (String × List Char) :=
  let text (value : Utf16) := quoteString value
  [("operationId", text (utf16 response.operationId)),
    ("status", text (utf16 response.status.name))] ++
  (response.ntriples.map fun value => ("ntriples", text value)).toList ++
  (response.bindings.map fun value => ("bindings", text value)).toList ++
  (response.entityUris.map fun uris => ("entityUris",
    (Json.array (uris.map fun uri => (uri.map fun uri => .string (utf16 uri)).getD .null)).render)
    ).toList ++
  [("truncated", if response.truncated then "true".toList else "false".toList),
    ("resultCount", Nat.toDigits 10 response.resultCount)] ++
  (response.error.map fun value => ("error", text (utf16 value))).toList

def QueryResponse.serialized (response : QueryResponse) : Utf16 :=
  utf16 ('\x7b' :: ([','].intercalate (response.fields.map fun field =>
    quoteString (utf16 field.1.toList) ++ ':' :: field.2) ++ ['\x7d']))

/-- The response is longer than a result may be. -/
def QueryResponse.isTooLong (response : QueryResponse) : Bool :=
  MAX_RESULT_BYTES < response.serialized.length

def enforceResultSize (response : QueryResponse) : QueryResponse :=
  if response.isTooLong then
    { response with
      truncated := true
      ntriples := response.ntriples.map (·.take MAX_RESULT_BYTES)
      bindings := response.bindings.map (·.take MAX_RESULT_BYTES) }
  else response

/-! ## The handler -/

def QueryRequest.opId (request : QueryRequest) : Term := request.operationId.getD []

/-- The context graph of a request, with the older field in its place. -/
def QueryRequest.contextGraph (request : QueryRequest) : Term :=
  (request.contextGraphId.or request.paranetId).getD []

/-- What `handle` does before it asks the store: the lookup that is admitted, or the refusal. -/
def screen (config : QueryAccessConfig) (now : ℕ) (buckets : Buckets) (request : QueryRequest)
    (peerId : Term) : Except QueryResponse LookupType × Buckets :=
  let opId := request.opId
  match request.lookupType with
  | none =>
    (.error (errorResponse opId .error "Invalid request: missing lookupType".toList), buckets)
  | some lookupType =>
    if lookupType ≠ .entityByUal ∧ request.contextGraph = [] then
      (.error (errorResponse opId .error
        "Invalid request: contextGraphId is required for this lookup type".toList), buckets)
    else
      match checkAccess config lookupType request.contextGraph peerId with
      | some refusal => (.error { refusal with operationId := opId }, buckets)
      | none =>
        match checkRateLimit config now buckets peerId with
        | (some refusal, buckets) => (.error { refusal with operationId := opId }, buckets)
        | (none, buckets) => (.ok lookupType, buckets)

def dispatch (store : Backend) (late : Bool) (request : QueryRequest) :
    LookupType → Except Term QueryResponse
  | .entityByUal => .ok (lookupByUAL store request.opId request.ual)
  | .entitiesByType =>
    lookupByType store request.opId request.contextGraph request.rdfType request.effectiveLimit
  | .entityTriples =>
    lookupEntityTriples store request.opId request.contextGraph request.entityUri
  | .sparqlQuery =>
    executeSparql store late request.opId request.contextGraph request.sparql
      request.effectiveLimit request.effectiveTimeout
  | .other name =>
    .ok (errorResponse request.opId .unsupportedLookup ("Unknown lookup type: ".toList ++ name))

/-- The response to a lookup, or the one to what it threw. -/
def respond (opId : Term) : Except Term QueryResponse → QueryResponse
  | .ok response => enforceResultSize response
  | .error _ => errorResponse opId .error "Internal error processing query".toList

def handle (config : QueryAccessConfig) (store : Backend) (late : Bool) (now : ℕ)
    (buckets : Buckets) (request : QueryRequest) (peerId : Term) : QueryResponse × Buckets :=
  match screen config now buckets request peerId with
  | (.error refusal, buckets) => (refusal, buckets)
  | (.ok lookupType, buckets) =>
    (respond request.opId (dispatch store late request lookupType), buckets)

end Dkg.Query
