import Dkg.Assertions.Operations
import Dkg.Query.Guard

/-! # The query engine

`DKGQueryEngine.query` passes the guard, picks the graphs that the options ask for, rewrites the
text so that its outermost group reads them, and runs it on the store. The evaluation of the text is
the store's own: a backend is known here by its answers.
-/

namespace Dkg.Query

open SharedMemory (scopeUri sharedMemoryUri)

open Assertions (validateSubGraphName)

/-! ## Answers -/

/-- A row of bindings: the variables and their values. -/
abbrev Row := List (Term × Term)

/-- What a store answers. -/
inductive StoreResult
  | bindings (rows : List Row)
  | quads (quads : List Quad)
  | boolean (value : Bool)
  deriving DecidableEq

structure QueryResult where
  bindings : List Row
  quads : Option (List Quad)
  deriving DecidableEq

/-- A store as the engine sees it. -/
structure Backend where
  query : Term → Except Term StoreResult
  listGraphs : List Term

def booleanRow (value : Bool) : Row :=
  [("result".toList, if value then "true".toList else "false".toList)]

def normalize : StoreResult → QueryResult
  | .bindings rows => ⟨rows, none⟩
  | .quads quads => ⟨[], some quads⟩
  | .boolean value => ⟨[booleanRow value], none⟩

def execAndNormalize (store : Backend) (sparql : Term) : Except Term QueryResult :=
  (store.query sparql).map normalize

/-- An answer that suits the form of the query. -/
def emptyQueryResultForKind (sparql : Term) : QueryResult :=
  match classifySparqlForm sparql with
  | .ask => ⟨[booleanRow false], none⟩
  | .construct | .describe => ⟨[], some []⟩
  | .select => ⟨[], none⟩

/-! ## Rewriting -/

/-- The text after a match of `WHERE\s*{` at the start of a text. -/
def afterWhere (cs : List Char) : Option (List Char) :=
  match (dropWord "WHERE" cs).map (·.dropWhile (isWhiteSpace ·)) with
  | some ('\x7b' :: rest) => some rest
  | _ => none

/-- A text up to the end of the first match of `WHERE\s*{`, and the rest of it. -/
def cutAfterWhere : List Char → Option (List Char × List Char)
  | [] => none
  | c :: cs =>
    match afterWhere (c :: cs) with
    | some rest => some ((c :: cs).take (cs.length + 1 - rest.length), rest)
    | none => (cutAfterWhere cs).map fun p => (c :: p.1, p.2)

/-- A text cut before the brace that closes the innermost of `depth + 1` open groups. -/
def cutBeforeClose : ℕ → List Char → Option (List Char × List Char)
  | _, [] => none
  | depth, c :: cs =>
    if c = '\x7b' then (cutBeforeClose (depth + 1) cs).map fun p => (c :: p.1, p.2)
    else if c = '\x7d' then
      match depth with
      | 0 => some ([], c :: cs)
      | depth + 1 => (cutBeforeClose depth cs).map fun p => (c :: p.1, p.2)
    else (cutBeforeClose depth cs).map fun p => (c :: p.1, p.2)

def mentions (word : String) (sparql : Term) : Bool :=
  decide (word.toList <:+: sparql.map Char.toLower)

/-- A text before, inside and after the group that the first `WHERE` opens. -/
def cutGroup (sparql : Term) : Option (Term × Term × Term) := do
  let (before, rest) ← cutAfterWhere sparql
  let (inner, after) ← cutBeforeClose 0 rest
  return (before, inner, after)

/-- `wrapWithGraph` and `wrapWithGraphUnion`, which write `opening` at the start of the group. -/
def wrapGroup (opening sparql : Term) : Term :=
  if mentions "graph " sparql then sparql
  else
    match cutGroup sparql with
    | some (before, inner, after) =>
      before ++ [' '] ++ opening ++ " \x7b ".toList ++ inner ++ " \x7d ".toList ++ after
    | none => sparql

def wrapWithGraph (sparql graphUri : Term) : Term :=
  wrapGroup ("GRAPH <".toList ++ graphUri ++ ['>']) sparql

def wrapWithGraphUnion (sparql : Term) (graphUris : List Term) : Term :=
  let valuesClause := [' '].intercalate (graphUris.map fun g => '<' :: (g ++ ['>']))
  wrapGroup ("VALUES ?_viewGraph \x7b ".toList ++ valuesClause ++ " \x7d GRAPH ?_viewGraph".toList)
    sparql

/-! ## Views -/

inductive GetView
  | workingMemory
  | sharedWorkingMemory
  | verifiedMemory
  /-- The views that were removed. -/
  | longTermMemory
  | authoritative

def GetView.name : GetView → Term
  | .workingMemory => "working-memory".toList
  | .sharedWorkingMemory => "shared-working-memory".toList
  | .verifiedMemory => "verified-memory".toList
  | .longTermMemory => "long-term-memory".toList
  | .authoritative => "authoritative".toList

inductive TrustLevel
  | selfAttested
  | endorsed
  | partiallyVerified
  | consensusVerified

def TrustLevel.level : TrustLevel → ℕ
  | .selfAttested => 0
  | .endorsed => 1
  | .partiallyVerified => 2
  | .consensusVerified => 3

def TrustLevel.digit : TrustLevel → Term
  | .selfAttested => ['0']
  | .endorsed => ['1']
  | .partiallyVerified => ['2']
  | .consensusVerified => ['3']

structure QueryOptions where
  contextGraphId : Option Term := none
  paranetId : Option Term := none
  graphSuffix : Option Term := none
  includeSharedMemory : Option Bool := none
  includeWorkspace : Option Bool := none
  view : Option GetView := none
  agentAddress : Option Term := none
  verifiedGraph : Option Term := none
  assertionName : Option Term := none
  subGraphName : Option Term := none
  excludeGraphPrefixes : List Term := []
  minTrust : Option TrustLevel := none
  legacyMinTrust : Option TrustLevel := none

/-- An option that is set to a text which is not empty. -/
def given (value : Option Term) : Option Term := value.filter (· ≠ [])

def QueryOptions.effectiveContextGraphId (options : QueryOptions) : Option Term :=
  given (options.contextGraphId.or options.paranetId)

def QueryOptions.trust (options : QueryOptions) : Option TrustLevel :=
  options.minTrust.or options.legacyMinTrust

structure ViewResolution where
  (graphs graphPrefixes : List Term)

def removedView (view : GetView) : Term :=
  "View '".toList ++ view.name ++ "' was removed in V10. ".toList ++
    "Use 'verified-memory' for on-chain anchored data. See migration guide for details.".toList

def verifiedGraphTrust (trust : TrustLevel) : Term :=
  "verified-memory: verifiedGraph cannot be combined with minTrust above Endorsed ".toList ++
    "(got minTrust=".toList ++ trust.digit ++
    "). The engine cannot yet prove a named sub-graph satisfies ".toList ++
    "PartiallyVerified or ConsensusVerified; drop verifiedGraph to union across all ".toList ++
    "quorum-verified sub-graphs, or use minTrust=Endorsed to read the specific sub-graph.".toList

def unsupportedTrust (trust : TrustLevel) : Term :=
  "Invalid minTrust=".toList ++ trust.digit ++
    " for verified-memory: values above Endorsed are not yet supported — ".toList ++
    "the engine cannot currently prove a ".toList ++
    "\x60/_verified_memory/<quorum>\x60 sub-graph satisfies PartiallyVerified or ".toList ++
    "ConsensusVerified. Use minTrust=Endorsed (1) to restrict to quorum-verified ".toList ++
    "sub-graphs, or track Q-1 for per-graph trust tagging. ".toList ++
    "See packages/query/src/query-engine.ts QueryOptions.minTrust.".toList

def verifiedMemoryPrefix (contextGraphId : Term) : Term :=
  contextGraphDataUri contextGraphId ++ "/_verified_memory/".toList

def assertionPrefix (contextGraphId agentAddress : Term) : Term :=
  contextGraphDataUri contextGraphId ++ "/assertion/".toList ++ agentAddress ++ ['/']

/-- The graphs of the verified memory; a level above `endorsed` is refused, and one above
`selfAttested` leaves out the data graph. -/
def resolveVerifiedMemory (contextGraphId : Term) (options : QueryOptions) :
    Except Term ViewResolution :=
  match given options.verifiedGraph, options.trust.filter (1 < ·.level) with
  | some _, some trust => .error (verifiedGraphTrust trust)
  | some name, none => .ok ⟨[verifiedMemoryPrefix contextGraphId ++ name], []⟩
  | none, some trust => .error (unsupportedTrust trust)
  | none, none =>
    .ok ⟨if options.trust.any (0 < ·.level) then [] else [contextGraphDataUri contextGraphId],
      [verifiedMemoryPrefix contextGraphId]⟩

def resolveViewGraphs (view : GetView) (contextGraphId : Term) (options : QueryOptions) :
    Except Term ViewResolution :=
  match view with
  | .longTermMemory | .authoritative => .error (removedView view)
  | .workingMemory =>
    match given options.agentAddress, given options.assertionName with
    | none, _ => .error "agentAddress is required for the working-memory view".toList
    | some agentAddress, some name =>
      .ok ⟨[assertionPrefix contextGraphId agentAddress ++ name], []⟩
    | some agentAddress, none => .ok ⟨[], [assertionPrefix contextGraphId agentAddress]⟩
  | .sharedWorkingMemory => .ok ⟨[sharedMemoryUri contextGraphId none], []⟩
  | .verifiedMemory => resolveVerifiedMemory contextGraphId options

def discoverGraphsByPrefix (store : Backend) (front : Term) : List Term :=
  store.listGraphs.filter fun g =>
    front <+: g ∧ ¬ "/_meta".toList <:+: g ∧ ¬ "/staging/".toList <:+: g

/-- `queryMultipleGraphs`, with the answer to a view that has no graphs. -/
def queryGraphs (store : Backend) (sparql : Term) : List Term → Except Term QueryResult
  | [] => .ok (emptyQueryResultForKind sparql)
  | [graph] => execAndNormalize store (wrapWithGraph sparql graph)
  | graphs => execAndNormalize store (wrapWithGraphUnion sparql graphs)

def queryWithView (store : Backend) (sparql : Term) (view : GetView) (contextGraphId : Term)
    (options : QueryOptions) : Except Term QueryResult := do
  let resolution ← resolveViewGraphs view contextGraphId options
  queryGraphs store sparql
    (resolution.graphs ++ resolution.graphPrefixes.flatMap (discoverGraphsByPrefix store))

/-! ## Merging -/

/-- Rows are the same when they bind the same variables to the same values, in whatever order. -/
def dedupeBindings (rows : List Row) : List Row :=
  rows.foldl
    (fun out row => if out.any fun kept => decide (row.Perm kept) then out else out ++ [row]) []

def dedupeQuads (quads : List Quad) : List Quad :=
  quads.foldl (fun out q => if q ∈ out then out else out ++ [q]) []

def StoreResult.rows : StoreResult → List Row
  | .bindings found => found
  | _ => []

def StoreResult.graph : StoreResult → List Quad
  | .quads found => found
  | _ => []

def StoreResult.truth : StoreResult → Bool
  | .boolean value => value
  | _ => false

def mergeSharedMemoryAndDataResults (dataResult smResult : StoreResult) : QueryResult :=
  match dataResult, smResult with
  | .bindings rows, .bindings more => ⟨dedupeBindings (rows ++ more), none⟩
  | .quads _, _ => ⟨[], some (dedupeQuads (dataResult.graph ++ smResult.graph))⟩
  | _, .quads _ => ⟨[], some (dedupeQuads (dataResult.graph ++ smResult.graph))⟩
  | _, _ => ⟨[booleanRow (dataResult.truth || smResult.truth)], none⟩

/-! ## Excluded graphs -/

/-- A value without the angle brackets or the quotation marks around it. -/
def cleanValue (value : Term) : Term :=
  let value := if value.head?.any (· ∈ ['<', '\x22']) then value.tail else value
  if value.getLast?.any (· ∈ ['>', '\x22']) then value.dropLast else value

def IsExcluded (prefixes : List Term) (uri : Term) : Prop := ∃ front ∈ prefixes, front <+: uri
  deriving Decidable

/-- No value of the row looks like the URI of an excluded graph. -/
def Shows (prefixes : List Term) (row : Row) : Prop :=
  ∀ binding ∈ row, ¬ IsExcluded prefixes (cleanValue binding.2)
  deriving Decidable

def filterExcludedGraphs (result : QueryResult) (prefixes : List Term) : QueryResult :=
  { result with bindings := result.bindings.filter (Shows prefixes ·) }

/-! ## Queries -/

/-- The text that a context graph is asked with, unless it names graphs with `FROM`. -/
def scopedSparql (sparql contextGraphId : Term) (options : QueryOptions) : Term :=
  let subGraphName := given options.subGraphName
  if options.graphSuffix = some "_shared_memory".toList then
    wrapWithGraph sparql (sharedMemoryUri contextGraphId subGraphName)
  else wrapWithGraph sparql (scopeUri contextGraphId subGraphName)

/-- The routing of a query without a view. -/
def legacyQuery (store : Backend) (sparql : Term) (options : QueryOptions) :
    Except Term QueryResult :=
  let finish (text : Term) : Except Term QueryResult :=
    (execAndNormalize store text).map fun result =>
      if options.excludeGraphPrefixes = [] ∨ result.bindings = [] then result
      else filterExcludedGraphs result options.excludeGraphPrefixes
  match options.effectiveContextGraphId with
  | none => finish sparql
  | some contextGraphId =>
    if mentions "from " sparql then finish sparql
    else if (options.includeSharedMemory.or options.includeWorkspace).getD false then do
      let subGraphName := given options.subGraphName
      let dataResult ← store.query (wrapWithGraph sparql (scopeUri contextGraphId subGraphName))
      let smResult ←
        store.query (wrapWithGraph sparql (sharedMemoryUri contextGraphId subGraphName))
      return mergeSharedMemoryAndDataResults dataResult smResult
    else finish (scopedSparql sparql contextGraphId options)

def viewNeedsContextGraph (view : GetView) : Term :=
  "view '".toList ++ view.name ++
    "' requires a contextGraphId or paranetId to scope the query".toList

def viewWithSubGraph (view : GetView) : Term :=
  "subGraphName cannot be combined with view-based routing (view='".toList ++ view.name ++
    "'). Sub-graph scoping within views is deferred to V10.x.".toList

/-- The routing of a query that has passed the guard. -/
def routeQuery (store : Backend) (sparql : Term) (options : QueryOptions) :
    Except Term QueryResult :=
  match (given options.subGraphName).bind validateSubGraphName, options.view with
  | some reason, _ => .error ("Invalid sub-graph name for query: ".toList ++ reason)
  | none, none => legacyQuery store sparql options
  | none, some view =>
    match options.effectiveContextGraphId, given options.subGraphName with
    | none, _ => .error (viewNeedsContextGraph view)
    | some _, some _ => .error (viewWithSubGraph view)
    | some contextGraphId, none => queryWithView store sparql view contextGraphId options

def query (store : Backend) (sparql : Term) (options : QueryOptions) : Except Term QueryResult :=
  match validateReadOnlySparql sparql with
  | some reason => .error ("SPARQL rejected: ".toList ++ reason)
  | none => routeQuery store sparql options

end Dkg.Query
