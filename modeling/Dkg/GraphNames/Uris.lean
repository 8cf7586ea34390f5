import Dkg.Assertions.SyncHandler
import Dkg.Lib.Utf16
import Dkg.Query.Engine

/-! # The URIs of graphs and lifecycle records

Every graph of a context graph has a URI that a builder concatenates from the id of the context
graph and some names; the lifecycle record of an assertion has a URN made in the same way. A
`Vocabulary` is a choice of ids and names that their validators accept. It is `Separated` if no two
graphs or records have one URI and if the prefix of a context graph selects its own graphs only.
-/

namespace Dkg.GraphNames

open Assertions Lib SharedMemory

/-! ## Validators -/

/-- The characters that `validateContextGraphId` allows. -/
def isIdChar (c : Char) : Bool := Query.isWordChar c || c ∈ [':', '/', '.', '@', '-']

/-- The reason why a text is no id of a context graph. -/
def validateContextGraphId (id : Term) : Option Term :=
  if id = [] then some "Context graph ID cannot be empty".toList
  else if 256 < (utf16 id).length then some "Context graph ID exceeds 256 characters".toList
  else if ¬ id.all isIdChar then
    some ("Context graph ID contains disallowed characters ".toList ++
      "(allowed: alphanumeric, _, :, /, ., @, -)".toList)
  else none

/-- The reason why a text is no name of an assertion. -/
def validateAssertionName (name : Term) : Option Term :=
  if name = [] then some "Assertion name cannot be empty".toList
  else if '/' ∈ name then some "Assertion name cannot contain \x22/\x22".toList
  else if name.any isUnsafeChar then
    some "Assertion name contains characters unsafe for IRIs".toList
  else if 256 < (utf16 name).length then some "Assertion name exceeds 256 characters".toList
  else none

def isHexDigit (c : Char) : Bool :=
  Query.isDigit c || ('a' ≤ c && c ≤ 'f') || ('A' ≤ c && c ≤ 'F')

/-- An address as agents write it, in any case. -/
def IsAgentAddress (address : Term) : Prop :=
  "0x".toList <+: address ∧ (address.drop 2).all isHexDigit
  deriving Decidable

/-! ## Builders -/

/-- A graph within its context graph, one constructor for each builder; an optional argument of the
builder is an option. -/
inductive GraphKind
  | data (subGraphId : Option Term)
  | metadata (subGraphId : Option Term)
  | privateData
  | sharedMemory (subGraphName : Option Term)
  | sharedMemoryMeta (subGraphName : Option Term)
  | verifiedMemory (verifiedMemoryId : Term)
  | verifiedMemoryMeta (verifiedMemoryId : Term)
  | assertion (agentAddress name : Term) (subGraphName : Option Term)
  | rules
  | subGraph (subGraphName : Term)
  | subGraphMeta (subGraphName : Term)
  | subGraphPrivate (subGraphName : Term)
  deriving DecidableEq

/-- The builders of `constants.ts`. -/
def GraphKind.uri (contextGraphId : Term) : GraphKind → Term
  -- `contextGraphDataUri` and `contextGraphMetaUri`
  | .data none => contextGraphDataUri contextGraphId
  | .data (some subGraphId) =>
    contextGraphDataUri contextGraphId ++ "/context/".toList ++ subGraphId
  | .metadata none => contextGraphMetaUri contextGraphId
  | .metadata (some subGraphId) =>
    contextGraphDataUri contextGraphId ++ "/context/".toList ++ subGraphId ++ "/_meta".toList
  -- `contextGraphPrivateUri`
  | .privateData => contextGraphDataUri contextGraphId ++ "/_private".toList
  -- `contextGraphSharedMemoryUri` and `contextGraphSharedMemoryMetaUri`
  | .sharedMemory subGraphName => sharedMemoryUri contextGraphId subGraphName
  | .sharedMemoryMeta subGraphName => sharedMemoryMetaUri contextGraphId subGraphName
  -- `contextGraphVerifiedMemoryUri` and `contextGraphVerifiedMemoryMetaUri`
  | .verifiedMemory verifiedMemoryId =>
    contextGraphDataUri contextGraphId ++ "/_verified_memory/".toList ++ verifiedMemoryId
  | .verifiedMemoryMeta verifiedMemoryId =>
    contextGraphDataUri contextGraphId ++ "/_verified_memory/".toList ++ verifiedMemoryId ++
      "/_meta".toList
  | .assertion agentAddress name subGraphName =>
    contextGraphAssertionUri ⟨contextGraphId, agentAddress, name, subGraphName⟩
  -- `contextGraphRulesUri`
  | .rules => contextGraphDataUri contextGraphId ++ "/_rules".toList
  -- `contextGraphSubGraphUri`, `contextGraphSubGraphMetaUri` and `contextGraphSubGraphPrivateUri`
  | .subGraph subGraphName => contextGraphDataUri contextGraphId ++ '/' :: subGraphName
  | .subGraphMeta subGraphName =>
    contextGraphDataUri contextGraphId ++ '/' :: subGraphName ++ "/_meta".toList
  | .subGraphPrivate subGraphName =>
    contextGraphDataUri contextGraphId ++ '/' :: subGraphName ++ "/_private".toList

/-- What a URI stands for. -/
inductive Named
  | graph (contextGraphId : Term) (kind : GraphKind)
  | record (assertion : AssertionId)
  deriving DecidableEq

def Named.uri : Named → Term
  | .graph contextGraphId kind => kind.uri contextGraphId
  | .record assertion => assertionLifecycleUri assertion

def IsGraphOf (contextGraphId graph : Term) : Prop :=
  graph = contextGraphDataUri contextGraphId ∨ contextGraphDataUri contextGraphId ++ ['/'] <+: graph

/-! ## Vocabularies -/

/-- The ids and names in use. The ids of sub-graphs under `/context/` and of verified memories have
no validator. -/
structure Vocabulary where
  (contextGraphIds subGraphNames assertionNames agentAddresses subGraphIds : Set Term)
  verifiedMemoryIds : Set Term
  ids_valid : ∀ id ∈ contextGraphIds, validateContextGraphId id = none
  subGraphs_valid : ∀ name ∈ subGraphNames, validateSubGraphName name = none
  names_valid : ∀ name ∈ assertionNames, validateAssertionName name = none
  addresses_valid : ∀ address ∈ agentAddresses, IsAgentAddress address

namespace Vocabulary

variable (w : Vocabulary)

/-- The arguments of the builder are in use. -/
def Has : GraphKind → Prop
  | .data subGraphId | .metadata subGraphId => ∀ id ∈ subGraphId, id ∈ w.subGraphIds
  | .privateData | .rules => True
  | .sharedMemory subGraphName | .sharedMemoryMeta subGraphName =>
    ∀ name ∈ subGraphName, name ∈ w.subGraphNames
  | .verifiedMemory verifiedMemoryId | .verifiedMemoryMeta verifiedMemoryId =>
    verifiedMemoryId ∈ w.verifiedMemoryIds
  | .assertion agentAddress name subGraphName =>
    agentAddress ∈ w.agentAddresses ∧ name ∈ w.assertionNames ∧
      ∀ name ∈ subGraphName, name ∈ w.subGraphNames
  | .subGraph subGraphName | .subGraphMeta subGraphName | .subGraphPrivate subGraphName =>
    subGraphName ∈ w.subGraphNames

def named : Set Named
  | .graph contextGraphId kind => contextGraphId ∈ w.contextGraphIds ∧ w.Has kind
  | .record a => a.contextGraphId ∈ w.contextGraphIds ∧ a.agentAddress ∈ w.agentAddresses ∧
      a.name ∈ w.assertionNames ∧ ∀ name ∈ a.subGraphName, name ∈ w.subGraphNames

/-- An id, or an id with the name of a sub-graph, as a record has it. -/
def scopes : Set Term :=
  {scope | ∃ id ∈ w.contextGraphIds,
    scope = id ∨ ∃ name ∈ w.subGraphNames, scope = id ++ ':' :: name}

/-- The builders are jointly injective, and a context graph's filter selects no graph of another
one. -/
structure Separated : Prop where
  injective : Set.InjOn Named.uri w.named
  confined : ∀ a ∈ w.contextGraphIds, ∀ b ∈ w.contextGraphIds, a ≠ b →
    ∀ kind, w.Has kind → ¬ IsGraphOf a (kind.uri b)

/-- No choice of names in use can be read in two ways. -/
structure Unambiguous : Prop where
  /-- No id is another one followed by a slash and more. -/
  ids : ∀ a ∈ w.contextGraphIds, ∀ b ∈ w.contextGraphIds, ¬ a ++ ['/'] <+: b
  subGraphIds : w.contextGraphIds.Nonempty →
    ∀ id ∈ w.subGraphIds, id ++ "/_meta".toList ∉ w.subGraphIds
  verifiedMemoryIds : w.contextGraphIds.Nonempty →
    ∀ id ∈ w.verifiedMemoryIds, id ++ "/_meta".toList ∉ w.verifiedMemoryIds
  /-- No id is another one followed by a colon and the name of a sub-graph. -/
  idsWithNames : w.agentAddresses.Nonempty → w.assertionNames.Nonempty →
    ∀ a ∈ w.contextGraphIds, ∀ b ∈ w.contextGraphIds, ∀ name ∈ w.subGraphNames, b ≠ a ++ ':' :: name
  /-- Two ids do not become equal when a colon and the names of sub-graphs are added. -/
  namesWithNames : w.agentAddresses.Nonempty → w.assertionNames.Nonempty →
    ∀ a ∈ w.contextGraphIds, ∀ b ∈ w.contextGraphIds, ∀ name ∈ w.subGraphNames,
      ∀ name' ∈ w.subGraphNames, a ++ ':' :: name = b ++ ':' :: name' → a = b
  /-- No name of an assertion has an agent address and another name in it that can be taken for the
  end of a record whose id, with the name of its sub-graph, is longer. -/
  names : ∀ scope ∈ w.scopes, ∀ scope' ∈ w.scopes, ∀ address ∈ w.agentAddresses,
    ∀ address' ∈ w.agentAddresses, ∀ name ∈ w.assertionNames, ∀ name' ∈ w.assertionNames,
      ∀ between, name = between ++ address' ++ ':' :: name' →
        scope' ++ [':'] ≠ scope ++ ':' :: address ++ ':' :: between

end Vocabulary

end Dkg.GraphNames
