import Dkg.Assertions.Operations
import Dkg.Publisher.CollectionMetadata
import Dkg.Sync.Verification

/-! # Access to private triples

`AccessHandler.handleAccess` on the publisher's node. The metadata of the requested asset is one row
of a query over the metadata graphs (`IsRow`); which one, the store decides. The row gives the root
entity, its private graph and the policy, and the answer is every private triple of the root entity.

A peer id is the text of an authenticated identity. Bytes are numbers.
-/

namespace Dkg.PrivateAccess

open Lib Publisher SharedMemory Assertions
open Sync.Verification (Hashing isLineTerminator codeUnits parseByte)

/-! ## Requests -/

/-- The text of a peer id has letters and digits only. -/
structure PeerId where
  text : Term
  isAlphanum : ∀ c ∈ text, c.isAlphanum

/-- The peer id that the requester names is not read. -/
structure AccessRequest where
  kaUal : Term
  (paymentProof requesterSignature requesterPublicKey : List ℕ)

/-- Why a request is denied. -/
inductive Denial
  | invalidFormat
  | notFound
  | invalidPolicy
  | noPrivateTriples
  | ownerMissing
  | notOwner
  | allowListMissing
  | notAllowed
  | signatureRequired
  | publicKeyRequired
  | invalidSignature
  | unsafeIri (value : Term)
  /-- An exception of the engine. -/
  | noPairs
  deriving DecidableEq

def Denial.reason : Denial → Option Term
  | .invalidFormat => some "Invalid KA UAL format".toList
  | .notFound => some "KA not found".toList
  | .invalidPolicy => some "Access denied: invalid access policy metadata".toList
  | .noPrivateTriples => some "No private triples available for this KA".toList
  | .ownerMissing => some "Access denied: owner identity missing for owner-only policy".toList
  | .notOwner => some "Access denied: owner-only policy".toList
  | .allowListMissing => some "Access denied: allow list missing or empty".toList
  | .notAllowed => some "Access denied: not on allow list".toList
  | .signatureRequired =>
    some "Access denied: signature required for non-public access".toList
  | .publicKeyRequired =>
    some "Access denied: public key required for signature verification".toList
  | .invalidSignature => some "Access denied: invalid signature".toList
  | .unsafeIri value => some ("Unsafe or empty IRI value: ".toList ++ value)
  | .noPairs => none

/-! ## Literals -/

/-- What may follow the closing quotation mark. -/
def IsLiteralEnd (rest : Term) : Prop :=
  rest = [] ∨ (("^^".toList <+: rest ∨ ['@'] <+: rest) ∧ rest.any isLineTerminator = false)
  deriving Decidable

/-- The text up to the last quotation mark that can be the closing one. -/
def literalBody : Term → Option Term
  | [] => none
  | c :: rest =>
    match literalBody rest with
    | some body => if isLineTerminator c then none else some (c :: body)
    | none => if c = '\x22' ∧ IsLiteralEnd rest then some [] else none

def stripLiteral (s : Term) : Term :=
  if ['\x22'] <+: s ∧ ['\x22'] <:+ s then s.tail.dropLast
  else if ['\x22'] <+: s then (literalBody s.tail).getD s
  else s

/-! ## Private graphs -/

def privateGraph (contextGraphId : Term) (subGraphName : Option Term) : Term :=
  scopeUri contextGraphId (subGraphName.filter (· ≠ [])) ++ "/_private".toList

/-- A triple that `getPrivateTriples` selects. -/
def IsPrivateTriple (graph rootEntity : Term) (q : Quad) : Prop :=
  q.graph = graph ∧ q.Under rootEntity ∧ ¬ IsBlankNode q.subject
  deriving Decidable

/-- The rows of `getPrivateTriples`, in any order. -/
def ArePrivateTriples (store : TripleStore) (graph rootEntity : Term) (rows : List Quad) : Prop :=
  rows.Nodup ∧ ∀ q, q ∈ rows ↔ q ∈ store ∧ IsPrivateTriple graph rootEntity q

/-! ## The metadata of an asset -/

/-- A row of the query of `lookupKAMeta`. -/
structure Row where
  (rootEntity contextGraph kc : Term)
  (privateMerkleRoot privateTripleCount accessPolicy publisherPeerId attributedTo : Option Term)
  sgName : Option Term
  deriving DecidableEq

/-- `?expectedMetaGraph`, which the graph of the row has to be. -/
def Row.graph (row : Row) : Term := row.contextGraph ++ "/_meta".toList

/-- `OPTIONAL \x7b s p ?o \x7d`. -/
def Binds (store : TripleStore) (graph s p : Term) : Option Term → Prop
  | some o => (⟨s, p, o, graph⟩ : Quad) ∈ store
  | none => ∀ q ∈ store, ¬ (q.graph = graph ∧ q.subject = s ∧ q.predicate = p)

instance decidableBinds (store : TripleStore) (graph s p : Term) :
    (o : Option Term) → Decidable (Binds store graph s p o)
  | some _ => Finset.decidableMem _ _
  | none => inferInstanceAs (Decidable (∀ q ∈ store, _))

/-- The row is an answer to the handler's query for the asset. -/
structure IsRow (store : TripleStore) (kaUal : Term) (row : Row) : Prop where
  rootEntity : (⟨kaUal, dkg "rootEntity", row.rootEntity, row.graph⟩ : Quad) ∈ store
  partOf : (⟨kaUal, dkg "partOf", row.kc, row.graph⟩ : Quad) ∈ store
  paranet : (⟨row.kc, dkg "paranet", row.contextGraph, row.graph⟩ : Quad) ∈ store
  privateMerkleRoot :
    Binds store row.graph kaUal (dkg "privateMerkleRoot") row.privateMerkleRoot
  privateTripleCount :
    Binds store row.graph kaUal (dkg "privateTripleCount") row.privateTripleCount
  accessPolicy : Binds store row.graph row.kc (dkg "accessPolicy") row.accessPolicy
  publisherPeerId : Binds store row.graph row.kc (dkg "publisherPeerId") row.publisherPeerId
  attributedTo : Binds store row.graph row.kc (prov "wasAttributedTo") row.attributedTo
  sgName : Binds store row.graph row.kc (dkg "subGraphName") row.sgName

/-- The answer to the query, with `LIMIT 1`. -/
def IsAnswer (store : TripleStore) (kaUal : Term) : Option Row → Prop
  | some row => IsRow store kaUal row
  | none => ∀ row, ¬ IsRow store kaUal row

/-- The context graph of a row: the first occurrence of the front is cut out. -/
def Row.contextGraphId (row : Row) : Term :=
  let front := "did:dkg:context-graph:".toList
  match indexOf front row.contextGraph with
  | some i => row.contextGraph.take i ++ row.contextGraph.drop (i + front.length)
  | none => row.contextGraph

/-- A bound value, read as a literal. -/
def readOptional (value : Option Term) : Option Term := (value.filter (· ≠ [])).map stripLiteral

/-- `isAccessPolicy`. -/
def accessPolicyOf (value : Term) : Option AccessPolicy :=
  [.publicAccess, .ownerOnly, .allowList].find? fun policy => policy.name = value

def Row.policy (row : Row) : Option AccessPolicy :=
  (readOptional row.accessPolicy).bind accessPolicyOf

def Row.hasInvalidExplicitPolicy (row : Row) : Bool :=
  (readOptional row.accessPolicy).any fun value => value ≠ [] ∧ (accessPolicyOf value).isNone

def Row.publisher (row : Row) : Option Term :=
  (readOptional row.publisherPeerId).or (readOptional row.attributedTo)

def Row.subGraphName (row : Row) : Option Term := readOptional row.sgName

def Row.privateGraph (row : Row) : Term :=
  PrivateAccess.privateGraph row.contextGraphId row.subGraphName

/-- The second query of `lookupKAMeta`. -/
def allowedPeers (store : TripleStore) (row : Row) : Finset Term :=
  ((store.filter fun q => q.graph = contextGraphMetaUri row.contextGraphId ∧ q.subject = row.kc ∧
    q.predicate = dkg "allowedPeer" ∧ q.object ≠ []).image fun q => stripLiteral q.object)

/-- The pairs of characters that `.\x7b2\x7d` matches one after the other. -/
def hexPairs : List (Option Char) → List (Option Char × Option Char)
  | u :: v :: rest =>
    if u.any isLineTerminator then hexPairs (v :: rest)
    else if v.any isLineTerminator then hexPairs rest
    else (u, v) :: hexPairs rest
  | _ => []

def recordedRoot (value : Option Term) : Except Denial (Option (List ℕ)) :=
  match readOptional value with
  | none => .ok none
  | some text =>
    let hex := codeUnits (if "0x".toList <+: text then text.drop 2 else text)
    let pairs := hexPairs hex
    if hex = [] then .ok none
    else if pairs = [] then .error .noPairs
    else .ok (some ((List.range (hex.length / 2)).map fun i =>
      (pairs[i]?.map fun pair => parseByte pair.1 pair.2).getD 0))

structure KAMeta where
  (rootEntity contextGraphId : Term)
  subGraphName : Option Term
  privateMerkleRoot : Option (List ℕ)
  accessPolicy : Option AccessPolicy
  hasInvalidExplicitPolicy : Bool
  publisherPeerId : Option Term
  allowedPeers : Finset Term

def denyIf (c : Prop) [Decidable c] (denial : Denial) : Except Denial Unit :=
  if c then .error denial else .ok ()

def checkIri (value : Term) : Except Denial Unit :=
  match assertSafeIri value with
  | .ok _ => .ok ()
  | .error _ => .error (.unsafeIri value)

/-- What a row says about an asset. -/
def rowMeta (store : TripleStore) (row : Row) : Except Denial KAMeta := do
  let privateMerkleRoot ← recordedRoot row.privateMerkleRoot
  checkIri (contextGraphMetaUri row.contextGraphId)
  checkIri row.kc
  return {
    rootEntity := row.rootEntity
    contextGraphId := row.contextGraphId
    subGraphName := row.subGraphName
    privateMerkleRoot := privateMerkleRoot
    accessPolicy := row.policy
    hasInvalidExplicitPolicy := row.hasInvalidExplicitPolicy
    publisherPeerId := row.publisher
    allowedPeers := allowedPeers store row }

def lookupKAMeta (store : TripleStore) (kaUal : Term) (answer : Option Row) :
    Except Denial (Option KAMeta) := do
  checkIri kaUal
  match answer with
  | none => return none
  | some row => return some (← rowMeta store row)

/-! ## The decision -/

def resolveAccessPolicy (accessPolicy : Option AccessPolicy) (hasPrivate : Bool) : AccessPolicy :=
  accessPolicy.getD (if hasPrivate then .ownerOnly else .publicAccess)

def enforcePolicy (policy : AccessPolicy) (publisherPeerId : Option Term)
    (allowedPeers : Finset Term) (fromPeerId : Term) : Except Denial Unit :=
  match policy with
  | .publicAccess => .ok ()
  | .ownerOnly =>
    match publisherPeerId.filter (· ≠ []) with
    | none => .error .ownerMissing
    | some publisher =>
      if publisher = "unknown".toList then .error .ownerMissing
      else if fromPeerId ≠ publisher then .error .notOwner
      else .ok ()
  | .allowList =>
    if allowedPeers = ∅ then .error .allowListMissing
    else if fromPeerId ∉ allowedPeers then .error .notAllowed
    else .ok ()

/-- `toHex`. -/
def byteHex (b : ℕ) : Term :=
  (if b < 16 then ['0'] else []) ++ Nat.toDigits 16 b

/-- The key is the requester's own: nothing ties it to the peer. -/
def checkSignature (ed25519Verify : List ℕ → Term → List ℕ → Bool) (policy : AccessPolicy)
    (request : AccessRequest) : Except Denial Unit :=
  if policy = .publicAccess then .ok ()
  else if request.requesterSignature = [] then .error .signatureRequired
  else if request.requesterPublicKey = [] then .error .publicKeyRequired
  else if ed25519Verify request.requesterSignature
      (request.kaUal ++ request.paymentProof.flatMap byteHex) request.requesterPublicKey then .ok ()
  else .error .invalidSignature

/-! ## The answer -/

/-- A granted request: the triples and their root. -/
structure AccessResponse (B : Type) where
  privateQuads : List Quad
  privateMerkleRoot : B

/-- The triples as the response writes them. -/
def AccessResponse.nquads {B : Type} (response : AccessResponse B) : Term :=
  ['\n'].intercalate (response.privateQuads.map fun q =>
    '<' :: q.subject ++ "> <".toList ++ q.predicate ++ "> ".toList ++ q.object ++ " <".toList ++
      q.graph ++ "> .".toList)

section

variable {B : Type} [LinearOrder B] [Zero B]

def computePrivateRootV10 (hashing : Hashing B) (privateQuads : List Quad) : Option B :=
  if privateQuads = [] then none
  else some (V10MerkleTree.new hashing.hashPair
    (privateQuads.map (hashTripleV10 hashing.keccak256))).root

/-- The root of the response: the recorded one, the computed one, or zeros. -/
def responseRoot (hashing : Hashing B) (recorded : Option (List ℕ)) (privateQuads : List Quad) :
    B :=
  match recorded with
  | some bytes => hashing.ofBytes bytes
  | none =>
    (computePrivateRootV10 hashing privateQuads).getD (hashing.ofBytes (List.replicate 32 0))

/-- Whether there are private triples: in the handler's own tracker, or else in the store. -/
def checkPrivate (tracked : Bool) (graph rootEntity : Term) (rows : List Quad) :
    Except Denial Unit :=
  if tracked then .ok ()
  else do
    checkIri graph
    checkIri rootEntity
    denyIf (rows = []) .noPrivateTriples

/-- `handleAccess`. `tracked` is whether the handler's own tracker has the entity; `answer` and
`rows` are what the store answers. -/
def handleAccess (hashing : Hashing B) (ed25519Verify : List ℕ → Term → List ℕ → Bool)
    (tracked : Bool) (store : TripleStore) (request : AccessRequest) (fromPeerId : PeerId)
    (answer : Option Row) (rows : List Quad) : Except Denial (AccessResponse B) := do
  denyIf (request.kaUal.count '/' < 2) .invalidFormat
  let ka ← (← lookupKAMeta store request.kaUal answer).elim (throw .notFound) pure
  denyIf (ka.hasInvalidExplicitPolicy = true) .invalidPolicy
  checkPrivate tracked (privateGraph ka.contextGraphId ka.subGraphName) ka.rootEntity rows
  let policy := resolveAccessPolicy ka.accessPolicy true
  enforcePolicy policy ka.publisherPeerId ka.allowedPeers fromPeerId.text
  checkSignature ed25519Verify policy request
  checkIri (privateGraph ka.contextGraphId ka.subGraphName)
  checkIri ka.rootEntity
  return {
    privateQuads := rows
    privateMerkleRoot := responseRoot hashing ka.privateMerkleRoot rows }

end

end Dkg.PrivateAccess
