import Dkg.PrivateAccess.AccessHandler

/-! # Local publishes

`DKGPublisher.publish`: the checks (`prepare`), the triples that it stores before anything can fail
on the chain (`storeTriples`), and the metadata that it records once the chain has answered
(`record`). A publish that throws in between leaves its triples without a record.

What the chain, the wallet and the clock do is an input (`Settlement`).
-/

namespace Dkg.PrivateAccess

open Lib Publisher SharedMemory Assertions
open Sync.Verification (Hashing)

/-! ## Options -/

structure PublishOptions where
  contextGraphId : Term
  (quads privateQuads : List Quad)
  publisherPeerId : Term
  accessPolicy : Option AccessPolicy
  allowedPeers : List Term
  (subGraphName targetGraphUri targetMetaGraphUri : Option Term)
  /-- The option that only `publishFromSharedMemory` can set. -/
  internalOrigin : Bool

inductive PublishError
  | assertion (e : AssertionError)
  | noPublisher (policy : AccessPolicy)
  | noAllowedPeers
  | unexpectedAllowedPeers
  | invalid (errors : List RuleError)
  deriving DecidableEq

structure OnChainResult where
  publisherAddress : Term
  startKAId : ℕ
  txHash : Term
  blockNumber : ℕ
  blockTimestamp : Term
  batchId : ℕ

/-- What the wallet signs for the proof of authorship. -/
structure Authorship where
  (agentAddress signature signedHash : Term)

/-- The publish after its triples are stored: it throws, it stays tentative, or it is confirmed. -/
inductive Settlement
  | throws
  | tentative (timestamp : Term)
  | confirmed (timestamp : Term) (result : OnChainResult) (authorship : Option Authorship)

/-- The configuration of the publisher. -/
structure Config where
  (chainId publisherAddress sessionId : Term)

/-- The publisher: its store, its owned entities and its counter of publishes. -/
structure PublisherNode where
  store : TripleStore
  ownedEntities : KeyedList Term (List Term)
  tentativeCounter : ℕ

/-! ## Checks -/

variable {B : Type}

def ofAssertion {α : Type} : Except AssertionError α → Except PublishError α
  | .ok a => .ok a
  | .error e => .error (.assertion e)

/-- The sub-graph's own graph, when the sub-graph is registered. -/
def targetGraph (store : TripleStore) (options : PublishOptions) :
    Except PublishError (Option Term) :=
  match options.subGraphName.filter (· ≠ []), options.targetGraphUri.filter (· ≠ []) with
  | some name, none => do
      ofAssertion (ensureSubGraphRegistered store options.contextGraphId (some name))
      return some (scopeUri options.contextGraphId (some name))
  | _, _ => return options.targetGraphUri

def effectiveAccessPolicy (options : PublishOptions) : AccessPolicy :=
  options.accessPolicy.getD (if 0 < options.privateQuads.length then .ownerOnly else .publicAccess)

def normalizedAllowedPeers (options : PublishOptions) : List Term :=
  ((options.allowedPeers.map trim).filter (· ≠ [])).dedup

def checkAccess (options : PublishOptions) : Except PublishError Unit :=
  let policy := effectiveAccessPolicy options
  if policy ≠ .publicAccess ∧ trim options.publisherPeerId = [] then .error (.noPublisher policy)
  else if policy = .allowList ∧ normalizedAllowedPeers options = [] then .error .noAllowedPeers
  else if policy ≠ .allowList ∧ normalizedAllowedPeers options ≠ [] then
    .error .unexpectedAllowedPeers
  else .ok ()

/-- The private quads of a root entity and of its skolemized children. -/
def entityPrivateQuads (options : PublishOptions) (rootEntity : Term) : List Quad :=
  options.privateQuads.filter fun q => q.Under rootEntity

def manifestEntries (options : PublishOptions) (kaMap : KeyedList Term (List Quad)) :
    List KAManifestEntry :=
  kaMap.keys.map fun rootEntity => ⟨rootEntity, some (entityPrivateQuads options rootEntity).length⟩

/-- What `publish` knows when its checks have passed. -/
structure Prepared where
  options : PublishOptions
  kaMap : KeyedList Term (List Quad)
  dataGraph : Term

def prepare (node : PublisherNode) (options : PublishOptions) : Except PublishError Prepared := do
  let target ← targetGraph node.store options
  unless options.internalOrigin do
    ofAssertion (rejectReservedSubjects options.quads)
    ofAssertion (rejectReservedSubjects options.privateQuads)
  checkAccess options
  let kaMap := autoPartition options.quads
  let existing := (node.ownedEntities.get
    (ownershipKey options.contextGraphId (options.subGraphName.filter (· ≠ [])))).getD []
  let errors := validatePublishRequest (allQuads kaMap) (manifestEntries options kaMap)
    options.contextGraphId existing
    { allowUpsert := false, upsertableEntities := [], expectedGraph := none }
  if errors ≠ [] then throw (.invalid errors)
  return {
    options := options
    kaMap := kaMap
    dataGraph := target.getD (contextGraphDataUri options.contextGraphId) }

/-! ## Triples -/

/-- The loop of `storePrivateTriples`: a root entity that is no IRI ends it. -/
def privateToStore (options : PublishOptions) (graph : Term) : List Term → List Quad × Bool
  | [] => ([], true)
  | rootEntity :: rest =>
    let quads := entityPrivateQuads options rootEntity
    if quads = [] then privateToStore options graph rest
    else
      match checkIri rootEntity with
      | .error _ => ([], false)
      | .ok _ =>
        let (others, complete) := privateToStore options graph rest
        (inGraph graph quads ++ others, complete)

/-- The private triples, and whether all of them are stored. -/
def Prepared.privateTriples (p : Prepared) : List Quad × Bool :=
  privateToStore p.options (privateGraph p.options.contextGraphId p.options.subGraphName)
    p.kaMap.keys

def Prepared.storeTriples (p : Prepared) (store : TripleStore) : TripleStore :=
  (store.insert (inGraph p.dataGraph (allQuads p.kaMap))).insert p.privateTriples.1

/-! ## Metadata -/

section

variable [LinearOrder B] [Zero B]

def Prepared.assets (hashing : Hashing B) (p : Prepared) (ual : Term) : List (KAMetadata B) :=
  p.kaMap.entries.zipIdx.map fun entry =>
    let quads := entityPrivateQuads p.options entry.1.1
    { rootEntity := entry.1.1
      kcUal := ual
      tokenId := entry.2 + 1
      publicTripleCount := entry.1.2.length
      privateTripleCount := quads.length
      privateMerkleRoot := computePrivateRootV10 hashing quads }

def Prepared.collection (hashing : Hashing B) (p : Prepared) (ual timestamp : Term) :
    KCMetadata B where
  ual := ual
  contextGraphId := p.options.contextGraphId
  merkleRoot := computeFlatKCRootV10 hashing.keccak256 hashing.hashPair (allQuads p.kaMap)
    (p.kaMap.keys.filterMap fun rootEntity =>
      computePrivateRootV10 hashing (entityPrivateQuads p.options rootEntity))
  kaCount := p.kaMap.size
  publisherPeerId := orUnknown (trim p.options.publisherPeerId)
  accessPolicy := some (effectiveAccessPolicy p.options)
  allowedPeers := normalizedAllowedPeers p.options
  timestamp := timestamp
  subGraphName := p.options.subGraphName

/-- The metadata graph of the record. -/
def PublishOptions.metaGraph (options : PublishOptions) : Term :=
  (options.targetMetaGraphUri.filter (· ≠ [])).getD (contextGraphMetaUri options.contextGraphId)

def tentativeUal (config : Config) (tentativeSeq : ℕ) : Term :=
  "did:dkg:".toList ++ config.chainId ++ '/' :: config.publisherAddress ++ "/t".toList ++
    config.sessionId ++ '-' :: Nat.toDigits 10 tentativeSeq

def confirmedUal (config : Config) (result : OnChainResult) : Term :=
  "did:dkg:".toList ++ config.chainId ++ '/' :: result.publisherAddress ++
    '/' :: Nat.toDigits 10 result.startKAId

/-- The UAL of the record, if one is made. -/
def Settlement.ual (config : Config) (tentativeSeq : ℕ) : Settlement → Option Term
  | .throws => none
  | .tentative _ => some (tentativeUal config tentativeSeq)
  | .confirmed _ result _ => some (confirmedUal config result)

def authorshipQuads (ual contextGraphId : Term) (authorship : Option Authorship) : List Quad :=
  authorship.toList.flatMap fun a => generateAuthorshipProof {
    kcUal := ual
    contextGraphId := contextGraphId
    agentAddress := a.agentAddress
    signature := a.signature
    signedHash := a.signedHash }

def provenance (config : Config) (result : OnChainResult) : OnChainProvenance where
  txHash := result.txHash
  blockNumber := result.blockNumber
  blockTimestamp := result.blockTimestamp
  publisherAddress := result.publisherAddress
  batchId := result.batchId
  chainId := config.chainId

def Prepared.record (hashing : Hashing B) (config : Config) (p : Prepared) (tentativeSeq : ℕ) :
    Settlement → List Quad
  | .throws => []
  | .tentative timestamp =>
    let ual := tentativeUal config tentativeSeq
    inGraph p.options.metaGraph (generateTentativeMetadata hashing.toHex
      (p.collection hashing ual timestamp) (p.assets hashing ual))
  | .confirmed timestamp result authorship =>
    let ual := confirmedUal config result
    inGraph p.options.metaGraph
      (generateConfirmedFullMetadata hashing.toHex (p.collection hashing ual timestamp)
        (p.assets hashing ual) (provenance config result) ++
      authorshipQuads ual p.options.contextGraphId authorship)

/-- The entities that a confirmed publish owns. -/
def Prepared.own (p : Prepared) (owned : KeyedList Term (List Term)) :
    Settlement → KeyedList Term (List Term)
  | .confirmed .. =>
    let key := ownershipKey p.options.contextGraphId (p.options.subGraphName.filter (· ≠ []))
    owned.set key ((owned.get key).getD [] ++ p.kaMap.keys)
  | _ => owned

/-- Whether the publish gets to its metadata. -/
def Prepared.isRecorded (p : Prepared) : Settlement → Bool
  | .throws => false
  | _ => p.privateTriples.2

/-- `publish` after its checks. -/
def Prepared.run (hashing : Hashing B) (config : Config) (node : PublisherNode) (p : Prepared)
    (settlement : Settlement) : PublisherNode :=
  let stored := p.storeTriples node.store
  if p.isRecorded settlement then
    let tentativeSeq := node.tentativeCounter + 1
    { store := stored.insert (p.record hashing config tentativeSeq settlement)
      ownedEntities := p.own node.ownedEntities settlement
      tentativeCounter := tentativeSeq }
  else { node with store := stored }

/-- With what it prepared. -/
def publish (hashing : Hashing B) (config : Config) (node : PublisherNode)
    (options : PublishOptions) (settlement : Settlement) :
    Except PublishError (Prepared × PublisherNode) :=
  (prepare node options).map fun p => (p, p.run hashing config node settlement)

end

end Dkg.PrivateAccess
