import Dkg.Publisher.UpdateHandler
import Dkg.SharedMemory.Metadata

/-! # Metadata of knowledge collections

The quads that record a knowledge collection and its assets in a metadata graph: the tentative
record that comes with a broadcast, the confirmed one with its place on the chain, the proof of
authorship, and the registration of a sub-graph. Each is a list of quads; what it says under a
predicate has a lemma of its own, so that the proofs above never unfold a record.
-/

namespace Dkg.Publisher

open SharedMemory List

variable {B : Type}

/-! ## Predicates -/

@[simp]
lemma dkg_inj {a b : String} : dkg a = dkg b ↔ a = b := by
  constructor
  · intro h
    exact String.toList_inj.mp (append_cancel_left h)
  · rintro rfl
    rfl

lemma ne_of_take {a b : Term} (n : ℕ) (h : a.take n ≠ b.take n) : a ≠ b := by
  rintro rfl
  exact h rfl

lemma take_dkg (name : String) : (dkg name).take 10 = "http://dkg".toList := by
  show ("http://dkg.io/ontology/".toList ++ name.toList).take 10 = "http://dkg".toList
  rw [take_append_of_le_length (by decide)]
  decide

lemma take_prov (name : String) : (prov name).take 25 = "http://www.w3.org/ns/prov".toList := by
  show ("http://www.w3.org/ns/prov#".toList ++ name.toList).take 25 = _
  rw [take_append_of_le_length (by decide)]
  decide

@[simp]
lemma rdfType_ne_dkg (name : String) : rdfType ≠ dkg name :=
  ne_of_take 10 (by rw [take_dkg]; decide)

@[simp]
lemma rdfType_ne_prov (name : String) : rdfType ≠ prov name :=
  ne_of_take 25 (by rw [take_prov]; decide)

@[simp]
lemma dkg_ne_rdfType (name : String) : dkg name ≠ rdfType := (rdfType_ne_dkg name).symm

@[simp]
lemma prov_ne_rdfType (name : String) : prov name ≠ rdfType := (rdfType_ne_prov name).symm

@[simp]
lemma prov_ne_dkg (name name' : String) : prov name ≠ dkg name' := by
  intro h
  have htake := congrArg (List.take 10) h
  rw [take_dkg, show (10 : ℕ) = min 10 25 from rfl, ← take_take, take_prov] at htake
  exact absurd htake (by decide)

@[simp]
lemma dkg_ne_prov (name name' : String) : dkg name ≠ prov name' := (prov_ne_dkg name' name).symm

/-! ## Records -/

inductive AccessPolicy
  | publicAccess | ownerOnly | allowList
  deriving DecidableEq

def AccessPolicy.name : AccessPolicy → Term
  | .publicAccess => "public".toList
  | .ownerOnly => "ownerOnly".toList
  | .allowList => "allowList".toList

/-- The timestamp is the text of the date. -/
structure KCMetadata (B : Type) where
  (ual contextGraphId : Term)
  merkleRoot : B
  kaCount : ℕ
  publisherPeerId : Term
  accessPolicy : Option AccessPolicy
  allowedPeers : List Term
  timestamp : Term
  subGraphName : Option Term

structure KAMetadata (B : Type) where
  (rootEntity kcUal : Term)
  (tokenId publicTripleCount privateTripleCount : ℕ)
  privateMerkleRoot : Option B

/-- The block's timestamp is the text of the date. -/
structure OnChainProvenance where
  txHash : Term
  blockNumber : ℕ
  (blockTimestamp publisherAddress : Term)
  batchId : ℕ
  chainId : Term

/-- `val || 'unknown'`. -/
def orUnknown (val : Term) : Term := if val = [] then "unknown".toList else val

/-- `{ual}/{tokenId}`. -/
def assetUri (ual : Term) (tokenId : ℕ) : Term := ual ++ '/' :: Nat.toDigits 10 tokenId

def KAMetadata.uri (ka : KAMetadata B) : Term := assetUri ka.kcUal ka.tokenId

/-- The quads of the collection itself. -/
def collectionQuads (toHex : B → Term) (kc : KCMetadata B) : List Quad :=
  let metaGraph := contextGraphMetaUri kc.contextGraphId
  [mq kc.ual rdfType (dkg "KnowledgeCollection") metaGraph,
    mq kc.ual (dkg "merkleRoot") (lit (toHex kc.merkleRoot)) metaGraph,
    mq kc.ual (dkg "kaCount") (integerLiteral kc.kaCount) metaGraph,
    mq kc.ual (dkg "accessPolicy") (lit (kc.accessPolicy.getD .publicAccess).name) metaGraph,
    mq kc.ual (dkg "publisherPeerId") (lit (orUnknown kc.publisherPeerId)) metaGraph,
    mq kc.ual (prov "wasAttributedTo") (lit (orUnknown kc.publisherPeerId)) metaGraph,
    mq kc.ual (dkg "publishedAt") (dateLit kc.timestamp) metaGraph,
    mq kc.ual (dkg "paranet") (contextGraphDataUri kc.contextGraphId) metaGraph] ++
    ((kc.subGraphName.filter (· ≠ [])).toList.map fun name =>
      mq kc.ual (dkg "subGraphName") (lit name) metaGraph) ++
    kc.allowedPeers.map fun peerId => mq kc.ual (dkg "allowedPeer") (lit peerId) metaGraph

def assetQuads (toHex : B → Term) (metaGraph : Term) (ka : KAMetadata B) : List Quad :=
  [mq ka.uri rdfType (dkg "KnowledgeAsset") metaGraph,
    mq ka.uri (dkg "rootEntity") ka.rootEntity metaGraph,
    mq ka.uri (dkg "partOf") ka.kcUal metaGraph,
    mq ka.uri (dkg "tokenId") (integerLiteral ka.tokenId) metaGraph,
    mq ka.uri (dkg "publicTripleCount") (integerLiteral ka.publicTripleCount) metaGraph] ++
    if 0 < ka.privateTripleCount then
      mq ka.uri (dkg "privateTripleCount") (integerLiteral ka.privateTripleCount) metaGraph ::
        ka.privateMerkleRoot.toList.map fun root =>
          mq ka.uri (dkg "privateMerkleRoot") (lit (toHex root)) metaGraph
    else []

def generateKCMetadata (toHex : B → Term) (kc : KCMetadata B) (kaEntries : List (KAMetadata B)) :
    List Quad :=
  collectionQuads toHex kc ++
    kaEntries.flatMap (assetQuads toHex (contextGraphMetaUri kc.contextGraphId))

def statusQuad (status : String) (ual contextGraphId : Term) : Quad :=
  mq ual (dkg "status") (lit status.toList) (contextGraphMetaUri contextGraphId)

def getTentativeStatusQuad : Term → Term → Quad := statusQuad "tentative"

def getConfirmedStatusQuad : Term → Term → Quad := statusQuad "confirmed"

def generateTentativeMetadata (toHex : B → Term) (kc : KCMetadata B)
    (kaEntries : List (KAMetadata B)) : List Quad :=
  generateKCMetadata toHex kc kaEntries ++ [getTentativeStatusQuad kc.ual kc.contextGraphId]

def generateConfirmedMetadata (ual contextGraphId : Term) (provenance : OnChainProvenance) :
    List Quad :=
  let metaGraph := contextGraphMetaUri contextGraphId
  [mq ual (dkg "status") (lit "confirmed".toList) metaGraph,
    mq ual (dkg "transactionHash") (lit provenance.txHash) metaGraph,
    mq ual (dkg "blockNumber") (integerLiteral provenance.blockNumber) metaGraph,
    mq ual (dkg "blockTimestamp") (dateLit provenance.blockTimestamp) metaGraph,
    mq ual (dkg "publisherAddress") (lit provenance.publisherAddress) metaGraph,
    mq ual (dkg "batchId") (integerLiteral provenance.batchId) metaGraph,
    mq ual (dkg "chainId") (lit provenance.chainId) metaGraph]

def generateConfirmedFullMetadata (toHex : B → Term) (kc : KCMetadata B)
    (kaEntries : List (KAMetadata B)) (provenance : OnChainProvenance) : List Quad :=
  generateKCMetadata toHex kc kaEntries ++
    generateConfirmedMetadata kc.ual kc.contextGraphId provenance

structure AuthorshipProof where
  (kcUal contextGraphId agentAddress signature signedHash : Term)

/-- `[^a-zA-Z0-9]` becomes an underscore. -/
def labelChar (c : Char) : Char := if c.isAlphanum then c else '_'

def generateAuthorshipProof (proof : AuthorshipProof) : List Quad :=
  let metaGraph := contextGraphMetaUri proof.contextGraphId
  let blankNode := "_:authorship_".toList ++ proof.kcUal.map labelChar
  [mq proof.kcUal (dkg "authoredBy") blankNode metaGraph,
    mq blankNode rdfType (dkg "AuthorshipProof") metaGraph,
    mq blankNode (dkg "agent") ("did:dkg:agent:".toList ++ proof.agentAddress) metaGraph,
    mq blankNode (dkg "signature") (lit proof.signature) metaGraph,
    mq blankNode (dkg "signedHash") (lit proof.signedHash) metaGraph]

/-- A registration without a description and without writers. -/
structure SubGraphRegistration where
  (contextGraphId subGraphName createdBy timestamp : Term)

def generateSubGraphRegistration (reg : SubGraphRegistration) : List Quad :=
  let metaGraph := contextGraphMetaUri reg.contextGraphId
  let subGraphUri := scopeUri reg.contextGraphId (some reg.subGraphName)
  [mq subGraphUri rdfType (dkg "SubGraph") metaGraph,
    mq subGraphUri (dkg "parentContextGraph") (contextGraphDataUri reg.contextGraphId) metaGraph,
    mq subGraphUri "http://schema.org/name".toList (lit reg.subGraphName) metaGraph,
    mq subGraphUri (dkg "createdBy") ("did:dkg:agent:".toList ++ reg.createdBy) metaGraph,
    mq subGraphUri (dkg "createdAt") (dateLit reg.timestamp) metaGraph]

/-! ## What a record says -/

variable {toHex : B → Term} {kc : KCMetadata B} {ka : KAMetadata B}
  {metaGraph s o g : Term} {q : Quad}

def assetPredicates : List Term :=
  rdfType :: ["rootEntity", "partOf", "tokenId", "publicTripleCount", "privateTripleCount",
    "privateMerkleRoot"].map dkg

lemma mem_assetQuads (h : q ∈ assetQuads toHex metaGraph ka) :
    q.graph = metaGraph ∧ q.subject = ka.uri ∧ q.predicate ∈ assetPredicates ∧
      (q.predicate = dkg "rootEntity" → q.object = ka.rootEntity) ∧
      (q.predicate = dkg "partOf" → q.object = ka.kcUal) := by
  unfold assetQuads at h
  rcases mem_append.mp h with h | h
  · fin_cases h <;> simp [mq, assetPredicates]
  · split at h
    · rcases mem_cons.mp h with rfl | h
      · simp [mq, assetPredicates]
      · obtain ⟨root, _, rfl⟩ := mem_map.mp h
        simp [mq, assetPredicates]
    · cases h

lemma mem_collectionQuads (h : q ∈ collectionQuads toHex kc) :
    q.graph = contextGraphMetaUri kc.contextGraphId ∧ q.subject = kc.ual ∧
      (q.predicate = rdfType ∨ q.predicate ∉ assetPredicates) := by
  unfold collectionQuads at h
  rcases mem_append.mp h with h | h
  · rcases mem_append.mp h with h | h
    · fin_cases h <;> simp [mq, assetPredicates]
    · obtain ⟨name, _, rfl⟩ := mem_map.mp h
      simp [mq, assetPredicates]
  · obtain ⟨peerId, _, rfl⟩ := mem_map.mp h
    simp [mq, assetPredicates]

lemma collection_paranet : (⟨s, dkg "paranet", o, g⟩ : Quad) ∈ collectionQuads toHex kc ↔
    s = kc.ual ∧ o = contextGraphDataUri kc.contextGraphId ∧
      g = contextGraphMetaUri kc.contextGraphId := by
  simp [collectionQuads, mq]

lemma collection_accessPolicy :
    (⟨s, dkg "accessPolicy", o, g⟩ : Quad) ∈ collectionQuads toHex kc ↔
      s = kc.ual ∧ o = lit (kc.accessPolicy.getD .publicAccess).name ∧
        g = contextGraphMetaUri kc.contextGraphId := by
  simp [collectionQuads, mq]

lemma collection_publisherPeerId :
    (⟨s, dkg "publisherPeerId", o, g⟩ : Quad) ∈ collectionQuads toHex kc ↔
      s = kc.ual ∧ o = lit (orUnknown kc.publisherPeerId) ∧
        g = contextGraphMetaUri kc.contextGraphId := by
  simp [collectionQuads, mq]

lemma collection_subGraphName :
    (⟨s, dkg "subGraphName", o, g⟩ : Quad) ∈ collectionQuads toHex kc ↔
      s = kc.ual ∧ (∃ name ∈ kc.subGraphName, name ≠ [] ∧ o = lit name) ∧
        g = contextGraphMetaUri kc.contextGraphId := by
  simp [collectionQuads, mq]
  grind

lemma collection_allowedPeer :
    (⟨s, dkg "allowedPeer", o, g⟩ : Quad) ∈ collectionQuads toHex kc ↔
      s = kc.ual ∧ (∃ peerId ∈ kc.allowedPeers, o = lit peerId) ∧
        g = contextGraphMetaUri kc.contextGraphId := by
  simp [collectionQuads, mq]
  grind

end Dkg.Publisher
