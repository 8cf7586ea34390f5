import Dkg.Chronos

/-! # KnowledgeCollectionStorage

The collections with their Merkle roots, sizes, lifetimes and token amounts
(`storage/KnowledgeCollectionStorage.sol`), and the knowledge assets they mint and burn, with the
owners that `ERC1155Delta` keeps in bitmaps. The counter `_totalTokenAmount` is a `uint96` that a
creation and an update change without an overflow check.

The operation ids are only emitted and are left out, as is the acceptance check of a receiver
that is a contract.
-/

namespace Dkg

/-- `KnowledgeCollectionLib.MerkleRoot`. -/
structure MerkleRoot where
  (publisher merkleRoot timestamp : ℕ)
  deriving DecidableEq, Repr

/-- `KnowledgeCollectionLib.KnowledgeCollection`. -/
structure KnowledgeCollection where
  merkleRoots : List MerkleRoot
  burned : List ℕ
  (minted byteSize startEpoch endEpoch tokenAmount : ℕ)
  isImmutable : Bool
  merkleLeafCount : ℕ
  deriving DecidableEq, Repr

/-- The record at an id that was not created. -/
def KnowledgeCollection.zero : KnowledgeCollection := ⟨[], [], 0, 0, 0, 0, 0, false, 0⟩

/-- The storage of the contract, with that of the `ERC1155Delta` it extends. -/
structure KnowledgeCollectionStorage where
  KNOWLEDGE_COLLECTION_MAX_SIZE : ℕ
  (knowledgeCollectionsCounter totalMintedKnowledgeAssetsCounter : ℕ)
  (totalBurnedKnowledgeAssetsCounter totalTokenAmount : ℕ)
  knowledgeCollections : ℕ → KnowledgeCollection
  owned : ℕ → ℕ → Bool
  currentIndex : ℕ

namespace KnowledgeCollectionStorage

/-- The storage of a fresh contract. -/
def empty (maxSize : ℕ) : KnowledgeCollectionStorage where
  KNOWLEDGE_COLLECTION_MAX_SIZE := maxSize
  knowledgeCollectionsCounter := 0
  totalMintedKnowledgeAssetsCounter := 0
  totalBurnedKnowledgeAssetsCounter := 0
  totalTokenAmount := 0
  knowledgeCollections := fun _ => KnowledgeCollection.zero
  owned := fun _ _ => false
  currentIndex := 1

variable (s : KnowledgeCollectionStorage)

def setCollection (id : ℕ) (kc : KnowledgeCollection) : KnowledgeCollectionStorage :=
  { s with knowledgeCollections := Function.update s.knowledgeCollections id kc }

/-! ## Knowledge assets -/

def _startTokenId : ℕ := 1

def firstTokenId (id : ℕ) : Tx ℕ := do
  let before ← subUint id 1
  let offset ← mulUint 256 before s.KNOWLEDGE_COLLECTION_MAX_SIZE
  addUint 256 offset _startTokenId

/-- `_mint`, from `_currentIndex` on. -/
def _mint (receiver amount : ℕ) : Tx KnowledgeCollectionStorage := do
  require (receiver ≠ 0) .mintToZeroAddress
  require (amount ≠ 0) .mintZeroQuantity
  let startTokenId := s.currentIndex
  require (2 ^ 256 - 1 - amount ≥ startTokenId) .mintTooManyTokens
  let currentIndex ← addUint 256 startTokenId amount
  pure { s with
    owned := fun account tokenId =>
      if account = receiver ∧ startTokenId ≤ tokenId ∧ tokenId < startTokenId + amount then true
      else s.owned account tokenId
    currentIndex := currentIndex }

def mintKnowledgeAssetsTokens (id receiver amount : ℕ) : Tx KnowledgeCollectionStorage := do
  let kc := s.knowledgeCollections id
  let minted ← addUint 256 kc.minted amount
  require (¬ minted > s.KNOWLEDGE_COLLECTION_MAX_SIZE) .exceededKnowledgeCollectionMaxSize
  let first ← s.firstTokenId id
  let startTokenId ← addUint 256 first kc.minted
  let totalMinted ← addUint 256 s.totalMintedKnowledgeAssetsCounter amount
  let s := s.setCollection id { kc with minted := minted }
  let s := { s with
    currentIndex := startTokenId
    totalMintedKnowledgeAssetsCounter := totalMinted }
  s._mint receiver amount

/-- The loop of `_burnBatch`. -/
def burnLoop (id holder startTokenId : ℕ) :
    List ℕ → KnowledgeCollectionStorage → Tx KnowledgeCollectionStorage
  | [], s => pure s
  | tokenId :: rest, s => do
      let kc := s.knowledgeCollections id
      require (¬ (tokenId < startTokenId ∨ tokenId ≥ (startTokenId + kc.minted) % 2 ^ 256))
        .notPartOfKnowledgeCollection
      require (s.owned holder tokenId = true) .burnFromNonOwner
      let s := s.setCollection id { kc with burned := kc.burned ++ [tokenId] }
      burnLoop id holder startTokenId rest { s with owned := store₂ s.owned holder tokenId false }

/-- `burnKnowledgeAssetsTokens`, which is `_burnBatch`. -/
def burnKnowledgeAssetsTokens (id holder : ℕ) (tokenIds : List ℕ) :
    Tx KnowledgeCollectionStorage := do
  require (holder ≠ 0) .burnFromZeroAddress
  let startTokenId ← s.firstTokenId id
  let s ← burnLoop id holder startTokenId tokenIds s
  pure { s with
    totalBurnedKnowledgeAssetsCounter :=
      (s.totalBurnedKnowledgeAssetsCounter + tokenIds.length) % 2 ^ 256 }

/-! ## Collections -/

/-- `createKnowledgeCollection`. Returns the id of the new collection. -/
def createKnowledgeCollection (b : Block)
    (publisher merkleRoot knowledgeAssetsAmount byteSize startEpoch endEpoch tokenAmount : ℕ)
    (isImmutable : Bool) (merkleLeafCount : ℕ) : Tx (ℕ × KnowledgeCollectionStorage) := do
  let id ← addUint 256 s.knowledgeCollectionsCounter 1
  let kc := s.knowledgeCollections id
  let s := { s with knowledgeCollectionsCounter := id }
  let s := s.setCollection id
    { kc with
      merkleRoots := kc.merkleRoots ++ [⟨publisher, merkleRoot, b.timestamp⟩]
      byteSize := byteSize
      startEpoch := startEpoch
      endEpoch := endEpoch
      tokenAmount := tokenAmount
      isImmutable := isImmutable
      merkleLeafCount := merkleLeafCount }
  -- unchecked
  let s := { s with totalTokenAmount := uint96 (s.totalTokenAmount + tokenAmount) }
  let s ← s.mintKnowledgeAssetsTokens id publisher knowledgeAssetsAmount
  pure (id, s)

def updateKnowledgeCollection (b : Block) (publisher id merkleRoot mintKnowledgeAssetsAmount : ℕ)
    (knowledgeAssetsToBurn : List ℕ) (byteSize tokenAmount merkleLeafCount : ℕ) :
    Tx KnowledgeCollectionStorage := do
  let kc := s.knowledgeCollections id
  -- unchecked
  let s := { s with
    totalTokenAmount := uint96OfInt ((s.totalTokenAmount : ℤ) - kc.tokenAmount + tokenAmount) }
  let s := s.setCollection id
    { kc with
      merkleRoots := kc.merkleRoots ++ [⟨publisher, merkleRoot, b.timestamp⟩]
      byteSize := byteSize
      tokenAmount := tokenAmount
      merkleLeafCount := merkleLeafCount }
  let s ← s.burnKnowledgeAssetsTokens id publisher knowledgeAssetsToBurn
  if mintKnowledgeAssetsAmount > 0 then
    s.mintKnowledgeAssetsTokens id publisher mintKnowledgeAssetsAmount
  else pure s

def setEndEpoch (id endEpoch : ℕ) : KnowledgeCollectionStorage :=
  s.setCollection id { s.knowledgeCollections id with endEpoch := endEpoch }

/-- `setTokenAmount`, with the checks of plain arithmetic. -/
def setTokenAmount (id tokenAmount : ℕ) : Tx KnowledgeCollectionStorage := do
  let kc := s.knowledgeCollections id
  let rest ← subUint s.totalTokenAmount kc.tokenAmount
  let total ← addUint 96 rest tokenAmount
  pure ({ s with totalTokenAmount := total }.setCollection id { kc with tokenAmount :=
      tokenAmount })

/-- `getMerkleRootPublisherByIndex`; a read past the end panics. -/
def getMerkleRootPublisherByIndex (id index : ℕ) : Tx ℕ :=
  match (s.knowledgeCollections id).merkleRoots[index]? with
  | some root => pure root.publisher
  | none => .error .panic

end KnowledgeCollectionStorage

end Dkg
