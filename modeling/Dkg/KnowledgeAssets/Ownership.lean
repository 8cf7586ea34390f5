import Dkg.KnowledgeAssets.Tokens
import Dkg.Lib.Machine

/-! # Who holds which knowledge asset

The tokens of `KnowledgeCollectionStorage` change hands by `ERC1155Delta`'s transfers, and the
storage has views over them: the tokens of an owner, the supply, and the collection a token is part
of. The collection `id` mints from the range that begins at `tokenStart id`; the ranges are
disjoint, and `AssetInv` says that every token that is held was minted in one of them, has one
holder, and that the supply counts the held tokens.

The bitmap library is not part of the repository: `popCount` is a parameter.
-/

namespace Dkg

open Lib Finset

/-- The storage, with the flags and approvals that only the tokens use. -/
structure KnowledgeTokens where
  storage : KnowledgeCollectionStorage
  isKnowledgeAssetBurned : ℕ → Bool
  operatorApprovals : ℕ → ℕ → Bool

namespace KnowledgeCollectionStorage

variable (s : KnowledgeCollectionStorage)

/-! ## Transfers -/

/-- The body of a transfer of one token. -/
def moveToken (sender receiver tokenId amount : ℕ) : Tx KnowledgeCollectionStorage := do
  require (amount = 1 ∧ s.owned sender tokenId = true) .transferFromIncorrectOwnerOrInvalidAmount
  let owned := store₂ s.owned sender tokenId false
  pure { s with owned := store₂ owned receiver tokenId true }

/-- The loop of `_safeBatchTransferFrom`. -/
def moveTokens (sender receiver : ℕ) :
    List (ℕ × ℕ) → KnowledgeCollectionStorage → Tx KnowledgeCollectionStorage
  | [], s => pure s
  | (tokenId, amount) :: rest, s => do
      let s ← s.moveToken sender receiver tokenId amount
      moveTokens sender receiver rest s

/-! ## Views -/

def currentTotalSupply : Tx ℕ :=
  subUint s.totalMintedKnowledgeAssetsCounter s.totalBurnedKnowledgeAssetsCounter

/-- `_latestTokenId`: the last token of the newest collection, itself included. -/
def _latestTokenId : Tx ℕ :=
  if s.knowledgeCollectionsCounter = 0 then pure 0
  else do
    let before ← subUint s.knowledgeCollectionsCounter 1
    let offset ← mulUint 256 before s.KNOWLEDGE_COLLECTION_MAX_SIZE
    addUint 256 offset (s.knowledgeCollections s.knowledgeCollectionsCounter).minted

variable (popCount : (ℕ → Bool) → ℕ → ℕ → ℕ)

/-- `balanceOf` of a range. -/
def balanceOfRange (owner start stop : ℕ) : Tx ℕ := do
  let length ← subUint stop start
  pure (popCount (s.owned owner) start length)

def balanceOf (owner : ℕ) : Tx ℕ := do
  let latestTokenId ← s._latestTokenId
  if latestTokenId = 0 then pure 0
  else s.balanceOfRange popCount owner _startTokenId latestTokenId

/-- The loop of `tokensOfOwnerIn`, which stops when nothing is left to find. -/
def collect (bits : ℕ → Bool) : (gas i toFind : ℕ) → List ℕ → Tx (List ℕ)
  | _, _, 0, tokenIds => pure tokenIds
  | 0, _, _ + 1, _ => .error .outOfGas
  | gas + 1, i, toFind + 1, tokenIds =>
    if bits i = true then collect bits gas ((i + 1) % 2 ^ 256) toFind (tokenIds ++ [i])
    else collect bits gas ((i + 1) % 2 ^ 256) (toFind + 1) tokenIds

def tokensOfOwnerIn (gas owner start stop : ℕ) : Tx (List ℕ) := do
  require (¬ start ≥ stop) .invalidQueryRange
  let start := if start < _startTokenId then _startTokenId else start
  let stopLimit ← s._latestTokenId
  let stop := if stop > stopLimit then stopLimit else stop
  let tokenIdsLength ←
    (if start < stop then s.balanceOfRange popCount owner start stop else pure 0)
  collect (s.owned owner) gas start tokenIdsLength []

def tokensOfOwner (gas owner : ℕ) : Tx (List ℕ) :=
  if s.totalMintedKnowledgeAssetsCounter = 0 then pure []
  else do
    let latestTokenId ← s._latestTokenId
    s.tokensOfOwnerIn popCount gas owner _startTokenId latestTokenId

end KnowledgeCollectionStorage

namespace KnowledgeTokens

variable (k : KnowledgeTokens)

def empty (maxSize : ℕ) : KnowledgeTokens where
  storage := KnowledgeCollectionStorage.empty maxSize
  isKnowledgeAssetBurned := fun _ => false
  operatorApprovals := fun _ _ => false

def setApprovalForAll (caller operator : ℕ) (approved : Bool) : Tx KnowledgeTokens := do
  require (caller ≠ operator) .approvalForSelf
  pure { k with operatorApprovals := store₂ k.operatorApprovals caller operator approved }

/-- `safeTransferFrom` to an account that accepts. -/
def safeTransferFrom (caller sender receiver tokenId amount : ℕ) : Tx KnowledgeTokens := do
  require (sender = caller ∨ k.operatorApprovals sender caller = true)
    .transferCallerNotOwnerNorApproved
  require (receiver ≠ 0) .transferToZeroAddress
  let storage ← k.storage.moveToken sender receiver tokenId amount
  pure { k with storage := storage }

/-- `safeBatchTransferFrom` to an account that accepts. -/
def safeBatchTransferFrom (caller sender receiver : ℕ) (tokenIds amounts : List ℕ) :
    Tx KnowledgeTokens := do
  require (sender = caller ∨ k.operatorApprovals sender caller = true)
    .transferCallerNotOwnerNorApproved
  require (tokenIds.length = amounts.length) .inputLengthMismatch
  require (receiver ≠ 0) .transferToZeroAddress
  let storage ← KnowledgeCollectionStorage.moveTokens sender receiver (tokenIds.zip amounts)
    k.storage
  pure { k with storage := storage }

/-! ## Views that read the burned flags -/

def isPartOfKnowledgeCollection (id tokenId : ℕ) : Tx Bool := do
  let startTokenId ← k.storage.firstTokenId id
  if k.isKnowledgeAssetBurned tokenId = false ∧ startTokenId ≤ tokenId then do
    let stop ← addUint 256 startTokenId (k.storage.knowledgeCollections id).minted
    pure (tokenId < stop)
  else pure false

def getKnowledgeCollectionId (tokenId : ℕ) : Tx ℕ :=
  if tokenId < KnowledgeCollectionStorage._startTokenId ∨
      k.isKnowledgeAssetBurned tokenId = true then pure 0
  else do
    let offset ← subUint tokenId KnowledgeCollectionStorage._startTokenId
    let index ← divUint offset k.storage.KNOWLEDGE_COLLECTION_MAX_SIZE
    addUint 256 index 1

/-- The loop of `isKnowledgeCollectionOwner` over `count` tokens from `i` on. -/
def ownsAll (owner : ℕ) : (i count : ℕ) → Bool
  | _, 0 => true
  | i, count + 1 =>
    if k.isKnowledgeAssetBurned i = true then ownsAll owner (i + 1) count
    else if k.storage.owned owner i = true then ownsAll owner (i + 1) count
    else false

def isKnowledgeCollectionOwner (owner id : ℕ) : Tx Bool := do
  let startTokenId ← k.storage.firstTokenId id
  let endTokenId ← addUint 256 startTokenId (k.storage.knowledgeCollections id).minted
  pure (k.ownsAll owner startTokenId (endTokenId - startTokenId))

end KnowledgeTokens

/-- A call of the storage that moves tokens. -/
inductive TokenOp
  | createKnowledgeCollection (b : Block)
      (publisher merkleRoot knowledgeAssetsAmount byteSize startEpoch endEpoch tokenAmount : ℕ)
      (isImmutable : Bool) (merkleLeafCount : ℕ)
  | updateKnowledgeCollection (b : Block)
      (publisher id merkleRoot mintKnowledgeAssetsAmount : ℕ)
      (knowledgeAssetsToBurn : List ℕ) (byteSize tokenAmount merkleLeafCount : ℕ)
  | mintKnowledgeAssetsTokens (id receiver amount : ℕ)
  | burnKnowledgeAssetsTokens (id holder : ℕ) (tokenIds : List ℕ)
  | setApprovalForAll (caller operator : ℕ) (approved : Bool)
  | safeTransferFrom (caller sender receiver tokenId amount : ℕ)
  | safeBatchTransferFrom (caller sender receiver : ℕ) (tokenIds amounts : List ℕ)

/-- A call that only writes the storage. -/
def KnowledgeTokens.onStorage (k : KnowledgeTokens) (run : Tx KnowledgeCollectionStorage) :
    Tx KnowledgeTokens := do
  let storage ← run
  pure { k with storage := storage }

def TokenOp.run (k : KnowledgeTokens) : TokenOp → Tx KnowledgeTokens
  | createKnowledgeCollection b publisher root amount byteSize startEpoch endEpoch tokens
      isImmutable leafCount => do
      let created ← k.storage.createKnowledgeCollection b publisher root amount byteSize startEpoch
        endEpoch tokens isImmutable leafCount
      pure { k with storage := created.2 }
  | updateKnowledgeCollection b publisher id root amount toBurn byteSize tokens leafCount =>
    k.onStorage (k.storage.updateKnowledgeCollection b publisher id root amount toBurn byteSize
      tokens leafCount)
  | mintKnowledgeAssetsTokens id receiver amount =>
    k.onStorage (k.storage.mintKnowledgeAssetsTokens id receiver amount)
  | burnKnowledgeAssetsTokens id holder tokenIds =>
    k.onStorage (k.storage.burnKnowledgeAssetsTokens id holder tokenIds)
  | setApprovalForAll caller operator approved => k.setApprovalForAll caller operator approved
  | safeTransferFrom caller sender receiver tokenId amount =>
    k.safeTransferFrom caller sender receiver tokenId amount
  | safeBatchTransferFrom caller sender receiver tokenIds amounts =>
    k.safeBatchTransferFrom caller sender receiver tokenIds amounts

/-- The tokens and their runs, for any size of a collection. -/
def tokenMachine : Machine KnowledgeTokens TokenOp where
  init k := ∃ maxSize, k = KnowledgeTokens.empty maxSize
  step k op k' := op.run k = .ok k'

namespace KnowledgeCollectionStorage

variable {s s' : KnowledgeCollectionStorage} {id id' t o receiver holder sender amount : ℕ}

/-! ## The ranges of the collections -/

def MintedFor (s : KnowledgeCollectionStorage) (id t : ℕ) : Prop :=
  1 ≤ id ∧ s.tokenStart id ≤ t ∧ t < s.tokenStart id + (s.knowledgeCollections id).minted

lemma collection_of_range (hid : 1 ≤ id) (hstart : s.tokenStart id ≤ t)
    (hstop : t < s.tokenStart id + s.KNOWLEDGE_COLLECTION_MAX_SIZE) :
    (t - 1) / s.KNOWLEDGE_COLLECTION_MAX_SIZE + 1 = id := by
  unfold tokenStart at hstart hstop
  have hdiv : (t - 1) / s.KNOWLEDGE_COLLECTION_MAX_SIZE = id - 1 := by
    apply Nat.div_eq_of_lt_le
    · omega
    · rw [Nat.add_mul, Nat.one_mul]
      omega
  omega

/-! ## The invariant -/

/-- What holds between the tokens, their collections and their holders. -/
structure AssetInv (s : KnowledgeCollectionStorage) : Prop where
  size : ∀ id, (s.knowledgeCollections id).minted ≤ s.KNOWLEDGE_COLLECTION_MAX_SIZE
  fits : ∀ id, 0 < (s.knowledgeCollections id).minted →
    1 ≤ id ∧ s.tokenStart id + (s.knowledgeCollections id).minted < 2 ^ 256
  held : ∀ o t, s.owned o t = true → ∃ id, s.MintedFor id t
  one : ∀ o o' t, s.owned o t = true → s.owned o' t = true → o = o'
  burned : ∀ id t, t ∈ (s.knowledgeCollections id).burned → s.MintedFor id t
  supply : ∃ pairs : Finset (ℕ × ℕ), (∀ o t, (o, t) ∈ pairs ↔ s.owned o t = true) ∧
    pairs.card + s.totalBurnedKnowledgeAssetsCounter = s.totalMintedKnowledgeAssetsCounter
  total : s.totalMintedKnowledgeAssetsCounter < 2 ^ 256

lemma AssetInv.empty (maxSize : ℕ) : AssetInv (KnowledgeCollectionStorage.empty maxSize) where
  size := fun _ => Nat.zero_le _
  fits := fun _ h => absurd h (lt_irrefl 0)
  held := fun _ _ h => absurd h (by simp [KnowledgeCollectionStorage.empty])
  one := fun _ _ _ h => absurd h (by simp [KnowledgeCollectionStorage.empty])
  burned := fun _ _ h =>
    absurd h (by simp [KnowledgeCollectionStorage.empty, KnowledgeCollection.zero])
  supply := ⟨∅, by simp [KnowledgeCollectionStorage.empty], rfl⟩
  total := Nat.two_pow_pos 256

lemma AssetInv.collection_unique (h : AssetInv s) (ht : s.MintedFor id t)
    (ht' : s.MintedFor id' t) : id = id' := by
  obtain ⟨hid, hstart, hstop⟩ := ht
  obtain ⟨hid', hstart', hstop'⟩ := ht'
  have hsize := h.size id
  have hsize' := h.size id'
  rw [← collection_of_range hid hstart (by omega), ← collection_of_range hid' hstart' (by omega)]

/-- The storages agree on what the tokens are about. -/
structure SameAssets (s s' : KnowledgeCollectionStorage) : Prop where
  maxSize : s'.KNOWLEDGE_COLLECTION_MAX_SIZE = s.KNOWLEDGE_COLLECTION_MAX_SIZE
  minted : ∀ id, (s'.knowledgeCollections id).minted = (s.knowledgeCollections id).minted
  burned : ∀ id, (s'.knowledgeCollections id).burned = (s.knowledgeCollections id).burned
  owned : s'.owned = s.owned
  totalMinted : s'.totalMintedKnowledgeAssetsCounter = s.totalMintedKnowledgeAssetsCounter
  totalBurned : s'.totalBurnedKnowledgeAssetsCounter = s.totalBurnedKnowledgeAssetsCounter

lemma SameAssets.tokenStart (h : SameAssets s s') (id : ℕ) :
    s'.tokenStart id = s.tokenStart id := by
  unfold KnowledgeCollectionStorage.tokenStart
  rw [h.maxSize]

lemma SameAssets.mintedFor (h : SameAssets s s') : s'.MintedFor id t ↔ s.MintedFor id t := by
  unfold MintedFor
  rw [h.tokenStart, h.minted]

lemma AssetInv.same (h : AssetInv s) (hsame : SameAssets s s') : AssetInv s' where
  size := by
    intro id
    rw [hsame.minted, hsame.maxSize]
    exact h.size id
  fits := by
    intro id
    rw [hsame.minted, hsame.tokenStart]
    exact h.fits id
  held := by
    intro o t
    rw [hsame.owned]
    simp only [hsame.mintedFor]
    exact h.held o t
  one := by
    rw [hsame.owned]
    exact h.one
  burned := by
    intro id t
    rw [hsame.burned, hsame.mintedFor]
    exact h.burned id t
  supply := by
    rw [hsame.owned, hsame.totalMinted, hsame.totalBurned]
    exact h.supply
  total := by
    rw [hsame.totalMinted]
    exact h.total

/-! ## Minting -/

lemma minting_minted (id' : ℕ) :
    ((s.minting id receiver amount).knowledgeCollections id').minted =
      (s.knowledgeCollections id').minted + if id' = id then amount else 0 := by
  by_cases h : id' = id
  · simp [h]
  · simp [h]

lemma minting_burned (id' : ℕ) :
    ((s.minting id receiver amount).knowledgeCollections id').burned =
      (s.knowledgeCollections id').burned := by
  by_cases h : id' = id
  · simp [h]
  · simp [h]

lemma minting_mintedFor :
    (s.minting id receiver amount).MintedFor id' t ↔ s.MintedFor id' t ∨
      (id' = id ∧ 1 ≤ id ∧ s.tokenStart id + (s.knowledgeCollections id).minted ≤ t ∧
        t < s.tokenStart id + (s.knowledgeCollections id).minted + amount) := by
  have hstart : (s.minting id receiver amount).tokenStart id' = s.tokenStart id' := rfl
  unfold MintedFor
  rw [minting_minted, hstart]
  by_cases h : id' = id
  · subst h
    simp only [if_true, true_and]
    omega
  · simp only [h, if_false, Nat.add_zero, false_and, or_false]

lemma minting_owned_iff (o t : ℕ) :
    (s.minting id receiver amount).owned o t = true ↔
      (o = receiver ∧ s.tokenStart id + (s.knowledgeCollections id).minted ≤ t ∧
        t < s.tokenStart id + (s.knowledgeCollections id).minted + amount) ∨
      s.owned o t = true := by
  simp only [minting]
  split
  next hnew => simp [hnew]
  next hold => simp [hold]

section

variable (h : AssetInv s) (hc : MintChecks s id receiver amount)

include h hc

/-- Nobody holds a token of the new batch: it would be minted for the collection already. -/
lemma AssetInv.batch_fresh (o : ℕ) (hlo : s.tokenStart id + (s.knowledgeCollections id).minted ≤ t)
    (hhi : t < s.tokenStart id + (s.knowledgeCollections id).minted + amount) :
    s.owned o t ≠ true := by
  intro howned
  obtain ⟨id', hid', hstart, hstop⟩ := h.held o t howned
  have hsize := hc.size
  have hsize' := h.size id'
  have hsame : id' = id := by
    rw [← collection_of_range hid' hstart (by omega),
      collection_of_range hc.id_pos (by omega) (by omega)]
  subst hsame
  omega

/-- The held tokens and those of the batch are different, so the supply grows by the batch. -/
lemma AssetInv.minting_supply : ∃ pairs : Finset (ℕ × ℕ),
      (∀ o t, (o, t) ∈ pairs ↔ (s.minting id receiver amount).owned o t = true) ∧
      pairs.card + s.totalBurnedKnowledgeAssetsCounter =
        s.totalMintedKnowledgeAssetsCounter + amount := by
  obtain ⟨pairs, hpairs, hcard⟩ := h.supply
  let batch := (Finset.Ico (s.tokenStart id + (s.knowledgeCollections id).minted)
    (s.tokenStart id + (s.knowledgeCollections id).minted + amount)).image fun t => (receiver, t)
  refine ⟨pairs ∪ batch, ?_, ?_⟩
  · intro o t
    rw [minting_owned_iff, mem_union, hpairs]
    simp only [batch, mem_image, mem_Ico, Prod.mk.injEq]
    constructor
    · rintro (hold | ⟨t', ⟨hlo, hhi⟩, rfl, rfl⟩)
      · exact .inr hold
      · exact .inl ⟨rfl, hlo, hhi⟩
    · rintro (⟨rfl, hlo, hhi⟩ | hold)
      · exact .inr ⟨t, ⟨hlo, hhi⟩, rfl, rfl⟩
      · exact .inl hold
  · have hdisjoint : Disjoint pairs batch := by
      rw [disjoint_left]
      rintro ⟨o, t⟩ hin hbatch
      simp only [batch, mem_image, mem_Ico, Prod.mk.injEq] at hbatch
      obtain ⟨t', ⟨hlo, hhi⟩, rfl, rfl⟩ := hbatch
      exact h.batch_fresh hc receiver hlo hhi ((hpairs receiver t').mp hin)
    have hbatch : batch.card = amount := by
      rw [card_image_of_injective _ (Prod.mk_right_injective receiver), Nat.card_Ico]
      omega
    rw [card_union_of_disjoint hdisjoint, hbatch]
    omega

lemma AssetInv.minting : AssetInv (s.minting id receiver amount) := by
  constructor
  · intro id'
    rw [minting_minted]
    have hsize := hc.size
    have hsize' := h.size id'
    by_cases hid' : id' = id
    · subst hid'
      simp only [if_true]
      exact hsize
    · simp only [hid', if_false]
      exact hsize'
  · intro id' hpos
    rw [minting_minted] at hpos ⊢
    by_cases hid' : id' = id
    · subst hid'
      simp only [if_true]
      have hfits := hc.fits
      refine ⟨hc.id_pos, ?_⟩
      show s.tokenStart id' + _ < _
      omega
    · simp only [hid', if_false, Nat.add_zero] at hpos ⊢
      exact h.fits id' hpos
  · intro o t ho
    simp only [minting_mintedFor]
    rcases (minting_owned_iff o t).mp ho with ⟨-, hlo, hhi⟩ | hold
    · exact ⟨id, .inr ⟨rfl, hc.id_pos, hlo, hhi⟩⟩
    · obtain ⟨id', hid'⟩ := h.held o t hold
      exact ⟨id', .inl hid'⟩
  · -- A token of the batch has no other holder.
    intro o o' t ho ho'
    rcases (minting_owned_iff o t).mp ho with ⟨rfl, hlo, hhi⟩ | hold
    · rcases (minting_owned_iff o' t).mp ho' with ⟨rfl, -, -⟩ | hold'
      · rfl
      · exact absurd hold' (h.batch_fresh hc o' hlo hhi)
    · rcases (minting_owned_iff o' t).mp ho' with ⟨-, hlo, hhi⟩ | hold'
      · exact absurd hold (h.batch_fresh hc o hlo hhi)
      · exact h.one o o' t hold hold'
  · intro id' t ht
    rw [minting_burned] at ht
    exact minting_mintedFor.mpr (.inl (h.burned id' t ht))
  · exact h.minting_supply hc
  · exact hc.total

/-! ## Burning -/

end

variable {tokenIds : List ℕ}

lemma burning_minted (id' : ℕ) :
    ((s.burning id holder tokenIds).knowledgeCollections id').minted =
      (s.knowledgeCollections id').minted := by
  by_cases h : id' = id
  · simp [h]
  · simp [h]

lemma burning_mintedFor : (s.burning id holder tokenIds).MintedFor id' t ↔ s.MintedFor id' t := by
  unfold MintedFor
  rw [burning_minted]
  exact Iff.rfl

lemma AssetInv.burning (h : AssetInv s) (hc : BurnChecks s id holder tokenIds) :
    AssetInv (s.burning id holder tokenIds) := by
  have howned : ∀ o t, (s.burning id holder tokenIds).owned o t = true ↔
      s.owned o t = true ∧ ¬ (o = holder ∧ t ∈ tokenIds) := by
    intro o t
    simp only [KnowledgeCollectionStorage.burning]
    split
    next hburned => simp [hburned]
    next hkept => simp [hkept]
  constructor
  · intro id'
    rw [burning_minted]
    exact h.size id'
  · intro id'
    rw [burning_minted]
    exact h.fits id'
  · intro o t ho
    simp only [burning_mintedFor]
    exact h.held o t ((howned o t).mp ho).1
  · intro o o' t ho ho'
    exact h.one o o' t ((howned o t).mp ho).1 ((howned o' t).mp ho').1
  · intro id' t ht
    rw [burning_mintedFor]
    by_cases hid' : id' = id
    · subst hid'
      simp only [burning_knowledgeCollections, Function.update_self, List.mem_append] at ht
      rcases ht with hold | hnew
      · exact h.burned id' t hold
      · obtain ⟨hlo, hhi⟩ := hc.range t hnew
        have hmod := Nat.mod_le (s.tokenStart id' + (s.knowledgeCollections id').minted) (2 ^ 256)
        exact ⟨hc.id_pos, hlo, by omega⟩
    · rw [burning_knowledgeCollections, Function.update_of_ne hid'] at ht
      exact h.burned id' t ht
  · obtain ⟨pairs, hpairs, hcard⟩ := h.supply
    let gone := tokenIds.toFinset.image fun t => (holder, t)
    have hsubset : gone ⊆ pairs := by
      rintro ⟨o, t⟩ hin
      simp only [gone, mem_image, List.mem_toFinset, Prod.mk.injEq] at hin
      obtain ⟨t', ht', rfl, rfl⟩ := hin
      exact (hpairs holder t').mpr (hc.owned t' ht')
    have hgone : gone.card = tokenIds.length := by
      rw [card_image_of_injective _ (Prod.mk_right_injective holder),
        List.toFinset_card_of_nodup hc.nodup]
    have hle := card_le_card hsubset
    have htotal := h.total
    refine ⟨pairs \ gone, ?_, ?_⟩
    · intro o t
      rw [howned, mem_sdiff, hpairs]
      simp only [gone, mem_image, List.mem_toFinset, Prod.mk.injEq]
      have hiff : (∃ a ∈ tokenIds, holder = o ∧ a = t) ↔ o = holder ∧ t ∈ tokenIds := by
        constructor
        · rintro ⟨a, ha, rfl, rfl⟩
          exact ⟨rfl, ha⟩
        · rintro ⟨rfl, ht⟩
          exact ⟨t, ht, rfl, rfl⟩
      rw [hiff]
    · rw [card_sdiff_of_subset hsubset]
      show _ + (s.totalBurnedKnowledgeAssetsCounter + tokenIds.length) % 2 ^ 256 =
        s.totalMintedKnowledgeAssetsCounter
      rw [Nat.mod_eq_of_lt (by omega)]
      omega
  · exact h.total

/-! ## Transfers -/

lemma moveToken_ok (hrun : s.moveToken sender receiver t amount = .ok s') :
    s.owned sender t = true ∧
    s' = { s with owned := store₂ (store₂ s.owned sender t false) receiver t true } := by
  unfold moveToken at hrun
  obtain ⟨_, hcheck, rfl⟩ := of_bind_pure hrun
  exact ⟨(require_eq_ok.mp hcheck).2, rfl⟩

lemma AssetInv.moveToken (h : AssetInv s)
    (hrun : s.moveToken sender receiver t amount = .ok s') : AssetInv s' := by
  obtain ⟨hsender, rfl⟩ := moveToken_ok hrun
  -- only the holder of the token changes
  have howned : ∀ o t', store₂ (store₂ s.owned sender t false) receiver t true o t' = true ↔
      if t' = t then o = receiver else s.owned o t' = true := by
    intro o t'
    unfold store₂
    by_cases ht : t' = t
    · subst ht
      by_cases hr : o = receiver
      · simp [hr]
      · by_cases hs : o = sender
        · simp [hs]
        · have hnone : s.owned o t' ≠ true := fun hown => hs (h.one o sender t' hown hsender)
          simp [hr, hs, hnone]
    · simp [ht]
  refine ⟨h.size, h.fits, ?_, ?_, h.burned, ?_, h.total⟩
  · intro o t' ho
    rw [howned] at ho
    split at ho
    next ht =>
      subst ht
      exact h.held sender t' hsender
    next => exact h.held o t' ho
  · intro o o' t' ho ho'
    rw [howned] at ho ho'
    split at ho
    next ht =>
      rw [if_pos ht] at ho'
      rw [ho, ho']
    next ht =>
      rw [if_neg ht] at ho'
      exact h.one o o' t' ho ho'
  · obtain ⟨pairs, hpairs, hcard⟩ := h.supply
    have hin : (sender, t) ∈ pairs := (hpairs sender t).mpr hsender
    have hone : ∀ o, (o, t) ∈ pairs ↔ o = sender := by
      intro o
      rw [hpairs]
      constructor
      · exact fun ho => h.one o sender t ho hsender
      · rintro rfl
        exact hsender
    have hnew : (receiver, t) ∉ pairs.erase (sender, t) := by
      rw [mem_erase, hone]
      rintro ⟨hne, rfl⟩
      exact hne rfl
    refine ⟨insert (receiver, t) (pairs.erase (sender, t)), ?_, ?_⟩
    · intro o t'
      rw [howned, mem_insert, mem_erase]
      by_cases ht : t' = t
      · subst ht
        have hone' := hone o
        simp only [Prod.mk.injEq, and_true, if_true, ne_eq, hone']
        tauto
      · simp [ht, hpairs]
    · have hpos : 0 < pairs.card := Finset.card_pos.mpr ⟨_, hin⟩
      rw [card_insert_of_notMem hnew, card_erase_of_mem hin]
      show _ + s.totalBurnedKnowledgeAssetsCounter = s.totalMintedKnowledgeAssetsCounter
      omega

variable {moves : List (ℕ × ℕ)} {b : Block} {publisher root amount byteSize tokens leafCount : ℕ}

lemma AssetInv.moveTokens (h : AssetInv s) (hrun : moveTokens sender receiver moves s = .ok s') :
    AssetInv s' := by
  induction moves generalizing s with
  | nil =>
    obtain rfl := of_pure hrun
    exact h
  | cons move rest ih =>
    obtain ⟨s₁, hmove, hrun⟩ := of_bind hrun
    exact ih (h.moveToken hmove) hrun

/-! ## Collections -/

lemma sameAssets_setCollection {kc : KnowledgeCollection}
    (hmax : s'.KNOWLEDGE_COLLECTION_MAX_SIZE = s.KNOWLEDGE_COLLECTION_MAX_SIZE)
    (hcollections : s'.knowledgeCollections = Function.update s.knowledgeCollections id kc)
    (howned : s'.owned = s.owned)
    (htotalMinted : s'.totalMintedKnowledgeAssetsCounter = s.totalMintedKnowledgeAssetsCounter)
    (htotalBurned : s'.totalBurnedKnowledgeAssetsCounter = s.totalBurnedKnowledgeAssetsCounter)
    (hminted : kc.minted = (s.knowledgeCollections id).minted)
    (hburned : kc.burned = (s.knowledgeCollections id).burned) : SameAssets s s' := by
  refine ⟨hmax, fun j => ?_, fun j => ?_, howned, htotalMinted, htotalBurned⟩
  · by_cases hj : j = id
    · simp [hcollections, hj, hminted]
    · simp [hcollections, hj]
  · by_cases hj : j = id
    · simp [hcollections, hj, hburned]
    · simp [hcollections, hj]

/-- A creation is a mint for the next id, after writes that the tokens do not see. -/
lemma createKnowledgeCollection_ok {startEpoch endEpoch : ℕ} {isImmutable : Bool}
    {out : ℕ × KnowledgeCollectionStorage}
    (hrun : s.createKnowledgeCollection b publisher root amount byteSize startEpoch endEpoch tokens
      isImmutable leafCount = .ok out) :
    ∃ s₁, SameAssets s s₁ ∧ s₁.knowledgeCollectionsCounter = s.knowledgeCollectionsCounter + 1 ∧
      MintChecks s₁ (s.knowledgeCollectionsCounter + 1) publisher amount ∧
      out.2 = s₁.minting (s.knowledgeCollectionsCounter + 1) publisher amount := by
  unfold createKnowledgeCollection at hrun
  obtain ⟨id, hid, s', hmint, hrun⟩ := of_bind₂ hrun
  obtain rfl := of_pure hrun
  obtain ⟨-, rfl⟩ := addUint_eq_ok.mp hid
  obtain ⟨hchecks, rfl⟩ := mintKnowledgeAssetsTokens_ok hmint
  refine ⟨_, ?_, rfl, hchecks, rfl⟩
  exact sameAssets_setCollection rfl rfl rfl rfl rfl rfl rfl

/-- An update burns and then mints, after writes that the tokens do not see. -/
lemma updateKnowledgeCollection_ok {toBurn : List ℕ}
    (hrun : s.updateKnowledgeCollection b publisher id root amount toBurn byteSize tokens
      leafCount = .ok s') :
    ∃ s₁, SameAssets s s₁ ∧ s₁.knowledgeCollectionsCounter = s.knowledgeCollectionsCounter ∧
      BurnChecks s₁ id publisher toBurn ∧
      (s' = s₁.burning id publisher toBurn ∨
        MintChecks (s₁.burning id publisher toBurn) id publisher amount ∧
        s' = (s₁.burning id publisher toBurn).minting id publisher amount) := by
  unfold updateKnowledgeCollection at hrun
  obtain ⟨s₂, hburn, hrun⟩ := of_bind hrun
  obtain ⟨hchecks, rfl⟩ := burnKnowledgeAssetsTokens_ok hburn
  refine ⟨_, ?_, ?_, hchecks, ?_⟩
  · exact sameAssets_setCollection rfl rfl rfl rfl rfl rfl rfl
  · rfl
  · split at hrun
    next => exact .inr (mintKnowledgeAssetsTokens_ok hrun)
    next => exact .inl (of_pure hrun).symm

def NewestMinted (s : KnowledgeCollectionStorage) : Prop :=
  0 < s.knowledgeCollectionsCounter →
    0 < (s.knowledgeCollections s.knowledgeCollectionsCounter).minted

lemma NewestMinted.minting (h : NewestMinted s) : NewestMinted (s.minting id receiver amount) := by
  intro hpos
  rw [minting_minted]
  exact Nat.add_pos_left (h hpos) _

lemma NewestMinted.burning (h : NewestMinted s) : NewestMinted (s.burning id holder tokenIds) := by
  intro hpos
  rw [burning_minted]
  exact h hpos

lemma NewestMinted.moveToken (h : NewestMinted s)
    (hrun : s.moveToken sender receiver t amount = .ok s') : NewestMinted s' := by
  obtain ⟨-, rfl⟩ := moveToken_ok hrun
  exact h

lemma NewestMinted.moveTokens (h : NewestMinted s)
    (hrun : moveTokens sender receiver moves s = .ok s') :
    NewestMinted s' := by
  induction moves generalizing s with
  | nil =>
    obtain rfl := of_pure hrun
    exact h
  | cons move rest ih =>
    obtain ⟨s₁, hmove, hrun⟩ := of_bind hrun
    exact ih (h.moveToken hmove) hrun

end KnowledgeCollectionStorage

open KnowledgeCollectionStorage

/-! ## Runs -/

/-- The invariant of the tokens. No function of the contract sets a burned flag. -/
structure KnowledgeTokens.Inv (k : KnowledgeTokens) : Prop where
  assets : AssetInv k.storage
  newest : NewestMinted k.storage
  flags : ∀ t, k.isKnowledgeAssetBurned t = false

/-- **The step lemma.** -/
lemma TokenOp.inv {op : TokenOp} {k k' : KnowledgeTokens} (h : k.Inv)
    (hrun : op.run k = .ok k') : k'.Inv := by
  cases op with
  | createKnowledgeCollection b publisher root amount byteSize startEpoch endEpoch tokens
      isImmutable leafCount =>
      obtain ⟨out, hcreate, rfl⟩ := of_bind_pure hrun
      obtain ⟨s₁, hsame, hcounter, hchecks, hout⟩ := createKnowledgeCollection_ok hcreate
      have hassets := (h.assets.same hsame).minting hchecks
      refine ⟨by rw [hout]; exact hassets, ?_, h.flags⟩
      intro hpos
      have hamount := hchecks.amount_pos
      simp only [hout] at hpos ⊢
      rw [minting_minted]
      have hnewest : (s₁.minting (k.storage.knowledgeCollectionsCounter + 1) publisher
          amount).knowledgeCollectionsCounter = k.storage.knowledgeCollectionsCounter + 1 :=
              hcounter
      rw [hnewest, if_pos rfl]
      omega
  | updateKnowledgeCollection b publisher id root amount toBurn byteSize tokens leafCount =>
    obtain ⟨s', hupdate, rfl⟩ := of_bind_pure hrun
    obtain ⟨s₁, hsame, hcounter, hburn, hcase⟩ := updateKnowledgeCollection_ok hupdate
    have hassets := (h.assets.same hsame).burning hburn
    have hnewest : NewestMinted s₁ := by
      intro hpos
      rw [hsame.minted, hcounter]
      exact h.newest (hcounter ▸ hpos)
    obtain rfl | ⟨hmint, rfl⟩ := hcase
    · exact ⟨hassets, hnewest.burning, h.flags⟩
    · exact ⟨hassets.minting hmint, hnewest.burning.minting, h.flags⟩
  | mintKnowledgeAssetsTokens id receiver amount =>
    obtain ⟨s', hmint, rfl⟩ := of_bind_pure hrun
    obtain ⟨hchecks, rfl⟩ := mintKnowledgeAssetsTokens_ok hmint
    exact ⟨h.assets.minting hchecks, h.newest.minting, h.flags⟩
  | burnKnowledgeAssetsTokens id holder tokenIds =>
    obtain ⟨s', hburn, rfl⟩ := of_bind_pure hrun
    obtain ⟨hchecks, rfl⟩ := burnKnowledgeAssetsTokens_ok hburn
    exact ⟨h.assets.burning hchecks, h.newest.burning, h.flags⟩
  | setApprovalForAll caller operator approved =>
    obtain ⟨_, -, rfl⟩ := of_bind_pure hrun
    exact ⟨h.assets, h.newest, h.flags⟩
  | safeTransferFrom caller sender receiver tokenId amount =>
    obtain ⟨_, -, _, -, s', hmove, hrun⟩ := of_bind₃ hrun
    obtain rfl := of_pure hrun
    exact ⟨h.assets.moveToken hmove, h.newest.moveToken hmove, h.flags⟩
  | safeBatchTransferFrom caller sender receiver tokenIds amounts =>
    obtain ⟨_, -, _, -, _, -, hrun⟩ := of_bind₃ hrun
    obtain ⟨s', hmove, rfl⟩ := of_bind_pure hrun
    exact ⟨h.assets.moveTokens hmove, h.newest.moveTokens hmove, h.flags⟩

lemma tokenMachine_inv {k : KnowledgeTokens} (h : tokenMachine.Reachable k) : k.Inv := by
  induction h with
  | init hinit =>
    obtain ⟨maxSize, rfl⟩ := hinit
    exact ⟨AssetInv.empty maxSize, fun hpos => absurd hpos (lt_irrefl 0), fun _ => rfl⟩
  | step _ hstep ih => exact TokenOp.inv ih hstep

end Dkg
