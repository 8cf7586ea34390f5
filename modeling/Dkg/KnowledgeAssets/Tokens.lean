import Dkg.KnowledgeAssets.CollectionStorage

/-! # What minting and burning write

The effect of a mint is `minting` and that of a burn is `burning`, two states given outright; the
`_ok` lemmas say that a call that returns has this effect, and what it has checked. What is proved
about the tokens, or about what they leave alone, is read off these two.
-/

namespace Dkg.KnowledgeCollectionStorage

open List

variable {s s' : KnowledgeCollectionStorage} {id receiver holder amount : ℕ} {tokenIds : List ℕ}

/-- The first token of the collection `id`, where the arithmetic does not overflow. -/
def tokenStart (s : KnowledgeCollectionStorage) (id : ℕ) : ℕ :=
  (id - 1) * s.KNOWLEDGE_COLLECTION_MAX_SIZE + 1

lemma firstTokenId_ok {first : ℕ} (h : s.firstTokenId id = .ok first) :
    1 ≤ id ∧ first = s.tokenStart id ∧ s.tokenStart id < 2 ^ 256 := by
  unfold firstTokenId at h
  obtain ⟨before, hbefore, offset, hoffset, h⟩ := of_bind₂ h
  obtain ⟨hid, rfl⟩ := subUint_eq_ok.mp hbefore
  obtain ⟨-, rfl⟩ := mulUint_eq_ok.mp hoffset
  obtain ⟨hlt, rfl⟩ := addUint_eq_ok.mp h
  exact ⟨hid, rfl, hlt⟩

lemma firstTokenId_eq (hid : 1 ≤ id) (hlt : s.tokenStart id < 2 ^ 256) :
    s.firstTokenId id = .ok (s.tokenStart id) := by
  unfold tokenStart at hlt
  unfold firstTokenId
  refine bind_eq_ok.mpr ⟨id - 1, subUint_eq_ok.mpr ⟨hid, rfl⟩, ?_⟩
  refine bind_eq_ok.mpr ⟨(id - 1) * s.KNOWLEDGE_COLLECTION_MAX_SIZE, mulUint_eq_ok.mpr ⟨?_, rfl⟩,
      ?_⟩
  · omega
  · exact addUint_eq_ok.mpr ⟨hlt, rfl⟩

/-! ## Minting -/

/-- The storage after `amount` tokens of the collection `id` were minted. -/
def minting (s : KnowledgeCollectionStorage) (id receiver amount : ℕ) :
    KnowledgeCollectionStorage :=
  let kc := s.knowledgeCollections id
  { s.setCollection id { kc with minted := kc.minted + amount } with
    totalMintedKnowledgeAssetsCounter := s.totalMintedKnowledgeAssetsCounter + amount
    owned := fun account tokenId =>
      if account = receiver ∧ s.tokenStart id + kc.minted ≤ tokenId ∧
          tokenId < s.tokenStart id + kc.minted + amount then true
      else s.owned account tokenId
    currentIndex := s.tokenStart id + kc.minted + amount }

/-- What a mint has checked. -/
structure MintChecks (s : KnowledgeCollectionStorage) (id receiver amount : ℕ) : Prop where
  id_pos : 1 ≤ id
  receiver_ne : receiver ≠ 0
  amount_pos : amount ≠ 0
  size : (s.knowledgeCollections id).minted + amount ≤ s.KNOWLEDGE_COLLECTION_MAX_SIZE
  fits : s.tokenStart id + (s.knowledgeCollections id).minted + amount < 2 ^ 256
  total : s.totalMintedKnowledgeAssetsCounter + amount < 2 ^ 256

lemma mintKnowledgeAssetsTokens_ok
    (hrun : s.mintKnowledgeAssetsTokens id receiver amount = .ok s') :
    MintChecks s id receiver amount ∧ s' = s.minting id receiver amount := by
  unfold mintKnowledgeAssetsTokens at hrun
  obtain ⟨minted, hminted, hrun⟩ := of_bind hrun
  obtain ⟨hsize, hrun⟩ := of_require hrun
  obtain ⟨first, hfirst, start, hstart, total, htotal, hrun⟩ := of_bind₃ hrun
  obtain ⟨-, rfl⟩ := addUint_eq_ok.mp hminted
  obtain ⟨hid, rfl, -⟩ := firstTokenId_ok hfirst
  obtain ⟨-, rfl⟩ := addUint_eq_ok.mp hstart
  obtain ⟨hsum, rfl⟩ := addUint_eq_ok.mp htotal
  unfold _mint at hrun
  obtain ⟨hreceiver, hamount, hrun⟩ := of_require₂ hrun
  obtain ⟨_, -, index, hindex, hrun⟩ := of_bind₂ hrun
  obtain ⟨hfits, rfl⟩ := addUint_eq_ok.mp hindex
  obtain rfl := of_pure hrun
  exact ⟨⟨hid, hreceiver, hamount, by omega, hfits, hsum⟩, rfl⟩

@[simp] lemma minting_knowledgeCollections :
    (s.minting id receiver amount).knowledgeCollections =
      Function.update s.knowledgeCollections id
        { s.knowledgeCollections id with
          minted := (s.knowledgeCollections id).minted + amount } := rfl

/-! ## Burning -/

/-- The storage after the burn of `tokenIds`. -/
def burning (s : KnowledgeCollectionStorage) (id holder : ℕ) (tokenIds : List ℕ) :
    KnowledgeCollectionStorage :=
  let kc := s.knowledgeCollections id
  { s.setCollection id { kc with burned := kc.burned ++ tokenIds } with
    owned := fun account tokenId =>
      if account = holder ∧ tokenId ∈ tokenIds then false else s.owned account tokenId
    totalBurnedKnowledgeAssetsCounter :=
      (s.totalBurnedKnowledgeAssetsCounter + tokenIds.length) % 2 ^ 256 }

/-- What a burn has checked. -/
structure BurnChecks (s : KnowledgeCollectionStorage) (id holder : ℕ) (tokenIds : List ℕ) :
    Prop where
  id_pos : 1 ≤ id
  nodup : tokenIds.Nodup
  owned : ∀ t ∈ tokenIds, s.owned holder t = true
  range : ∀ t ∈ tokenIds, s.tokenStart id ≤ t ∧
    t < (s.tokenStart id + (s.knowledgeCollections id).minted) % 2 ^ 256

@[simp] lemma burning_knowledgeCollections :
    (s.burning id holder tokenIds).knowledgeCollections =
      Function.update s.knowledgeCollections id
        { s.knowledgeCollections id with
          burned := (s.knowledgeCollections id).burned ++ tokenIds } := rfl

lemma burnLoop_ok {start : ℕ} (hrun : burnLoop id holder start tokenIds s = .ok s') :
    tokenIds.Nodup ∧ (∀ t ∈ tokenIds, s.owned holder t = true) ∧
      (∀ t ∈ tokenIds, start ≤ t ∧ t < (start + (s.knowledgeCollections id).minted) % 2 ^ 256) ∧
      s' = { s.burning id holder tokenIds with
        totalBurnedKnowledgeAssetsCounter := s.totalBurnedKnowledgeAssetsCounter } := by
  induction tokenIds generalizing s with
  | nil =>
    obtain rfl := of_pure hrun
    refine ⟨nodup_nil, by simp, by simp, ?_⟩
    simp [burning, setCollection]
  | cons tokenId rest ih =>
    unfold burnLoop at hrun
    obtain ⟨hrange, howned, hrun⟩ := of_require₂ hrun
    obtain ⟨hnodup, hrest, hranges, heq⟩ := ih hrun
    -- the rest is burned after `tokenId` was, so it does not occur in it
    have hnot : tokenId ∉ rest := by
      intro hmem
      have := hrest tokenId hmem
      simp [store₂] at this
    refine ⟨nodup_cons.mpr ⟨hnot, hnodup⟩, ?_, ?_, ?_⟩
    · intro t ht
      rcases mem_cons.mp ht with rfl | hin
      · exact howned
      · have hne : t ≠ tokenId := by
          rintro rfl
          exact hnot hin
        have hlater := hrest t hin
        simp only [store₂, hne, and_false, if_false] at hlater
        exact hlater
    · intro t ht
      rcases mem_cons.mp ht with rfl | hin
      · omega
      · have hlater := hranges t hin
        simp only [setCollection, Function.update_self] at hlater
        exact hlater
    · rw [heq]
      simp only [burning, setCollection, Function.update_self, Function.update_idem,
        append_assoc, singleton_append, mk.injEq, true_and, and_true]
      funext account t
      simp only [store₂, mem_cons]
      by_cases hrest : account = holder ∧ t ∈ rest
      · simp [hrest]
      · by_cases htoken : account = holder ∧ t = tokenId
        · simp [htoken, hnot]
        · have hnone : ¬ (account = holder ∧ (t = tokenId ∨ t ∈ rest)) := by tauto
          simp [hrest, htoken, hnone]

lemma burnKnowledgeAssetsTokens_ok
    (hrun : s.burnKnowledgeAssetsTokens id holder tokenIds = .ok s') :
    BurnChecks s id holder tokenIds ∧ s' = s.burning id holder tokenIds := by
  unfold burnKnowledgeAssetsTokens at hrun
  obtain ⟨_, -, start, hstart, s₁, hloop, hrun⟩ := of_bind₃ hrun
  obtain ⟨hid, rfl, -⟩ := firstTokenId_ok hstart
  obtain ⟨hnodup, howned, hrange, rfl⟩ := burnLoop_ok hloop
  obtain rfl := of_pure hrun
  exact ⟨⟨hid, hnodup, howned, hrange⟩, rfl⟩

end Dkg.KnowledgeCollectionStorage
