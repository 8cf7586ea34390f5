import Dkg.KnowledgeAssets.Tokens

/-! # The token amounts of the collections

What the functions of `KnowledgeCollectionStorage` do to the token amounts. All three ways to
charge a collection (a creation, an update to a larger amount, an extension) are one effect,
`Charged`: one collection's amount grows, and `_totalTokenAmount` grows with it, modulo `2^96`.
So the total is the sum of the amounts modulo `2^96` (`CollectionInv`).
-/

namespace Dkg

open Function (update update_eq_self update_idem update_of_ne update_self)

namespace KnowledgeCollectionStorage

variable {s s' : KnowledgeCollectionStorage}

def tokenAmounts (s : KnowledgeCollectionStorage) : ℕ → ℕ :=
  fun id => (s.knowledgeCollections id).tokenAmount

def endEpochs (s : KnowledgeCollectionStorage) : ℕ → ℕ :=
  fun id => (s.knowledgeCollections id).endEpoch

lemma tokenAmounts_setCollection (s : KnowledgeCollectionStorage) (id : ℕ)
    (kc : KnowledgeCollection) :
    (s.setCollection id kc).tokenAmounts = update s.tokenAmounts id kc.tokenAmount := by
  funext i
  by_cases hi : i = id
  · rw [hi, update_self]
    simp [tokenAmounts, setCollection]
  · rw [update_of_ne hi]
    simp [tokenAmounts, setCollection, hi]

lemma endEpochs_setCollection (s : KnowledgeCollectionStorage) (id : ℕ) (kc : KnowledgeCollection) :
    (s.setCollection id kc).endEpochs = update s.endEpochs id kc.endEpoch := by
  funext i
  by_cases hi : i = id
  · rw [hi, update_self]
    simp [endEpochs, setCollection]
  · rw [update_of_ne hi]
    simp [endEpochs, setCollection, hi]

/-! ## Minting and burning -/

/-- Nothing that a payment depends on has changed. -/
structure SameAmounts (s s' : KnowledgeCollectionStorage) : Prop where
  counter : s'.knowledgeCollectionsCounter = s.knowledgeCollectionsCounter
  total : s'.totalTokenAmount = s.totalTokenAmount
  amounts : s'.tokenAmounts = s.tokenAmounts
  ends : s'.endEpochs = s.endEpochs

lemma SameAmounts.refl (s : KnowledgeCollectionStorage) : SameAmounts s s := ⟨rfl, rfl, rfl, rfl⟩

lemma SameAmounts.trans {s'' : KnowledgeCollectionStorage} (h : SameAmounts s s')
    (h' : SameAmounts s' s'') : SameAmounts s s'' :=
  ⟨h'.counter.trans h.counter, h'.total.trans h.total, h'.amounts.trans h.amounts,
    h'.ends.trans h.ends⟩

lemma SameAmounts.setCollection (s : KnowledgeCollectionStorage) (id : ℕ)
    (kc : KnowledgeCollection) (hamount : kc.tokenAmount = s.tokenAmounts id)
    (hend : kc.endEpoch = s.endEpochs id) : SameAmounts s (s.setCollection id kc) := by
  refine ⟨rfl, rfl, ?_, ?_⟩
  · rw [tokenAmounts_setCollection, hamount, update_eq_self]
  · rw [endEpochs_setCollection, hend, update_eq_self]

lemma mintKnowledgeAssetsTokens_same {id receiver amount : ℕ}
    (hrun : s.mintKnowledgeAssetsTokens id receiver amount = .ok s') : SameAmounts s s' := by
  obtain ⟨-, rfl⟩ := mintKnowledgeAssetsTokens_ok hrun
  have hset := SameAmounts.setCollection s id
    { s.knowledgeCollections id with
      minted := (s.knowledgeCollections id).minted + amount } rfl rfl
  exact ⟨rfl, rfl, hset.amounts, hset.ends⟩

lemma burnKnowledgeAssetsTokens_same {id holder : ℕ} {tokenIds : List ℕ}
    (hrun : s.burnKnowledgeAssetsTokens id holder tokenIds = .ok s') : SameAmounts s s' := by
  obtain ⟨-, rfl⟩ := burnKnowledgeAssetsTokens_ok hrun
  have hset := SameAmounts.setCollection s id
    { s.knowledgeCollections id with
      burned := (s.knowledgeCollections id).burned ++ tokenIds } rfl rfl
  exact ⟨rfl, rfl, hset.amounts, hset.ends⟩

end KnowledgeCollectionStorage

open KnowledgeCollectionStorage Finset

/-! ## Charging a collection -/

/-- The token amount of the collection `id` grows by `amount`, and the total with it. The
collection is the next one, or one that exists. -/
structure Charged (s : KnowledgeCollectionStorage) (id amount : ℕ)
    (s' : KnowledgeCollectionStorage) : Prop where
  counter : s.knowledgeCollectionsCounter ≤ s'.knowledgeCollectionsCounter
  created : 1 ≤ id ∧ id ≤ s'.knowledgeCollectionsCounter
  amounts : s'.tokenAmounts = update s.tokenAmounts id (s.tokenAmounts id + amount)
  total : s'.totalTokenAmount = uint96 (s.totalTokenAmount + amount)
  ends : ∀ i, i ≠ id → s'.endEpochs i = s.endEpochs i

/-- The collections, with `charged` as the sum of their token amounts. -/
structure CollectionInv (s : KnowledgeCollectionStorage) (charged : ℕ) : Prop where
  unused : ∀ id, id = 0 ∨ s.knowledgeCollectionsCounter < id →
    s.tokenAmounts id = 0 ∧ s.endEpochs id = 0
  sum : ∑ id ∈ Finset.range (s.knowledgeCollectionsCounter + 1), s.tokenAmounts id = charged
  total : s.totalTokenAmount = uint96 charged

namespace CollectionInv

variable {s s' : KnowledgeCollectionStorage} {sum : ℕ}

lemma empty (maxSize : ℕ) : CollectionInv (KnowledgeCollectionStorage.empty maxSize) 0 where
  unused := fun _ _ => ⟨rfl, rfl⟩
  sum := by simp [KnowledgeCollectionStorage.empty, tokenAmounts, KnowledgeCollection.zero]
  total := rfl

lemma exists_of_endEpoch (h : CollectionInv s sum) {id : ℕ} (hend : s.endEpochs id ≠ 0) :
    1 ≤ id ∧ id ≤ s.knowledgeCollectionsCounter := by
  by_contra hno
  exact hend (h.unused id (by omega)).2

lemma charge {id amount : ℕ} (h : CollectionInv s sum) (hc : Charged s id amount s') :
    CollectionInv s' (sum + amount) := by
  have hcounter := hc.counter
  have hcreated := hc.created
  refine ⟨?_, ?_, ?_⟩
  · intro i hi
    have hne : i ≠ id := by omega
    have hold := h.unused i (by omega)
    rw [hc.amounts, update_of_ne hne, hc.ends i hne]
    exact hold
  · -- the sum over the ids up to the new counter, before the charge
    have hbefore : ∑ i ∈ range (s'.knowledgeCollectionsCounter + 1), s.tokenAmounts i
        = sum := by
      rw [← h.sum]
      symm
      apply sum_subset
      · intro i hi
        rw [mem_range] at hi ⊢
        omega
      · intro i _ hi
        rw [mem_range] at hi
        exact (h.unused i (by omega)).1
    have hmem : id ∈ range (s'.knowledgeCollectionsCounter + 1) := by
      rw [mem_range]
      omega
    rw [hc.amounts, sum_update_of_mem hmem, ← hbefore,
      ← add_sum_erase _ _ hmem, sdiff_singleton_eq_erase]
    ring
  · rw [hc.total, h.total]
    unfold uint96
    exact Nat.mod_add_mod _ _ _

end CollectionInv

namespace KnowledgeCollectionStorage

variable {s s' : KnowledgeCollectionStorage}

variable {b : Block} {publisher root byteSize amount leaves id sum : ℕ}

lemma createKnowledgeCollection_charged {assets start last : ℕ} {immutable : Bool}
    (hrun : s.createKnowledgeCollection b publisher root assets byteSize start last amount
      immutable leaves = .ok (id, s')) (hinv : CollectionInv s sum) : Charged s id amount s' := by
  unfold createKnowledgeCollection at hrun
  obtain ⟨next, hnext, s₁, hmint, hend⟩ := of_bind₂ hrun
  obtain ⟨rfl, rfl⟩ := Prod.mk.inj (of_pure hend)
  obtain ⟨-, rfl⟩ := addUint_eq_ok.mp hnext
  have hsame := mintKnowledgeAssetsTokens_same hmint
  have hfresh : s.tokenAmounts (s.knowledgeCollectionsCounter + 1) = 0 :=
    (hinv.unused _ (.inr (Nat.lt_succ_self _))).1
  have hcounter : s₁.knowledgeCollectionsCounter = s.knowledgeCollectionsCounter + 1 :=
    hsame.counter
  refine ⟨by omega, by omega, ?_, hsame.total, ?_⟩
  · rw [hfresh, Nat.zero_add, hsame.amounts]
    exact tokenAmounts_setCollection _ _ _
  · intro i hi
    rw [hsame.ends]
    exact (congrFun (endEpochs_setCollection _ _ _) i).trans (update_of_ne hi _ _)

lemma updateKnowledgeCollection_charged {mint : ℕ} {burn : List ℕ}
    (hrun : s.updateKnowledgeCollection b publisher id root mint burn byteSize amount leaves
      = .ok s') (hinv : CollectionInv s sum) (hend : s.endEpochs id ≠ 0)
    (hle : s.tokenAmounts id ≤ amount) : Charged s id (amount - s.tokenAmounts id) s' := by
  unfold updateKnowledgeCollection at hrun
  obtain ⟨s₁, hburn, hrun⟩ := of_bind hrun
  have hburned := burnKnowledgeAssetsTokens_same hburn
  have hsame : SameAmounts s₁ s' := by
    split at hrun
    next => exact mintKnowledgeAssetsTokens_same hrun
    next =>
      obtain rfl := of_pure hrun
      exact SameAmounts.refl _
  have hall := hburned.trans hsame
  have hcounter : s'.knowledgeCollectionsCounter = s.knowledgeCollectionsCounter := hall.counter
  have hexists := hinv.exists_of_endEpoch hend
  refine ⟨hcounter.ge, by omega, ?_, ?_, ?_⟩
  · rw [hall.amounts, Nat.add_sub_cancel' hle]
    exact tokenAmounts_setCollection _ _ _
  · -- the old amount is subtracted and the new one added, without a check
    have htotal : s'.totalTokenAmount
        = uint96OfInt ((s.totalTokenAmount : ℤ) - s.tokenAmounts id + amount) := hall.total
    have hint : (s.totalTokenAmount : ℤ) - s.tokenAmounts id + amount
        = ((s.totalTokenAmount + (amount - s.tokenAmounts id) : ℕ) : ℤ) := by
      push_cast [hle]
      ring
    rw [htotal, hint]
    unfold uint96OfInt uint96
    norm_cast
  · intro i hi
    rw [hall.ends]
    refine (congrFun (endEpochs_setCollection _ _ _) i).trans ?_
    rw [update_of_ne hi]
    rfl

lemma setTokenAmount_charged {newEnd : ℕ}
    (hrun : (s.setEndEpoch id newEnd).setTokenAmount id (s.tokenAmounts id + amount) = .ok s')
    (hinv : CollectionInv s sum) (hend : s.endEpochs id ≠ 0) : Charged s id amount s' := by
  unfold setTokenAmount at hrun
  obtain ⟨rest, hrest, total, htotal, hend'⟩ := of_bind₂ hrun
  obtain ⟨hle, rfl⟩ := subUint_eq_ok.mp hrest
  obtain ⟨hlt, rfl⟩ := addUint_eq_ok.mp htotal
  obtain rfl := of_pure hend'
  have hold : ((s.setEndEpoch id newEnd).knowledgeCollections id).tokenAmount
      = s.tokenAmounts id := by
    simp [setEndEpoch, setCollection, tokenAmounts]
  have hkept : (s.setEndEpoch id newEnd).totalTokenAmount = s.totalTokenAmount := rfl
  rw [hold, hkept] at hle hlt
  refine ⟨le_rfl, hinv.exists_of_endEpoch hend, ?_, ?_, ?_⟩
  · refine (tokenAmounts_setCollection _ _ _).trans ?_
    show update (s.setEndEpoch id newEnd).tokenAmounts id _ = _
    unfold setEndEpoch
    rw [tokenAmounts_setCollection, update_idem]
  · show _ - _ + _ = _
    rw [hold, hkept, uint96_of_lt (by omega)]
    omega
  · intro i hi
    refine (congrFun (endEpochs_setCollection _ _ _) i).trans ?_
    rw [update_of_ne hi]
    exact (congrFun (endEpochs_setCollection _ _ _) i).trans (update_of_ne hi _ _)

end KnowledgeCollectionStorage

end Dkg
