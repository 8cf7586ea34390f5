import Dkg.KnowledgeAssets.Holdings

/-! # Which tokens are part of a collection

Whether a token is burned is kept in the bitmaps of the owners and in the `burned` list of its
collection. The views about membership read a third place, the flags `isKnowledgeAssetBurned`,
which no function sets. So they answer as if nothing had been burned, and are right exactly as
long as nothing has.
-/

namespace Dkg

open Lib KnowledgeCollectionStorage

namespace KnowledgeTokens

variable {k : KnowledgeTokens} {id t owner : ℕ}

def Burned (k : KnowledgeTokens) (t : ℕ) : Prop :=
  ∃ id, t ∈ (k.storage.knowledgeCollections id).burned

/-- The collection was created, or has tokens. -/
def IsCollection (k : KnowledgeTokens) (id : ℕ) : Prop :=
  (1 ≤ id ∧ id ≤ k.storage.knowledgeCollectionsCounter) ∨
    0 < (k.storage.knowledgeCollections id).minted

/-- What the views are expected to say about burned tokens. -/
structure BurnedLeave (k : KnowledgeTokens) : Prop where
  part : ∀ id t, k.isPartOfKnowledgeCollection id t = .ok true ↔
    k.storage.MintedFor id t ∧ ¬ k.Burned t
  gone : ∀ t, k.Burned t → k.getKnowledgeCollectionId t = .ok 0
  owner : ∀ owner id, k.IsCollection id → (k.isKnowledgeCollectionOwner owner id = .ok true ↔
    ∀ t, k.storage.MintedFor id t → ¬ k.Burned t → k.storage.owned owner t = true)

lemma Inv.range (h : k.Inv) (hid : k.IsCollection id) :
    1 ≤ id ∧ k.storage.tokenStart id + (k.storage.knowledgeCollections id).minted < 2 ^ 256 := by
  by_cases hminted : 0 < (k.storage.knowledgeCollections id).minted
  · exact h.assets.fits id hminted
  · obtain ⟨hpos, hle⟩ := hid.resolve_right hminted
    have hnewest := h.assets.fits _ (h.newest (by omega))
    -- the range begins below that of the newest collection
    have hmono : k.storage.tokenStart id ≤
        k.storage.tokenStart k.storage.knowledgeCollectionsCounter := by
      unfold tokenStart
      have := Nat.mul_le_mul_right k.storage.KNOWLEDGE_COLLECTION_MAX_SIZE
        (Nat.sub_le_sub_right hle 1)
      omega
    omega

/-- `isPartOfKnowledgeCollection` says whether the token was minted for the collection. -/
lemma Inv.isPartOf_iff (h : k.Inv) :
    k.isPartOfKnowledgeCollection id t = .ok true ↔ k.storage.MintedFor id t := by
  unfold isPartOfKnowledgeCollection
  constructor
  · intro hrun
    obtain ⟨start, hstart, hrun⟩ := of_bind hrun
    obtain ⟨hid, rfl, -⟩ := firstTokenId_ok hstart
    split at hrun
    next hin =>
      obtain ⟨stop, hstop, hrun⟩ := of_bind hrun
      obtain ⟨-, rfl⟩ := addUint_eq_ok.mp hstop
      exact ⟨hid, hin.2, of_decide_eq_true (of_pure hrun)⟩
    next =>
      cases of_pure hrun
  · rintro ⟨hid, hlo, hhi⟩
    have hfits := (h.assets.fits id (by omega)).2
    refine bind_eq_ok.mpr ⟨_, firstTokenId_eq hid (by omega), ?_⟩
    rw [if_pos ⟨h.flags t, hlo⟩]
    refine bind_eq_ok.mpr ⟨_, addUint_eq_ok.mpr ⟨hfits, rfl⟩, ?_⟩
    exact pure_eq_ok.mpr (decide_eq_true hhi)

lemma Inv.ownsAll_iff (h : k.Inv) (i count : ℕ) :
    k.ownsAll owner i count = true ↔
      ∀ t, i ≤ t → t < i + count → k.storage.owned owner t = true := by
  induction count generalizing i with
  | zero =>
    simp only [ownsAll, true_iff]
    intro t hlo hhi
    omega
  | succ count ih =>
    simp only [ownsAll, h.flags i, Bool.false_eq_true, if_false]
    split
    next howned =>
      rw [ih]
      constructor
      · intro hrest t hlo hhi
        by_cases ht : t = i
        · rw [ht]
          exact howned
        · exact hrest t (by omega) (by omega)
      · exact fun hall t hlo hhi => hall t (by omega) (by omega)
    next hnot =>
      simp only [Bool.false_eq_true, false_iff]
      exact fun hall => hnot (hall i (le_refl i) (by omega))

/-- `isKnowledgeCollectionOwner` says whether the owner holds all tokens that were minted. -/
lemma Inv.isOwner_iff (h : k.Inv) (hid : k.IsCollection id) :
    k.isKnowledgeCollectionOwner owner id = .ok true ↔
      ∀ t, k.storage.MintedFor id t → k.storage.owned owner t = true := by
  obtain ⟨hpos, hfits⟩ := h.range hid
  have heq : k.isKnowledgeCollectionOwner owner id = .ok (k.ownsAll owner
      (k.storage.tokenStart id) (k.storage.knowledgeCollections id).minted) := by
    unfold isKnowledgeCollectionOwner
    refine bind_eq_ok.mpr ⟨_, firstTokenId_eq hpos (by omega), ?_⟩
    refine bind_eq_ok.mpr ⟨_, addUint_eq_ok.mpr ⟨hfits, rfl⟩, ?_⟩
    rw [Nat.add_sub_cancel_left]
    rfl
  rw [heq, Except.ok.injEq, h.ownsAll_iff]
  constructor
  · exact fun hall t ht => hall t ht.2.1 ht.2.2
  · exact fun hall t hlo hhi => hall t ⟨hpos, hlo, hhi⟩

/-- A burned token is still part of its collection. -/
lemma Inv.not_burned (h : k.Inv) (hleave : k.BurnedLeave) :
    (k.storage.knowledgeCollections id).burned = [] := by
  apply List.eq_nil_iff_forall_not_mem.mpr
  intro t ht
  have hpart := h.isPartOf_iff.mpr (h.assets.burned id t ht)
  exact ((hleave.part id t).mp hpart).2 ⟨id, ht⟩

end KnowledgeTokens

open KnowledgeTokens

/-- In every reachable state, the views about membership are right for burned tokens exactly when
there are none. -/
theorem burned_assets_leave_collection {k : KnowledgeTokens} (hr : tokenMachine.Reachable k) :
    k.BurnedLeave ↔ ∀ id, (k.storage.knowledgeCollections id).burned = [] := by
  have h := tokenMachine_inv hr
  constructor
  · exact fun hleave id => h.not_burned hleave
  · intro hnone
    have hburned : ∀ t, ¬ k.Burned t := by
      rintro t ⟨id, ht⟩
      rw [hnone id] at ht
      cases ht
    constructor
    · intro id t
      rw [h.isPartOf_iff]
      simp [hburned]
    · exact fun t ht => absurd ht (hburned t)
    · intro owner id hid
      rw [h.isOwner_iff hid]
      simp [hburned]

/-- A collection is published and nothing is burned. -/
theorem burned_assets_leave_collection_published : ∃ k, tokenMachine.Reachable k ∧
    k.storage.owned 7 3 = true ∧ k.BurnedLeave := by
  obtain ⟨k, hrun, hs⟩ := exists_of_succeeds
    (x := publishThree.run (KnowledgeTokens.empty 10))
    (t := fun k => k.storage.owned 7 3) (by decide +kernel)
  have hr : tokenMachine.Reachable k := .step (.init ⟨10, rfl⟩) hrun
  refine ⟨k, hr, hs, (burned_assets_leave_collection hr).mpr fun id => ?_⟩
  obtain ⟨out, hcreate, rfl⟩ := of_bind_pure hrun
  obtain ⟨s₁, hsame, -, -, hout⟩ := createKnowledgeCollection_ok hcreate
  show (out.2.knowledgeCollections id).burned = []
  rw [hout, minting_burned, hsame.burned]
  rfl

/-- The last of three tokens is burned: it stays part of its collection, and the holder of the
others is not the owner of the collection. -/
theorem burned_token_stays_in_collection : ∃ k, tokenMachine.Reachable k ∧
    (k.storage.knowledgeCollections 1).burned = [3] ∧
    k.isPartOfKnowledgeCollection 1 3 = .ok true ∧ k.getKnowledgeCollectionId 3 = .ok 1 ∧
    k.isKnowledgeCollectionOwner 7 1 = .ok false ∧ ¬ k.BurnedLeave := by
  obtain ⟨k, hrun, hs⟩ := exists_of_succeeds
    (x := Machine.runList (fun k (op : TokenOp) => op.run k)
      [publishThree, .updateKnowledgeCollection ⟨1002, by decide⟩ 7 1 2 0 [3] 1 1 1]
      (KnowledgeTokens.empty 10))
    (t := fun k => decide ((k.storage.knowledgeCollections 1).burned = [3]) &&
      succeeds (k.isPartOfKnowledgeCollection 1 3) (fun b => b = true) &&
      succeeds (k.getKnowledgeCollectionId 3) (fun n => n = 1) &&
      succeeds (k.isKnowledgeCollectionOwner 7 1) (fun b => b = false)) (by decide +kernel)
  have hr : tokenMachine.Reachable k :=
    Machine.Reachable.runList (fun _ _ _ h => h) (.init ⟨10, rfl⟩) hrun
  simp only [Bool.and_eq_true, decide_eq_true_eq] at hs
  obtain ⟨⟨⟨hburned, hpart⟩, hid⟩, howner⟩ := hs
  have hstill := eq_ok_of_succeeds hpart
  refine ⟨k, hr, hburned, hstill, eq_ok_of_succeeds hid, eq_ok_of_succeeds howner,
    fun hleave => ?_⟩
  exact ((hleave.part 1 3).mp hstill).2 ⟨1, by simp [hburned]⟩

end Dkg
