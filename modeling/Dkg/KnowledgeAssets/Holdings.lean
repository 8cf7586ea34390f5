import Dkg.KnowledgeAssets.Ownership

/-! # The tokens of an owner, counted and listed

`balanceOf` and `tokensOfOwner` query the range from token `1` up to `_latestTokenId()`, which they
take as the end of a half-open range although it is the id of the last token. So the last token of
the newest collection is neither counted nor listed, and neither is a token of a collection above
the counter. Where no such token is held, and the range is not empty, the views are right.
-/

namespace Dkg

open Lib Finset

/-- `LibBitmap.popCount`: the number of set bits in a range of `amount` bits from `start` on. -/
def CountsBits (popCount : (ℕ → Bool) → ℕ → ℕ → ℕ) : Prop :=
  ∀ bits start amount, start + amount ≤ 2 ^ 256 →
    popCount bits start amount = (List.range' start amount).countP bits

namespace KnowledgeCollectionStorage

variable {s : KnowledgeCollectionStorage} {popCount : (ℕ → Bool) → ℕ → ℕ → ℕ} {owner : ℕ}

def latestTokenId (s : KnowledgeCollectionStorage) : ℕ :=
  if s.knowledgeCollectionsCounter = 0 then 0
  else (s.knowledgeCollectionsCounter - 1) * s.KNOWLEDGE_COLLECTION_MAX_SIZE +
    (s.knowledgeCollections s.knowledgeCollectionsCounter).minted

lemma AssetInv.latestTokenId_lt (h : AssetInv s) (hn : NewestMinted s) :
    s.latestTokenId < 2 ^ 256 := by
  unfold latestTokenId
  split
  next => exact Nat.two_pow_pos 256
  next hpos =>
    have hfits := (h.fits _ (hn (Nat.pos_of_ne_zero hpos))).2
    unfold tokenStart at hfits
    omega

lemma AssetInv._latestTokenId_eq (h : AssetInv s) (hn : NewestMinted s) :
    s._latestTokenId = .ok s.latestTokenId := by
  have hlt := h.latestTokenId_lt hn
  unfold latestTokenId at hlt ⊢
  unfold _latestTokenId
  split
  next => rfl
  next hpos =>
    rw [if_neg hpos] at hlt
    refine bind_eq_ok.mpr ⟨_, subUint_eq_ok.mpr ⟨Nat.one_le_iff_ne_zero.mpr hpos, rfl⟩, ?_⟩
    refine bind_eq_ok.mpr ⟨_, mulUint_eq_ok.mpr ⟨?_, rfl⟩, ?_⟩
    · omega
    · exact addUint_eq_ok.mpr ⟨hlt, rfl⟩

/-! ## The loop -/

/-- With gas for the range, the loop finds the set bits of it, in order. -/
lemma collect_eq {bits : ℕ → Bool} {n gas i toFind : ℕ} {found : List ℕ}
    (hcount : toFind = (List.range' i n).countP bits) (hgas : n ≤ gas) (hfits : i + n < 2 ^ 256) :
    collect bits gas i toFind found = .ok (found ++ (List.range' i n).filter bits) := by
  induction n generalizing gas i toFind found with
  | zero =>
    subst hcount
    cases gas <;> simp [collect, pure, Except.pure]
  | succ n ih =>
    obtain ⟨gas, rfl⟩ : ∃ g, gas = g + 1 := ⟨gas - 1, by omega⟩
    have hnext : (i + 1) % 2 ^ 256 = i + 1 := Nat.mod_eq_of_lt (by omega)
    rw [List.range'_succ] at hcount ⊢
    cases toFind with
    | zero =>
      have hnone : (i :: List.range' (i + 1) n).filter bits = [] := by
        rw [← List.length_eq_zero_iff, ← List.countP_eq_length_filter]
        exact hcount.symm
      rw [hnone]
      simp [collect, pure, Except.pure]
    | succ toFind =>
      by_cases hbit : bits i = true
      · rw [List.countP_cons_of_pos hbit, Nat.add_right_cancel_iff] at hcount
        rw [collect, if_pos hbit, hnext, ih hcount (by omega) (by omega),
          List.filter_cons_of_pos hbit]
        simp
      · rw [List.countP_cons_of_neg hbit] at hcount
        rw [collect, if_neg hbit, hnext, ih hcount (by omega) (by omega),
          List.filter_cons_of_neg hbit]

/-! ## What the views return -/

/-- The tokens of the owner that the views see. -/
def seen (s : KnowledgeCollectionStorage) (owner : ℕ) : List ℕ :=
  (List.range' 1 (s.latestTokenId - 1)).filter (s.owned owner)

lemma mem_seen {t : ℕ} :
    t ∈ s.seen owner ↔ 1 ≤ t ∧ t < s.latestTokenId ∧ s.owned owner t = true := by
  simp only [seen, List.mem_filter, List.mem_range'_1]
  constructor
  · rintro ⟨⟨hlo, hhi⟩, howned⟩
    exact ⟨hlo, by omega, howned⟩
  · rintro ⟨hlo, hhi, howned⟩
    exact ⟨⟨hlo, by omega⟩, howned⟩

lemma seen_pairwise : (s.seen owner).Pairwise (· < ·) :=
  List.Pairwise.filter _ List.pairwise_lt_range'

lemma AssetInv.balanceOf_eq (h : AssetInv s) (hn : NewestMinted s) (hpop : CountsBits popCount)
    (owner : ℕ) : s.balanceOf popCount owner = .ok (s.seen owner).length := by
  have hlt := h.latestTokenId_lt hn
  unfold balanceOf
  refine bind_eq_ok.mpr ⟨_, h._latestTokenId_eq hn, ?_⟩
  split
  next hzero => simp [seen, hzero, pure, Except.pure]
  next hpos =>
    unfold balanceOfRange _startTokenId
    refine bind_eq_ok.mpr ⟨_, subUint_eq_ok.mpr ⟨by omega, rfl⟩, ?_⟩
    rw [hpop _ _ _ (by omega), List.countP_eq_length_filter]
    rfl

/-- `tokensOfOwner` once something was minted: it reverts when the range is empty. -/
lemma AssetInv.tokensOfOwner_eq (h : AssetInv s) (hn : NewestMinted s)
    (hpop : CountsBits popCount) (hminted : s.totalMintedKnowledgeAssetsCounter ≠ 0) {gas : ℕ}
    (hgas : s.latestTokenId ≤ gas) (owner : ℕ) :
    s.tokensOfOwner popCount gas owner =
      if 2 ≤ s.latestTokenId then .ok (s.seen owner) else .error .invalidQueryRange := by
  have hlt := h.latestTokenId_lt hn
  have hlatest := h._latestTokenId_eq hn
  unfold tokensOfOwner
  rw [if_neg hminted, hlatest]
  show s.tokensOfOwnerIn popCount gas owner 1 s.latestTokenId = _
  unfold tokensOfOwnerIn
  by_cases htwo : 2 ≤ s.latestTokenId
  · rw [if_pos htwo]
    have hstart : ¬ 1 < _startTokenId := lt_irrefl 1
    have hcount : s.balanceOfRange popCount owner 1 s.latestTokenId =
        .ok ((List.range' 1 (s.latestTokenId - 1)).countP (s.owned owner)) := by
      unfold balanceOfRange
      refine bind_eq_ok.mpr ⟨_, subUint_eq_ok.mpr ⟨by omega, rfl⟩, ?_⟩
      rw [hpop _ _ _ (by omega)]
      rfl
    refine bind_eq_ok.mpr ⟨(), require_eq_ok.mpr (by omega), ?_⟩
    refine bind_eq_ok.mpr ⟨_, hlatest, ?_⟩
    simp only [hstart, if_false, gt_iff_lt, lt_irrefl]
    refine bind_eq_ok.mpr ⟨_, (if_pos (by omega)).trans hcount, ?_⟩
    exact collect_eq rfl (by omega) (by omega)
  · rw [if_neg htwo]
    exact bind_eq_error.mpr (.inl (require_eq_error.mpr ⟨by omega, rfl⟩))

/-! ## Accounting -/

def Holds (s : KnowledgeCollectionStorage) (owner : ℕ) (tokens : List ℕ) : Prop :=
  tokens.Pairwise (· < ·) ∧ ∀ t, t ∈ tokens ↔ s.owned owner t = true

lemma Holds.unique {tokens tokens' : List ℕ} (h : s.Holds owner tokens)
    (h' : s.Holds owner tokens') : tokens = tokens' := by
  have hperm : tokens.Perm tokens' :=
    (List.perm_ext_iff_of_nodup (h.1.imp ne_of_lt) (h'.1.imp ne_of_lt)).mpr
      fun t => (h.2 t).trans (h'.2 t).symm
  exact hperm.eq_of_pairwise' h.1 h'.1

/-- What the views are expected to do: the balance and the list of an owner are those of the tokens
the owner holds, the supply is the number of all of them, and a token has one holder and was minted
for one collection. -/
def Accounted (s : KnowledgeCollectionStorage) (popCount : (ℕ → Bool) → ℕ → ℕ → ℕ) : Prop :=
  ∃ tokens : ℕ → List ℕ, (∀ owner, s.Holds owner (tokens owner)) ∧
    (∀ owner, s.balanceOf popCount owner = .ok (tokens owner).length ∧
      ∃ enough, ∀ gas, enough ≤ gas → s.tokensOfOwner popCount gas owner = .ok (tokens owner)) ∧
    (∃ owners : Finset ℕ, (∀ owner, owner ∉ owners → tokens owner = []) ∧
      s.currentTotalSupply = .ok (∑ owner ∈ owners, (tokens owner).length)) ∧
    (∀ o o' t, s.owned o t = true → s.owned o' t = true → o = o') ∧
    ∀ o t, s.owned o t = true → ∃! id, s.MintedFor id t

/-- The supply is the sum over the owners, in every case. -/
lemma AssetInv.holdings (h : AssetInv s) :
    ∃ tokens : ℕ → List ℕ, (∀ owner, s.Holds owner (tokens owner)) ∧
      ∃ owners : Finset ℕ, (∀ owner, owner ∉ owners → tokens owner = []) ∧
        s.currentTotalSupply = .ok (∑ owner ∈ owners, (tokens owner).length) := by
  obtain ⟨pairs, hpairs, hcard⟩ := h.supply
  let mine : ℕ → Finset (ℕ × ℕ) := fun owner => pairs.filter fun p => p.1 = owner
  let tokens : ℕ → List ℕ := fun owner => ((mine owner).image Prod.snd).sort
  have hmem : ∀ owner t, t ∈ tokens owner ↔ s.owned owner t = true := by
    intro owner t
    simp only [tokens, mine, mem_sort, mem_image, mem_filter]
    rw [← hpairs]
    constructor
    · rintro ⟨⟨o, t'⟩, ⟨hin, rfl⟩, rfl⟩
      exact hin
    · exact fun hin => ⟨(owner, t), ⟨hin, rfl⟩, rfl⟩
  have hlength : ∀ owner, (tokens owner).length = (mine owner).card := by
    intro owner
    rw [length_sort]
    apply card_image_of_injOn
    rintro ⟨o, t⟩ hp ⟨o', t'⟩ hp' heq
    have ho := (mem_filter.mp hp).2
    have ho' := (mem_filter.mp hp').2
    exact Prod.ext (ho.trans ho'.symm) heq
  refine ⟨tokens, fun owner => ⟨(sortedLT_sort _).pairwise, hmem owner⟩,
    pairs.image Prod.fst, ?_, ?_⟩
  · intro owner hnone
    apply List.eq_nil_iff_forall_not_mem.mpr
    intro t ht
    exact hnone (mem_image.mpr ⟨(owner, t), (hpairs owner t).mpr ((hmem owner t).mp ht), rfl⟩)
  · have hsum : ∑ owner ∈ pairs.image Prod.fst, (tokens owner).length = pairs.card := by
      rw [card_eq_sum_card_image Prod.fst pairs]
      exact sum_congr rfl fun owner _ => hlength owner
    rw [hsum]
    exact subUint_eq_ok.mpr ⟨by omega, by omega⟩

/-- No token is held that the views do not reach, and their range is not empty. -/
structure Enumerable (s : KnowledgeCollectionStorage) : Prop where
  below : ∀ o t, s.owned o t = true → t < s.latestTokenId
  range : s.totalMintedKnowledgeAssetsCounter = 0 ∨ 2 ≤ s.latestTokenId

lemma AssetInv.seen_holds (h : AssetInv s) (hbelow : ∀ o t, s.owned o t = true →
    t < s.latestTokenId) (owner : ℕ) : s.Holds owner (s.seen owner) := by
  refine ⟨seen_pairwise, fun t => ?_⟩
  rw [mem_seen]
  constructor
  · exact fun ht => ht.2.2
  · intro howned
    obtain ⟨id, -, hstart, -⟩ := h.held owner t howned
    unfold tokenStart at hstart
    exact ⟨by omega, hbelow owner t howned, howned⟩

lemma AssetInv.none_held (h : AssetInv s) (hzero : s.totalMintedKnowledgeAssetsCounter = 0)
    (o t : ℕ) : s.owned o t ≠ true := by
  obtain ⟨pairs, hpairs, hcard⟩ := h.supply
  have hempty : pairs = ∅ := card_eq_zero.mp (by omega)
  intro howned
  have hin := (hpairs o t).mpr howned
  rw [hempty] at hin
  exact absurd hin (notMem_empty _)

/-- A token that the views do not reach makes the balance too small. -/
lemma Holds.below {tokens : List ℕ} (h : s.Holds owner tokens)
    (hlength : (s.seen owner).length = tokens.length) {t : ℕ} (ht : s.owned owner t = true) :
    t < s.latestTokenId := by
  have hsubset : ∀ x ∈ s.seen owner, x ∈ tokens := fun x hx => (h.2 x).mpr (mem_seen.mp hx).2.2
  have hnodup : (s.seen owner).Nodup := seen_pairwise.imp ne_of_lt
  have hperm : (s.seen owner).Perm tokens := (hnodup.subperm hsubset).perm_of_length_le hlength.ge
  exact (mem_seen.mp (hperm.mem_iff.mpr ((h.2 t).mpr ht))).2.1

lemma AssetInv.enumerable (h : AssetInv s) (hn : NewestMinted s) (hpop : CountsBits popCount)
    (hacc : s.Accounted popCount) : s.Enumerable := by
  obtain ⟨tokens, hholds, hviews, -⟩ := hacc
  constructor
  · intro o t howned
    have hlength : (s.seen o).length = (tokens o).length := by
      have hbalance := (hviews o).1
      rw [h.balanceOf_eq hn hpop] at hbalance
      exact Except.ok.inj hbalance
    exact (hholds o).below hlength howned
  · by_contra hrange
    obtain ⟨hminted, hlatest⟩ := not_or.mp hrange
    obtain ⟨-, enough, hlist⟩ := hviews 0
    have hgas := hlist (max enough s.latestTokenId) (le_max_left _ _)
    rw [h.tokensOfOwner_eq hn hpop hminted (le_max_right _ _), if_neg hlatest] at hgas
    cases hgas

lemma AssetInv.accounted (h : AssetInv s) (hn : NewestMinted s) (hpop : CountsBits popCount)
    (hviews : s.Enumerable) : s.Accounted popCount := by
  obtain ⟨hbelow, hrange⟩ := hviews
  obtain ⟨tokens, hholds, hsupply⟩ := h.holdings
  have hseen : ∀ owner, tokens owner = s.seen owner :=
    fun owner => (hholds owner).unique (h.seen_holds hbelow owner)
  refine ⟨tokens, hholds, fun owner => ⟨?_, s.latestTokenId, fun gas hgas => ?_⟩, hsupply,
    h.one, fun o t howned => ?_⟩
  · rw [h.balanceOf_eq hn hpop, hseen]
  · by_cases hminted : s.totalMintedKnowledgeAssetsCounter = 0
    · have hnil : tokens owner = [] := by
        apply List.eq_nil_iff_forall_not_mem.mpr
        exact fun t ht => h.none_held hminted owner t (((hholds owner).2 t).mp ht)
      simp [tokensOfOwner, hminted, hnil, pure, Except.pure]
    · rw [h.tokensOfOwner_eq hn hpop hminted hgas, if_pos (hrange.resolve_left hminted), hseen]
  · obtain ⟨id, hid⟩ := h.held o t howned
    exact ⟨id, hid, fun id' hid' => h.collection_unique hid' hid⟩

end KnowledgeCollectionStorage

open KnowledgeCollectionStorage

/-- In every reachable state the views account for the tokens exactly when no held token has an id
from `_latestTokenId()` on, and, once something was minted, `_latestTokenId()` is at least `2`. -/
theorem knowledge_asset_accounting {popCount : (ℕ → Bool) → ℕ → ℕ → ℕ} (hpop : CountsBits popCount)
    {k : KnowledgeTokens} (hr : tokenMachine.Reachable k) :
    k.storage.Accounted popCount ↔ k.storage.Enumerable := by
  obtain ⟨h, hn, -⟩ := tokenMachine_inv hr
  exact ⟨h.enumerable hn hpop, h.accounted hn hpop⟩

/-- The bits of a range, counted one by one. -/
def bitCount (bits : ℕ → Bool) (start amount : ℕ) : ℕ := (List.range' start amount).countP bits

/-- The account `7` publishes a collection with the tokens `1`, `2` and `3`. -/
def publishThree : TokenOp :=
  .createKnowledgeCollection ⟨1010, by decide⟩ 7 1 3 1 1 2 1 false 1

/-- The last of three tokens is burned and the first is given away. -/
theorem knowledge_asset_accounting_last_burned :
    CountsBits bitCount ∧ ∃ k, tokenMachine.Reachable k ∧ k.storage.owned 7 2 = true ∧
      k.storage.owned 8 1 = true ∧ k.storage.Accounted bitCount := by
  have hbits : CountsBits bitCount := fun _ _ _ _ => rfl
  obtain ⟨k, hrun, hs⟩ := exists_of_succeeds
    (x := Machine.runList (fun k (op : TokenOp) => op.run k)
      [publishThree, .updateKnowledgeCollection ⟨1011, by decide⟩ 7 1 2 0 [3] 1 1 1,
        .safeTransferFrom 7 7 8 1 1]
      (KnowledgeTokens.empty 10))
    (t := fun k => decide (k.storage.owned 7 2 = true ∧ k.storage.owned 8 1 = true ∧
      k.storage.totalMintedKnowledgeAssetsCounter = 3 ∧
      k.storage.totalBurnedKnowledgeAssetsCounter = 1 ∧ k.storage.latestTokenId = 3))
    (by decide +kernel)
  have hr : tokenMachine.Reachable k :=
    Machine.Reachable.runList (fun _ _ _ h => h) (.init ⟨10, rfl⟩) hrun
  obtain ⟨hsecond, hfirst, hminted, hburned, hlatest⟩ := of_decide_eq_true hs
  refine ⟨hbits, k, hr, hsecond, hfirst, (knowledge_asset_accounting hbits hr).mpr ⟨?_, ?_⟩⟩
  · -- two tokens are held, and these are two
    obtain ⟨pairs, hpairs, hcard⟩ := (tokenMachine_inv hr).assets.supply
    have hsub : {(7, 2), (8, 1)} ⊆ pairs := by
      simp [insert_subset_iff, hpairs, hsecond, hfirst]
    have hall := eq_of_subset_of_card_le hsub (by simp; omega)
    intro o t howned
    have hin := (hpairs o t).mpr howned
    rw [← hall] at hin
    simp only [mem_insert, mem_singleton, Prod.mk.injEq] at hin
    omega
  · exact .inr (by omega)

/-- After one publication of three tokens the publisher holds all of them, but the views return
two. -/
theorem last_token_is_not_counted : ∃ k, tokenMachine.Reachable k ∧
    k.storage.owned 7 3 = true ∧ k.storage.balanceOf bitCount 7 = .ok 2 ∧
    k.storage.tokensOfOwner bitCount 10 7 = .ok [1, 2] ∧ ¬ k.storage.Accounted bitCount := by
  obtain ⟨k, hrun, hs⟩ := exists_of_succeeds
    (x := Machine.runList (fun k (op : TokenOp) => op.run k) [publishThree]
      (KnowledgeTokens.empty 10))
    (t := fun k => decide (k.storage.owned 7 3 = true ∧ k.storage.latestTokenId = 3) &&
      succeeds (k.storage.balanceOf bitCount 7) (fun n => n = 2) &&
      succeeds (k.storage.tokensOfOwner bitCount 10 7) (fun l => l = [1, 2])) (by decide +kernel)
  have hr : tokenMachine.Reachable k :=
    Machine.Reachable.runList (fun _ _ _ h => h) (.init ⟨10, rfl⟩) hrun
  simp only [Bool.and_eq_true, decide_eq_true_eq] at hs
  obtain ⟨⟨⟨hthird, hlatest⟩, hbalance⟩, htokens⟩ := hs
  refine ⟨k, hr, hthird, eq_ok_of_succeeds hbalance, eq_ok_of_succeeds htokens, fun hacc => ?_⟩
  obtain ⟨h, hnewest, -⟩ := tokenMachine_inv hr
  have hlt := (h.enumerable hnewest (fun _ _ _ _ => rfl) hacc).below 7 3 hthird
  omega

end Dkg
