import Dkg.EpochStorage.History
import Dkg.KnowledgeAssets.Collections
import Dkg.KnowledgeAssets.Publishing
import Dkg.PublishingConviction.Spending

/-! # Payments for knowledge collections

A direct payment writes four ledgers: the collection's token amount, `_totalTokenAmount`, the
TRAC vault and the epoch pools. Each call of `KnowledgeAssetsV10` charges a collection
(`Charged`), and either the same amount reaches the vault and the pools, or a conviction account
covers it and neither of them changes (`AssetsEffect`).
-/

namespace Dkg

open Function (update)
open Lib KnowledgeCollectionStorage Finset

/-! ## TRAC -/

namespace Trac

variable {t t' : Trac} {supply : ℕ}

/-- TRAC that reaches the vault leaves a holder. -/
lemma transferFromToVault_spec {payer amount : ℕ}
    (hrun : t.transferFromToVault payer amount = .ok t') :
    amount ≤ t.balanceOf payer ∧ t'.vault = t.vault + amount ∧
      t'.balanceOf = update t.balanceOf payer (t.balanceOf payer - amount) := by
  unfold transferFromToVault at hrun
  obtain ⟨_, hle, rfl⟩ := of_bind_pure hrun
  exact ⟨require_eq_ok.mp hle, rfl, rfl⟩

lemma Supplied.vault_le (h : t.Supplied supply) : t.vault ≤ supply := by
  have hnone := h ∅
  rwa [sum_empty] at hnone

lemma Supplied.transferFromToVault {payer amount : ℕ} (h : t.Supplied supply)
    (hrun : t.transferFromToVault payer amount = .ok t') : t'.Supplied supply := by
  obtain ⟨hle, hvault, hbalance⟩ := transferFromToVault_spec hrun
  intro holders
  have hall := h (insert payer holders)
  have hmem := mem_insert_self payer holders
  have hsum : ∑ account ∈ holders, t'.balanceOf account
      ≤ ∑ account ∈ insert payer holders, t'.balanceOf account :=
    sum_le_sum_of_subset (subset_insert payer holders)
  rw [hbalance, sum_update_of_mem hmem] at hsum
  rw [← add_sum_erase _ _ hmem, ← sdiff_singleton_eq_erase] at hall
  rw [hvault, hbalance]
  omega

lemma Supplied.transfer {sender receiver amount : ℕ} (h : t.Supplied supply)
    (hrun : t.transfer sender receiver amount = .ok t') :
    t'.vault = t.vault ∧ t'.Supplied supply := by
  unfold Trac.transfer at hrun
  obtain ⟨hle, hend⟩ := of_require hrun
  obtain rfl := of_pure hend
  refine ⟨rfl, ?_⟩
  intro holders
  -- compare over the holders together with the two parties
  have hall := h (insert receiver (insert sender holders))
  set parties := insert receiver (insert sender holders) with hparties
  have hs : sender ∈ parties := by simp [hparties]
  have hr : receiver ∈ parties := by simp [hparties]
  set paid := update t.balanceOf sender (t.balanceOf sender - amount) with hpaid
  have hpaidsum : ∑ account ∈ parties, paid account + amount
      = ∑ account ∈ parties, t.balanceOf account := by
    rw [hpaid, sum_update_of_mem hs, ← add_sum_erase _ t.balanceOf hs, sdiff_singleton_eq_erase]
    omega
  have hsum : ∑ account ∈ parties, update paid receiver (paid receiver + amount) account
      = ∑ account ∈ parties, t.balanceOf account := by
    rw [sum_update_of_mem hr, ← hpaidsum, ← add_sum_erase _ paid hr, sdiff_singleton_eq_erase]
    omega
  have hsub : holders ⊆ parties := fun a ha => by simp [hparties, ha]
  calc t.vault + ∑ account ∈ holders, update paid receiver (paid receiver + amount) account
      ≤ t.vault +
          ∑ account ∈ parties, update paid receiver (paid receiver + amount) account :=
        Nat.add_le_add_left (sum_le_sum_of_subset hsub) _
    _ = t.vault + ∑ account ∈ parties, t.balanceOf account := by rw [hsum]
    _ ≤ supply := hall

end Trac

/-! ## The pools -/

lemma totalDeposited_append (ds ds' : List Deposit) :
    totalDeposited (ds ++ ds') = totalDeposited ds + totalDeposited ds' := by
  simp [totalDeposited]

/-- The pools are those of a history of `EpochStorage` with these deposits, into shard `1`. -/
def PoolHistory (c : Chronos) (now : ℕ) (es : EpochStorage) (deposits : List Deposit) : Prop :=
  (∃ t, t ≤ now ∧ (epochMachine c).Reachable ⟨es, t, deposits⟩) ∧ ∀ d ∈ deposits, d.shardId = 1

namespace PoolHistory

variable {c : Chronos} {b : Block} {now : ℕ} {es es' : EpochStorage} {deposits : List Deposit}

lemma mono {now' : ℕ} (h : PoolHistory c now es deposits) (hle : now ≤ now') :
    PoolHistory c now' es deposits := by
  obtain ⟨⟨t, ht, hr⟩, hshard⟩ := h
  exact ⟨⟨t, ht.trans hle, hr⟩, hshard⟩

lemma add {s e amount : ℕ} (h : PoolHistory c b.timestamp es deposits)
    (hrun : es.addTokensToEpochRange c b 1 s e amount = .ok es') (hs : c.getCurrentEpoch b ≤ s) :
    PoolHistory c b.timestamp es'
      (deposits ++ [⟨1, s, e, amount, (es.shard 1).accumulatedRemainder⟩]) := by
  obtain ⟨⟨t, ht, hr⟩, hshard⟩ := h
  have hse : s ≤ e := by
    unfold EpochStorage.addTokensToEpochRange at hrun
    obtain ⟨sh, hspread, -⟩ := of_bind hrun
    exact (Shard.spread_eq_ok hspread).1
  exact ⟨⟨b.timestamp, le_rfl, hr.addTokens b 1 s e amount ht hs hse hrun⟩,
    List.forall_mem_append.mpr ⟨hshard, List.forall_mem_singleton.mpr rfl⟩⟩

lemma addToPool {s e amount : ℕ} {ds : List Deposit} (h : PoolHistory c b.timestamp es deposits)
    (hrun : KnowledgeAssetsV10.addToPool c b es s e amount = .ok (es', ds))
    (hs : c.getCurrentEpoch b ≤ s) :
    PoolHistory c b.timestamp es' (deposits ++ ds) ∧ totalDeposited ds = amount := by
  unfold KnowledgeAssetsV10.addToPool at hrun
  obtain ⟨es₁, hadd, hend⟩ := of_bind_pure hrun
  cases hend
  exact ⟨h.add hadd hs, by simp [totalDeposited]⟩

/-- The same under a condition; without it nothing is deposited. -/
lemma addToPool_if {q : Prop} [Decidable q] {x : Tx (EpochStorage × List Deposit)}
    {out : EpochStorage × List Deposit} (amount : ℕ) (h : PoolHistory c b.timestamp es deposits)
    (hrun : (if q then x else pure (es, [])) = .ok out) (hzero : ¬ q → amount = 0)
    (hadd : q → x = .ok out → PoolHistory c b.timestamp out.1 (deposits ++ out.2) ∧
      totalDeposited out.2 = amount) :
    PoolHistory c b.timestamp out.1 (deposits ++ out.2) ∧ totalDeposited out.2 = amount := by
  split at hrun
  next hq => exact hadd hq hrun
  next hq =>
    obtain rfl := of_pure hrun
    rw [hzero hq, List.append_nil]
    exact ⟨h, rfl⟩

/-- **The distribution adds up**: what the current, the full and the final epochs get is the
amount. -/
lemma distribute {tokenAmount epochs : ℕ} {ds : List Deposit}
    (h : PoolHistory c b.timestamp es deposits) (hlt : tokenAmount < 2 ^ 96)
    (hrun : KnowledgeAssetsV10._distributeTokens c b es tokenAmount epochs (c.getCurrentEpoch b)
      = .ok (es', ds)) :
    PoolHistory c b.timestamp es' (deposits ++ ds) ∧ totalDeposited ds = tokenAmount := by
  unfold KnowledgeAssetsV10._distributeTokens at hrun
  obtain ⟨base, hbase, scaled, -, current, -, hrun⟩ := of_bind₃ hrun
  obtain ⟨rest, hrest, n, hn, full, hfull, hrun⟩ := of_bind₃ hrun
  obtain ⟨allocated, hallocated, total, htotal, final, hfinal, hrun⟩ := of_bind₃ hrun
  obtain ⟨out₁, h₁, out₂, h₂, out₃, h₃, hend⟩ := of_bind₃ hrun
  cases of_pure hend
  obtain ⟨hepochs, hbase⟩ := divUint_eq_ok.mp hbase
  obtain ⟨hcurrent, rfl⟩ := subUint_eq_ok.mp hrest
  obtain ⟨hone, rfl⟩ := subUint_eq_ok.mp hn
  obtain ⟨-, rfl⟩ := mulUint_eq_ok.mp hfull
  obtain ⟨-, rfl⟩ := addUint_eq_ok.mp hallocated
  obtain ⟨-, rfl⟩ := addUint_eq_ok.mp htotal
  -- the base rate over all epochs, and what the division leaves for the final one
  have hmul : base * (epochs - 1) + base ≤ tokenAmount := by
    have hdiv : base * epochs ≤ tokenAmount := by
      rw [hbase]
      exact Nat.div_mul_le_self _ _
    calc base * (epochs - 1) + base = base * (epochs - 1 + 1) := by ring
      _ = base * epochs := by rw [Nat.sub_add_cancel hone]
      _ ≤ tokenAmount := hdiv
  have hsum : current + base * (epochs - 1) + final = tokenAmount := by
    split at hfinal
    next =>
      obtain ⟨-, rfl⟩ := addUint_eq_ok.mp hfinal
      omega
    next =>
      obtain rfl := of_pure hfinal
      omega
  obtain ⟨hh₁, ht₁⟩ := h.addToPool_if current h₁ (fun hno => by omega) (by
    intro _ hx
    rw [uint96_of_lt (by omega)] at hx
    exact h.addToPool hx le_rfl)
  obtain ⟨hh₂, ht₂⟩ := hh₁.addToPool_if (base * (epochs - 1)) h₂ (by
    intro hno
    rw [not_and_or] at hno
    rcases hno with hno | hno
    · rw [Nat.eq_zero_of_not_pos hno, Nat.mul_zero]
    · exact Nat.eq_zero_of_not_pos hno) (by
    intro _ hx
    obtain ⟨first, hfirst, last, -, hx⟩ := of_bind₂ hx
    obtain ⟨-, rfl⟩ := addUint_eq_ok.mp hfirst
    rw [uint96_of_lt (by omega)] at hx
    exact hh₁.addToPool hx (Nat.le_succ _))
  obtain ⟨hh₃, ht₃⟩ := hh₂.addToPool_if final h₃ (fun hno => by omega) (by
    intro _ hx
    obtain ⟨last, hlast, hx⟩ := of_bind hx
    obtain ⟨-, rfl⟩ := addUint_eq_ok.mp hlast
    rw [uint96_of_lt (by omega)] at hx
    exact hh₂.addToPool hx (Nat.le_add_right _ _))
  refine ⟨?_, ?_⟩
  · rw [← List.append_assoc, ← List.append_assoc]
    exact hh₃
  · rw [totalDeposited_append, totalDeposited_append, ht₁, ht₂, ht₃]
    exact hsum

end PoolHistory

/-! ## The calls -/

namespace KnowledgeAssetsV10

variable {c : Chronos} {b : Block} {env : AssetsEnv} {w w' : AssetsWorld} {sender sum : ℕ}

lemma addTokens_spec {trac trac' : Trac} {amount paymaster : ℕ}
    (hrun : _addTokens env trac sender amount paymaster = .ok trac') :
    ∃ payer, trac.transferFromToVault payer amount = .ok trac' := by
  unfold _addTokens at hrun
  split at hrun
  next =>
    unfold coverCost at hrun
    obtain ⟨_, -, _, -, _, -, hrun⟩ := of_bind₃ hrun
    exact ⟨paymaster, hrun⟩
  next =>
    obtain ⟨_, -, _, -, hrun⟩ := of_bind₂ hrun
    exact ⟨sender, hrun⟩

variable {cg id e delta remaining : ℕ}

lemma registerKnowledgeCollection_spec (hrun : registerKnowledgeCollection env w cg id = .ok w') :
    w'.toConvictionWorld = w.toConvictionWorld ∧ w'.kcs = w.kcs := by
  unfold registerKnowledgeCollection at hrun
  obtain ⟨_, -, _, -, _, -, hend⟩ := of_bind₃ hrun
  obtain rfl := of_pure hend
  exact ⟨rfl, rfl⟩

lemma addValue_spec {epochs value : ℕ} (hrun : addValue c b w cg id e epochs value = .ok w') :
    w'.toConvictionWorld = w.toConvictionWorld ∧ w'.kcs = w.kcs := by
  unfold addValue at hrun
  obtain ⟨values, -, produced, -, hend⟩ := of_bind₂ hrun
  obtain rfl := of_pure hend
  exact ⟨rfl, rfl⟩

lemma executePublishCore_writes {p : PublishParams}
    (hrun : _executePublishCore c b env w sender p = .ok (e, id, w')) :
    e = c.getCurrentEpoch b ∧ ∃ last kcs w₁, addUint 40 e p.epochs = .ok last ∧
      w.kcs.createKnowledgeCollection b sender p.merkleRoot p.knowledgeAssetsAmount
        p.byteSize e last p.tokenAmount p.isImmutable p.merkleLeafCount = .ok (id, kcs) ∧
      registerKnowledgeCollection env { w with kcs := kcs } p.contextGraphId id = .ok w₁ ∧
      addValue c b w₁ p.contextGraphId p.publisherNodeIdentityId e p.epochs p.tokenAmount
        = .ok w' := by
  unfold _executePublishCore at hrun
  rw [c.uint40_getCurrentEpoch b] at hrun
  obtain ⟨_, -, _, -, _, -, hrun⟩ := of_bind₃ hrun
  obtain ⟨_, -, _, -, _, -, hrun⟩ := of_bind₃ hrun
  obtain ⟨last, hlast, created, hcreated, w₁, hbound, hrun⟩ := of_bind₃ hrun
  obtain ⟨w₂, hvalue, hend⟩ := of_bind hrun
  cases of_pure hend
  exact ⟨rfl, last, created.2, w₁, hlast, hcreated, hbound, hvalue⟩

/-- TRAC, the pools and the conviction accounts are as before. -/
lemma executePublishCore_ok {p : PublishParams}
    (hrun : _executePublishCore c b env w sender p = .ok (e, id, w')) :
    e = c.getCurrentEpoch b ∧ w'.toConvictionWorld = w.toConvictionWorld ∧
      ∃ last, w.kcs.createKnowledgeCollection b sender p.merkleRoot p.knowledgeAssetsAmount
        p.byteSize e last p.tokenAmount p.isImmutable p.merkleLeafCount = .ok (id, w'.kcs) := by
  obtain ⟨hepoch, last, kcs, w₁, -, hcreated, hbound, hvalue⟩ := executePublishCore_writes hrun
  obtain ⟨hsame₁, hkcs₁⟩ := registerKnowledgeCollection_spec hbound
  obtain ⟨hsame₂, hkcs₂⟩ := addValue_spec hvalue
  refine ⟨hepoch, hsame₂.trans hsame₁, last, ?_⟩
  rw [hkcs₂, hkcs₁]
  exact hcreated

lemma executePublishCore_spec {p : PublishParams}
    (hrun : _executePublishCore c b env w sender p = .ok (e, id, w'))
    (hinv : CollectionInv w.kcs sum) :
    e = c.getCurrentEpoch b ∧ w'.toConvictionWorld = w.toConvictionWorld ∧
      Charged w.kcs id p.tokenAmount w'.kcs := by
  obtain ⟨hepoch, hsame, last, hcreated⟩ := executePublishCore_ok hrun
  exact ⟨hepoch, hsame, createKnowledgeCollection_charged hcreated hinv⟩

/-- The digest that the ACKs of an update sign. -/
def updateAckDigest (env : AssetsEnv) (w : AssetsWorld) (p : UpdateParams) : ℕ :=
  env.keccakPacked
    [env.chainid, env.address, w.kcToContextGraph p.id, p.id,
      (w.kcs.knowledgeCollections p.id).merkleRoots.length, p.newMerkleRoot, p.newByteSize,
      p.newTokenAmount, p.mintKnowledgeAssetsAmount, env.keccakPacked p.knowledgeAssetsToBurn,
      p.newMerkleLeafCount]

lemma executeUpdateCore_writes {p : UpdateParams}
    (hrun : _executeUpdateCore c b env w sender p = .ok (delta, remaining, e, w')) :
    verifyAcks env p.identityIds (updateAckDigest env w p) p.r p.vs = .ok () ∧
      e = c.getCurrentEpoch b ∧ e ≤ w.kcs.endEpochs p.id ∧
      remaining = w.kcs.endEpochs p.id - e ∧ w.kcToContextGraph p.id ≠ 0 ∧
      w.kcs.tokenAmounts p.id ≤ p.newTokenAmount ∧
      delta = p.newTokenAmount - w.kcs.tokenAmounts p.id ∧
      ∃ kcs, w.kcs.updateKnowledgeCollection b sender p.id p.newMerkleRoot
        p.mintKnowledgeAssetsAmount p.knowledgeAssetsToBurn p.newByteSize p.newTokenAmount
        p.newMerkleLeafCount = .ok kcs ∧
      (if delta > 0 then addValue c b { w with kcs := kcs } (w.kcToContextGraph p.id)
        p.publisherNodeIdentityId e remaining delta else pure { w with kcs := kcs }) = .ok w' := by
  unfold _executeUpdateCore at hrun
  rw [c.uint40_getCurrentEpoch b] at hrun
  obtain ⟨_, -, hrun⟩ := of_bind hrun
  obtain ⟨hlive, hrun⟩ := of_require hrun
  obtain ⟨_, hremaining, hrun⟩ := of_bind hrun
  obtain ⟨hbound, hrun⟩ := of_require hrun
  obtain ⟨_, -, _, hacks, _, -, hrun⟩ := of_bind₃ hrun
  obtain ⟨_, hdelta, _, -, _, -, hrun⟩ := of_bind₃ hrun
  obtain ⟨_, -, kcs, hkcs, w₁, hvalue, hend⟩ := of_bind₃ hrun
  cases of_pure hend
  obtain ⟨hle, rfl⟩ := subUint_eq_ok.mp hdelta
  obtain ⟨-, rfl⟩ := subUint_eq_ok.mp hremaining
  exact ⟨hacks, rfl, Nat.le_of_not_gt hlive, rfl, hbound, hle, rfl, kcs, hkcs, hvalue⟩

lemma executeUpdateCore_ok {p : UpdateParams}
    (hrun : _executeUpdateCore c b env w sender p = .ok (delta, remaining, e, w')) :
    verifyAcks env p.identityIds (updateAckDigest env w p) p.r p.vs = .ok () ∧
      e = c.getCurrentEpoch b ∧ e ≤ (w.kcs.knowledgeCollections p.id).endEpoch ∧
      (w.kcs.knowledgeCollections p.id).tokenAmount ≤ p.newTokenAmount ∧
      delta = p.newTokenAmount - (w.kcs.knowledgeCollections p.id).tokenAmount ∧
      w'.toConvictionWorld = w.toConvictionWorld ∧
      w.kcs.updateKnowledgeCollection b sender p.id p.newMerkleRoot p.mintKnowledgeAssetsAmount
        p.knowledgeAssetsToBurn p.newByteSize p.newTokenAmount p.newMerkleLeafCount
        = .ok w'.kcs := by
  obtain ⟨hacks, hepoch, hlive, -, -, hle, hdelta, kcs, hkcs, hvalue⟩ :=
    executeUpdateCore_writes hrun
  have hkept : w'.toConvictionWorld = w.toConvictionWorld ∧ w'.kcs = kcs := by
    split at hvalue
    next => exact addValue_spec hvalue
    next =>
      obtain rfl := of_pure hvalue
      exact ⟨rfl, rfl⟩
  refine ⟨hacks, hepoch, hlive, hle, hdelta, hkept.1, ?_⟩
  rw [hkept.2]
  exact hkcs

lemma executeUpdateCore_spec {p : UpdateParams}
    (hrun : _executeUpdateCore c b env w sender p = .ok (delta, remaining, e, w'))
    (hinv : CollectionInv w.kcs sum) :
    e = c.getCurrentEpoch b ∧ w'.toConvictionWorld = w.toConvictionWorld ∧
      Charged w.kcs p.id delta w'.kcs := by
  obtain ⟨-, rfl, hlive, hle, rfl, hsame, hkcs⟩ := executeUpdateCore_ok hrun
  refine ⟨rfl, hsame, updateKnowledgeCollection_charged hkcs hinv ?_ hle⟩
  -- a collection that does not exist has ended before epoch `1`
  have hpos := c.getCurrentEpoch_pos b
  show (w.kcs.knowledgeCollections p.id).endEpoch ≠ 0
  omega

end KnowledgeAssetsV10

/-! ## Transactions -/

/-- `amount` TRAC from holders reaches the vault, and the pools get the deposits `ds` of the same
amount after the deposits `old`. -/
structure Paid (c : Chronos) (b : Block) (old : List Deposit) (w : ConvictionWorld)
    (amount : ℕ) (ds : List Deposit) (w' : ConvictionWorld) : Prop where
  vault : w'.trac.vault = w.trac.vault + amount
  supply : ∀ supply, w.trac.Supplied supply → w'.trac.Supplied supply
  pools : PoolHistory c b.timestamp w'.es (old ++ ds)
  deposited : totalDeposited ds = amount

/-- The conviction account of the sender covers `amount` for the collection `id`, if it is not
zero, and the TRAC and the pools stay as they are. -/
structure CoveredBy (c : Chronos) (b : Block) (w : ConvictionWorld) (id amount : ℕ)
    (events : List AssetsEvent) (w' : ConvictionWorld) : Prop where
  trac : w'.trac = w.trac
  es : w'.es = w.es
  recorded : (amount = 0 ∧ w'.nft = w.nft ∧ events = []) ∨
    ∃ kav10 agent cost,
      w.nft.coverPublishingCost c b w.kav10 kav10 agent amount = .ok (w'.nft, cost) ∧
      cost.baseCost = amount ∧ events = [.covered id cost]

/-- What a transaction does to the payments, after the deposits `old`. -/
inductive AssetsEffect (c : Chronos) (b : Block) (old : List Deposit) (w : AssetsWorld) :
    AssetsOp → AssetsWorld → List AssetsEvent → Prop
  | direct {op : AssetsOp} {w' : AssetsWorld} {id amount : ℕ} {ds : List Deposit} :
      op.Direct → Charged w.kcs id amount w'.kcs →
      Paid c b old w.toConvictionWorld amount ds w'.toConvictionWorld →
      AssetsEffect c b old w op w' (.pulled id amount :: ds.map .deposited)
  | covered {op : AssetsOp} {w' : AssetsWorld} {id amount : ℕ} {events : List AssetsEvent} :
      ¬ op.Direct → Charged w.kcs id amount w'.kcs →
      CoveredBy c b w.toConvictionWorld id amount events w'.toConvictionWorld →
      AssetsEffect c b old w op w' events
  | account {op : ConvictionOp} {w' : AssetsWorld} {amount : ℕ} {ds : List Deposit} :
      w'.kcs = w.kcs → Paid c b old w.toConvictionWorld amount ds w'.toConvictionWorld →
      AssetsEffect c b old w (.conviction op) w' (.committed amount :: ds.map .deposited)
  | transfer {sender receiver amount : ℕ} {w' : AssetsWorld} :
      w'.kcs = w.kcs → Paid c b old w.toConvictionWorld 0 [] w'.toConvictionWorld →
      AssetsEffect c b old w (.transfer sender receiver amount) w' []

section

variable {c : Chronos} {b : Block} {old : List Deposit}

lemma Paid.nothing {w w' : ConvictionWorld} (htrac : w'.trac = w.trac) (hes : w'.es = w.es)
    (hpools : PoolHistory c b.timestamp w.es old) : Paid c b old w 0 [] w' := by
  refine ⟨?_, ?_, ?_, rfl⟩
  · rw [htrac, Nat.add_zero]
  · intro supply h
    rw [htrac]
    exact h
  · rw [hes, List.append_nil]
    exact hpools

variable {amount payer paymaster epochs id sum : ℕ} {ds : List Deposit}

lemma Paid.received {w w' : AssetsWorld}
    (h : Paid c b old w.toConvictionWorld amount ds w'.toConvictionWorld) :
    AssetsOp.received w w' = amount := by
  unfold AssetsOp.received
  rw [h.vault, Nat.add_sub_cancel_left]

lemma Paid.of_transfer {w w' : ConvictionWorld}
    (htrac : w.trac.transferFromToVault payer amount = .ok w'.trac)
    (hpools : PoolHistory c b.timestamp w'.es (old ++ ds) ∧ totalDeposited ds = amount) :
    Paid c b old w amount ds w' := by
  obtain ⟨-, hvault, -⟩ := Trac.transferFromToVault_spec htrac
  exact ⟨hvault, fun supply h => h.transferFromToVault htrac, hpools.1, hpools.2⟩

lemma amount_lt_of_transfer {t t' : Trac} {supply : ℕ} (hsupply : t.Supplied supply)
    (hlt : supply < 2 ^ 95) (hrun : t.transferFromToVault payer amount = .ok t') :
    amount < 2 ^ 96 := by
  obtain ⟨hle, -, -⟩ := Trac.transferFromToVault_spec hrun
  have hone := hsupply {payer}
  rw [sum_singleton] at hone
  have hpow : (2 : ℕ) ^ 95 ≤ 2 ^ 96 := by norm_num
  omega

open KnowledgeAssetsV10

variable {env : AssetsEnv} {w w' : AssetsWorld} {sender supply : ℕ}

lemma payDirect_paid
    (hrun : payDirect c b env w sender amount paymaster epochs (c.getCurrentEpoch b)
      = .ok (w', ds)) (hpools : PoolHistory c b.timestamp w.es old)
    (hsupply : w.trac.Supplied supply) (hlt : supply < 2 ^ 95) :
    w'.kcs = w.kcs ∧ Paid c b old w.toConvictionWorld amount ds w'.toConvictionWorld := by
  unfold payDirect at hrun
  obtain ⟨trac, htrac, pools, hdist, hend⟩ := of_bind₂ hrun
  cases of_pure hend
  obtain ⟨payer, htrac⟩ := addTokens_spec htrac
  have hamount := amount_lt_of_transfer hsupply hlt htrac
  exact ⟨rfl, .of_transfer htrac (hpools.distribute hamount hdist)⟩

lemma ConvictionWorld.createAccount_trac {w w' : ConvictionWorld} {committed : ℕ}
    (hrun : w.createAccount c b sender committed = .ok w') :
    w.trac.transferFromToVault sender committed = .ok w'.trac := by
  unfold createAccount at hrun
  obtain ⟨_, -, next, -, expires, -, hrun⟩ := of_bind₃ hrun
  obtain ⟨nft, -, trac, htrac, last, -, hrun⟩ := of_bind₃ hrun
  obtain ⟨es, -, rfl⟩ := of_bind_pure hrun
  exact htrac

lemma ConvictionWorld.topUp_trac {w w' : ConvictionWorld} {accountId : ℕ}
    (hrun : w.topUp c b sender accountId amount = .ok w') :
    w.trac.transferFromToVault sender amount = .ok w'.trac := by
  unfold topUp at hrun
  obtain ⟨_, -, _, -, _, -, hrun⟩ := of_bind₃ hrun
  obtain ⟨balance, -, trac, htrac, last, -, hrun⟩ := of_bind₃ hrun
  obtain ⟨es, -, rfl⟩ := of_bind_pure hrun
  exact htrac

/-- An account of the NFT or a top-up is paid in TRAC and deposited; the rest moves nothing. -/
lemma ConvictionOp.run_paid {op : ConvictionOp} {w w' : ConvictionWorld}
    {events : List ConvictionEvent} (hrun : op.run c b w = .ok (w', events))
    (hop : op.byHolders = true) (hpools : PoolHistory c b.timestamp w.es old) :
    ∃ amount ds, Paid c b old w amount ds w' ∧
      events.flatMap AssetsOp.creditEvents = ds.map .deposited := by
  have hquiet : ∀ {x : Tx PublishingConvictionNFT}, onToken w x = .ok (w', events) →
      ∃ amount ds, Paid c b old w amount ds w' ∧
        events.flatMap AssetsOp.creditEvents = ds.map .deposited := by
    intro x hx
    obtain ⟨nft, -, hend⟩ := of_bind hx
    cases of_pure hend
    exact ⟨0, [], .nothing rfl rfl hpools, rfl⟩
  cases op with
  | createAccount sender committed =>
    obtain ⟨w₁, hcreate, hend⟩ := of_bind hrun
    cases of_pure hend
    obtain ⟨hnft, -, -, hes⟩ := ConvictionWorld.createAccount_ok hcreate
    have htrac := ConvictionWorld.createAccount_trac hcreate
    refine ⟨committed, [_], .of_transfer htrac ⟨hpools.add hes le_rfl, ?_⟩, ?_⟩
    · simp [totalDeposited]
    · simp [AssetsOp.creditEvents, ConvictionOp.credit, hnft, c.uint40_getCurrentEpoch b,
        PublishingConvictionNFT.STAKER_SHARD_ID]
  | topUp sender accountId amount =>
    obtain ⟨w₁, htop, hend⟩ := of_bind hrun
    cases of_pure hend
    obtain ⟨hnft, -, hes⟩ := ConvictionWorld.topUp_ok htop
    have htrac := ConvictionWorld.topUp_trac htop
    refine ⟨amount, [_], .of_transfer htrac ⟨hpools.add hes le_rfl, ?_⟩, ?_⟩
    · simp [totalDeposited]
    · simp [AssetsOp.creditEvents, ConvictionOp.credit, hnft, c.uint40_getCurrentEpoch b,
        PublishingConvictionNFT.STAKER_SHARD_ID]
  | coverPublishingCost => cases hop
  | registerAgent sender accountId agent | deregisterAgent sender accountId agent
  | setMaxAgentsPerAccount cap | transferFrom sender holder receiver tokenId
  | approve sender spender tokenId | setApprovalForAll sender operator approved => exact hquiet hrun
  | setKnowledgeAssetsV10 kav10 =>
    cases of_pure hrun
    exact ⟨0, [], .nothing rfl rfl hpools, rfl⟩
  | otherTransactions => cases hop

lemma PublishingConvictionNFT.coverPublishingCost_baseCost {n : PublishingConvictionNFT}
    {kav10 caller agent baseCost : ℕ} {out : PublishingConvictionNFT × CostCovered}
    (hrun : n.coverPublishingCost c b kav10 caller agent baseCost = .ok out) :
    out.2.baseCost = baseCost := by
  unfold PublishingConvictionNFT.coverPublishingCost at hrun
  obtain ⟨_, -, _, -, _, -, hrun⟩ := of_bind₃ hrun
  obtain ⟨factor, -, drawn, -, n', -, hend⟩ := of_bind₃ hrun
  obtain rfl := of_pure hend
  rfl

section

variable (hrun : extendKnowledgeCollectionLifetime c b env w sender id epochs amount paymaster =
    .ok (w', ds))

include hrun

lemma extend_writes : c.getCurrentEpoch b ≤ w.kcs.endEpochs id ∧ ∃ kcs es trac values,
      (w.kcs.setEndEpoch id (w.kcs.endEpochs id + epochs)).setTokenAmount id
        (w.kcs.tokenAmounts id + amount) = .ok kcs ∧
      addToPool c b w.es (w.kcs.endEpochs id) (w.kcs.endEpochs id + epochs) amount = .ok (es, ds) ∧
      _addTokens env w.trac sender amount paymaster = .ok trac ∧
      (if epochs > 0 ∧ amount > 0 ∧ w.kcToContextGraph id ≠ 0 then
        w.values.addCGValueForEpochRange c b (w.kcToContextGraph id) (w.kcs.endEpochs id) epochs
          amount else pure w.values) = .ok values ∧
      w' = { w with kcs := kcs, es := es, trac := trac, values := values } := by
  unfold extendKnowledgeCollectionLifetime at hrun
  obtain ⟨_, hlive, newEnd, hlast, newAmount, hnew, hrun⟩ := of_bind₃ hrun
  obtain ⟨kcs, hkcs, _, -, pools, hadd, hrun⟩ := of_bind₃ hrun
  obtain ⟨trac, htrac, values, hvalues, hend⟩ := of_bind₂ hrun
  cases of_pure hend
  obtain ⟨-, rfl⟩ := addUint_eq_ok.mp hlast
  obtain ⟨-, rfl⟩ := addUint_eq_ok.mp hnew
  exact ⟨Nat.le_of_not_gt (require_eq_ok.mp hlive), kcs, pools.1, trac, values, hkcs, hadd, htrac,
    hvalues, rfl⟩

lemma extend_effect (hinv : CollectionInv w.kcs sum) (hpools : PoolHistory c b.timestamp w.es old) :
    Charged w.kcs id amount w'.kcs ∧
      Paid c b old w.toConvictionWorld amount ds w'.toConvictionWorld := by
  obtain ⟨hlive, kcs, es, trac, values, hkcs, hadd, htrac, -, rfl⟩ := extend_writes hrun
  have hpos := c.getCurrentEpoch_pos b
  obtain ⟨payer, htrac⟩ := addTokens_spec htrac
  exact ⟨setTokenAmount_charged hkcs hinv (by omega),
      .of_transfer htrac (hpools.addToPool hadd hlive)⟩

end

/-- **What a transaction can do.** -/
lemma AssetsOp.run_effect {op : AssetsOp} {events : List AssetsEvent}
    (hrun : op.run c b w = .ok (w', events)) (hinv : CollectionInv w.kcs sum)
    (hpools : PoolHistory c b.timestamp w.es old) (hsupply : w.trac.Supplied supply)
    (hlt : supply < 2 ^ 95) : AssetsEffect c b old w op w' events := by
  cases op with
  | publish env sender p =>
    obtain ⟨out, hpublish, hend⟩ := of_bind hrun
    cases of_pure hend
    unfold KnowledgeAssetsV10.publish at hpublish
    obtain ⟨⟨e, id, w₁⟩, hcore, hpublish⟩ := of_bind hpublish
    obtain ⟨covered, hcover, rfl⟩ := of_bind_pure hpublish
    obtain ⟨-, hsame, hcharged⟩ := executePublishCore_spec hcore hinv
    refine .covered not_false hcharged ⟨?_, ?_, .inr ⟨env.address, sender, covered.2, ?_, ?_, rfl⟩⟩
    · rw [← hsame]
    · rw [← hsame]
    · rw [← hsame]
      exact hcover
    · exact PublishingConvictionNFT.coverPublishingCost_baseCost hcover
  | publishDirect env sender p paymaster =>
    obtain ⟨out, hpublish, hend⟩ := of_bind hrun
    cases of_pure hend
    unfold KnowledgeAssetsV10.publishDirect at hpublish
    obtain ⟨⟨e, id, w₁⟩, hcore, hpublish⟩ := of_bind hpublish
    obtain ⟨paid, hpaid, rfl⟩ := of_bind_pure hpublish
    obtain ⟨rfl, hsame, hcharged⟩ := executePublishCore_spec hcore hinv
    obtain ⟨hkcs, hpay⟩ := payDirect_paid hpaid (by rw [hsame]; exact hpools)
      (by rw [hsame]; exact hsupply) hlt
    rw [hsame] at hpay
    unfold AssetsOp.direct
    rw [hpay.received]
    refine .direct trivial ?_ hpay
    rw [hkcs]
    exact hcharged
  | update env sender p =>
    obtain ⟨out, hupdate, hend⟩ := of_bind hrun
    cases of_pure hend
    unfold KnowledgeAssetsV10.update at hupdate
    obtain ⟨⟨delta, remaining, e, w₁⟩, hcore, hupdate⟩ := of_bind hupdate
    obtain ⟨-, hsame, hcharged⟩ := executeUpdateCore_spec hcore hinv
    split at hupdate
    next hpos =>
      obtain ⟨covered, hcover, rfl⟩ := of_bind_pure hupdate
      refine .covered not_false hcharged ⟨?_, ?_,
          .inr ⟨env.address, sender, covered.2, ?_, ?_, rfl⟩⟩
      · rw [← hsame]
      · rw [← hsame]
      · rw [← hsame]
        exact hcover
      · exact PublishingConvictionNFT.coverPublishingCost_baseCost hcover
    next hzero =>
      cases of_pure hupdate
      refine .covered not_false hcharged ⟨?_, ?_, .inl ⟨?_, ?_, rfl⟩⟩
      · rw [← hsame]
      · rw [← hsame]
      · exact Nat.eq_zero_of_not_pos hzero
      · rw [← hsame]
  | updateDirect env sender p paymaster =>
    obtain ⟨out, hupdate, hend⟩ := of_bind hrun
    cases of_pure hend
    unfold KnowledgeAssetsV10.updateDirect at hupdate
    obtain ⟨⟨delta, remaining, e, w₁⟩, hcore, hupdate⟩ := of_bind hupdate
    obtain ⟨rfl, hsame, hcharged⟩ := executeUpdateCore_spec hcore hinv
    unfold AssetsOp.direct
    split at hupdate
    next hpos =>
      obtain ⟨hkcs, hpay⟩ := payDirect_paid hupdate (by rw [hsame]; exact hpools)
        (by rw [hsame]; exact hsupply) hlt
      rw [hsame] at hpay
      rw [hpay.received]
      refine .direct trivial ?_ hpay
      rw [hkcs]
      exact hcharged
    next hzero =>
      cases of_pure hupdate
      have hdelta : delta = 0 := Nat.eq_zero_of_not_pos hzero
      have hpay : Paid c b old w.toConvictionWorld 0 [] w₁.toConvictionWorld :=
        .nothing (by rw [hsame]) (by rw [hsame]) hpools
      rw [hpay.received]
      rw [hdelta] at hcharged
      exact .direct trivial hcharged hpay
  | extendKnowledgeCollectionLifetime env sender id epochs tokenAmount paymaster =>
    obtain ⟨out, hextend, hend⟩ := of_bind hrun
    cases of_pure hend
    obtain ⟨hcharged, hpay⟩ := extend_effect hextend hinv hpools
    unfold AssetsOp.direct
    rw [hpay.received]
    exact .direct trivial hcharged hpay
  | conviction op =>
    obtain ⟨_, hop, out, hrun', hend⟩ := of_bind₂ hrun
    cases of_pure hend
    obtain ⟨amount, ds, hpay, hevents⟩ := ConvictionOp.run_paid hrun' (require_eq_ok.mp hop) hpools
    have hpay' : Paid c b old w.toConvictionWorld amount ds
        ({ w with toConvictionWorld := out.1 } : AssetsWorld).toConvictionWorld := hpay
    rw [hpay'.received, hevents]
    exact .account rfl hpay
  | transfer sender receiver amount =>
    obtain ⟨trac, htrac, hend⟩ := of_bind hrun
    cases of_pure hend
    refine .transfer rfl ⟨(hsupply.transfer htrac).1, ?_, ?_, rfl⟩
    · intro supply' hsupply'
      exact (hsupply'.transfer htrac).2
    · rw [List.append_nil]
      exact hpools

end

end Dkg
