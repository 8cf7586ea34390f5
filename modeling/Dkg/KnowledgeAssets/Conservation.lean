import Dkg.KnowledgeAssets.Payments

/-! # Payments are conserved

Over whole runs: what the collections store is what was pulled for them or covered by conviction
accounts, and what the pools got is what reached the vault. The log of a run has these amounts;
those that were pulled are the differences of the vault's balance.
-/

namespace Dkg

open Lib KnowledgeCollectionStorage List

/-! ## The log -/

namespace AssetsEvent

def pulledAmount : AssetsEvent → ℕ
  | .pulled _ amount => amount
  | _ => 0

def pulledFor (id : ℕ) : AssetsEvent → ℕ
  | .pulled id' amount => if id' = id then amount else 0
  | _ => 0

def coveredAmount : AssetsEvent → ℕ
  | .covered _ cost => cost.baseCost
  | _ => 0

def coveredFor (id : ℕ) : AssetsEvent → ℕ
  | .covered id' cost => if id' = id then cost.baseCost else 0
  | _ => 0

def committedAmount : AssetsEvent → ℕ
  | .committed amount => amount
  | _ => 0

def deposit? : AssetsEvent → Option Deposit
  | .deposited deposit => some deposit
  | _ => none

end AssetsEvent

open AssetsEvent

/-- The sum of a quantity over the log. -/
def totalOf (f : AssetsEvent → ℕ) (log : List AssetsEvent) : ℕ := (log.map f).sum

def depositsIn (log : List AssetsEvent) : List Deposit := log.filterMap deposit?

section

variable {f : AssetsEvent → ℕ} {log : List AssetsEvent}

lemma totalOf_append (f : AssetsEvent → ℕ) (log events : List AssetsEvent) :
    totalOf f (log ++ events) = totalOf f log + totalOf f events := by
  simp [totalOf]

lemma totalOf_eq_zero (h : ∀ e ∈ log, f e = 0) : totalOf f log = 0 := by
  apply sum_eq_zero
  intro x hx
  obtain ⟨e, he, rfl⟩ := mem_map.mp hx
  exact h e he

/-- An event with deposits after it, none of which the quantity counts. -/
lemma totalOf_cons_deposits (hf : ∀ d, f (.deposited d) = 0) (e : AssetsEvent)
    (ds : List Deposit) : totalOf f (e :: ds.map .deposited) = f e := by
  have hzero : totalOf f (ds.map .deposited) = 0 := by
    apply totalOf_eq_zero
    intro x hx
    obtain ⟨d, -, rfl⟩ := mem_map.mp hx
    exact hf d
  show f e + totalOf f (ds.map .deposited) = f e
  rw [hzero, Nat.add_zero]

lemma depositsIn_append (log events : List AssetsEvent) :
    depositsIn (log ++ events) = depositsIn log ++ depositsIn events := by
  simp [depositsIn]

lemma depositsIn_deposits (ds : List Deposit) : depositsIn (ds.map .deposited) = ds := by
  induction ds with
  | nil => rfl
  | cons d ds ih =>
    show d :: depositsIn (ds.map .deposited) = d :: ds
    rw [ih]

end

/-! ## The invariant -/

/-- The collections against the log: what they store was pulled or covered. -/
structure ChargedInv (kcs : KnowledgeCollectionStorage) (log : List AssetsEvent) : Prop where
  collections : CollectionInv kcs (totalOf pulledAmount log + totalOf coveredAmount log)
  stored : ∀ id, kcs.tokenAmounts id = totalOf (pulledFor id) log + totalOf (coveredFor id) log

/-- The vault and the pools against the log: what they got was pulled or committed. -/
structure PaidInv (c : Chronos) (now : ℕ) (w : ConvictionWorld) (log : List AssetsEvent) :
    Prop where
  pools : PoolHistory c now w.es (depositsIn log)
  deposited : totalDeposited (depositsIn log)
    = totalOf pulledAmount log + totalOf committedAmount log
  vault : totalOf pulledAmount log + totalOf committedAmount log ≤ w.trac.vault
  supply : ∃ supply, supply < 2 ^ 95 ∧ w.trac.Supplied supply

section

variable {c : Chronos} {b : Block} {kcs kcs' : KnowledgeCollectionStorage}
  {w w' : ConvictionWorld} {log events : List AssetsEvent} {now id amount : ℕ} {ds : List Deposit}

lemma ChargedInv.charge (h : ChargedInv kcs log) (hcharged : Charged kcs id amount kcs')
    (hamount : totalOf pulledAmount events + totalOf coveredAmount events = amount)
    (hfor : ∀ i, totalOf (pulledFor i) events + totalOf (coveredFor i) events
      = if id = i then amount else 0) : ChargedInv kcs' (log ++ events) := by
  constructor
  · have hnew := h.collections.charge hcharged
    have hsum : totalOf pulledAmount (log ++ events) + totalOf coveredAmount (log ++ events)
        = totalOf pulledAmount log + totalOf coveredAmount log + amount := by
      rw [totalOf_append, totalOf_append]
      omega
    rw [hsum]
    exact hnew
  · intro i
    have hold := h.stored i
    have hi := hfor i
    rw [totalOf_append, totalOf_append, hcharged.amounts]
    by_cases hid : i = id
    · rw [hid] at hold hi ⊢
      rw [if_pos rfl] at hi
      rw [Function.update_self]
      omega
    · rw [if_neg (Ne.symm hid)] at hi
      rw [Function.update_of_ne hid]
      omega

lemma ChargedInv.quiet (h : ChargedInv kcs log)
    (hpulled : ∀ e ∈ events, pulledAmount e = 0 ∧ ∀ i, pulledFor i e = 0)
    (hcovered : ∀ e ∈ events, coveredAmount e = 0 ∧ ∀ i, coveredFor i e = 0) :
    ChargedInv kcs (log ++ events) := by
  constructor
  · rw [totalOf_append, totalOf_append, totalOf_eq_zero fun e he => (hpulled e he).1,
      totalOf_eq_zero fun e he => (hcovered e he).1]
    exact h.collections
  · intro i
    rw [totalOf_append, totalOf_append, totalOf_eq_zero fun e he => (hpulled e he).2 i,
      totalOf_eq_zero fun e he => (hcovered e he).2 i]
    exact h.stored i

lemma PaidInv.pay (h : PaidInv c now w log) (hpaid : Paid c b (depositsIn log) w amount ds w')
    (hds : depositsIn events = ds)
    (hamount : totalOf pulledAmount events + totalOf committedAmount events = amount) :
    PaidInv c b.timestamp w' (log ++ events) := by
  obtain ⟨supply, hlt, hsupply⟩ := h.supply
  have hold := h.deposited
  have hnew := hpaid.deposited
  have hvault := h.vault
  have hvault' := hpaid.vault
  refine ⟨?_, ?_, ?_, ⟨supply, hlt, hpaid.supply supply hsupply⟩⟩
  · rw [depositsIn_append, hds]
    exact hpaid.pools
  · rw [depositsIn_append, hds, totalDeposited_append, totalOf_append, totalOf_append]
    omega
  · rw [totalOf_append, totalOf_append]
    omega

end

/-- What every run keeps. -/
def AssetsState.Inv (c : Chronos) (s : AssetsState) : Prop :=
  ChargedInv s.world.kcs s.log ∧ PaidInv c s.now s.world.toConvictionWorld s.log

section

variable {c : Chronos} {b : Block} {op : AssetsOp} {s s' : AssetsState}

lemma AssetsState.Inv.effect (h : s.Inv c) (hstep : assetsStep c s (b, op) s') :
    ∃ events, AssetsEffect c b (depositsIn s.log) s.world op s'.world events ∧
      s'.log = s.log ++ events ∧ s'.now = b.timestamp := by
  obtain ⟨hnow, hnow', events, hrun, hlog⟩ := hstep
  obtain ⟨supply, hlt, hsupply⟩ := h.2.supply
  exact ⟨events, AssetsOp.run_effect hrun h.1.collections (h.2.pools.mono hnow) hsupply hlt, hlog,
    hnow'⟩

variable {events log : List AssetsEvent}

/-- **The step lemma.** Charges and payments stay equal. -/
lemma AssetsState.Inv.step (h : s.Inv c) (hle : s.now ≤ b.timestamp)
    (heff : AssetsEffect c b (depositsIn s.log) s.world op s'.world events)
    (hlog : s'.log = s.log ++ events) (hnow : s'.now = b.timestamp) : s'.Inv c := by
  obtain ⟨hcharged, hpaid⟩ := h
  unfold AssetsState.Inv
  rw [hlog, hnow]
  cases heff with
  | @direct _ _ id amount ds _ hcharge hpay =>
    constructor
    · apply hcharged.charge hcharge
      · rw [totalOf_cons_deposits fun _ => rfl, totalOf_cons_deposits fun _ => rfl]
        rfl
      · intro i
        rw [totalOf_cons_deposits fun _ => rfl, totalOf_cons_deposits fun _ => rfl]
        rfl
    · apply hpaid.pay hpay
      · exact depositsIn_deposits ds
      · rw [totalOf_cons_deposits fun _ => rfl, totalOf_cons_deposits fun _ => rfl]
        rfl
  | @covered _ _ id amount _ _ hcharge hcover =>
    have hpay : Paid c b (depositsIn s.log) s.world.toConvictionWorld 0 []
        s'.world.toConvictionWorld :=
      .nothing hcover.trac hcover.es (hpaid.pools.mono hle)
    rcases hcover.recorded with ⟨rfl, -, rfl⟩ | ⟨kav10, agent, cost, -, rfl, rfl⟩
    · constructor
      · apply hcharged.charge hcharge rfl
        intro i
        simp [totalOf]
      · exact hpaid.pay hpay rfl rfl
    · constructor
      · apply hcharged.charge hcharge
        · simp [totalOf, pulledAmount, coveredAmount]
        · intro i
          simp [totalOf, pulledFor, coveredFor]
      · exact hpaid.pay hpay rfl rfl
  | @account _ _ amount ds hkcs hpay =>
    constructor
    · rw [hkcs]
      apply hcharged.quiet
      · exact forall_mem_cons.mpr ⟨⟨rfl, fun _ => rfl⟩, forall_mem_map.mpr fun _ _ =>
          ⟨rfl, fun _ => rfl⟩⟩
      · exact forall_mem_cons.mpr ⟨⟨rfl, fun _ => rfl⟩, forall_mem_map.mpr fun _ _ =>
          ⟨rfl, fun _ => rfl⟩⟩
    · apply hpaid.pay hpay
      · exact depositsIn_deposits ds
      · rw [totalOf_cons_deposits fun _ => rfl, totalOf_cons_deposits fun _ => rfl]
        exact Nat.zero_add amount
  | transfer hkcs hpay =>
    rw [hkcs]
    refine ⟨hcharged.quiet ?_ ?_, hpaid.pay hpay rfl rfl⟩
    · simp
    · simp

lemma AssetsState.Inv.init (hinit : (assetsMachine c).init s) : s.Inv c := by
  obtain ⟨hfresh, hlog⟩ := hinit
  obtain ⟨maxSize, hkcs⟩ := hfresh.kcs
  unfold AssetsState.Inv
  rw [hlog, hkcs]
  refine ⟨⟨CollectionInv.empty maxSize, fun _ => rfl⟩, ⟨⟨?_, ?_⟩, rfl, Nat.zero_le _, ?_⟩⟩
  · exact ⟨s.now, le_rfl, .init ⟨hfresh.es, rfl⟩⟩
  · simp [depositsIn]
  · exact hfresh.supply

lemma reachable_assetsInv (hs : (assetsMachine c).Reachable s) : s.Inv c := by
  refine Machine.Reachable.invariant (P := AssetsState.Inv c) (fun _ h => .init h) ?_ hs
  rintro s ⟨b, op⟩ s' h hstep
  obtain ⟨events, heff, hlog, hnow⟩ := h.effect hstep
  exact h.step hstep.1 heff hlog hnow

/-! ## Direct runs -/

/-- The events of a direct payment. -/
def AssetsEvent.IsDirect : AssetsEvent → Prop
  | .pulled .. => True
  | .deposited .. => True
  | .covered .. => False
  | .committed .. => False

lemma AssetsEffect.isDirect {old : List Deposit} {w w' : AssetsWorld}
    (h : AssetsEffect c b old w op w' events) (hop : op.Direct) : ∀ e ∈ events, e.IsDirect := by
  cases h with
  | direct _ _ _ =>
    exact forall_mem_cons.mpr ⟨trivial, forall_mem_map.mpr fun _ _ => trivial⟩
  | covered hnot _ _ => exact absurd hop hnot
  | account _ _ => cases hop
  | transfer _ _ => simp

lemma direct_log (hs : ((assetsMachine c).restrict fun _ l => l.2.Direct).Reachable s) :
    ∀ e ∈ s.log, e.IsDirect := by
  refine Machine.Reachable.invariant_of (Q := AssetsState.Inv c)
    (P := fun s => ∀ e ∈ s.log, e.IsDirect) (fun _ h => reachable_assetsInv h.of_restrict) ?_ ?_ hs
  · rintro s ⟨-, hlog⟩
    simp [hlog]
  · rintro s ⟨b, op⟩ s' hinv - hold ⟨hop, hstep⟩ e he
    obtain ⟨events, heff, hlog, -⟩ := hinv.effect hstep
    rw [hlog] at he
    rcases mem_append.mp he with he | he
    · exact hold e he
    · exact heff.isDirect hop e he

/-- Nothing was covered or committed in a direct run. -/
lemma totalOf_direct {f : AssetsEvent → ℕ} (hlog : ∀ e ∈ log, e.IsDirect)
    (hpulled : ∀ id amount, f (.pulled id amount) = 0) (hdeposited : ∀ d, f (.deposited d) = 0) :
    totalOf f log = 0 := by
  apply totalOf_eq_zero
  intro e he
  have hdirect := hlog e he
  cases e with
  | pulled id amount => exact hpulled id amount
  | deposited d => exact hdeposited d
  | covered => cases hdirect
  | committed => cases hdirect

/-- The ledgers agree with what was pulled from payers. -/
structure Conserved (s : AssetsState) : Prop where
  stored : ∀ id, (s.world.kcs.knowledgeCollections id).tokenAmount = totalOf (pulledFor id) s.log
  unused : ∀ id, s.world.kcs.knowledgeCollectionsCounter < id →
    (s.world.kcs.knowledgeCollections id).tokenAmount = 0
  total : s.world.kcs.totalTokenAmount
    = ∑ id ∈ Finset.range (s.world.kcs.knowledgeCollectionsCounter + 1),
        (s.world.kcs.knowledgeCollections id).tokenAmount
  deposited : totalDeposited (depositsIn s.log) = totalOf pulledAmount s.log
  pools : ∃ pool : ℕ → ℕ, (∀ x, s.world.es.getEpochPool 1 x = .ok (pool x)) ∧
    ∑ x ∈ Finset.range (2 ^ 256), pool x + (s.world.es.shard 1).accumulatedRemainder
      = totalOf pulledAmount s.log

lemma PaidInv.sum_pools {now : ℕ} {w : ConvictionWorld} (h : PaidInv c now w log) :
    ∃ pool : ℕ → ℕ, (∀ x, w.es.getEpochPool 1 x = .ok (pool x)) ∧
      ∑ x ∈ Finset.range (2 ^ 256), pool x + (w.es.shard 1).accumulatedRemainder
        = totalOf pulledAmount log + totalOf committedAmount log := by
  obtain ⟨⟨⟨t, -, hr⟩, hshard⟩, hdeposited, hvault, supply, hlt, hsupply⟩ := h
  have hall : depositsOf (depositsIn log) 1 = depositsIn log := by
    unfold depositsOf
    rw [filter_eq_self]
    intro d hd
    exact decide_eq_true (hshard d hd)
  have hb : totalDeposited (depositsOf (depositsIn log) 1) < 2 ^ 95 := by
    have hle := hsupply.vault_le
    rw [hall]
    omega
  obtain ⟨hpool, hsum, -⟩ := getEpochPool_refines_deposits c hr 1 hb
  refine ⟨_, hpool, hsum.trans ?_⟩
  rw [hall, hdeposited]

lemma conserved_of_direct
    (hs : ((assetsMachine c).restrict fun _ l => l.2.Direct).Reachable s) : Conserved s := by
  obtain ⟨hcharged, hpaid⟩ := reachable_assetsInv hs.of_restrict
  have hlog := direct_log hs
  have hcovered : totalOf coveredAmount s.log = 0 :=
    totalOf_direct hlog (fun _ _ => rfl) fun _ => rfl
  have hcommitted : totalOf committedAmount s.log = 0 :=
    totalOf_direct hlog (fun _ _ => rfl) fun _ => rfl
  obtain ⟨supply, hlt, hsupply⟩ := hpaid.supply
  have hvault := hpaid.vault
  have hle := hsupply.vault_le
  refine ⟨?_, ?_, ?_, ?_, ?_⟩
  · intro id
    have hnone : totalOf (coveredFor id) s.log = 0 :=
      totalOf_direct hlog (fun _ _ => rfl) fun _ => rfl
    have hstored := hcharged.stored id
    rw [hnone, Nat.add_zero] at hstored
    exact hstored
  · intro id hid
    exact (hcharged.collections.unused id (.inr hid)).1
  · -- the total wraps at `2^96`, which the supply does not reach
    have hsmall : totalOf pulledAmount s.log + totalOf coveredAmount s.log < 2 ^ 96 := by
      have hpow : (2 : ℕ) ^ 95 ≤ 2 ^ 96 := by norm_num
      omega
    rw [hcharged.collections.total, uint96_of_lt hsmall]
    exact hcharged.collections.sum.symm
  · rw [hpaid.deposited, hcommitted, Nat.add_zero]
  · have hpools := hpaid.sum_pools
    rw [hcommitted, Nat.add_zero] at hpools
    exact hpools

/-- A publication or an update that a conviction account pays for: one collection is charged, TRAC
and the pools stay as they are, and the account's contract records the amount. -/
def FundedByConviction (c : Chronos) (b : Block) (s s' : AssetsState) : Prop :=
  ∃ id amount events, Charged s.world.kcs id amount s'.world.kcs ∧
    CoveredBy c b s.world.toConvictionWorld id amount events s'.world.toConvictionWorld ∧
    s'.log = s.log ++ events

end

/-- **Payments are conserved.** In every run of direct operations each collection stores what was
pulled from payers for it, `_totalTokenAmount` is the sum of what is stored, and shard `1` of the
pools got what was pulled. In every run, an operation that a conviction account pays for moves no
TRAC and adds nothing to the pools; the account's contract records what the collection is
charged. -/
theorem payments_conserved (c : Chronos) :
    (∀ s, ((assetsMachine c).restrict fun _ l => l.2.Direct).Reachable s → Conserved s) ∧
    ∀ s l s', (assetsMachine c).Reachable s → (assetsMachine c).step s l s' →
      l.2.ByConviction → FundedByConviction c l.1 s s' := by
  refine ⟨fun s hs => conserved_of_direct hs, ?_⟩
  rintro s ⟨b, op⟩ s' hs hstep hop
  obtain ⟨events, heff, hlog, -⟩ := (reachable_assetsInv hs).effect hstep
  cases heff with
  | direct hdirect _ _ => cases op <;> cases hop <;> cases hdirect
  | covered _ hcharged hcovered => exact ⟨_, _, events, hcharged, hcovered, hlog⟩
  | account _ _ => cases hop
  | transfer _ _ => cases hop

/-! ## A run -/

/-- The node `1` has the operational wallet `9`, whose signatures are the ones with `r = 1`; the
address of the contract is `5`, and `30` is a paymaster that pays for it. -/
def assetsEnv : AssetsEnv where
  chainid := 31337
  address := 5
  keccak256 := fun x => x
  keccakPacked := List.sum
  ethSigned := fun digest => digest
  tryRecover := fun _ r _ => if r = 1 then 9 else 0
  identityStorage := IdentityStorage.empty.addKey 1 9 IdentityLib.OPERATIONAL_KEY IdentityLib.ECDSA
  nodeStakeV10 := fun _ => 100
  minimumRequiredSignatures := 1
  stakeWeightedAverageAsk := 10
  isAuthorizedPublisher := fun _ _ => true
  publishPolicy := fun _ => 1
  isContextGraphActive := fun _ => true
  validPaymasters := fun paymaster => paymaster = 30
  allowedAddresses := fun _ _ => true
  allowance := fun _ _ => 1000

/-- Fresh contracts; the account `7` and the paymaster have TRAC. -/
def assetsStart : AssetsState where
  world :=
    { nft := PublishingConvictionNFT.initialized
      trac := ⟨0, fun account => if account = 7 then 2000 else if account = 30 then 500 else 0⟩
      es := EpochStorage.empty
      kav10 := 5
      kcs := KnowledgeCollectionStorage.empty 1000
      values := ContextGraphValueStorage.empty
      kcToContextGraph := fun _ => 0
      contextGraphKCList := fun _ => []
      produced := ⟨fun _ _ => 0, fun _ => 0, fun _ => 0⟩ }
  now := 0
  log := []

lemma assetsStart_init (c : Chronos) : (assetsMachine c).init assetsStart := by
  refine ⟨⟨rfl, rfl, ⟨1000, rfl⟩, rfl, rfl, 2500, by norm_num, ?_⟩, rfl⟩
  intro holders
  -- only two accounts have a balance
  have hsub : ∑ account ∈ holders, assetsStart.world.trac.balanceOf account
      ≤ ∑ account ∈ holders ∪ {7, 30}, assetsStart.world.trac.balanceOf account :=
    Finset.sum_le_sum_of_subset Finset.subset_union_left
  have htwo : ∑ account ∈ holders ∪ {7, 30}, assetsStart.world.trac.balanceOf account
      = ∑ account ∈ {7, 30}, assetsStart.world.trac.balanceOf account := by
    symm
    apply Finset.sum_subset Finset.subset_union_right
    intro account _ hno
    have hseven : account ≠ 7 := by
      rintro rfl
      simp at hno
    have hthirty : account ≠ 30 := by
      rintro rfl
      simp at hno
    show (if account = 7 then 2000 else if account = 30 then 500 else 0) = 0
    rw [if_neg hseven, if_neg hthirty]
  have hsum : ∑ account ∈ {7, 30}, assetsStart.world.trac.balanceOf account = 2500 := by
    rw [Finset.sum_pair (by norm_num)]
    rfl
  show 0 + _ ≤ 2500
  omega

/-- A direct operation as a function. -/
def directExec (c : Chronos) (s : AssetsState) (l : Block × AssetsOp) : Tx AssetsState :=
  if l.2.Direct then assetsExec c s l else .error .abiDecode

lemma directStep_of_exec (c : Chronos) (s : AssetsState) (l : Block × AssetsOp)
    (s' : AssetsState) (hexec : directExec c s l = .ok s') :
    ((assetsMachine c).restrict fun _ l => l.2.Direct).step s l s' := by
  unfold directExec at hexec
  split at hexec
  next hop => exact ⟨hop, assetsStep_of_exec c s l s' hexec⟩
  next => cases hexec

def publishParams (tokenAmount : ℕ) : PublishParams where
  contextGraphId := 3
  merkleRoot := 77
  knowledgeAssetsAmount := 2
  byteSize := 1024
  epochs := 2
  tokenAmount := tokenAmount
  isImmutable := false
  merkleLeafCount := 4
  publisherNodeIdentityId := 1
  publisherNodeR := 1
  publisherNodeVS := 0
  identityIds := [1]
  r := [1]
  vs := [0]

def updateParams (newTokenAmount : ℕ) : UpdateParams where
  id := 1
  newMerkleRoot := 78
  newByteSize := 1024
  newTokenAmount := newTokenAmount
  newMerkleLeafCount := 5
  mintKnowledgeAssetsAmount := 1
  knowledgeAssetsToBurn := [2]
  publisherNodeIdentityId := 1
  publisherNodeR := 1
  publisherNodeVS := 0
  identityIds := [1]
  r := [1]
  vs := [0]

/-- A collection is published for `103`, updated to `153` an epoch later, and extended by a
paymaster for `40`; `193` TRAC are stored, pulled and in the pools. And a publication for `60` is
covered by a conviction account. -/
theorem payments_conserved_extended :
    (∃ s, ((assetsMachine hourlyChronos).restrict fun _ l => l.2.Direct).Reachable s ∧
      (s.world.kcs.knowledgeCollections 1).tokenAmount = 193 ∧
      s.world.kcs.totalTokenAmount = 193 ∧ s.world.trac.vault = 193 ∧ Conserved s) ∧
    ∃ s s', (assetsMachine hourlyChronos).Reachable s ∧
      (s'.world.kcs.knowledgeCollections 1).tokenAmount = 60 ∧
      FundedByConviction hourlyChronos ⟨1002, by decide⟩ s s' := by
  constructor
  · obtain ⟨s, hrun, htest⟩ := exists_of_succeeds
      (x := Machine.runList (directExec hourlyChronos)
        [(1900, .publishDirect assetsEnv 7 (publishParams 103) 0),
         (4700, .updateDirect assetsEnv 7 (updateParams 153) 0),
         (4800, .extendKnowledgeCollectionLifetime assetsEnv 7 1 3 40 30)]
        assetsStart)
      (t := fun s => decide ((s.world.kcs.knowledgeCollections 1).tokenAmount = 193 ∧
        s.world.kcs.totalTokenAmount = 193 ∧ s.world.trac.vault = 193))
      (by decide +kernel)
    have hr := Machine.Reachable.runList (directStep_of_exec hourlyChronos)
      (.init (assetsStart_init hourlyChronos)) hrun
    obtain ⟨hstored, htotal, hvault⟩ := of_decide_eq_true htest
    exact ⟨s, hr, hstored, htotal, hvault, (payments_conserved hourlyChronos).1 s hr⟩
  · obtain ⟨s, hrun, hnext⟩ := exists_of_succeeds
      (x := Machine.runList (assetsExec hourlyChronos)
        [(1001, .conviction (.createAccount 7 1200)),
         (1001, .conviction (.registerAgent 7 1 8))]
        assetsStart)
      (t := fun s => succeeds
        (assetsExec hourlyChronos s
          (1002, .publish assetsEnv 8 (publishParams 60)))
        fun s' => decide ((s'.world.kcs.knowledgeCollections 1).tokenAmount = 60))
      (by decide +kernel)
    obtain ⟨s', hexec, hstored⟩ := exists_of_succeeds hnext
    have hr := Machine.Reachable.runList (assetsStep_of_exec hourlyChronos)
      (.init (assetsStart_init hourlyChronos)) hrun
    exact ⟨s, s', hr, of_decide_eq_true hstored, (payments_conserved hourlyChronos).2 s _ s' hr
      (assetsStep_of_exec hourlyChronos _ _ _ hexec) trivial⟩

end Dkg
