import Dkg.PublishingConviction.Model

/-! # What an account spends, and what it pays

An account's spending is bounded twice: by a twelfth of the commitment in each of its twelve
epochs, and by the top-ups for whatever exceeds that. `AccountInv` is the ledger of one account:
every charge is in `epochSpent` or has left the top-up buffer, and every TRAC paid was credited to
the epoch pools for epochs of the account's lifetime. A transaction changes the ledger of one
account, so the invariant is kept account by account.
-/

namespace Dkg

open Lib ConvictionOp List Function

/-! ## Reading the log -/

/-- The discounted costs charged to an account. -/
def chargedTo (log : List ConvictionEvent) (id : ℕ) : ℕ :=
  (log.map fun
    | .costCovered cost => if cost.accountId = id then cost.discountedCost else 0
    | _ => 0).sum

/-- The top-ups of an account. -/
def toppedUpBy (log : List ConvictionEvent) (id : ℕ) : ℕ :=
  (log.map fun
    | .toppedUp accountId amount => if accountId = id then amount else 0
    | _ => 0).sum

/-- The deposits into the epoch pools made for an account. -/
def creditsOf (log : List ConvictionEvent) (id : ℕ) : List Deposit :=
  log.filterMap fun
    | .credited accountId deposit => if accountId = id then some deposit else none
    | _ => none

/-- The deposits into the epoch pools that a transaction has made. -/
def creditedIn (events : List ConvictionEvent) : List Deposit :=
  events.filterMap fun
    | .credited _ deposit => some deposit
    | _ => none

/-- The epoch storage after a call of `addTokensToEpochRange` for each of the deposits. -/
def EpochStorage.deposited (es : EpochStorage) (c : Chronos) (b : Block) (deposits : List Deposit) :
    Tx EpochStorage :=
  deposits.foldlM (fun es d =>
    es.addTokensToEpochRange c b d.shardId d.startEpoch d.endEpoch d.tokenAmount) es

lemma chargedTo_append (log events : List ConvictionEvent) (id : ℕ) :
    chargedTo (log ++ events) id = chargedTo log id + chargedTo events id := by
  simp [chargedTo]

lemma toppedUpBy_append (log events : List ConvictionEvent) (id : ℕ) :
    toppedUpBy (log ++ events) id = toppedUpBy log id + toppedUpBy events id := by
  simp [toppedUpBy]

lemma creditsOf_append (log events : List ConvictionEvent) (id : ℕ) :
    creditsOf (log ++ events) id = creditsOf log id ++ creditsOf events id :=
  filterMap_append

/-! ## What the operations do -/

/-- The current epoch as the contract stores it. -/
lemma Chronos.uint40_getCurrentEpoch (c : Chronos) (b : Block) :
    uint40 (c.getCurrentEpoch b) = c.getCurrentEpoch b := by
  have hlt : c.getCurrentEpoch b < 2 ^ 32 := c.epochAtTimestamp_lt b.fits
  exact uint40_of_lt (by omega)

namespace PublishingConvictionNFT

variable {n n' : PublishingConvictionNFT} {c : Chronos} {b : Block}

variable {tokenId sender accountId agent : ℕ}

lemma _mint_ok {receiver : ℕ} (h : n._mint receiver tokenId = .ok n') :
    receiver ≠ 0 ∧ n.owner tokenId = 0 ∧
      n' = { n with owner := update n.owner tokenId receiver } := by
  unfold _mint _update at h
  obtain ⟨hreceiver, h⟩ := of_require h
  obtain ⟨out, hupdate, h⟩ := of_bind h
  obtain ⟨hnone, h⟩ := of_require h
  obtain ⟨_, -, rfl⟩ := of_bind_pure hupdate
  obtain rfl := of_pure h
  simp only at hnone
  refine ⟨hreceiver, hnone, ?_⟩
  simp [hnone]

lemma registerAgent_ok (h : n.registerAgent sender accountId agent = .ok n') :
    n.owner accountId ≠ 0 ∧ n.agentToAccountId agent = 0 ∧
      n' = { n with
        registeredAgents := update n.registeredAgents accountId
          (n.registeredAgents accountId ++ [agent])
        isRegisteredAgent := store₂ n.isRegisteredAgent accountId agent true
        agentToAccountId := update n.agentToAccountId agent accountId } := by
  unfold registerAgent _requireOwner at h
  obtain ⟨_, howner, _, -, _, hfree, h⟩ := of_bind₃ h
  obtain ⟨_, -, h⟩ := of_bind h
  obtain ⟨_, hexists, -⟩ := of_bind howner
  exact ⟨require_eq_ok.mp hexists, require_eq_ok.mp hfree, (of_pure h).symm⟩

lemma deregisterAgent_ok (h : n.deregisterAgent sender accountId agent = .ok n') :
    n.isRegisteredAgent accountId agent = true ∧
      n' = { n with
        isRegisteredAgent := store₂ n.isRegisteredAgent accountId agent false
        agentToAccountId := update n.agentToAccountId agent 0
        registeredAgents := update n.registeredAgents accountId
          (removeLoop agent (n.registeredAgents accountId)
            (n.registeredAgents accountId).length 0) } := by
  unfold deregisterAgent at h
  obtain ⟨_, -, _, hflag, h⟩ := of_bind₂ h
  exact ⟨require_eq_ok.mp hflag, (of_pure h).symm⟩

lemma approve_ok {spender : ℕ} (h : n.approve sender spender tokenId = .ok n') :
    n.owner tokenId ≠ 0 ∧
      n' = { n with tokenApproval := update n.tokenApproval tokenId spender } := by
  unfold approve at h
  obtain ⟨_, howner, _, -, h⟩ := of_bind₂ h
  exact ⟨require_eq_ok.mp howner, (of_pure h).symm⟩

lemma setApprovalForAll_ok {operator : ℕ} {approved : Bool}
    (h : n.setApprovalForAll sender operator approved = .ok n') :
    n' = { n with operatorApproval := store₂ n.operatorApproval sender operator approved } := by
  unfold setApprovalForAll at h
  obtain ⟨_, -, h⟩ := of_bind h
  exact (of_pure h).symm

/-- A covered cost is drawn from the rest of the epoch's allowance, then from the buffer. -/
structure Covered (c : Chronos) (b : Block) (n : PublishingConvictionNFT) (agent : ℕ)
    (n' : PublishingConvictionNFT) (cost : CostCovered) : Prop where
  account : cost.accountId = n.agentToAccountId agent
  registered : cost.accountId ≠ 0
  epoch : cost.epoch = c.getCurrentEpoch b
  live : cost.epoch < (n.accounts cost.accountId).expiresAtEpoch
  split : cost.drawnFromEpoch + cost.drawnFromTopUp = cost.discountedCost
  allowance : cost.drawnFromEpoch = 0 ∨
    n.epochSpent cost.accountId cost.epoch + cost.drawnFromEpoch
      ≤ (n.accounts cost.accountId).committedTRAC / LOCK_DURATION_EPOCHS
  buffer : cost.drawnFromTopUp ≤ n.topUpBalance cost.accountId
  result : n' = { n with
    topUpBalance := Function.update n.topUpBalance cost.accountId
      (n.topUpBalance cost.accountId - cost.drawnFromTopUp)
    epochSpent := store₂ n.epochSpent cost.accountId cost.epoch
      (n.epochSpent cost.accountId cost.epoch + cost.drawnFromEpoch) }

lemma coverPublishingCost_ok {kav10 baseCost : ℕ} {out : PublishingConvictionNFT × CostCovered}
    (h : n.coverPublishingCost c b kav10 sender agent baseCost = .ok out) :
    Covered c b n agent out.1 out.2 := by
  unfold coverPublishingCost at h
  rw [c.uint40_getCurrentEpoch b] at h
  obtain ⟨_, -, h⟩ := of_bind h
  obtain ⟨hid, hlive, h⟩ := of_require₂ h
  obtain ⟨factor, -, h⟩ := of_bind h
  set id := n.agentToAccountId agent with hagent
  set e := c.getCurrentEpoch b with he
  set discounted := uint96 (baseCost * factor / BPS_DENOMINATOR) with hdiscounted
  set base := (n.accounts id).committedTRAC / LOCK_DURATION_EPOCHS with hbase
  set remaining := if n.epochSpent id e < base then base - n.epochSpent id e else 0
    with hremaining
  obtain ⟨⟨fromEpoch, fromTopUp, m⟩, hdrawn, h⟩ := of_bind h
  obtain ⟨m', hspent, rfl⟩ := of_bind_pure h
  have hspare : remaining = 0 ∨ n.epochSpent id e + remaining = base := by
    rw [hremaining]
    split <;> omega
  -- both sources together give the cost, within the allowance and the buffer
  obtain ⟨hsum, hle, hbuffer, rfl⟩ : fromEpoch + fromTopUp = discounted ∧
      fromEpoch ≤ remaining ∧ fromTopUp ≤ n.topUpBalance id ∧
      m = { n with topUpBalance :=
        Function.update n.topUpBalance id (n.topUpBalance id - fromTopUp) } := by
    by_cases hcheap : discounted ≤ remaining
    · rw [if_pos hcheap] at hdrawn
      obtain ⟨rfl, hrest⟩ := Prod.mk.inj (of_pure hdrawn)
      cases hrest
      refine ⟨Nat.add_zero _, hcheap, Nat.zero_le _, ?_⟩
      rw [Nat.sub_zero, update_eq_self]
    · rw [if_neg hcheap] at hdrawn
      obtain ⟨hcovered, hdrawn⟩ := of_require hdrawn
      obtain ⟨rfl, hrest⟩ := Prod.mk.inj (of_pure hdrawn)
      cases hrest
      exact ⟨by omega, le_rfl, hcovered, rfl⟩
  have hresult : m' = { n with
      topUpBalance := update n.topUpBalance id (n.topUpBalance id - fromTopUp)
      epochSpent := store₂ n.epochSpent id e (n.epochSpent id e + fromEpoch) } := by
    split at hspent
    next =>
      obtain ⟨total, hadd, hspent⟩ := of_bind hspent
      obtain ⟨-, rfl⟩ := addUint_eq_ok.mp hadd
      rw [← of_pure hspent]
    next hnone =>
      have hzero : fromEpoch = 0 := by
        simp only at hnone
        omega
      have hsame : store₂ n.epochSpent id e (n.epochSpent id e + fromEpoch)
          = n.epochSpent := by
        rw [hzero, Nat.add_zero]
        funext i x
        unfold store₂
        split
        next hboth => rw [hboth.1, hboth.2]
        next => rfl
      rw [hsame]
      exact (of_pure hspent).symm
  refine ⟨rfl, hid, rfl, hlive, hsum, ?_, hbuffer, hresult⟩
  simp only
  omega

end PublishingConvictionNFT

open PublishingConvictionNFT

namespace ConvictionWorld

variable {c : Chronos} {b : Block} {w w' : ConvictionWorld}

lemma createAccount_ok {sender committed : ℕ} (h : w.createAccount c b sender committed = .ok w') :
    w'.nft = { w.nft with
      nextAccountId := w.nft.nextAccountId + 1
      accounts := update w.nft.accounts w.nft.nextAccountId
        ⟨committed, c.getCurrentEpoch b, c.getCurrentEpoch b + LOCK_DURATION_EPOCHS,
          getDiscountBps committed⟩
      owner := update w.nft.owner w.nft.nextAccountId sender } ∧
    sender ≠ 0 ∧ w.nft.owner w.nft.nextAccountId = 0 ∧
    w.es.addTokensToEpochRange c b STAKER_SHARD_ID (c.getCurrentEpoch b)
      (c.getCurrentEpoch b + LOCK_DURATION_EPOCHS - 1) committed = .ok w'.es := by
  unfold createAccount at h
  rw [c.uint40_getCurrentEpoch b] at h
  obtain ⟨_, -, next, hnext, expires, hexpires, h⟩ := of_bind₃ h
  obtain ⟨nft, hmint, trac, -, last, hlast, h⟩ := of_bind₃ h
  obtain ⟨es, hes, rfl⟩ := of_bind_pure h
  obtain ⟨-, rfl⟩ := addUint_eq_ok.mp hnext
  obtain ⟨-, rfl⟩ := addUint_eq_ok.mp hexpires
  obtain ⟨-, rfl⟩ := subUint_eq_ok.mp hlast
  obtain ⟨hreceiver, hnone, rfl⟩ := _mint_ok hmint
  exact ⟨rfl, hreceiver, hnone, hes⟩

lemma topUp_ok {sender accountId amount : ℕ} (h : w.topUp c b sender accountId amount = .ok w') :
    w'.nft = { w.nft with
      topUpBalance := update w.nft.topUpBalance accountId
        (w.nft.topUpBalance accountId + amount) } ∧
    c.getCurrentEpoch b < (w.nft.accounts accountId).expiresAtEpoch ∧
    w.es.addTokensToEpochRange c b STAKER_SHARD_ID (c.getCurrentEpoch b)
      ((w.nft.accounts accountId).expiresAtEpoch - 1) amount = .ok w'.es := by
  unfold topUp at h
  rw [c.uint40_getCurrentEpoch b] at h
  obtain ⟨_, -, _, -, _, hlive, h⟩ := of_bind₃ h
  obtain ⟨balance, hbalance, trac, -, last, hlast, h⟩ := of_bind₃ h
  obtain ⟨es, hes, rfl⟩ := of_bind_pure h
  obtain ⟨-, rfl⟩ := addUint_eq_ok.mp hbalance
  obtain ⟨-, rfl⟩ := subUint_eq_ok.mp hlast
  exact ⟨rfl, require_eq_ok.mp hlive, hes⟩

end ConvictionWorld

/-- A transaction of the token alone writes the token alone. -/
lemma ConvictionOp.onToken_ok {w w' : ConvictionWorld} {x : Tx PublishingConvictionNFT}
    {events : List ConvictionEvent} (h : onToken w x = .ok (w', events)) :
    x = .ok w'.nft ∧ events = [] := by
  obtain ⟨nft, hx, hend⟩ := of_bind_pure h
  cases hend
  exact ⟨hx, rfl⟩

/-- **The credits are the deposits**: but for other contracts' transactions, the epoch storage
changes by the deposits that the events tell of. -/
lemma ConvictionOp.run_es {c : Chronos} {b : Block} {w w' : ConvictionWorld} {op : ConvictionOp}
    {events : List ConvictionEvent} (hrun : op.run c b w = .ok (w', events))
    (hown : ∀ trac es, op ≠ .otherTransactions trac es) :
    w.es.deposited c b (creditedIn events) = .ok w'.es := by
  have htoken : ∀ {x : Tx PublishingConvictionNFT}, ConvictionOp.onToken w x = .ok (w', events) →
      w.es.deposited c b (creditedIn events) = .ok w'.es := by
    intro x h
    obtain ⟨nft, -, hend⟩ := of_bind_pure h
    cases hend
    rfl
  have hone : ∀ (d : Deposit) (es' : EpochStorage), w.es.addTokensToEpochRange c b d.shardId
      d.startEpoch d.endEpoch d.tokenAmount = .ok es' → w.es.deposited c b [d] = .ok es' := by
    intro d es' h
    unfold EpochStorage.deposited
    rw [foldlM_cons, h]
    rfl
  cases op with
  | createAccount sender committed =>
    obtain ⟨w₁, hcreate, hend⟩ := of_bind_pure hrun
    cases hend
    obtain ⟨hnft, -, -, hes⟩ := ConvictionWorld.createAccount_ok hcreate
    refine hone _ _ ?_
    simp only [hnft, update_self, c.uint40_getCurrentEpoch b]
    exact hes
  | topUp sender accountId amount =>
    obtain ⟨w₁, htop, hend⟩ := of_bind_pure hrun
    cases hend
    obtain ⟨hnft, -, hes⟩ := ConvictionWorld.topUp_ok htop
    refine hone _ _ ?_
    simp only [hnft, c.uint40_getCurrentEpoch b]
    exact hes
  | coverPublishingCost sender agent cost =>
    obtain ⟨out, -, hend⟩ := of_bind_pure hrun
    cases hend
    rfl
  | setKnowledgeAssetsV10 kav10 =>
    cases of_pure hrun
    rfl
  | otherTransactions trac es => exact absurd rfl (hown trac es)
  | _ => exact htoken hrun

/-! ## The ledger of an account -/

def Account.lifetime (a : Account) : Finset ℕ := Finset.Ico a.createdAtEpoch a.expiresAtEpoch

/-- The spending and the payments of the account `id`, at the epoch `epoch`. -/
structure AccountInv (n : PublishingConvictionNFT) (log : List ConvictionEvent) (epoch id : ℕ) :
    Prop where
  created : (n.accounts id).createdAtEpoch ≤ epoch
  expires : (n.accounts id).expiresAtEpoch ≤ (n.accounts id).createdAtEpoch + LOCK_DURATION_EPOCHS
  spent : ∀ e, n.epochSpent id e ≤ (n.accounts id).committedTRAC / LOCK_DURATION_EPOCHS
  outside : ∀ e, e ∉ (n.accounts id).lifetime → n.epochSpent id e = 0
  balance : chargedTo log id + n.topUpBalance id
    = ∑ e ∈ (n.accounts id).lifetime, n.epochSpent id e + toppedUpBy log id
  drawn : n.topUpBalance id ≤ toppedUpBy log id
  credited : ((creditsOf log id).map Deposit.tokenAmount).sum
    = (n.accounts id).committedTRAC + toppedUpBy log id
  ranges : ∀ d ∈ creditsOf log id, d.shardId = STAKER_SHARD_ID ∧
    (n.accounts id).createdAtEpoch ≤ d.startEpoch ∧ d.startEpoch ≤ d.endEpoch ∧
    d.endEpoch + 1 = (n.accounts id).expiresAtEpoch

/-- An id nobody has got yet. -/
structure Unused (n : PublishingConvictionNFT) (log : List ConvictionEvent) (id : ℕ) : Prop where
  account : n.accounts id = ⟨0, 0, 0, 0⟩
  spent : n.epochSpent id = fun _ => 0
  buffer : n.topUpBalance id = 0
  charged : chargedTo log id = 0
  toppedUp : toppedUpBy log id = 0
  credits : creditsOf log id = []

/-- All accounts, used or not. -/
structure SpendInv (n : PublishingConvictionNFT) (log : List ConvictionEvent) (epoch : ℕ) :
    Prop where
  unused : ∀ id, n.nextAccountId ≤ id → Unused n log id
  account : ∀ id, AccountInv n log epoch id

section

variable {n n' : PublishingConvictionNFT} {log log' : List ConvictionEvent} {epoch epoch' id : ℕ}

/-- What the ledger of an account reads. -/
structure SameLedger (n n' : PublishingConvictionNFT) (log log' : List ConvictionEvent) (id : ℕ) :
    Prop where
  account : n'.accounts id = n.accounts id
  spent : n'.epochSpent id = n.epochSpent id
  buffer : n'.topUpBalance id = n.topUpBalance id
  charged : chargedTo log' id = chargedTo log id
  toppedUp : toppedUpBy log' id = toppedUpBy log id
  credits : creditsOf log' id = creditsOf log id

lemma AccountInv.same (h : AccountInv n log epoch id) (hle : epoch ≤ epoch')
    (hs : SameLedger n n' log log' id) : AccountInv n' log' epoch' id := by
  obtain ⟨ha, hsp, hb, hc, ht, hcr⟩ := hs
  constructor
  · rw [ha]
    exact le_trans h.created hle
  · rw [ha]
    exact h.expires
  · rw [ha, hsp]
    exact h.spent
  · rw [ha, hsp]
    exact h.outside
  · rw [ha, hsp, hb, hc, ht]
    exact h.balance
  · rw [hb, ht]
    exact h.drawn
  · rw [ha, ht, hcr]
    exact h.credited
  · rw [ha, hcr]
    exact h.ranges

lemma Unused.same (h : Unused n log id) (hs : SameLedger n n' log log' id) : Unused n' log' id where
  account := hs.account.trans h.account
  spent := hs.spent.trans h.spent
  buffer := hs.buffer.trans h.buffer
  charged := hs.charged.trans h.charged
  toppedUp := hs.toppedUp.trans h.toppedUp
  credits := hs.credits.trans h.credits

lemma SpendInv.one (h : SpendInv n log epoch) (hle : epoch ≤ epoch') (id : ℕ)
    (hnext : n.nextAccountId ≤ n'.nextAccountId) (hused : id < n'.nextAccountId)
    (hothers : ∀ id', id' ≠ id → SameLedger n n' log log' id')
    (hself : AccountInv n' log' epoch' id) : SpendInv n' log' epoch' where
  unused := by
    intro id' hid'
    exact (h.unused id' (by omega)).same (hothers id' (by omega))
  account := by
    intro id'
    by_cases hid : id' = id
    · rw [hid]
      exact hself
    · exact (h.account id').same hle (hothers id' hid)

/-- Nothing the ledgers read is written. -/
lemma SpendInv.quiet (h : SpendInv n log epoch) (hle : epoch ≤ epoch')
    (hnext : n'.nextAccountId = n.nextAccountId) (ha : n'.accounts = n.accounts)
    (hsp : n'.epochSpent = n.epochSpent) (hb : n'.topUpBalance = n.topUpBalance) :
    SpendInv n' log epoch' := by
  have hsame : ∀ id, SameLedger n n' log log id := by
    intro id
    exact ⟨by rw [ha], by rw [hsp], by rw [hb], rfl, rfl, rfl⟩
  constructor
  · intro id hid
    rw [hnext] at hid
    exact (h.unused id hid).same (hsame id)
  · intro id
    exact (h.account id).same hle (hsame id)

lemma SpendInv.initialized (epoch : ℕ) : SpendInv initialized [] epoch where
  unused := fun _ _ => ⟨rfl, rfl, rfl, rfl, rfl, rfl⟩
  account := fun _ =>
    { created := Nat.zero_le _
      expires := Nat.zero_le _
      spent := fun _ => Nat.zero_le _
      outside := fun _ _ => rfl
      balance := by simp [PublishingConvictionNFT.initialized, chargedTo, toppedUpBy]
      drawn := Nat.zero_le _
      credited := rfl
      ranges := fun _ hd => absurd hd not_mem_nil }

end

/-! ## The steps -/

namespace SpendInv

variable {c : Chronos} {b : Block} {w w' : ConvictionWorld} {log : List ConvictionEvent} {epoch : ℕ}

lemma id_lt_next {n : PublishingConvictionNFT} {id e : ℕ} (h : SpendInv n log epoch)
    (hlive : e < (n.accounts id).expiresAtEpoch) : id < n.nextAccountId := by
  by_contra hnot
  rw [(h.unused id (by omega)).account] at hlive
  exact Nat.not_lt_zero _ hlive

/-- The new account is unused before, and its commitment is its first credit. -/
lemma createAccount {sender committed : ℕ} (h : SpendInv w.nft log epoch)
    (hle : epoch ≤ c.getCurrentEpoch b) (hrun : w.createAccount c b sender committed = .ok w') :
    SpendInv w'.nft
      (log ++ [credit c b w.es w'.nft w.nft.nextAccountId committed])
      (c.getCurrentEpoch b) := by
  obtain ⟨hnft, -⟩ := ConvictionWorld.createAccount_ok hrun
  have hnew := h.unused w.nft.nextAccountId le_rfl
  unfold credit
  rw [hnft, c.uint40_getCurrentEpoch b]
  refine h.one hle w.nft.nextAccountId (Nat.le_succ _) (Nat.lt_succ_self _) ?_ ?_
  · intro id hid
    constructor
    · exact update_of_ne hid _ _
    · rfl
    · rfl
    · simp [chargedTo]
    · simp [toppedUpBy]
    · simp [creditsOf, Ne.symm hid]
  · constructor
    · simp only [update_self, le_refl]
    · simp only [update_self, le_refl]
    · intro e
      rw [hnew.spent]
      exact Nat.zero_le _
    · intro e _
      rw [hnew.spent]
    · simp only [chargedTo_append, toppedUpBy_append, hnew.spent, hnew.buffer, hnew.charged,
        hnew.toppedUp]
      simp [chargedTo, toppedUpBy]
    · simp only [hnew.buffer]
      exact Nat.zero_le _
    · simp only [creditsOf_append, toppedUpBy_append, hnew.credits, hnew.toppedUp]
      simp [creditsOf, toppedUpBy]
    · intro d hd
      rw [creditsOf_append, hnew.credits] at hd
      simp only [creditsOf, filterMap_cons, filterMap_nil, if_pos, nil_append,
        mem_singleton, update_self] at hd
      subst hd
      simp only [update_self, LOCK_DURATION_EPOCHS]
      refine ⟨trivial, le_rfl, ?_, ?_⟩ <;> omega

lemma topUp {sender accountId amount : ℕ} (h : SpendInv w.nft log epoch)
    (hle : epoch ≤ c.getCurrentEpoch b) (hrun : w.topUp c b sender accountId amount = .ok w') :
    SpendInv w'.nft
      (log ++ [.toppedUp accountId amount, credit c b w.es w'.nft accountId amount])
      (c.getCurrentEpoch b) := by
  obtain ⟨hnft, hlive, -⟩ := ConvictionWorld.topUp_ok hrun
  have hacc := h.account accountId
  set d : Deposit := ⟨STAKER_SHARD_ID, c.getCurrentEpoch b,
    (w.nft.accounts accountId).expiresAtEpoch - 1, amount,
    (w.es.shard STAKER_SHARD_ID).accumulatedRemainder⟩ with hd
  have hcredit : credit c b w.es w'.nft accountId amount = .credited accountId d := by
    rw [credit, c.uint40_getCurrentEpoch b, hnft]
  rw [hcredit, hnft]
  refine h.one hle accountId le_rfl (h.id_lt_next hlive) ?_ ?_
  · intro id hid
    constructor
    · rfl
    · rfl
    · exact update_of_ne hid _ _
    · simp [chargedTo]
    · simp [toppedUpBy, Ne.symm hid]
    · simp [creditsOf, Ne.symm hid]
  · have hcharged : chargedTo [.toppedUp accountId amount, .credited accountId d] accountId
        = 0 := by
      simp [chargedTo]
    have htopped : toppedUpBy [.toppedUp accountId amount, .credited accountId d] accountId
        = amount := by
      simp [toppedUpBy]
    have hcredits : creditsOf [.toppedUp accountId amount, .credited accountId d] accountId
        = [d] := by
      simp [creditsOf]
    constructor
    · exact le_trans hacc.created hle
    · exact hacc.expires
    · exact hacc.spent
    · exact hacc.outside
    · simp only [chargedTo_append, toppedUpBy_append, update_self, htopped, hcharged]
      have := hacc.balance
      omega
    · simp only [toppedUpBy_append, update_self, htopped]
      have := hacc.drawn
      omega
    · simp only [creditsOf_append, toppedUpBy_append, htopped, hcredits, map_append,
        sum_append, hacc.credited, map_cons, map_nil, sum_singleton]
      have hamount : d.tokenAmount = amount := rfl
      omega
    · intro d' hd'
      rw [creditsOf_append, hcredits, mem_append, mem_singleton] at hd'
      rcases hd' with hold | rfl
      · exact hacc.ranges d' hold
      · have := hacc.created
        refine ⟨rfl, ?_, ?_, ?_⟩ <;> simp only [hd] <;> omega

/-- The charge is spent in the epoch or leaves the buffer. -/
lemma coverPublishingCost {agent : ℕ} {n n' : PublishingConvictionNFT} {cost : CostCovered}
    (h : SpendInv n log epoch) (hle : epoch ≤ c.getCurrentEpoch b)
    (hcovered : Covered c b n agent n' cost) :
    SpendInv n' (log ++ [.costCovered cost]) (c.getCurrentEpoch b) := by
  have hacc := h.account cost.accountId
  have hcreated := hacc.created
  have hnow : cost.epoch ∈ (n.accounts cost.accountId).lifetime := by
    rw [Account.lifetime, Finset.mem_Ico, hcovered.epoch]
    have := hcovered.live
    rw [hcovered.epoch] at this
    omega
  rw [hcovered.result]
  refine h.one hle cost.accountId le_rfl (h.id_lt_next hcovered.live) ?_ ?_
  · intro id hid
    constructor
    · rfl
    · exact store₂_other_row _ _ _ hid
    · exact update_of_ne hid _ _
    · simp [chargedTo, Ne.symm hid]
    · simp [toppedUpBy]
    · simp [creditsOf]
  · have htopped : toppedUpBy [.costCovered cost] cost.accountId = 0 := by simp [toppedUpBy]
    have hcharged : chargedTo [.costCovered cost] cost.accountId = cost.discountedCost := by
      simp [chargedTo]
    have hcredits : creditsOf [.costCovered cost] cost.accountId = [] := by simp [creditsOf]
    constructor
    · exact le_trans hcreated hle
    · exact hacc.expires
    · intro e
      -- the account's row of `epochSpent` changes at the current epoch
      simp only [store₂_row]
      by_cases he : e = cost.epoch
      · rw [he, update_self]
        have := hacc.spent cost.epoch
        have := hcovered.allowance
        omega
      · rw [update_of_ne he]
        exact hacc.spent e
    · intro e he
      have hne : e ≠ cost.epoch := by
        rintro rfl
        exact he hnow
      simp only [store₂_row, update_of_ne hne]
      exact hacc.outside e he
    · simp only [chargedTo_append, toppedUpBy_append, update_self, htopped, hcharged, store₂_row]
      have hbalance := hacc.balance
      rw [← Finset.add_sum_erase _ _ hnow] at hbalance
      have hsum : ∑ e ∈ (n.accounts cost.accountId).lifetime,
          update (n.epochSpent cost.accountId) cost.epoch
            (n.epochSpent cost.accountId cost.epoch + cost.drawnFromEpoch) e
          = n.epochSpent cost.accountId cost.epoch + cost.drawnFromEpoch
            + ∑ e ∈ (n.accounts cost.accountId).lifetime.erase cost.epoch,
              n.epochSpent cost.accountId e := by
        rw [Finset.sum_update_of_mem hnow, Finset.sdiff_singleton_eq_erase]
      rw [hsum]
      have := hcovered.buffer
      have := hcovered.split
      omega
    · simp only [toppedUpBy_append, update_self, htopped]
      have := hacc.drawn
      omega
    · simp only [creditsOf_append, toppedUpBy_append, htopped, hcredits, append_nil]
      exact hacc.credited
    · simp only [creditsOf_append, hcredits, append_nil]
      exact hacc.ranges

end SpendInv

/-- The transactions of the token write nothing the ledgers read. -/
structure LedgersKept (n n' : PublishingConvictionNFT) : Prop where
  next : n'.nextAccountId = n.nextAccountId
  accounts : n'.accounts = n.accounts
  spent : n'.epochSpent = n.epochSpent
  buffer : n'.topUpBalance = n.topUpBalance

namespace PublishingConvictionNFT

variable {n n' : PublishingConvictionNFT}

variable {sender accountId agent tokenId : ℕ}

lemma registerAgent_ledgers (h : n.registerAgent sender accountId agent = .ok n') :
    LedgersKept n n' := by
  rw [(registerAgent_ok h).2.2]
  exact ⟨rfl, rfl, rfl, rfl⟩

lemma deregisterAgent_ledgers (h : n.deregisterAgent sender accountId agent = .ok n') :
    LedgersKept n n' := by
  rw [(deregisterAgent_ok h).2]
  exact ⟨rfl, rfl, rfl, rfl⟩

lemma clearAgents_ledgers (n : PublishingConvictionNFT) (tokenId : ℕ) :
    LedgersKept n (n.clearAgents tokenId) := by
  unfold clearAgents
  rw [foldl_clearAgent]
  exact ⟨rfl, rfl, rfl, rfl⟩

lemma transferFrom_ledgers {holder receiver : ℕ}
    (h : n.transferFrom sender holder receiver tokenId = .ok n') : LedgersKept n n' := by
  unfold transferFrom _update at h
  obtain ⟨_, -, out, hupdate, _, -, h⟩ := of_bind₃ h
  obtain ⟨_, -, hupdate⟩ := of_bind hupdate
  rw [← of_pure h, ← of_pure hupdate]
  simp only
  split
  · have hcleared := clearAgents_ledgers { n with
      tokenApproval := if n.owner tokenId ≠ 0 then update n.tokenApproval tokenId 0
        else n.tokenApproval
      owner := update n.owner tokenId receiver } tokenId
    exact ⟨hcleared.next, hcleared.accounts, hcleared.spent, hcleared.buffer⟩
  · exact ⟨rfl, rfl, rfl, rfl⟩

lemma approve_ledgers {spender : ℕ} (h : n.approve sender spender tokenId = .ok n') :
    LedgersKept n n' := by
  rw [(approve_ok h).2]
  exact ⟨rfl, rfl, rfl, rfl⟩

lemma setApprovalForAll_ledgers {operator : ℕ} {approved : Bool}
    (h : n.setApprovalForAll sender operator approved = .ok n') : LedgersKept n n' := by
  rw [setApprovalForAll_ok h]
  exact ⟨rfl, rfl, rfl, rfl⟩

end PublishingConvictionNFT

/-! ## Runs -/

section

variable {c : Chronos} {b : Block} {w w' : ConvictionWorld} {log events : List ConvictionEvent}
  {epoch : ℕ}

lemma SpendInv.onToken (h : SpendInv w.nft log epoch) (hle : epoch ≤ c.getCurrentEpoch b)
    {x : Tx PublishingConvictionNFT} (hrun : onToken w x = .ok (w', events))
    (hkept : ∀ n', x = .ok n' → LedgersKept w.nft n') :
    SpendInv w'.nft (log ++ events) (c.getCurrentEpoch b) := by
  obtain ⟨hx, rfl⟩ := onToken_ok hrun
  have hk := hkept _ hx
  rw [append_nil]
  exact h.quiet hle hk.next hk.accounts hk.spent hk.buffer

lemma SpendInv.run {op : ConvictionOp} (h : SpendInv w.nft log epoch)
    (hle : epoch ≤ c.getCurrentEpoch b) (hrun : op.run c b w = .ok (w', events)) :
    SpendInv w'.nft (log ++ events) (c.getCurrentEpoch b) := by
  cases op with
  | createAccount sender committed =>
    obtain ⟨w₁, hcreate, hend⟩ := of_bind_pure hrun
    cases hend
    exact h.createAccount hle hcreate
  | topUp sender accountId amount =>
    obtain ⟨w₁, htop, hend⟩ := of_bind_pure hrun
    cases hend
    exact h.topUp hle htop
  | coverPublishingCost sender agent cost =>
    obtain ⟨out, hcover, hend⟩ := of_bind_pure hrun
    cases hend
    exact h.coverPublishingCost hle (coverPublishingCost_ok hcover)
  | registerAgent sender accountId agent =>
    exact h.onToken hle hrun fun _ => registerAgent_ledgers
  | deregisterAgent sender accountId agent =>
    exact h.onToken hle hrun fun _ => deregisterAgent_ledgers
  | setMaxAgentsPerAccount cap =>
    apply h.onToken hle hrun
    intro n' hset
    rw [← of_pure hset]
    exact ⟨rfl, rfl, rfl, rfl⟩
  | transferFrom sender holder receiver tokenId =>
    exact h.onToken hle hrun fun _ => transferFrom_ledgers
  | approve sender spender tokenId =>
    exact h.onToken hle hrun fun _ => approve_ledgers
  | setApprovalForAll sender operator approved =>
    exact h.onToken hle hrun fun _ => setApprovalForAll_ledgers
  | setKnowledgeAssetsV10 kav10 | otherTransactions trac es =>
    cases of_pure hrun
    rw [append_nil]
    exact h.quiet hle rfl rfl rfl rfl

lemma ConvictionState.spending {s : ConvictionState} (hr : (convictionMachine c).Reachable s) :
    SpendInv s.world.nft s.log s.epoch := by
  apply hr.invariant (P := fun s => SpendInv s.world.nft s.log s.epoch)
  · rintro s ⟨hinit, hlog⟩
    rw [hinit, hlog]
    exact SpendInv.initialized s.epoch
  · rintro s ⟨b, op⟩ s' h ⟨hle, hepoch, -, events, hrun, hlog⟩
    rw [hepoch, hlog]
    exact h.run hle hrun

/-- A twelfth of the commitment in each epoch of the lifetime is at most the commitment. -/
lemma AccountInv.sum_spent_le {n : PublishingConvictionNFT} {id : ℕ}
    (h : AccountInv n log epoch id) :
    ∑ e ∈ (n.accounts id).lifetime, n.epochSpent id e ≤ (n.accounts id).committedTRAC := by
  have hcard : (n.accounts id).lifetime.card ≤ LOCK_DURATION_EPOCHS := by
    rw [Account.lifetime, Nat.card_Ico]
    have := h.expires
    omega
  calc ∑ e ∈ (n.accounts id).lifetime, n.epochSpent id e
      ≤ (n.accounts id).lifetime.card
          * ((n.accounts id).committedTRAC / LOCK_DURATION_EPOCHS) := by
        rw [← smul_eq_mul]
        exact Finset.sum_le_card_nsmul _ _ _ fun e _ => h.spent e
    _ ≤ LOCK_DURATION_EPOCHS * ((n.accounts id).committedTRAC / LOCK_DURATION_EPOCHS) :=
        Nat.mul_le_mul_right _ hcard
    _ ≤ (n.accounts id).committedTRAC := Nat.mul_div_le _ _

end

/-- **Spending is bounded.** In every run, for every account: the discounted costs charged are
what `epochSpent` has for the epochs of the lifetime (elsewhere it is zero) and what has left the
top-up buffer; they are at most the commitment and the top-ups; no epoch takes more than a twelfth
of the commitment; and the TRAC credited to the epoch pools is the commitment and the top-ups, all
of it in epochs of the lifetime. A credit is a deposit into the epoch storage, which changes by
nothing else in a transaction of the contract. -/
theorem conviction_spend_bounded (c : Chronos) {s : ConvictionState}
    (hr : (convictionMachine c).Reachable s) (id : ℕ) :
    s.world.nft.topUpBalance id ≤ toppedUpBy s.log id ∧
    chargedTo s.log id
      = ∑ e ∈ (s.world.nft.accounts id).lifetime, s.world.nft.epochSpent id e
        + (toppedUpBy s.log id - s.world.nft.topUpBalance id) ∧
    (∀ e, e ∉ (s.world.nft.accounts id).lifetime → s.world.nft.epochSpent id e = 0) ∧
    chargedTo s.log id ≤ (s.world.nft.accounts id).committedTRAC + toppedUpBy s.log id ∧
    (∀ e, s.world.nft.epochSpent id e ≤ (s.world.nft.accounts id).committedTRAC / 12) ∧
    ((creditsOf s.log id).map Deposit.tokenAmount).sum
      = (s.world.nft.accounts id).committedTRAC + toppedUpBy s.log id ∧
    (∀ d ∈ creditsOf s.log id, d.shardId = STAKER_SHARD_ID ∧
      (s.world.nft.accounts id).createdAtEpoch ≤ d.startEpoch ∧ d.startEpoch ≤ d.endEpoch ∧
      d.endEpoch + 1 = (s.world.nft.accounts id).expiresAtEpoch) ∧
    ∀ b op s', convictionStep c s (b, op) s' → (∀ trac es, op ≠ .otherTransactions trac es) →
      ∃ events, s'.log = s.log ++ events ∧
        s.world.es.deposited c b (creditedIn events) = .ok s'.world.es := by
  have hacc := (ConvictionState.spending hr).account id
  have hbalance := hacc.balance
  have hdrawn := hacc.drawn
  have hspent := hacc.sum_spent_le
  refine ⟨hdrawn, ?_, hacc.outside, ?_, hacc.spent, hacc.credited, hacc.ranges, ?_⟩
  · omega
  · omega
  · rintro b op s' ⟨-, -, -, events, hrun, hlog⟩ hown
    exact ⟨events, hlog, ConvictionOp.run_es hrun hown⟩

/-- The account `1` commits 1200 and tops up 50. Of a cost of 130, the epoch's allowance pays 100
and the buffer 30. -/
theorem conviction_spend_bounded_overdrawn : ∃ s, (convictionMachine hourlyChronos).Reachable s ∧
    chargedTo s.log 1 = 130 ∧ toppedUpBy s.log 1 = 50 ∧
    s.world.nft.epochSpent 1 1 = 100 ∧ s.world.nft.topUpBalance 1 = 20 ∧
    chargedTo s.log 1 ≤ (s.world.nft.accounts 1).committedTRAC + toppedUpBy s.log 1 := by
  obtain ⟨s, hrun, ht⟩ := exists_of_succeeds
    (x := Machine.runList (convictionExec hourlyChronos)
      [(1000, .createAccount 7 1200),
       (1000, .registerAgent 7 1 9),
       (2000, .topUp 7 1 50),
       (2500, .coverPublishingCost 5 9 130)] convictionStart)
    (t := fun s => decide (chargedTo s.log 1 = 130 ∧ toppedUpBy s.log 1 = 50 ∧
      s.world.nft.epochSpent 1 1 = 100 ∧ s.world.nft.topUpBalance 1 = 20))
    (by decide +kernel)
  have hr := convictionReachable_of_run hrun
  obtain ⟨hcharged, htopped, hspent, hbuffer⟩ := of_decide_eq_true ht
  exact ⟨s, hr, hcharged, htopped, hspent, hbuffer,
    (conviction_spend_bounded hourlyChronos hr 1).2.2.2.1⟩

end Dkg
