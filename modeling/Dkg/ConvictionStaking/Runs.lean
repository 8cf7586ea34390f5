import Dkg.Lib.Machine
import Dkg.ConvictionStaking.Mutators

/-! # Runs of ConvictionStakingStorage

All calls of the contract that change a stake, a tier, a ledger or a list of tokens, in any order,
at non-decreasing block timestamps. The arguments are those the ABI decoder lets through; a
settlement is at the current timestamp, as its callers have it.
-/

namespace Dkg

open Lib NodeLedger Function

/-- The state-changing calls of `ConvictionStakingStorage` but for `setMigrationEpoch`,
`setV10LaunchEpoch`, `decreaseOperatorFeeBalance` and `transferStake`, which change no stake, tier,
ledger or list of tokens. -/
inductive CssCall
  | addTier (lockTier duration multiplier18 : ℕ)
  | deactivateTier (lockTier : ℕ)
  | settleNodeTo (identityId ts : ℕ)
  | settleNode (identityId : ℕ)
  | createPosition (tokenId identityId raw lockTier migrationEpoch : ℕ)
  | updateOnRedelegate (tokenId newIdentityId : ℕ)
  | createNewPositionFromExisting (oldTokenId newTokenId identityId newLockTier : ℕ)
  | deletePosition (tokenId : ℕ)
  | decreaseRaw (tokenId amount : ℕ)
  | increaseRaw (tokenId amount : ℕ)
  | addCumulativeRewardsClaimed (tokenId amount : ℕ)
  | setLastClaimedEpoch (tokenId epoch : ℕ)
  | setIsOperatorFeeClaimedForEpoch (identityId epoch : ℕ) (isClaimed : Bool)
  | setNetNodeEpochRewards (identityId epoch amount : ℕ)
  | setOperatorFeeBalance (identityId newBalance : ℕ)
  | increaseOperatorFeeBalance (identityId addedFee : ℕ)
  | createOperatorFeeWithdrawalRequest (identityId amount indexedOutAmount timestamp : ℕ)
  | deleteOperatorFeeWithdrawalRequest (identityId : ℕ)

namespace CssCall

/-- The call, in the block `b`. -/
def run (c : Chronos) (b : Block) (s : ConvictionStakingStorage) :
    CssCall → Tx ConvictionStakingStorage
  | addTier lockTier duration multiplier18 => s.addTier lockTier duration multiplier18
  | deactivateTier lockTier => s.deactivateTier lockTier
  | settleNodeTo identityId ts => s.settleNodeTo identityId ts
  | settleNode identityId => s.settleNode b identityId
  | createPosition tokenId identityId raw lockTier migrationEpoch =>
    s.createPosition c b tokenId identityId raw lockTier migrationEpoch
  | updateOnRedelegate tokenId newIdentityId => s.updateOnRedelegate b tokenId newIdentityId
  | createNewPositionFromExisting oldTokenId newTokenId identityId newLockTier =>
    s.createNewPositionFromExisting b oldTokenId newTokenId identityId newLockTier
  | deletePosition tokenId => s.deletePosition b tokenId
  | decreaseRaw tokenId amount => s.decreaseRaw b tokenId amount
  | increaseRaw tokenId amount => s.increaseRaw b tokenId amount
  | addCumulativeRewardsClaimed tokenId amount => s.addCumulativeRewardsClaimed tokenId amount
  | setLastClaimedEpoch tokenId epoch => s.setLastClaimedEpoch tokenId epoch
  | setIsOperatorFeeClaimedForEpoch identityId epoch isClaimed =>
    pure (s.setIsOperatorFeeClaimedForEpoch identityId epoch isClaimed)
  | setNetNodeEpochRewards identityId epoch amount =>
    pure (s.setNetNodeEpochRewards identityId epoch amount)
  | setOperatorFeeBalance identityId newBalance =>
    pure (s.setOperatorFeeBalance identityId newBalance)
  | increaseOperatorFeeBalance identityId addedFee =>
    s.increaseOperatorFeeBalance identityId addedFee
  | createOperatorFeeWithdrawalRequest identityId amount indexedOutAmount timestamp =>
    pure (s.createOperatorFeeWithdrawalRequest identityId amount indexedOutAmount timestamp)
  | deleteOperatorFeeWithdrawalRequest identityId =>
    pure (s.deleteOperatorFeeWithdrawalRequest identityId)

/-- The argument types: token ids are `uint256`, identity ids `uint72`, amounts `uint96`, tiers
`uint40`, multipliers `uint64`. A settlement is at the block's own second. -/
def Typed (b : Block) : CssCall → Prop
  | addTier lockTier _ multiplier18 => lockTier < 2 ^ 40 ∧ multiplier18 < 2 ^ 64
  | settleNodeTo _ ts => ts = b.timestamp
  | createPosition tokenId identityId raw _ _ =>
    tokenId < 2 ^ 256 ∧ identityId < 2 ^ 72 ∧ raw < 2 ^ 96
  | updateOnRedelegate tokenId newIdentityId => tokenId < 2 ^ 256 ∧ newIdentityId < 2 ^ 72
  | createNewPositionFromExisting oldTokenId newTokenId _ _ =>
    oldTokenId < 2 ^ 256 ∧ newTokenId < 2 ^ 256
  | deletePosition tokenId | decreaseRaw tokenId _ | increaseRaw tokenId _
  | addCumulativeRewardsClaimed tokenId _ | setLastClaimedEpoch tokenId _ => tokenId < 2 ^ 256
  | _ => True

instance (b : Block) : (call : CssCall) → Decidable (call.Typed b)
  | addTier .. => inferInstanceAs (Decidable (_ ∧ _))
  | settleNodeTo .. => inferInstanceAs (Decidable (_ = _))
  | createPosition .. => inferInstanceAs (Decidable (_ ∧ _ ∧ _))
  | updateOnRedelegate .. | createNewPositionFromExisting .. => inferInstanceAs (Decidable (_ ∧ _))
  | deletePosition .. | decreaseRaw .. | increaseRaw .. | addCumulativeRewardsClaimed ..
  | setLastClaimedEpoch .. => inferInstanceAs (Decidable (_ < _))
  | deactivateTier .. | settleNode .. | setIsOperatorFeeClaimedForEpoch ..
  | setNetNodeEpochRewards .. | setOperatorFeeBalance .. | increaseOperatorFeeBalance ..
  | createOperatorFeeWithdrawalRequest .. | deleteOperatorFeeWithdrawalRequest .. => isTrue trivial

end CssCall

/-- The storage and the timestamp of the last call. -/
structure CssState where
  store : ConvictionStakingStorage
  now : ℕ

/-- A successful call, at a block not before the last one. -/
def cssStep (c : Chronos) (h : CssState) (l : Block × CssCall) (h' : CssState) : Prop :=
  h.now ≤ l.1.timestamp ∧ h'.now = l.1.timestamp ∧ l.2.Typed l.1 ∧
    l.2.run c l.1 h.store = .ok h'.store

/-- The step as a function. -/
def cssExec (c : Chronos) (h : CssState) (l : Block × CssCall) : Tx CssState :=
  if h.now ≤ l.1.timestamp ∧ l.2.Typed l.1 then do
    let store ← l.2.run c l.1 h.store
    pure ⟨store, l.1.timestamp⟩
  else .error .abiDecode

lemma cssStep_of_cssExec (c : Chronos) (h : CssState) (l : Block × CssCall) (h' : CssState)
    (hexec : cssExec c h l = .ok h') : cssStep c h l h' := by
  unfold cssExec at hexec
  split at hexec
  next hguard =>
    obtain ⟨store, hrun, rfl⟩ := of_bind_pure hexec
    exact ⟨hguard.1, rfl, hguard.2, hrun⟩
  next => cases hexec

/-- The contract as deployed with the clock `c`, and its runs. -/
def cssMachine (c : Chronos) : Machine CssState (Block × CssCall) where
  init h := h.store = ConvictionStakingStorage._seedBaselineTiers
  step := cssStep c

namespace ConvictionStakingStorage

variable {s s' : ConvictionStakingStorage} {c : Chronos} {b : Block} {now : ℕ}

/-- What every run keeps: balanced ledgers, sane tiers, and boosts only behind locks. -/
structure Inv (s : ConvictionStakingStorage) (now : ℕ) : Prop where
  ledger : ∀ id, (s.ledger id).Balance now 0
  tiers : s.TierInv
  locks : ∀ tok, (s.positions tok).identityId ≠ 0 → (s.positions tok).LockInv

lemma seed_inv (now : ℕ) : _seedBaselineTiers.Inv now where
  ledger := fun _ => Balance.empty now
  tiers := by
    intro k hk
    simp only [_seedBaselineTiers, _addTierInternal, update_apply] at hk ⊢
    split_ifs at hk ⊢ <;> simp_all [SCALE18, days]
  locks := by
    intro tok htok
    exact absurd rfl htok

namespace Inv

variable (h : s.Inv now)

include h

lemma mono {now' : ℕ} (hle : now ≤ now') : s.Inv now' :=
  ⟨fun id => (h.ledger id).mono hle, h.tiers, h.locks⟩

lemma scale_le {tok : ℕ} (hid : (s.positions tok).identityId ≠ 0) :
    SCALE18 ≤ (s.positions tok).multiplier18 := (h.locks tok hid).scale_le

/-- Ledgers stay balanced when one of them is replaced by a balanced one. -/
lemma balance_setLedger (hnow : now ≤ b.timestamp) {id : ℕ} {l : NodeLedger}
    (hl : l.Balance b.timestamp 0) (id' : ℕ) :
    (update s.ledger id l id').Balance b.timestamp 0 := by
  by_cases hid : id' = id
  · rw [hid, update_self]
    exact hl
  · rw [update_of_ne hid]
    exact (h.ledger id').mono hnow

omit h in
/-- Locks stay sane when one position is replaced by a sane one. -/
lemma lock_update {f : ℕ → Position} (hf : ∀ tok, (f tok).identityId ≠ 0 → (f tok).LockInv)
    {tok : ℕ} {p : Position} (hp : p.identityId ≠ 0 → p.LockInv) (tok' : ℕ)
    (hid : (update f tok p tok').identityId ≠ 0) : (update f tok p tok').LockInv := by
  by_cases htok : tok' = tok
  · rw [htok, update_self] at hid ⊢
    exact hp hid
  · rw [update_of_ne htok] at hid ⊢
    exact hf tok' hid

variable (hnow : now ≤ b.timestamp)

include hnow

/-- A call that writes only fields the invariant does not read. -/
lemma of_eq (hl : s'.ledger = s.ledger)
    (ht : s'.tiers = s.tiers) (hp : s'.positions = s.positions) : s'.Inv b.timestamp := by
  refine ⟨?_, ?_, ?_⟩
  · rw [hl]
    exact fun id => (h.ledger id).mono hnow
  · unfold TierInv
    rw [ht]
    exact h.tiers
  · rw [hp]
    exact h.locks

lemma addTier {k d m : ℕ} (hrun : s.addTier k d m = .ok s') : s'.Inv b.timestamp := by
  unfold ConvictionStakingStorage.addTier at hrun
  obtain ⟨_, -, _, hcfg, hrun⟩ := of_bind₂ hrun
  obtain rfl := of_pure hrun
  refine ⟨fun id => (h.ledger id).mono hnow, ?_, h.locks⟩
  intro k' hexists
  by_cases hk : k' = k
  · subst hk
    simp only [_addTierInternal, update_self]
    by_cases hzero : k' = 0
    · rw [if_pos hzero, require_eq_ok] at hcfg
      exact ⟨fun _ => hcfg.2, fun hne => absurd hzero hne⟩
    · rw [if_neg hzero] at hcfg
      obtain ⟨_, hd, hm⟩ := of_bind hcfg
      rw [require_eq_ok] at hd hm
      exact ⟨fun h0 => absurd h0 hzero, fun _ => ⟨hm, hd⟩⟩
  · simp only [_addTierInternal, update_of_ne hk] at hexists ⊢
    exact h.tiers k' hexists

lemma deactivateTier {k : ℕ} (hrun : s.deactivateTier k = .ok s') : s'.Inv b.timestamp := by
  unfold ConvictionStakingStorage.deactivateTier at hrun
  obtain ⟨hex, hrun⟩ := of_require hrun
  obtain ⟨_, -, rfl⟩ := of_bind_pure hrun
  refine ⟨fun id => (h.ledger id).mono hnow, ?_, h.locks⟩
  intro k' hexists
  by_cases hk : k' = k
  · subst hk
    simp only [update_self]
    exact h.tiers k' hex
  · simp only [update_of_ne hk] at hexists ⊢
    exact h.tiers k' hexists

lemma settleNodeTo {id : ℕ}
    (hrun : s.settleNodeTo id b.timestamp = .ok s') : s'.Inv b.timestamp := by
  unfold ConvictionStakingStorage.settleNodeTo _settleNodeTo at hrun
  obtain ⟨l, hl, rfl⟩ := onLedger_eq_ok.mp hrun
  obtain ⟨hbal, -⟩ := (h.ledger id).settle hnow hl
  exact ⟨h.balance_setLedger hnow hbal, h.tiers, h.locks⟩

lemma createPosition {tok id raw tier mig : ℕ}
    (hrun : s.createPosition c b tok id raw tier mig = .ok s') : s'.Inv b.timestamp := by
  obtain ⟨-, -, -, hexists, x, l, hx, hshift, rfl⟩ :=
    createPosition_ok h.tiers (h.ledger id) hnow hrun
  obtain ⟨hlock, -⟩ := tier_lock h.tiers hexists hx
  exact ⟨h.balance_setLedger hnow hshift.balance, h.tiers, lock_update h.locks fun _ => hlock⟩

lemma updateOnRedelegate {tok new : ℕ}
    (hrun : s.updateOnRedelegate b tok new = .ok s') : s'.Inv b.timestamp := by
  obtain ⟨-, hid, hne, lOld, lNew, hold, hnew, hs'⟩ :=
    updateOnRedelegate_ok h.scale_le (h.ledger _) (h.ledger _) hnow hrun
  rw [hs']
  refine ⟨?_, h.tiers, lock_update h.locks fun _ => h.locks tok hid⟩
  intro id
  by_cases hin : id = new
  · rw [hin]
    exact (setLedger_ledger_self _ _ _).symm ▸ hnew.balance
  · show (((_ : ConvictionStakingStorage).setLedger new lNew).ledger id).Balance _ _
    rw [setLedger_ledger_of_ne _ _ hin]
    exact h.balance_setLedger hnow hold.balance id

lemma createNewPositionFromExisting
    {old new id tier : ℕ} (hrun : s.createNewPositionFromExisting b old new id tier = .ok s') :
    s'.Inv b.timestamp := by
  obtain ⟨-, -, -, -, -, hexists, x, l, hx, hshift, hs'⟩ :=
    createNewPositionFromExisting_ok h.tiers h.scale_le (h.ledger id) hnow hrun
  obtain ⟨hlock, -⟩ := tier_lock h.tiers hexists hx
  rw [hs']
  refine ⟨h.balance_setLedger hnow hshift.balance, h.tiers, ?_⟩
  have hnew := @lock_update s.positions h.locks new
    ⟨(s.positions old).raw, tier, x, id, (s.positions old).cumulativeRewardsClaimed,
      (s.tiers tier).multiplier18, (s.positions old).lastClaimedEpoch,
      (s.positions old).migrationEpoch⟩ fun _ => hlock
  exact lock_update hnew fun h0 => absurd rfl h0

lemma deletePosition {tok : ℕ} (hrun : s.deletePosition b tok = .ok s') : s'.Inv b.timestamp := by
  obtain ⟨hid, l, hshift, hs'⟩ := deletePosition_ok h.scale_le (h.ledger _) hnow hrun
  rw [hs']
  exact ⟨h.balance_setLedger hnow hshift.balance, h.tiers,
    lock_update h.locks fun h0 => absurd rfl h0⟩

lemma decreaseRaw {tok a : ℕ} (hrun : s.decreaseRaw b tok a = .ok s') : s'.Inv b.timestamp := by
  obtain ⟨hid, -, l, hshift, rfl⟩ := decreaseRaw_ok h.scale_le (h.ledger _) hnow hrun
  exact ⟨h.balance_setLedger hnow hshift.balance, h.tiers,
    lock_update h.locks fun _ => h.locks tok hid⟩

lemma increaseRaw {tok a : ℕ} (hrun : s.increaseRaw b tok a = .ok s') : s'.Inv b.timestamp := by
  obtain ⟨hid, -, l, hshift, rfl⟩ := increaseRaw_ok h.scale_le (h.ledger _) hnow hrun
  exact ⟨h.balance_setLedger hnow hshift.balance, h.tiers,
    lock_update h.locks fun _ => h.locks tok hid⟩

/-- Every call keeps the invariant. -/
lemma run (call : CssCall) (htyped : call.Typed b)
    (hrun : call.run c b s = .ok s') : s'.Inv b.timestamp := by
  cases call with
  | addTier k d m => exact h.addTier hnow hrun
  | deactivateTier k => exact h.deactivateTier hnow hrun
  | settleNodeTo id ts =>
    obtain rfl : ts = b.timestamp := htyped
    exact h.settleNodeTo hnow hrun
  | settleNode id =>
    simp only [CssCall.run, settleNode, uint40_of_lt b.fits] at hrun
    exact h.settleNodeTo hnow hrun
  | createPosition tok id raw tier mig => exact h.createPosition hnow hrun
  | updateOnRedelegate tok new => exact h.updateOnRedelegate hnow hrun
  | createNewPositionFromExisting old new id tier =>
    exact h.createNewPositionFromExisting hnow hrun
  | deletePosition tok => exact h.deletePosition hnow hrun
  | decreaseRaw tok a => exact h.decreaseRaw hnow hrun
  | increaseRaw tok a => exact h.increaseRaw hnow hrun
  | addCumulativeRewardsClaimed tok a =>
    obtain ⟨p, hp, rfl⟩ := addCumulativeRewardsClaimed_ok hrun
    refine ⟨fun id => (h.ledger id).mono hnow, h.tiers, lock_update h.locks ?_⟩
    intro hid
    exact h.locks tok hid
  | setLastClaimedEpoch tok e =>
    obtain ⟨-, rfl⟩ := setLastClaimedEpoch_ok hrun
    refine ⟨fun id => (h.ledger id).mono hnow, h.tiers, lock_update h.locks ?_⟩
    intro hid
    exact h.locks tok hid
  | setIsOperatorFeeClaimedForEpoch id e f | setNetNodeEpochRewards id e a
  | setOperatorFeeBalance id a | createOperatorFeeWithdrawalRequest id a i t
  | deleteOperatorFeeWithdrawalRequest id =>
    cases hrun
    exact h.of_eq hnow rfl rfl rfl
  | increaseOperatorFeeBalance id a =>
    obtain ⟨-, rfl⟩ := increaseOperatorFeeBalance_ok hrun
    exact h.of_eq hnow rfl rfl rfl

end Inv

end ConvictionStakingStorage

lemma CssState.inv {c : Chronos} {h : CssState} (hr : (cssMachine c).Reachable h) :
    h.store.Inv h.now := by
  apply hr.invariant (P := fun h => h.store.Inv h.now)
  · intro h hinit
    rw [hinit]
    exact ConvictionStakingStorage.seed_inv _
  · rintro h ⟨b, call⟩ h' hinv ⟨hnow, hnow', htyped, hrun⟩
    rw [hnow']
    exact hinv.run hnow call htyped hrun

/-- **The running effective-stake ledger.** In every reachable state and for every node: the
running stake is the raw stake plus the drops of the queue from the drain cursor on; those entries
are strictly ascending and after the last settlement; the presence flags are exactly theirs; no
other second has a drop. So neither a settlement nor a simulated one can underflow. -/
theorem runningNodeEffectiveStake_ledger (c : Chronos) {h : CssState}
    (hr : (cssMachine c).Reachable h) (id : ℕ) : let l := h.store.ledger id
    let queue := l.nodeExpiryTimes.drop l.nodeExpiryHead
    l.runningNodeEffectiveStake = l.nodeStakeV10 + (queue.map l.nodeExpiryDrop).sum ∧
    queue.Pairwise (· < ·) ∧
    (∀ t ∈ queue, l.nodeLastSettledAt < t) ∧
    (∀ t, l.nodeExpiryPresent t = true ↔ t ∈ queue) ∧
    (∀ t, t ∉ queue → l.nodeExpiryDrop t = 0) ∧
    (∀ ts, ∃ l', l._settleNodeTo ts = .ok l') ∧
    ∀ ts, ∃ stake, l._simulateNodeEffectiveStakeAt ts = .ok stake := by
  have hbal := (CssState.inv hr).ledger id
  have hcov := hbal.covered le_rfl
  have hq := hbal.queue
  refine ⟨?_, hq.ascending, hq.after, hq.present_iff, hq.drop_eq_zero, hq.exists_settled hcov, ?_⟩
  · have := hbal.running
    unfold pendingDrop total pending at this
    omega
  · intro ts
    by_cases hts : ts < (h.store.ledger id).nodeLastSettledAt
    · exact ⟨0, by rw [_simulateNodeEffectiveStakeAt, if_pos hts]; rfl⟩
    · obtain ⟨stake, hstake, -⟩ := simulate_of_covered hcov (Nat.not_lt.mp hts)
      exact ⟨stake, hstake⟩

/-- The freshly initialised contract. -/
def cssStart : CssState := ⟨ConvictionStakingStorage._seedBaselineTiers, 0⟩

lemma cssReachable_of_run {c : Chronos} {calls : List (Block × CssCall)} {h : CssState}
    (hrun : Machine.runList (cssExec c) calls cssStart = .ok h) : (cssMachine c).Reachable h :=
  Machine.Reachable.runList (cssStep_of_cssExec c) (.init (s := cssStart) rfl) hrun

/-- Three wei locked on node `1` for `30` days at `1.5x`: running stake `4`, one entry with a
drop of `1`. -/
theorem runningNodeEffectiveStake_ledger_one_lock :
    ∃ h, (cssMachine hourlyChronos).Reachable h ∧
      (h.store.ledger 1).runningNodeEffectiveStake = 4 ∧
      (h.store.ledger 1).runningNodeEffectiveStake
        = (h.store.ledger 1).nodeStakeV10
          + (((h.store.ledger 1).nodeExpiryTimes.drop (h.store.ledger 1).nodeExpiryHead).map
            (h.store.ledger 1).nodeExpiryDrop).sum := by
  obtain ⟨h, hrun, htest⟩ := exists_of_succeeds
    (x := Machine.runList (cssExec hourlyChronos)
      [(1001, .createPosition 1 1 3 1 0)] cssStart)
    (t := fun h => decide ((h.store.ledger 1).runningNodeEffectiveStake = 4))
    (by decide +kernel)
  have hr := cssReachable_of_run hrun
  exact ⟨h, hr, of_decide_eq_true htest, (runningNodeEffectiveStake_ledger hourlyChronos hr 1).1⟩

end Dkg
