import Dkg.ConvictionStaking.Accounting
import Dkg.Staking.Failures
import Dkg.Staking.FeeAccounts
import Dkg.Staking.Rewards

/-! # The accounting guards and the positions

`ConvictionStakingStorage` refuses a call when its accounting has lost track of a position. The
ledgers have the sums of the positions as long as every claim of a boosted position compounds
without a carry; then none of these guards stands in the way of a live position, except where a
boost rounds to zero.
-/

namespace Dkg

open Lib World Function Finset ConvictionStakingStorage

/-! ## Token lists and sizes along a run -/

section

variable {c : Chronos} {b : Block} {w w' : World} {now : ℕ} {s s' : ConvictionStakingStorage}

lemma OnlyFees.tokens (h : OnlyFees s s') (ht : s.TokenInv) : s'.TokenInv := by
  rw [h]
  exact ht.of_eq ⟨rfl, rfl⟩ fun _ => rfl

variable {tok upTo r : ℕ} {record : Option Claimed}

lemma CompoundEffect.tokens (h : CompoundEffect b s tok upTo r s') (hinv : s.Inv now)
    (hnow : now ≤ b.timestamp) (ht : s.TokenInv) : s'.TokenInv := by
  cases h with
  | nothing hset =>
    obtain ⟨-, rfl⟩ := setLastClaimedEpoch_ok hset
    refine ht.of_eq ⟨rfl, rfl⟩ fun tok' => ?_
    by_cases htok : tok' = tok
    · simp [htok, setPosition]
    · simp [htok, setPosition]
  | reward hr hmax hinc hadd hset =>
    obtain ⟨-, -, l, -, rfl⟩ := increaseRaw_ok hinv.scale_le (hinv.ledger _) hnow hinc
    obtain ⟨-, rfl⟩ := addCumulativeRewardsClaimed_ok hadd
    obtain ⟨-, rfl⟩ := setLastClaimedEpoch_ok hset
    refine ht.of_eq ⟨rfl, rfl⟩ fun tok' => ?_
    by_cases htok : tok' = tok
    · simp [htok, setPosition, setLedger]
    · simp [htok, setPosition, setLedger]

lemma CompoundEffect.raw_lt (h : CompoundEffect b s tok upTo r s') (hinv : s.Inv now)
    (hnow : now ≤ b.timestamp) (hr : r ≠ 0) : (s.positions tok).raw + r < 2 ^ 96 := by
  cases h with
  | nothing => exact absurd rfl hr
  | reward _ _ hinc =>
    obtain ⟨-, hlt, -⟩ := increaseRaw_ok hinv.scale_le (hinv.ledger _) hnow hinc
    exact hlt hr

lemma ClaimEffect.tokens (h : ClaimEffect c b w tok w' record) (hinv : w.css.Inv now)
    (hnow : now ≤ b.timestamp) (ht : w.css.TokenInv) : w'.css.TokenInv := by
  cases h with
  | nothing => exact ht
  | @window earned st css table rss pos hpos hid hcur hwin hearned hrss hloop hcomp =>
    have hfees : OnlyFees w.css st.css := (claimLoop_ok hloop).1
    have hinv₁ : st.css.Inv b.timestamp :=
      hinv.of_eq hnow (by rw [hfees]) (by rw [hfees]) (by rw [hfees])
    exact hcomp.tokens hinv₁ le_rfl (hfees.tokens ht)

lemma ClaimEffect.raw_lt (h : ClaimEffect c b w tok w' record) (hinv : w.css.Inv now)
    (hnow : now ≤ b.timestamp) (hne : claimTotal record ≠ 0) :
    (w.css.positions tok).raw + claimTotal record < 2 ^ 96 := by
  cases h with
  | nothing => exact absurd rfl hne
  | @window earned st css table rss pos hpos hid hcur hwin hearned hrss hloop hcomp =>
    obtain ⟨hfees, htotal⟩ := claimLoop_ok hloop
    have hpositions : st.css.positions = w.css.positions := by rw [hfees]
    have hinv₁ : st.css.Inv b.timestamp :=
      hinv.of_eq hnow (by rw [hfees]) (by rw [hfees]) hpositions
    have hsum : claimTotal (some (⟨tok, pos.identityId, pos.claimFromEpoch,
        c.getCurrentEpoch b - 1, st.lines⟩ : Claimed)) = st.rewardTotal := htotal.symm
    rw [hsum] at hne ⊢
    rw [← hpositions]
    exact hcomp.raw_lt hinv₁ le_rfl hne

end

namespace ConvictionStakingStorage

variable {s s' : ConvictionStakingStorage} {n n' : ℕ}

lemma SizeOk.mono {tok : ℕ} {p : Position} (h : SizeOk n tok p) (hn : n ≤ n') : SizeOk n' tok p :=
  ⟨h.minted.trans hn, h.raw, h.multiplier, h.claimed⟩

lemma SizeInv.of_eq (h : s.SizeInv n) (htiers : s'.tiers = s.tiers)
    (hpos : s'.positions = s.positions) : s'.SizeInv n :=
  ⟨by rw [hpos]; exact h.live, by rw [htiers]; exact h.tiers⟩

/-- A position is replaced, and more tokens may have been minted. -/
lemma SizeInv.update (h : s.SizeInv n) (hn : n ≤ n') (htiers : s'.tiers = s.tiers) {tok : ℕ}
    {p : Position} (hpos : s'.positions = Function.update s.positions tok p)
    (hp : p.identityId ≠ 0 → SizeOk n' tok p) : s'.SizeInv n' := by
  refine ⟨?_, by rw [htiers]; exact h.tiers⟩
  rw [hpos]
  exact live_update (fun tok' hid => (h.live tok' hid).mono hn) hp

lemma SizeInv.seed : _seedBaselineTiers.SizeInv n := by
  refine ⟨fun tok hid => absurd rfl hid, fun k => ?_⟩
  simp only [_seedBaselineTiers, _addTierInternal, update_apply, SCALE18]
  split_ifs <;> norm_num

end ConvictionStakingStorage

/-- The token lists are right and the amounts of their types. -/
structure GuardInv (w : World) : Prop where
  tokens : w.css.TokenInv
  sizes : w.css.SizeInv w.nft.nextTokenId

section

variable {c : Chronos} {b : Block} {w w' : World} {now cur : ℕ}

lemma GuardInv.of_eq (h : GuardInv w) (hcss : w'.css.positions = w.css.positions)
    (hlists : w'.css.nodeTokens = w.css.nodeTokens)
    (hindex : w'.css.nodeTokenIndex = w.css.nodeTokenIndex) (htiers : w'.css.tiers = w.css.tiers)
    (hnext : w'.nft.nextTokenId = w.nft.nextTokenId) : GuardInv w' where
  tokens := h.tokens.of_eq ⟨hlists, hindex⟩ fun _ => by rw [hcss]
  sizes := hnext ▸ h.sizes.of_eq htiers hcss

lemma Created.guards {tok id raw tier mig : ℕ} (h : Created c b w tok id raw tier mig w')
    (hraw : raw < 2 ^ 96) (hinv : w.css.Inv now) (hnow : now ≤ b.timestamp) (hg : GuardInv w) :
    GuardInv w' := by
  obtain ⟨-, -, -, -, htiers, -, x, hpos⟩ := h.spec hinv hnow
  have hnext := h.token
  refine ⟨hg.tokens.createPosition h.position, ?_⟩
  rw [h.counter]
  exact hg.sizes.update (by omega) htiers hpos fun _ =>
    ⟨le_rfl, hraw, hg.sizes.tiers tier, Nat.zero_le _⟩

lemma Relocked.guards {old new tier : ℕ} (h : Relocked c b w old new tier w')
    (hinv : w.css.Inv now) (hnow : now ≤ b.timestamp) (hg : GuardInv w) : GuardInv w' := by
  obtain ⟨-, -, -, -, htiers, -, x, hpos⟩ := h.spec hinv hnow
  have hnext := h.token
  have hok := hg.sizes.live old h.live
  refine ⟨hg.tokens.createNewPositionFromExisting h.position, ?_, ?_⟩
  · rw [h.counter, hpos]
    refine live_update (live_update (fun tok hid => (hg.sizes.live tok hid).mono (by omega))
      fun _ => ?_) fun hzero => absurd rfl hzero
    exact ⟨le_rfl, hok.raw, hg.sizes.tiers tier, hok.claimed⟩
  · rw [htiers]
    exact hg.sizes.tiers

lemma ClaimEffect.guards {tok : ℕ} {record : Option Claimed} (h : ClaimEffect c b w tok w' record)
    (hinv : w.css.Inv now) (hnow : now ≤ b.timestamp) (hg : GuardInv w) : GuardInv w' := by
  obtain ⟨hid, -, htiers, hnft, -, -, -, -, hpos⟩ := h.spec hinv hnow
  have hok := hg.sizes.live tok hid
  refine ⟨h.tokens hinv hnow hg.tokens, ?_⟩
  rw [hnft]
  refine hg.sizes.update le_rfl htiers hpos fun _ => ⟨hok.minted, ?_, hok.multiplier, ?_⟩
  · by_cases hzero : claimTotal record = 0
    · simp only [Position.afterClaim, hzero]
      exact hok.raw
    · exact h.raw_lt hinv hnow hzero
  · exact Nat.add_le_add_right hok.claimed _

lemma Effect.guards {op : Op} {events : List Event} (h : Effect c b w op w' events)
    (hadm : op.Admissible c b) (hinv : w.css.Inv now) (hraw : w.css.RawInv)
    (hnow : now ≤ b.timestamp) (hcursor : CursorInv w cur) (hg : GuardInv w) : GuardInv w' := by
  cases h with
  | environment | setAdminKey | createProfile | updateOperatorFee | depositTokens | requestFee
  | finalizeFee | cancelFee => exact hg.of_eq rfl rfl rfl rfl rfl
  | addTier hrun =>
    obtain rfl := addTier_ok hrun
    refine ⟨hg.tokens.of_eq ⟨rfl, rfl⟩ fun _ => rfl, hg.sizes.live, fun k => ?_⟩
    simp only [_addTierInternal, update_apply]
    split
    · exact hadm.2.2
    · exact hg.sizes.tiers k
  | deactivateTier hrun =>
    obtain rfl := deactivateTier_ok hrun
    refine ⟨hg.tokens.of_eq ⟨rfl, rfl⟩ fun _ => rfl, hg.sizes.live, fun k => ?_⟩
    simp only [update_apply]
    split <;> exact hg.sizes.tiers _
  | submitProof hproved =>
    have hrun := hproved.ledger
    unfold settleNodeTo _settleNodeTo at hrun
    obtain ⟨l, -, hcss⟩ := onLedger_eq_ok.mp hrun
    exact hg.of_eq (by rw [hcss]; rfl) (by rw [hcss]; rfl) (by rw [hcss]; rfl)
      (by rw [hcss]; rfl) (congrArg ConvictionNFT.nextTokenId hproved.nft)
  | createConviction hcreated hvault => exact hcreated.guards hadm.2 hinv hnow hg
  | migrateV8 htotal hcreated htrac => exact hcreated.guards htotal hinv hnow hg
  | relock hrelocked => exact hrelocked.guards hinv hnow hg
  | redelegate hmoved =>
    obtain ⟨-, -, htiers, -, hpos⟩ := hmoved.spec hinv hnow
    have hok := hg.sizes.live _ hmoved.live
    refine ⟨hg.tokens.updateOnRedelegate hmoved.position, ?_⟩
    rw [hmoved.counter]
    exact hg.sizes.update le_rfl htiers hpos fun _ =>
      ⟨hok.minted, hok.raw, hok.multiplier, hok.claimed⟩
  | claim hclaim => exact hclaim.guards hinv hnow hg
  | withdraw hout =>
    obtain ⟨w₁, hclaim, -, hdelete, -⟩ := hout.claim
    obtain ⟨w₂, hclaim₂, -, -, -, htiers, -, -, -, hpos⟩ :=
        hout.spec hinv hraw hnow hcursor.minted_lt
    obtain ⟨-, -, -, hnft, -⟩ := hclaim₂.spec hinv hnow
    have hg₂ := hclaim₂.guards hinv hnow hg
    refine ⟨(hclaim.guards hinv hnow hg).tokens.deletePosition hdelete, ?_⟩
    rw [hout.counter, ← hnft]
    exact hg₂.sizes.update le_rfl htiers hpos fun hzero => absurd rfl hzero

end

variable {c : Chronos} {s : SysState} {α : Type} {x : Tx α}

lemma SysState.guards (hr : (sysMachine c).Reachable s) : GuardInv s.world := by
  refine hr.invariant_of (P := fun s => GuardInv s.world) (fun _ => SysState.inv) ?_ ?_
  · rintro s ⟨hfresh, -⟩
    constructor
    · rw [hfresh.css]
      exact .seed
    · rw [hfresh.css]
      exact .seed
  · rintro s l s' hinv - hg ⟨hnow, -, hadm, events, hrun, -⟩
    exact (Op.run_effect hrun).guards hadm hinv.css hinv.raw hnow hinv.cursors hg

/-! ## Claims that compound exactly -/

instance (p : Position) (b : Block) (r : ℕ) : Decidable (p.CompoundsExactly b r) :=
  inferInstanceAs (Decidable (_ → _))

/-- A claim of a boosted position compounds without a carry between the fractions. -/
def ExactClaims (c : Chronos) (s : SysState) (l : Block × Op) : Prop :=
  match l.2 with
  | .claim _ tok =>
    (s.world.css.positions tok).CompoundsExactly l.1 (s.world.owedReward c l.1 tok)
  | _ => True

instance (c : Chronos) (s : SysState) (l : Block × Op) : Decidable (ExactClaims c s l) := by
  unfold ExactClaims
  split <;> infer_instance

lemma Position.compoundsExactly_zero (p : Position) (b : Block) : p.CompoundsExactly b 0 := by
  intro _
  have hscale : 0 < SCALE18 := by norm_num [SCALE18]
  unfold RoundsExactly
  rw [Nat.zero_mul, Nat.zero_mod, Nat.add_zero]
  exact Nat.mod_lt _ hscale

/-- What a transaction says it has claimed is what was owed. -/
lemma Effect.claimed {b : Block} {w w' : World} {sender tok : ℕ} {events : List Event}
    (h : Effect c b w (.claim sender tok) w' events) {record : Option Claimed}
    (hevents : events = Op.claimEvents record) :
    claimTotal record = 0 ∨ claimTotal record = w.owedReward c b tok := by
  cases h with
  | environment =>
    cases record with
    | none => exact .inl rfl
    | some record => cases hevents
  | @claim _ _ _ record' hclaim =>
    have hsame : claimTotal record = claimTotal record' := by
      cases record <;> cases record' <;> cases hevents <;> rfl
    exact .inr (hsame.trans hclaim.total_eq)

/-- In a run of exact claims the scheduled drops are the boosts of the positions. -/
lemma SysState.drops (hr : ((sysMachine c).restrict (ExactClaims c)).Reachable s) :
    s.world.css.DropInv s.now := by
  refine hr.invariant_of (P := fun s => s.world.css.DropInv s.now) (Q := SysInv c)
    (fun _ h => SysState.inv h.of_restrict) ?_ ?_
  · rintro s ⟨hfresh, -⟩
    rw [hfresh.css]
    exact seed_dropInv s.now
  · rintro s ⟨b, op⟩ s' hinv - hdrop ⟨hexact, hnow, hnow', hadm, events, hrun, -⟩
    have heff := Op.run_effect hrun
    obtain ⟨-, -, hdrop'⟩ := heff.sums hadm hinv.css hinv.raw hnow hinv.cursors.counter
      fun tok hid => (hinv.cursors.live tok hid).minted
    rw [hnow']
    refine hdrop' hdrop ?_
    rintro sender tok record rfl hevents
    rcases heff.claimed hevents with hzero | howed
    · rw [hzero]
      exact Position.compoundsExactly_zero _ _
    · rw [howed]
      exact hexact

/-! ## Failures of a transaction -/

/-- The failure is not one of the accounting of `ConvictionStakingStorage`. -/
def NotAccounting (f : Failure) : Prop :=
  ¬ (f.contract = .convictionStakingStorage ∧ f.reason.Accounting)

lemma notAccounting_elsewhere : Elsewhere NotAccounting := by
  rintro k e hk ⟨rfl, -⟩
  exact hk

lemma notAccounting_inside {k : Contract} (hk : k ≠ .convictionStakingStorage) :
    FailsOnly NotAccounting (inside k x) :=
  .inside fun _ _ h => hk h.1

lemma Accounted.inside (h : Accounted x) :
    FailsOnly NotAccounting (inside .convictionStakingStorage x) :=
  .inside fun e he hacc => h e he hacc.2

/-- What the guards need to know of the storage. -/
structure ConvictionStakingStorage.Accounts (s : ConvictionStakingStorage) (now n : ℕ) : Prop where
  inv : s.Inv now
  raw : s.RawInv
  drop : s.DropInv now
  tokens : s.TokenInv
  sizes : s.SizeInv n

namespace World

/-- The fee that the first claim of a node's epoch takes. -/
def feeOwed (w : World) (id e : ℕ) : ℕ :=
  if w.css.isOperatorFeeClaimedForEpoch id e = true ∨ w.rss.getEpochLastScorePerStake id e = 0
    then 0
  else
    let pool := valueOrZero (w.es.getEpochPool EPOCH_POOL_INDEX e)
    let gross := pool * w.rss.nodeEpochScore id e / w.rss.allNodesEpochScore e
    uint96 (gross * (w.profiles.getLatestOperatorFee id).feePercentage / w.params.maxOperatorFee)

/-- The fees that a claim at `b` takes still fit the node's fee balance, a `uint96`. -/
def FeeRoom (c : Chronos) (b : Block) (w : World) (tok : ℕ) : Prop :=
  let pos := w.css.positions tok
  w.css.nodeOperatorFeeBalance pos.identityId
    + ∑ e ∈ Finset.Ico pos.claimFromEpoch (c.getCurrentEpoch b), w.feeOwed pos.identityId e < 2 ^ 96
  deriving Decidable

/-- The reward of a claim at `b` adds to the boost when the position is still boosted. -/
def RewardBoosts (c : Chronos) (b : Block) (w : World) (tok : ℕ) : Prop :=
  let pos := w.css.positions tok
  stillBoosted pos.expiryTimestamp b.timestamp → w.owedReward c b tok ≠ 0 →
    boost (w.owedReward c b tok) pos.multiplier18 ≠ 0
  deriving Decidable

/-- A lock of the position in the tier has a boost, and ends within the type of timestamps. -/
def TierBoosts (b : Block) (w : World) (tok tier : ℕ) : Prop :=
  (tier ≠ 0 → boost (w.css.positions tok).raw (w.css.tiers tier).multiplier18 ≠ 0) ∧
    b.timestamp + (w.css.tiers tier).duration < 2 ^ 256
  deriving Decidable

variable {c : Chronos} {b : Block} {w : World} {now n : ℕ}

/-- The fee balance on the way through the window of a claim: the fees of the epochs before `x`
are in it, and those from `x` on have not been touched. -/
structure FeesUpTo (w : World) (id start x : ℕ) (s : ConvictionStakingStorage) : Prop where
  balance : s.nodeOperatorFeeBalance id
    = w.css.nodeOperatorFeeBalance id + ∑ e ∈ Finset.Ico start x, w.feeOwed id e
  later : ∀ y ≥ x, s.isOperatorFeeClaimedForEpoch id y = w.css.isOperatorFeeClaimedForEpoch id y

lemma FeesUpTo.split {id start : ℕ} {s s' : ConvictionStakingStorage} {line : ClaimLine}
    (h : FeesUpTo w id start line.epoch s) (hstart : start ≤ line.epoch)
    (hidx : w.rss.getEpochLastScorePerStake id line.epoch ≠ 0)
    (hnode : line.nodeScore = w.rss.nodeEpochScore id line.epoch)
    (hsplit : SplitEffect w s id line s') : FeesUpTo w id start (line.epoch + 1) s' := by
  have hflag := h.later line.epoch le_rfl
  refine ⟨?_, fun y hy => (hsplit.other_epoch (e := y) (by omega) id).1.trans
    (h.later y (by omega))⟩
  rw [sum_Ico_succ_top hstart, ← Nat.add_assoc, ← h.balance]
  unfold feeOwed
  cases hsplit with
  | taken pool sp hfree hsplit hpool hgross hentry hfee hsum hline hfit =>
    rw [← hflag, hfree, hpool, if_neg (by simp [hidx])]
    simp only [valueOrZero]
    rw [← hnode, ← hgross, ← hentry, ← hfee]
    exact update_self _ _ _
  | before htaken =>
    rw [← hflag, htaken, if_pos (.inl rfl), Nat.add_zero]
  | unscored hfree hnone hall =>
    rw [hall]
    simp [uint96]

lemma claimEpoch_accounted {tok x start : ℕ} {pos : Position} {st : ClaimState}
    (h : FeesUpTo w pos.identityId start x st.css) (hx : start ≤ x)
    (hroom : w.css.nodeOperatorFeeBalance pos.identityId
      + ∑ e ∈ Ico start (x + 1), w.feeOwed pos.identityId e < 2 ^ 96) :
    FailsOnly NotAccounting (w.claimEpoch c tok pos x st) ∧
      ∀ st', w.claimEpoch c tok pos x st = .ok st' →
        FeesUpTo w pos.identityId start (x + 1) st'.css := by
  refine ⟨?_, fun st' hst' => ?_⟩
  · refine claimEpoch_failsOnly notAccounting_elsewhere fun hidx hscore => ?_
    refine netNodeRewards_failsOnly notAccounting_elsewhere fun pool r hpool hflag hadd => ?_
    -- the balance would have to overflow
    exfalso
    rw [sum_Ico_succ_top hx, ← Nat.add_assoc, ← h.balance] at hroom
    have hfee : w.feeOwed pos.identityId x = uint96 (pool * w.rss.nodeEpochScore pos.identityId x
        / w.rss.allNodesEpochScore x
        * (w.profiles.getLatestOperatorFee pos.identityId).feePercentage
        / w.params.maxOperatorFee) := by
      unfold feeOwed
      rw [← h.later x le_rfl, hflag, hpool, if_neg (by simp [hidx])]
      rfl
    rw [← hfee] at hadd
    exact absurd hroom (Nat.not_lt.mpr (addUint_eq_error.mp hadd).1)
  · rcases claimEpoch_ok hst' with ⟨rfl, hskip⟩ | ⟨line, hline⟩
    · refine ⟨?_, fun y hy => h.later y (by omega)⟩
      have hzero : w.feeOwed pos.identityId x = 0 := by
        unfold feeOwed
        rcases hskip with hskip | hskip
        · exact if_pos (.inr hskip)
        · rw [hskip]
          simp [uint96]
      rw [sum_Ico_succ_top hx, hzero, Nat.add_zero]
      exact h.balance
    · have hepoch := hline.epoch
      subst hepoch
      exact h.split hx hline.indexed hline.nodeScore hline.split

section

variable (h : w.css.Accounts now n) (hn : n < 2 ^ 64) (hnow : now ≤ b.timestamp)

include h hn hnow

lemma compound_accounted {tok id upTo r : ℕ}
    (hboost : stillBoosted (w.css.positions tok).expiryTimestamp b.timestamp → r ≠ 0 →
      boost r (w.css.positions tok).multiplier18 ≠ 0) :
    FailsOnly NotAccounting (w.compound b tok id upTo r) := by
  unfold compound
  refine .ite (fun _ => ?_) fun hr => ?_
  · refine .bind (Accounted.inside ?_) fun _ _ => .pure _
    exact setLastClaimedEpoch_accounted _ _
  · refine .bind (notAccounting_inside (by decide)) fun _ hmax => ?_
    rw [inside_eq_ok, require_eq_ok] at hmax
    refine .bind (Accounted.inside ?_) fun s₁ h₁ => ?_
    · exact increaseRaw_accounted h.inv h.raw h.drop hnow h.sizes hn
        (by omega) hboost
    rw [inside_eq_ok] at h₁
    obtain ⟨hid, hlt, l, -, rfl⟩ := increaseRaw_ok h.inv.scale_le
      (h.inv.ledger _) hnow h₁
    have hclaimed := (h.sizes.live tok hid).claimed
    refine .bind (Accounted.inside ?_) fun s₂ _ => ?_
    · refine addCumulativeRewardsClaimed_accounted ?_
      simp only [setLedger, setPosition,
        update_self]
      have := hlt hr
      omega
    refine .bind (Accounted.inside ?_) fun _ _ => .pure _
    exact setLastClaimedEpoch_accounted _ _

/-- A claim with room for its fees, and a reward whose boost does not round to zero. -/
lemma _claim_accounted {tok : ℕ} (hroom : w.FeeRoom c b tok) (hboost : w.RewardBoosts c b tok) :
    FailsOnly NotAccounting (w._claim c b tok) := by
  refine _claim_failsOnly notAccounting_elsewhere fun earned _ _ hcur hwin w₁ hw₁ =>
    ⟨?_, fun st hst => ?_⟩
  · -- a settlement changes no fee
    have hcss : w₁.css = w.css := by rw [hw₁]
    have hfee : w₁.feeOwed = w.feeOwed := by
      rw [hw₁]
      rfl
    refine claimLoop_failsOnly (I := fun x st => FeesUpTo w₁ (w.css.positions tok).identityId
      (w.css.positions tok).claimFromEpoch x st.css) _ (fun x st₁ hx hlt hI => ?_)
      ⟨by simp [hcss], fun _ _ => by rw [hcss]⟩
    refine claimEpoch_accounted hI hx (lt_of_le_of_lt ?_ hroom)
    rw [hcss, hfee]
    refine Nat.add_le_add_left (sum_le_sum_of_subset ?_) _
    exact Ico_subset_Ico_right (by omega)
  · subst hw₁
    obtain ⟨hfees, -⟩ := claimLoop_ok (w := { w with rss := _ }) hst
    have htotal := claimLoop_owedReward hcur hwin hst
    have hpositions : st.css.positions = w.css.positions := by rw [hfees]
    obtain ⟨hinv₁, hraw₁, hdrop₁⟩ : SumsKept w.css st.css now b := h.inv.sumsKept_of_eq h.raw hnow
      (by rw [hfees]) (by rw [hfees]) hpositions (by rw [hfees])
    have haccounts : st.css.Accounts b.timestamp n := ⟨hinv₁, hraw₁, hdrop₁ h.drop,
      hfees.tokens h.tokens, h.sizes.of_eq (by rw [hfees]) hpositions⟩
    refine compound_accounted haccounts hn le_rfl ?_
    rw [htotal]
    simp only [hpositions]
    exact hboost

omit h hn hnow in
lemma requireOwner_accounted (w : World) (sender tok : ℕ) :
    FailsOnly NotAccounting (w.requireOwner sender tok) := by
  unfold requireOwner
  exact .bind (notAccounting_inside (by decide)) fun _ _ => notAccounting_inside (by decide)

lemma redelegate_accounted
    (tok new : ℕ) (htok : tok < 2 ^ 256) : FailsOnly NotAccounting (w.redelegate c b tok new) := by
  unfold redelegate
  iterate 7 refine .bind (notAccounting_inside (by decide)) fun _ _ => ?_
  refine .bind (prepare_failsOnly notAccounting_elsewhere _ _ _) fun w₁ h₁ => ?_
  refine .bind (prepare_failsOnly notAccounting_elsewhere _ _ _) fun w₂ h₂ => ?_
  -- settling the scores leaves the positions alone
  have hcss : w₂.css = w.css := by
    obtain ⟨-, -, rfl⟩ := prepare_ok h₂
    obtain ⟨-, -, rfl⟩ := prepare_ok h₁
    rfl
  rw [hcss]
  refine .bind (Accounted.inside ?_) fun _ _ => .pure _
  exact updateOnRedelegate_accounted h.inv h.raw h.drop hnow h.sizes hn
    h.tokens htok

/-- Relocking: the new boost must not round to zero, and the new expiry must fit. -/
lemma relock_accounted
    {old new tier : ℕ} (htok : old < 2 ^ 256) (hboost : w.TierBoosts b old tier) :
    FailsOnly NotAccounting (w.relock c b old new tier) := by
  unfold relock
  refine .bind (notAccounting_inside (by decide)) fun _ _ => ?_
  refine .bind (notAccounting_inside (by decide)) fun _ _ => ?_
  refine .bind (notAccounting_inside (by decide)) fun _ hunlocked => ?_
  rw [inside_eq_ok, require_eq_ok] at hunlocked
  refine .bind (prepare_failsOnly notAccounting_elsewhere _ _ _) fun w₁ h₁ => ?_
  have hcss : w₁.css = w.css := by
    obtain ⟨-, -, rfl⟩ := prepare_ok h₁
    rfl
  rw [hcss]
  refine .bind (Accounted.inside ?_) fun _ _ => .pure _
  refine createNewPositionFromExisting_accounted h.inv h.raw h.drop hnow
    h.sizes hn h.tokens htok ?_ hboost.1 hboost.2
  unfold stillBoosted
  omega

end

/-- Withdrawing: the lock is over, so only the fees of the claim need room. -/
lemma withdraw_accounted (h : w.css.Accounts now w.nft.nextTokenId)
    (hn : w.nft.nextTokenId < 2 ^ 64) (hnow : now ≤ b.timestamp) {staker tok : ℕ}
    (htok : tok < 2 ^ 256) (hroom : w.FeeRoom c b tok) :
    FailsOnly NotAccounting (w.withdraw c b staker tok) := by
  unfold withdraw
  refine .bind (notAccounting_inside (by decide)) fun _ _ => ?_
  refine .bind (notAccounting_inside (by decide)) fun _ hunlocked => ?_
  rw [inside_eq_ok, require_eq_ok] at hunlocked
  have hfree : ¬ stillBoosted (w.css.positions tok).expiryTimestamp b.timestamp := by
    unfold stillBoosted
    omega
  refine .bind (_claim_accounted h hn hnow hroom fun hb => absurd hb hfree) fun out hout => ?_
  refine .bind (notAccounting_inside (by decide)) fun _ _ => ?_
  have hclaim : ClaimEffect c b w tok out.1 out.2 := _claim_ok hout
  obtain ⟨hinv₁, hraw₁, hdrop₁⟩ := hclaim.sums h.inv h.raw hnow htok
  obtain ⟨-, -, -, -, -, -, -, -, hpos⟩ := hclaim.spec h.inv hnow
  refine .bind (Accounted.inside ?_) fun _ _ => ?_
  · refine deletePosition_accounted hinv₁ hraw₁
      (hdrop₁ h.drop fun hb => absurd hb hfree) le_rfl (hclaim.tokens h.inv hnow h.tokens) htok ?_
    rw [hpos, update_self]
    exact hfree
  · exact .bind (notAccounting_inside (by decide)) fun _ _ => .pure _

end World

/-- **No accounting guard bricks a live position** in a run whose claims of boosted positions
compound without a carry, while fewer than `2^64` positions have been made: a position can always
be moved; it can be claimed for and withdrawn when the operator fees of the claim fit, unless the
boost of the reward rounds to zero; and it can be relocked in a tier in which it has a boost. -/
theorem live_position_not_bricked (c : Chronos) {s : SysState}
    (hr : ((sysMachine c).restrict (ExactClaims c)).Reachable s)
    (hcount : s.world.nft.nextTokenId < 2 ^ 64) {b : Block} (hnow : s.now ≤ b.timestamp)
    {tok : ℕ} (hlive : (s.world.css.positions tok).identityId ≠ 0) (sender : ℕ) :
    (s.world.FeeRoom c b tok → s.world.RewardBoosts c b tok →
      FailsOnly NotAccounting ((Op.claim sender tok).run c b s.world)) ∧
    (∀ newIdentityId,
      FailsOnly NotAccounting ((Op.redelegate sender tok newIdentityId).run c b s.world)) ∧
    (∀ tier, s.world.TierBoosts b tok tier →
      FailsOnly NotAccounting ((Op.relock sender tok tier).run c b s.world)) ∧
    (s.world.FeeRoom c b tok →
      FailsOnly NotAccounting ((Op.withdraw sender tok).run c b s.world)) := by
  have hinv := SysState.inv hr.of_restrict
  have hguards := SysState.guards hr.of_restrict
  have haccounts : s.world.css.Accounts s.now s.world.nft.nextTokenId :=
    ⟨hinv.css, hinv.raw, SysState.drops hr, hguards.tokens, hguards.sizes⟩
  have htok : tok < 2 ^ 256 :=
    lt_of_le_of_lt (hinv.cursors.live tok hlive).minted hinv.cursors.counter
  refine ⟨fun hroom hboost => ?_, fun new => ?_, fun tier hboost => ?_, fun hroom => ?_⟩
  · unfold Op.run claimPosition
    refine .bind (.bind (requireOwner_accounted _ _ _) fun _ _ => ?_) fun _ _ => .pure _
    exact _claim_accounted haccounts hcount hnow hroom hboost
  · unfold Op.run redelegatePosition
    refine .bind (.bind (requireOwner_accounted _ _ _) fun _ _ => ?_) fun _ _ => .pure _
    refine .bind (notAccounting_inside (by decide)) fun _ _ => ?_
    exact redelegate_accounted haccounts hcount hnow tok new htok
  · unfold Op.run relockPosition requireTier
    refine .bind (.bind (requireOwner_accounted _ _ _) fun _ _ => ?_) fun _ _ => .pure _
    refine .bind (notAccounting_inside (by decide)) fun _ _ => ?_
    refine .bind ?_ fun w₁ hmint => ?_
    · unfold mintNext
      refine .bind (notAccounting_inside (by decide)) fun _ _ => ?_
      exact .bind (notAccounting_inside (by decide)) fun _ _ => .pure _
    have hcss : w₁.css = s.world.css := by
      rw [(mintNext_ok hmint).2.2]
    unfold World.TierBoosts at hboost
    rw [← hcss] at haccounts hboost
    refine .bind ?_ fun _ _ => .bind (notAccounting_inside (by decide)) fun _ _ => .pure _
    exact relock_accounted haccounts hcount hnow htok hboost
  · unfold Op.run withdrawPosition
    refine .bind (.bind (requireOwner_accounted _ _ _) fun _ _ => ?_) fun _ _ => .pure _
    refine .bind ?_ fun _ _ => .bind (notAccounting_inside (by decide)) fun _ _ => .pure _
    exact withdraw_accounted haccounts hcount hnow htok hroom

/-- A stake of `100` at 1.5x compounds a reward of `4`, and is owed a reward again. -/
theorem compounded_position_not_bricked :
    ∃ s, ((sysMachine hourlyChronos).restrict (ExactClaims hourlyChronos)).Reachable s ∧
      (s.world.css.positions 1).raw = 104 ∧
      0 < s.world.owedReward hourlyChronos ⟨8300, by decide⟩ 1 ∧
      FailsOnly NotAccounting ((Op.claim 7 1).run hourlyChronos ⟨8300, by decide⟩ s.world) ∧
      FailsOnly NotAccounting
        ((Op.redelegate 7 1 2).run hourlyChronos ⟨8300, by decide⟩ s.world) ∧
      FailsOnly NotAccounting ((Op.relock 7 1 12).run hourlyChronos ⟨8300, by decide⟩ s.world) ∧
      FailsOnly NotAccounting
        ((Op.withdraw 7 1).run hourlyChronos ⟨8300, by decide⟩ s.world) := by
  obtain ⟨s, hrun, htest⟩ := exists_of_succeeds
    (x := Machine.runList (sysExecWhen hourlyChronos (ExactClaims hourlyChronos))
      [(1001, .createProfile 9 0),
       (1001, .createProfile 9 0),
       (1001, .depositTokens 7 1 1 4),
       (1002, .createConviction 7 1 100 1),
       (1003, .submitProof 1 0),
       (4700, .claim 7 1),
       (4700, .depositTokens 7 2 2 10),
       (4700, .submitProof 1 0)] sysStart)
    (t := fun s => decide ((s.world.css.positions 1).raw = 104 ∧
      0 < s.world.owedReward hourlyChronos ⟨8300, by decide⟩ 1 ∧
      (s.world.css.positions 1).identityId ≠ 0 ∧ s.now ≤ 8300 ∧ s.world.nft.nextTokenId = 1 ∧
      s.world.FeeRoom hourlyChronos ⟨8300, by decide⟩ 1 ∧
      s.world.RewardBoosts hourlyChronos ⟨8300, by decide⟩ 1 ∧
      s.world.TierBoosts ⟨8300, by decide⟩ 1 12))
    (by decide +kernel)
  obtain ⟨hraw, howed, hlive, hnow, hnext, hroom, hboost, htier⟩ := of_decide_eq_true htest
  have hr := sysReachable_restrict_of_run hrun
  obtain ⟨hclaim, hmove, hrelock, hwithdraw⟩ := live_position_not_bricked hourlyChronos hr
    (by rw [hnext]; norm_num) (b := ⟨8300, by decide⟩) hnow hlive 7
  exact ⟨s, hr, hraw, howed, hclaim hroom hboost, hmove 2, hrelock 12 htier, hwithdraw hroom⟩

/-- Two positions at 1.5x that the rounding bricks: a stake of `100` cannot claim the reward of
`1` it is owed, and a stake of `101` that has compounded `3` cannot be moved. -/
theorem live_position_bricked_by_rounding :
    (∃ s, (sysMachine hourlyChronos).Reachable s ∧ (s.world.css.positions 1).identityId ≠ 0 ∧
      (Op.claim 7 1).run hourlyChronos ⟨4700, by decide⟩ s.world
        = .error ⟨.convictionStakingStorage, .zeroDrop⟩) ∧
    ∃ s, (sysMachine hourlyChronos).Reachable s ∧ (s.world.css.positions 1).identityId ≠ 0 ∧
      (Op.redelegate 7 1 2).run hourlyChronos ⟨4701, by decide⟩ s.world
        = .error ⟨.convictionStakingStorage, .negRunningStake⟩ := by
  constructor
  · obtain ⟨s, hr, htest⟩ := exists_reachable
      [(1001, .createProfile 9 0),
       (1001, .depositTokens 7 1 1 1),
       (1002, .createConviction 7 1 100 1),
       (1003, .submitProof 1 0)]
      (fun s => decide ((s.world.css.positions 1).identityId ≠ 0) &&
        fails ((Op.claim 7 1).run hourlyChronos ⟨4700, by decide⟩ s.world)
          ⟨.convictionStakingStorage, .zeroDrop⟩)
      (by decide +kernel)
    rw [Bool.and_eq_true] at htest
    exact ⟨s, hr, of_decide_eq_true htest.1, eq_error_of_fails htest.2⟩
  · obtain ⟨s, hr, htest⟩ := exists_reachable
      [(1001, .createProfile 9 0),
       (1001, .createProfile 9 0),
       (1001, .depositTokens 7 1 1 4),
       (1002, .createConviction 7 1 101 1),
       (1003, .submitProof 1 0),
       (4700, .claim 7 1)]
      (fun s => decide ((s.world.css.positions 1).identityId ≠ 0) &&
        fails ((Op.redelegate 7 1 2).run hourlyChronos ⟨4701, by decide⟩ s.world)
          ⟨.convictionStakingStorage, .negRunningStake⟩)
      (by decide +kernel)
    rw [Bool.and_eq_true] at htest
    exact ⟨s, hr, of_decide_eq_true htest.1, eq_error_of_fails htest.2⟩

end Dkg
