import Dkg.ConvictionStaking.Mutators
import Dkg.Staking.System

/-! # What a transaction does

`Effect` lists what a successful transaction can do to the storages, one constructor for each kind
of transaction, and `Op.run_effect` shows that nothing else happens. The invariants of the system
are proved by cases on `Effect`; none of them unfolds a contract function again.
-/

namespace Dkg

open Function (update)
open World

/-! ## Settling a score -/

namespace RandomSamplingStorage

/-- The delegator's score grows by `earned`, and its cursor moves to the node's last value. -/
def settle (r : RandomSamplingStorage) (epoch identityId tokenId earned : ℕ) :
    RandomSamplingStorage :=
  { r with
    epochNodeDelegatorScore := store₃ r.epochNodeDelegatorScore epoch identityId tokenId
      (r.epochNodeDelegatorScore epoch identityId tokenId + earned)
    delegatorLastSettledNodeEpochScorePerStake :=
      store₃ r.delegatorLastSettledNodeEpochScorePerStake epoch identityId tokenId
        (r.getEpochLastScorePerStake identityId epoch) }

end RandomSamplingStorage

/-- What the position has earned on a node since its cursor: nothing when it is elsewhere. -/
def Earned (c : Chronos) (w : World) (epoch tokenId identityId earned : ℕ) : Prop :=
  let pos := w.css.positions tokenId
  if pos.identityId = identityId then
    pos.scoreIncrement c w.rss epoch identityId (w.rss.getEpochLastScorePerStake identityId epoch)
      (w.rss.delegatorLastSettledNodeEpochScorePerStake epoch identityId tokenId) = .ok earned
  else earned = 0

namespace World

variable {c : Chronos} {w w' : World}

lemma prepare_ok {e tok id : ℕ} (h : w._prepareForStakeChangeV10 c e tok id = .ok w') :
    ∃ earned, Earned c w e tok id earned ∧ w' = { w with rss := w.rss.settle e id tok earned } := by
  unfold _prepareForStakeChangeV10 at h
  by_cases hcur : w.rss.getEpochLastScorePerStake id e
      = w.rss.getDelegatorLastSettledNodeEpochScorePerStake e id tok
  · -- the cursor is at the last value: the contract returns, and settling nothing is a no-op
    rw [if_pos hcur] at h
    obtain rfl := of_pure h
    unfold RandomSamplingStorage.getDelegatorLastSettledNodeEpochScorePerStake at hcur
    refine ⟨0, ?_, ?_⟩
    · unfold Earned Position.scoreIncrement _delegatorIncrementForEpoch
      simp only [hcur, le_refl, if_true]
      split
      · rfl
      · trivial
    · unfold RandomSamplingStorage.settle
      rw [hcur, Nat.add_zero, store₃_self, store₃_self]
  · rw [if_neg hcur] at h
    obtain ⟨earned, hearned, rss, hrss, h⟩ := of_bind₂ h
    rw [inside_eq_ok] at hearned hrss
    obtain rfl := of_pure h
    refine ⟨earned, ?_, ?_⟩
    · unfold Earned
      by_cases hon : (w.css.positions tok).identityId = id
      · simp only [hon, if_true] at hearned ⊢
        exact hearned
      · simp only [hon, if_false] at hearned ⊢
        exact (of_pure hearned).symm
    · by_cases hpos : earned > 0
      · rw [if_pos hpos] at hrss
        obtain ⟨total, hadd, hrss⟩ := of_bind hrss
        obtain ⟨-, rfl⟩ := addUint_eq_ok.mp hadd
        obtain rfl := of_pure hrss
        rfl
      · rw [if_neg hpos] at hrss
        obtain rfl := of_pure hrss
        obtain rfl : earned = 0 := by omega
        unfold RandomSamplingStorage.settle
        rw [Nat.add_zero, store₃_self]
        rfl

/-! ## Frames of the sharding table -/

lemma insertNodeAt_eq (w : World) (id stake : ℕ) :
    w.insertNodeAt id stake
      = { w with shardingTable := (w.insertNodeAt id stake).shardingTable } := by
  unfold insertNodeAt
  split <;> rfl

lemma removeNodeAt_eq (w : World) (id stake : ℕ) :
    w.removeNodeAt id stake
      = { w with shardingTable := (w.removeNodeAt id stake).shardingTable } := by
  unfold removeNodeAt
  split <;> rfl

/-! ## Claims -/

end World

/-- What one rewarded epoch of a claim does to the fee accounts of the node: the fee is taken in
this claim, or it was taken before. The last case is an epoch without any score at all. -/
inductive SplitEffect (w : World) (css : ConvictionStakingStorage) (id : ℕ) (line : ClaimLine) :
    ConvictionStakingStorage → Prop
  | taken (pool : ℕ) (sp : FeeSplit) :
      css.isOperatorFeeClaimedForEpoch id line.epoch = false → line.split = some sp →
      w.es.getEpochPool EPOCH_POOL_INDEX line.epoch = .ok pool →
      sp.gross = pool * line.nodeScore / w.rss.allNodesEpochScore line.epoch →
      sp.entry = w.profiles.getLatestOperatorFee id →
      sp.fee = uint96 (sp.gross * sp.entry.feePercentage / w.params.maxOperatorFee) →
      sp.fee + sp.net = sp.gross → line.net = sp.net → css.nodeOperatorFeeBalance id + sp.fee <
          2 ^ 96 →
      SplitEffect w css id line
        (((css.setIsOperatorFeeClaimedForEpoch id line.epoch true).setNetNodeEpochRewards id
          line.epoch sp.net).setOperatorFeeBalance id (css.nodeOperatorFeeBalance id + sp.fee))
  | before :
      css.isOperatorFeeClaimedForEpoch id line.epoch = true → line.split = none →
      line.net = css.netNodeEpochRewards id line.epoch → SplitEffect w css id line css
  | unscored :
      css.isOperatorFeeClaimedForEpoch id line.epoch = false → line.split = none →
      w.rss.allNodesEpochScore line.epoch = 0 → line.net = 0 → SplitEffect w css id line css

/-- What the position scores in a past epoch of its claim window. -/
def LineScore (c : Chronos) (w : World) (tok : ℕ) (pos : Position) (line : ClaimLine) : Prop :=
  ∃ unsettled,
    pos.scoreIncrement c w.rss line.epoch pos.identityId
      (w.rss.getEpochLastScorePerStake pos.identityId line.epoch)
      (w.rss.delegatorLastSettledNodeEpochScorePerStake line.epoch pos.identityId tok)
        = .ok unsettled ∧
    line.delegatorScore = w.rss.epochNodeDelegatorScore line.epoch pos.identityId tok + unsettled

/-- A rewarded epoch `e` of a claim. -/
structure LineEffect (c : Chronos) (w : World) (tok : ℕ) (pos : Position) (e : ℕ)
    (st : ClaimState) (line : ClaimLine) (st' : ClaimState) : Prop where
  epoch : line.epoch = e
  indexed : w.rss.getEpochLastScorePerStake pos.identityId e ≠ 0
  score : LineScore c w tok pos line
  nodeScore : line.nodeScore = w.rss.nodeEpochScore pos.identityId e
  scored : 0 < line.nodeScore
  reward : line.reward = line.delegatorScore * line.net / line.nodeScore
  split : SplitEffect w st.css pos.identityId line st'.css
  total : st'.rewardTotal = st.rewardTotal + line.reward
  lines : st'.lines = st.lines ++ [line]

/-- How a claim ends: the cursor advances, and a reward is compounded first. -/
inductive CompoundEffect (b : Block) (s : ConvictionStakingStorage) (tok claimToEpoch : ℕ) :
    ℕ → ConvictionStakingStorage → Prop
  | nothing {s' : ConvictionStakingStorage} :
      s.setLastClaimedEpoch tok (uint32 claimToEpoch) = .ok s' →
      CompoundEffect b s tok claimToEpoch 0 s'
  | reward {r : ℕ} {s₁ s₂ s' : ConvictionStakingStorage} :
      0 < r → r < 2 ^ 96 → s.increaseRaw b tok r = .ok s₁ →
      s₁.addCumulativeRewardsClaimed tok r = .ok s₂ →
      s₂.setLastClaimedEpoch tok (uint32 claimToEpoch) = .ok s' →
      CompoundEffect b s tok claimToEpoch r s'

/-- What a claim does: nothing, or a settlement of the current epoch, the loop over the window,
and the compounding. -/
inductive ClaimEffect (c : Chronos) (b : Block) (w : World) (tok : ℕ) :
    World → Option Claimed → Prop
  | nothing :
      (w.css.positions tok).identityId ≠ 0 →
      (c.getCurrentEpoch b ≤ 1 ∨ c.getCurrentEpoch b - 1 < (w.css.positions tok).claimFromEpoch) →
      ClaimEffect c b w tok w none
  | window {earned : ℕ} {st : ClaimState} {css : ConvictionStakingStorage}
      {table : ℕ → Bool} {rss : RandomSamplingStorage} {pos : Position} :
      pos = w.css.positions tok → pos.identityId ≠ 0 →
      1 < c.getCurrentEpoch b → pos.claimFromEpoch ≤ c.getCurrentEpoch b - 1 →
      Earned c w (c.getCurrentEpoch b) tok pos.identityId earned →
      rss = w.rss.settle (c.getCurrentEpoch b) pos.identityId tok earned →
      claimLoop c { w with rss := rss } tok pos
        (c.getCurrentEpoch b - 1 + 1 - pos.claimFromEpoch) pos.claimFromEpoch ⟨w.css, 0, []⟩
          = .ok st →
      CompoundEffect b st.css tok (c.getCurrentEpoch b - 1) st.rewardTotal css →
      ClaimEffect c b w tok { w with rss := rss, css := css, shardingTable := table }
        (some ⟨tok, pos.identityId, pos.claimFromEpoch, c.getCurrentEpoch b - 1, st.lines⟩)

namespace World

variable {c : Chronos} {b : Block} {w w' : World}

variable {id e net r tok : ℕ} {pos : Position}

lemma netNodeRewards_ok {css css' : ConvictionStakingStorage} {nodeScore : ℕ}
    {split : Option FeeSplit} (h : w.netNodeRewards css id e nodeScore = .ok (css', net, split))
    (delegatorScore reward : ℕ) :
    SplitEffect w css id ⟨e, delegatorScore, nodeScore, net, reward, split⟩ css' := by
  unfold netNodeRewards at h
  by_cases hflag : css.isOperatorFeeClaimedForEpoch id e = true
  · rw [if_pos hflag] at h
    cases h
    exact .before hflag rfl rfl
  · rw [if_neg hflag] at h
    rw [Bool.not_eq_true] at hflag
    by_cases hall : w.rss.getAllNodesEpochScore e > 0
    · simp only [hall, if_true] at h
      obtain ⟨pool, hpool, poolScore, hmul, weighted, hweighted, h⟩ := of_bind₃ h
      obtain ⟨fee, hfee, net', hnet, css₁, hbal, h⟩ := of_bind₃ h
      rw [inside_eq_ok] at hpool hmul hweighted hfee hnet hbal
      obtain ⟨-, rfl⟩ := mulUint_eq_ok.mp hmul
      obtain ⟨-, rfl⟩ := mulUint_eq_ok.mp hweighted
      obtain ⟨-, rfl⟩ := divUint_eq_ok.mp hfee
      obtain ⟨hle, hnet⟩ := subUint_eq_ok.mp hnet
      obtain ⟨hfit, rfl⟩ := ConvictionStakingStorage.increaseOperatorFeeBalance_ok hbal
      set gross := pool * nodeScore / w.rss.getAllNodesEpochScore e with hgross
      set fee := uint96 (gross * (w.profiles.getLatestOperatorFee id).feePercentage
        / w.params.maxOperatorFee) with hfee
      have hsum : fee + net' = gross := by omega
      cases h
      exact .taken pool ⟨w.profiles.getLatestOperatorFee id, gross, fee, net⟩ hflag rfl hpool rfl
        rfl rfl hsum rfl hfit
    · simp only [hall, if_false] at h
      cases h
      exact .unscored hflag rfl (Nat.eq_zero_of_not_pos hall) rfl

lemma epochReward_ok {ds ns : ℕ} (h : epochReward ds net ns = .ok r) : r = ds * net / ns := by
  unfold epochReward at h
  by_cases hds : ds > 0
  · rw [if_pos hds] at h
    obtain ⟨p, hp, h⟩ := of_bind h
    obtain ⟨-, rfl⟩ := mulUint_eq_ok.mp hp
    exact (divUint_eq_ok.mp h).2
  · rw [if_neg hds] at h
    obtain rfl := of_pure h
    obtain rfl : ds = 0 := by omega
    rw [Nat.zero_mul, Nat.zero_div]

lemma claimEpoch_ok {st st' : ClaimState} (h : w.claimEpoch c tok pos e st = .ok st') :
    (st' = st ∧ (w.rss.getEpochLastScorePerStake pos.identityId e = 0 ∨
        w.rss.nodeEpochScore pos.identityId e = 0)) ∨
      ∃ line, LineEffect c w tok pos e st line st' := by
  unfold claimEpoch at h
  by_cases hidx : w.rss.getEpochLastScorePerStake pos.identityId e = 0
  · simp only [hidx, if_true] at h
    exact .inl ⟨(of_pure h).symm, .inl hidx⟩
  · simp only [hidx, if_false] at h
    obtain ⟨unsettled, hinc, score, hscore, h⟩ := of_bind₂ h
    rw [inside_eq_ok] at hinc hscore
    obtain ⟨-, rfl⟩ := addUint_eq_ok.mp hscore
    by_cases hns : w.rss.getNodeEpochScore e pos.identityId > 0
    · rw [if_pos hns] at h
      obtain ⟨⟨css, net, split⟩, hsplit, h⟩ := of_bind h
      obtain ⟨r, hr, total, htotal, h⟩ := of_bind₂ h
      rw [inside_eq_ok] at hr htotal
      obtain ⟨-, rfl⟩ := addUint_eq_ok.mp htotal
      obtain rfl := of_pure h
      exact .inr ⟨_, rfl, hidx, ⟨unsettled, hinc, rfl⟩, rfl, hns, epochReward_ok hr,
        netNodeRewards_ok hsplit _ _, rfl, rfl⟩
    · rw [if_neg hns] at h
      exact .inl ⟨(of_pure h).symm, .inr (Nat.eq_zero_of_not_pos hns)⟩

/-- What the epochs of a window keep, one by one, the loop keeps. -/
lemma claimLoop_induct {P : ℕ → ClaimState → Prop} (k : ℕ) :
    ∀ {e : ℕ} {st st' : ClaimState},
      (∀ x st₁ st₂, e ≤ x → x < e + k → P x st₁ → w.claimEpoch c tok pos x st₁ = .ok st₂ →
        P (x + 1) st₂) →
      P e st → w.claimLoop c tok pos k e st = .ok st' → P (e + k) st' := by
  induction k with
  | zero =>
    intro e st st' _ hP h
    obtain rfl := of_pure h
    exact hP
  | succ k ih =>
    intro e st st' hstep hP h
    obtain ⟨st₁, h₁, h⟩ := of_bind h
    have hP₁ := hstep e st st₁ le_rfl (by omega) hP h₁
    have := ih (e := e + 1) (fun x s₁ s₂ hx hlt => hstep x s₁ s₂ (by omega) (by omega)) hP₁ h
    rwa [Nat.add_assoc, Nat.add_comm 1 k] at this

lemma compound_ok {upTo : ℕ} (h : w.compound b tok id upTo r = .ok w') :
    CompoundEffect b w.css tok upTo r w'.css ∧
      w' = { w with css := w'.css, shardingTable := w'.shardingTable } := by
  unfold compound at h
  by_cases hr : r = 0
  · subst hr
    rw [if_pos rfl] at h
    obtain ⟨css, hset, h⟩ := of_bind h
    rw [inside_eq_ok] at hset
    obtain rfl := of_pure h
    exact ⟨.nothing hset, rfl⟩
  · rw [if_neg hr] at h
    obtain ⟨_, hmax, s₁, h₁, s₂, h₂, h⟩ := of_bind₃ h
    rw [insertNodeAt_eq] at h
    obtain ⟨s₃, h₃, h⟩ := of_bind h
    rw [inside_eq_ok] at hmax h₁ h₂ h₃
    rw [require_eq_ok] at hmax
    obtain rfl := of_pure h
    exact ⟨.reward (by omega) (by omega) h₁ h₂ h₃, rfl⟩

lemma _claim_ok {record : Option Claimed} (h : w._claim c b tok = .ok (w', record)) :
    ClaimEffect c b w tok w' record := by
  unfold _claim at h
  obtain ⟨_, hid, h⟩ := of_bind h
  rw [inside_eq_ok, require_eq_ok] at hid
  by_cases hcur : c.getCurrentEpoch b ≤ 1
  · simp only [hcur, if_true] at h
    cases h
    exact .nothing hid (.inl hcur)
  · simp only [hcur, if_false] at h
    by_cases hwin : (w.css.positions tok).claimFromEpoch > c.getCurrentEpoch b - 1
    · simp only [hwin, if_true] at h
      cases h
      exact .nothing hid (.inr hwin)
    · simp only [hwin, if_false] at h
      obtain ⟨w₁, hprep, st, hloop, w₂, hcomp, hend⟩ := of_bind₃ h
      obtain ⟨earned, hearned, rfl⟩ := prepare_ok hprep
      obtain ⟨heff, hw₂⟩ := compound_ok hcomp
      cases of_pure hend
      rw [hw₂]
      exact .window rfl hid (by omega) (by omega) hearned rfl hloop heff

end World

/-! ## Transactions -/

/-- A new position, with a new token. -/
structure Created (c : Chronos) (b : Block) (w : World) (tok id raw tier mig : ℕ) (w' : World) :
    Prop where
  token : tok = w.nft.nextTokenId + 1
  fits : tok < 2 ^ 256
  settled : ∃ earned, Earned c w (c.getCurrentEpoch b) tok id earned ∧
    w'.rss = w.rss.settle (c.getCurrentEpoch b) id tok earned
  position : w.css.createPosition c b tok id raw tier mig = .ok w'.css
  counter : w'.nft.nextTokenId = tok
  es : w'.es = w.es
  profiles : w'.profiles = w.profiles
  identities : w'.lastIdentityId = w.lastIdentityId ∧ w'.adminKey = w.adminKey

/-- A position replaced by one with a new token, on the same node. -/
structure Relocked (c : Chronos) (b : Block) (w : World) (old new tier : ℕ) (w' : World) :
    Prop where
  token : new = w.nft.nextTokenId + 1
  fits : new < 2 ^ 256
  live : (w.css.positions old).identityId ≠ 0
  claimed : 1 < c.getCurrentEpoch b →
    c.getCurrentEpoch b - 1 ≤ (w.css.positions old).lastClaimedEpoch
  unlocked : (w.css.positions old).expiryTimestamp = 0 ∨
    (w.css.positions old).expiryTimestamp ≤ b.timestamp
  settled : ∃ earned,
    Earned c w (c.getCurrentEpoch b) old (w.css.positions old).identityId earned ∧
    w'.rss = w.rss.settle (c.getCurrentEpoch b) (w.css.positions old).identityId old earned
  position : w.css.createNewPositionFromExisting b old new (w.css.positions old).identityId tier
    = .ok w'.css
  counter : w'.nft.nextTokenId = new
  es : w'.es = w.es
  profiles : w'.profiles = w.profiles
  trac : w'.trac = w.trac
  identities : w'.lastIdentityId = w.lastIdentityId ∧ w'.adminKey = w.adminKey

/-- A position moved to another node. -/
structure Redelegated (c : Chronos) (b : Block) (w : World) (tok new : ℕ) (w' : World) : Prop where
  live : (w.css.positions tok).identityId ≠ 0
  other : (w.css.positions tok).identityId ≠ new
  claimed : 1 < c.getCurrentEpoch b →
    c.getCurrentEpoch b - 1 ≤ (w.css.positions tok).lastClaimedEpoch
  settled : ∃ earned,
    Earned c w (c.getCurrentEpoch b) tok (w.css.positions tok).identityId earned ∧
    w'.rss = (w.rss.settle (c.getCurrentEpoch b) (w.css.positions tok).identityId tok
      earned).settle (c.getCurrentEpoch b) new tok 0
  position : w.css.updateOnRedelegate b tok new = .ok w'.css
  counter : w'.nft.nextTokenId = w.nft.nextTokenId
  es : w'.es = w.es
  profiles : w'.profiles = w.profiles
  trac : w'.trac = w.trac
  identities : w'.lastIdentityId = w.lastIdentityId ∧ w'.adminKey = w.adminKey

/-- An accepted proof of the node `id`, worth `score` at the effective stake `stake`. -/
structure Proved (c : Chronos) (b : Block) (w : World) (id stake score : ℕ) (w' : World) :
    Prop where
  ledger : w.css.settleNodeTo id b.timestamp = .ok w'.css
  stake_eq : stake = (w'.css.ledger id).runningNodeEffectiveStake
  score_eq : w._calculateNodeScore c b id stake = .ok score
  nodeScore : w'.rss.nodeEpochScore = store₂ w.rss.nodeEpochScore id (c.getCurrentEpoch b)
    (w.rss.nodeEpochScore id (c.getCurrentEpoch b) + score)
  allScore : w'.rss.allNodesEpochScore = update w.rss.allNodesEpochScore
    (c.getCurrentEpoch b) (w.rss.allNodesEpochScore (c.getCurrentEpoch b) + score)
  index : if stake > 0 then
      ∃ ei, EpochIndex._upsertCheckpoint
          { w.rss.nodeEpochIndex id (c.getCurrentEpoch b) with
            lastScorePerStake36 := w.rss.getEpochLastScorePerStake id (c.getCurrentEpoch b)
              + score * SCALE18 / stake }
          b.timestamp
          (w.rss.getEpochLastScorePerStake id (c.getCurrentEpoch b) + score * SCALE18 / stake)
            = .ok ei ∧
        w'.rss.nodeEpochIndex = store₂ w.rss.nodeEpochIndex id (c.getCurrentEpoch b) ei
    else w'.rss.nodeEpochIndex = w.rss.nodeEpochIndex
  delegators : w'.rss.epochNodeDelegatorScore = w.rss.epochNodeDelegatorScore
  cursors : w'.rss.delegatorLastSettledNodeEpochScorePerStake
    = w.rss.delegatorLastSettledNodeEpochScorePerStake
  nft : w'.nft = w.nft
  es : w'.es = w.es
  profiles : w'.profiles = w.profiles
  trac : w'.trac = w.trac
  identities : w'.lastIdentityId = w.lastIdentityId ∧ w'.adminKey = w.adminKey

/-- A withdrawal: a claim, and then the position is deleted and its raw stake paid out. -/
structure Withdrawn (c : Chronos) (b : Block) (w : World) (tok : ℕ) (record : Option Claimed)
    (w' : World) : Prop where
  unlocked : (w.css.positions tok).expiryTimestamp = 0 ∨
    (w.css.positions tok).expiryTimestamp ≤ b.timestamp
  claim : ∃ w₁, ClaimEffect c b w tok w₁ record ∧ 0 < (w₁.css.positions tok).raw ∧
    w₁.css.deletePosition b tok = .ok w'.css ∧ w'.rss = w₁.rss ∧
    (w₁.css.positions tok).raw ≤ w₁.trac.vault ∧
    w'.trac.vault = w₁.trac.vault - (w₁.css.positions tok).raw
  counter : w'.nft.nextTokenId = w.nft.nextTokenId
  es : w'.es = w.es
  profiles : w'.profiles = w.profiles
  identities : w'.lastIdentityId = w.lastIdentityId ∧ w'.adminKey = w.adminKey

/-- What a successful transaction does. -/
inductive Effect (c : Chronos) (b : Block) (w : World) : Op → World → List Event → Prop
  | environment {op : Op} {params : Parameters} {market : Market} {owner : ℕ → ℕ} :
      Effect c b w op
        { w with params := params, market := market, nft := { w.nft with owner := owner } } []
  | setAdminKey {sender id key : ℕ} {on : Bool} :
      w.adminKey id sender = true →
      Effect c b w (.setAdminKey sender id key on)
        { w with adminKey := store₂ w.adminKey id key on } []
  | addTier {k d m : ℕ} {css : ConvictionStakingStorage} :
      w.css.addTier k d m = .ok css → Effect c b w (.addTier k d m) { w with css := css } []
  | deactivateTier {k : ℕ} {css : ConvictionStakingStorage} :
      w.css.deactivateTier k = .ok css →
      Effect c b w (.deactivateTier k) { w with css := css } []
  | createProfile {admin fee : ℕ} :
      Effect c b w (.createProfile admin fee)
        { w with
          lastIdentityId := w.lastIdentityId + 1
          adminKey := store₂ w.adminKey (w.lastIdentityId + 1) admin true
          profiles := w.profiles.createProfile b (w.lastIdentityId + 1) fee }
        [.profileCreated (w.lastIdentityId + 1) ⟨fee, b.timestamp⟩]
  | updateOperatorFee {sender id fee : ℕ} {kept : List OperatorFee} :
      w.adminKey id sender = true →
      Effect c b w (.updateOperatorFee sender id fee)
        { w with
          profiles := { w.profiles with
            operatorFees := update w.profiles.operatorFees id
              (kept ++ [⟨fee, feeEffectiveStart c b⟩]) } }
        [.feeUpdated id ⟨fee, feeEffectiveStart c b⟩]
  | depositTokens {payer s e a : ℕ} {trac : Trac} {es : EpochStorage} :
      trac.vault = w.trac.vault + a →
      w.es.addTokensToEpochRange c b EPOCH_POOL_INDEX s e a = .ok es →
      Effect c b w (.depositTokens payer s e a) { w with trac := trac, es := es }
        [.deposited ⟨EPOCH_POOL_INDEX, s, e, a, (w.es.shard EPOCH_POOL_INDEX).accumulatedRemainder⟩]
  | submitProof {id period stake score : ℕ} {w' : World} :
      Proved c b w id stake score w' → Effect c b w (.submitProof id period) w' []
  | createConviction {sender id amount tier tok : ℕ} {w' : World} :
      Created c b w tok id amount tier 0 w' → w'.trac.vault = w.trac.vault + amount →
      Effect c b w (.createConviction sender id amount tier) w' []
  | migrateV8 {delegator id tier tok total : ℕ} {w' : World} :
      total < 2 ^ 96 → Created c b w tok id total tier (uint32 (c.getCurrentEpoch b)) w' →
      w'.trac = w.trac → Effect c b w (.migrateV8 delegator id tier) w' []
  | relock {sender old tier new : ℕ} {w' : World} :
      Relocked c b w old new tier w' →
      Effect c b w (.relock sender old tier) w' [.relocked old new]
  | redelegate {sender tok id : ℕ} {w' : World} :
      Redelegated c b w tok id w' → Effect c b w (.redelegate sender tok id) w' []
  | claim {sender tok : ℕ} {w' : World} {record : Option Claimed} :
      ClaimEffect c b w tok w' record →
      Effect c b w (.claim sender tok) w' (Op.claimEvents record)
  | withdraw {sender tok : ℕ} {w' : World} {record : Option Claimed} :
      Withdrawn c b w tok record w' →
      Effect c b w (.withdraw sender tok) w' (Op.claimEvents record)
  | requestFee {sender id amount bal : ℕ} {request : StakeWithdrawalRequest} :
      bal + request.amount
        = w.css.nodeOperatorFeeBalance id + (w.css.operatorFeeWithdrawals id).amount →
      Effect c b w (.requestOperatorFeeWithdrawal sender id amount)
        { w with
          css := { w.css with
            nodeOperatorFeeBalance := update w.css.nodeOperatorFeeBalance id bal
            operatorFeeWithdrawals :=
              update w.css.operatorFeeWithdrawals id request } } []
  | finalizeFee {sender id : ℕ} {trac : Trac} :
      (w.css.operatorFeeWithdrawals id).amount ≤ w.trac.vault →
      trac.vault = w.trac.vault - (w.css.operatorFeeWithdrawals id).amount →
      Effect c b w (.finalizeOperatorFeeWithdrawal sender id)
        { w with css := w.css.deleteOperatorFeeWithdrawalRequest id, trac := trac }
        [.feeWithdrawn id (w.css.operatorFeeWithdrawals id).amount]
  | cancelFee {sender id : ℕ} :
      Effect c b w (.cancelOperatorFeeWithdrawal sender id)
        { w with
          css := (w.css.deleteOperatorFeeWithdrawalRequest id).setOperatorFeeBalance id
            (w.css.nodeOperatorFeeBalance id + (w.css.operatorFeeWithdrawals id).amount) } []

/-! ## Scores -/

/-- Of the scores, only those of delegators were written. -/
structure OnlySettled (r r' : RandomSamplingStorage) : Prop where
  validProofs : r'.epochNodeValidProofsCount = r.epochNodeValidProofsCount
  periodScore : r'.nodeEpochProofPeriodScore = r.nodeEpochProofPeriodScore
  nodeScore : r'.nodeEpochScore = r.nodeEpochScore
  allScore : r'.allNodesEpochScore = r.allNodesEpochScore
  index : r'.nodeEpochIndex = r.nodeEpochIndex

namespace OnlySettled

variable {r r' r'' : RandomSamplingStorage}

lemma refl (r : RandomSamplingStorage) : OnlySettled r r := ⟨rfl, rfl, rfl, rfl, rfl⟩

lemma trans (h : OnlySettled r r') (h' : OnlySettled r' r'') : OnlySettled r r'' where
  validProofs := h'.validProofs.trans h.validProofs
  periodScore := h'.periodScore.trans h.periodScore
  nodeScore := h'.nodeScore.trans h.nodeScore
  allScore := h'.allScore.trans h.allScore
  index := h'.index.trans h.index

lemma settle (r : RandomSamplingStorage) (epoch id tok earned : ℕ) :
    OnlySettled r (r.settle epoch id tok earned) := ⟨rfl, rfl, rfl, rfl, rfl⟩

end OnlySettled

lemma ClaimEffect.onlySettled {c : Chronos} {b : Block} {w w' : World} {tok : ℕ}
    {record : Option Claimed} (h : ClaimEffect c b w tok w' record) : OnlySettled w.rss w'.rss := by
  cases h with
  | nothing => exact .refl _
  | window _ _ _ _ _ hrss =>
    rw [hrss]
    exact .settle ..

/-- A transaction is a proof, or it settles scores of delegators and touches no other score. -/
lemma Effect.onlySettled_or_proved {c : Chronos} {b : Block} {w w' : World} {op : Op}
    {events : List Event} (h : Effect c b w op w' events) :
    OnlySettled w.rss w'.rss ∨
      ∃ id period stake score, op = .submitProof id period ∧ Proved c b w id stake score w' := by
  cases h with
  | submitProof hproved => exact .inr ⟨_, _, _, _, rfl, hproved⟩
  | createConviction hcreated | migrateV8 _ hcreated =>
    obtain ⟨earned, -, hrss⟩ := hcreated.settled
    rw [hrss]
    exact .inl (.settle ..)
  | relock hrelocked =>
    obtain ⟨earned, -, hrss⟩ := hrelocked.settled
    rw [hrss]
    exact .inl (.settle ..)
  | redelegate hmoved =>
    -- The scores at both nodes are settled.
    obtain ⟨earned, -, hrss⟩ := hmoved.settled
    rw [hrss]
    exact .inl ((OnlySettled.settle ..).trans (.settle ..))
  | claim hclaim => exact .inl hclaim.onlySettled
  | withdraw hwithdrawn =>
    obtain ⟨w₁, hclaim, -, -, hrss, -⟩ := hwithdrawn.claim
    rw [hrss]
    exact .inl hclaim.onlySettled
  | _ => exact .inl (.refl _)

namespace World

variable {c : Chronos} {b : Block} {w w' : World}

lemma mintNext_ok {owner : ℕ} (h : w.mintNext owner = .ok w') :
    w.nft.nextTokenId + 1 < 2 ^ 256 ∧ w'.nft.nextTokenId = w.nft.nextTokenId + 1 ∧
      w' = { w with nft := w'.nft } := by
  unfold mintNext at h
  obtain ⟨n₁, h₁, n₂, h₂, hend⟩ := of_bind₂ h
  rw [inside_eq_ok] at h₁ h₂
  unfold ConvictionNFT.allocate at h₁
  obtain ⟨next, hadd, h₁⟩ := of_bind h₁
  obtain ⟨hlt, rfl⟩ := addUint_eq_ok.mp hadd
  obtain rfl := of_pure h₁
  unfold ConvictionNFT._mint at h₂
  obtain ⟨_, -, _, -, h₂⟩ := of_bind₂ h₂
  obtain rfl := of_pure h₂
  obtain rfl := of_pure hend
  exact ⟨hlt, rfl, rfl⟩

lemma requireFullyClaimed_ok {pos : Position} {u : Unit}
    (h : _requireFullyClaimed c b pos = .ok u) (hcur : 1 < c.getCurrentEpoch b) :
    c.getCurrentEpoch b - 1 ≤ pos.lastClaimedEpoch := by
  unfold _requireFullyClaimed at h
  rw [if_neg (by omega), require_eq_ok] at h
  exact h

variable {t t' : Trac} {sender amount id tier tok : ℕ}

lemma transferFromToVault_ok (h : t.transferFromToVault sender amount = .ok t') :
    t'.vault = t.vault + amount := by
  unfold Trac.transferFromToVault at h
  obtain ⟨_, -, rfl⟩ := of_bind_pure h
  rfl

lemma transferStake_ok {receiver : ℕ} (h : t.transferStake receiver amount = .ok t') :
    amount ≤ t.vault ∧ t'.vault = t.vault - amount := by
  unfold Trac.transferStake at h
  obtain ⟨hle, h⟩ := of_require h
  obtain rfl := of_pure h
  exact ⟨hle, rfl⟩

lemma createConviction_ok (h : w.createConviction c b sender id amount tier = .ok w') :
    Created c b w (w.nft.nextTokenId + 1) id amount tier 0 w' ∧
      w'.trac.vault = w.trac.vault + amount := by
  unfold createConviction at h
  obtain ⟨_, -, _, -, _, -, h⟩ := of_bind₃ h
  obtain ⟨w₁, hmint, h⟩ := of_bind h
  obtain ⟨hfits, hnext, hw₁⟩ := mintNext_ok hmint
  unfold stake at h
  obtain ⟨_, -, _, -, total, -, h⟩ := of_bind₃ h
  obtain ⟨_, -, w₂, hprep, trac, htrac, h⟩ := of_bind₃ h
  obtain ⟨css, hcss, hend⟩ := of_bind h
  rw [inside_eq_ok] at htrac hcss
  obtain ⟨earned, hearned, rfl⟩ := prepare_ok hprep
  rw [hnext, hw₁] at hearned hcss
  rw [hw₁] at htrac
  obtain rfl := of_pure hend
  rw [insertNodeAt_eq, hnext, hw₁]
  exact ⟨⟨rfl, hfits, ⟨earned, hearned, rfl⟩, hcss, hnext, rfl, rfl, rfl, rfl⟩,
    transferFromToVault_ok htrac⟩

lemma migrateV8_ok {delegator : ℕ} (h : w.migrateV8 c b delegator id tier = .ok w') :
    ∃ total < 2 ^ 96, Created c b w (w.nft.nextTokenId + 1) id total tier
      (uint32 (c.getCurrentEpoch b)) w' ∧ w'.trac = w.trac := by
  unfold migrateV8 at h
  obtain ⟨_, -, _, -, w₁, hmint, h⟩ := of_bind₃ h
  obtain ⟨hfits, hnext, hw₁⟩ := mintNext_ok hmint
  unfold _convertToNFT at h
  obtain ⟨total, htotal, _, -, v8, -, h⟩ := of_bind₃ h
  obtain ⟨w₂, hprep, after, -, _, -, h⟩ := of_bind₃ h
  obtain ⟨css, hcss, hend⟩ := of_bind h
  rw [inside_eq_ok] at htotal hcss
  obtain ⟨earned, hearned, rfl⟩ := prepare_ok hprep
  rw [hnext, hw₁] at hearned hcss
  obtain rfl := of_pure hend
  obtain ⟨hlt, htotal⟩ := addUint_eq_ok.mp htotal
  rw [insertNodeAt_eq, hnext, hw₁]
  exact ⟨total, by omega,
    ⟨rfl, hfits, ⟨earned, hearned, rfl⟩, hcss, hnext, rfl, rfl, rfl, rfl⟩, rfl⟩

lemma relockPosition_ok {old : ℕ} (h : w.relockPosition c b sender old tier = .ok w') :
    Relocked c b w old (w.nft.nextTokenId + 1) tier w' := by
  unfold relockPosition at h
  obtain ⟨_, -, _, -, w₁, hmint, h⟩ := of_bind₃ h
  obtain ⟨w₃, hrelock, nft, hburn, hend⟩ := of_bind₂ h
  obtain ⟨hfits, hnext, hw₁⟩ := mintNext_ok hmint
  unfold relock at hrelock
  obtain ⟨_, hlive, _, hclaimed, _, hunlocked, hrelock⟩ := of_bind₃ hrelock
  obtain ⟨w₂, hprep, css, hcss, hlast⟩ := of_bind₂ hrelock
  rw [inside_eq_ok] at hburn hlive hclaimed hunlocked hcss
  rw [require_eq_ok] at hlive hunlocked
  obtain ⟨earned, hearned, rfl⟩ := prepare_ok hprep
  rw [hnext, hw₁] at hcss
  rw [hw₁] at hlive hclaimed hunlocked hearned
  obtain rfl := of_pure hlast
  unfold ConvictionNFT._burn at hburn
  obtain ⟨_, -, rfl⟩ := of_bind_pure hburn
  obtain rfl := of_pure hend
  rw [hw₁]
  exact ⟨rfl, hfits, hlive, requireFullyClaimed_ok hclaimed, hunlocked, ⟨earned, hearned, rfl⟩,
    hcss, hnext, rfl, rfl, rfl, rfl, rfl⟩

lemma redelegatePosition_ok {new : ℕ} (h : w.redelegatePosition c b sender tok new = .ok w') :
    Redelegated c b w tok new w' := by
  unfold redelegatePosition at h
  obtain ⟨_, -, _, -, h⟩ := of_bind₂ h
  unfold redelegate at h
  obtain ⟨_, hlive, _, hclaimed, _, hother, h⟩ := of_bind₃ h
  obtain ⟨_, -, _, -, after, -, h⟩ := of_bind₃ h
  obtain ⟨_, -, w₁, hprep₁, w₂, hprep₂, h⟩ := of_bind₃ h
  obtain ⟨css, hcss, hend⟩ := of_bind h
  rw [inside_eq_ok] at hlive hclaimed hother hcss
  rw [require_eq_ok] at hlive hother
  obtain ⟨earned, hearned, rfl⟩ := prepare_ok hprep₁
  obtain ⟨earned', hearned', rfl⟩ := prepare_ok hprep₂
  -- the position is not on the new node, so it has earned nothing there
  obtain rfl : earned' = 0 := by
    unfold Earned at hearned'
    simp only [hother, if_false] at hearned'
    exact hearned'
  obtain rfl := of_pure hend
  rw [insertNodeAt_eq, removeNodeAt_eq]
  exact ⟨hlive, hother, requireFullyClaimed_ok hclaimed, ⟨earned, hearned, rfl⟩, hcss, rfl, rfl,
    rfl, rfl, rfl, rfl⟩

lemma withdrawPosition_ok {record : Option Claimed}
    (h : w.withdrawPosition c b sender tok = .ok (w', record)) : Withdrawn c b w tok record w' := by
  unfold withdrawPosition at h
  obtain ⟨_, -, out, hwithdraw, nft, hburn, hend⟩ := of_bind₃ h
  unfold withdraw at hwithdraw
  obtain ⟨_, -, _, hunlocked, ⟨w₁, record₁⟩, hclaim, hwithdraw⟩ := of_bind₃ hwithdraw
  obtain ⟨_, hraw, css, hcss, trac, htrac, hlast⟩ := of_bind₃ hwithdraw
  rw [inside_eq_ok] at hburn hunlocked hraw hcss htrac
  rw [require_eq_ok] at hunlocked hraw
  have hceff := _claim_ok hclaim
  obtain rfl := of_pure hlast
  unfold ConvictionNFT._burn at hburn
  obtain ⟨_, -, rfl⟩ := of_bind_pure hburn
  cases of_pure hend
  obtain ⟨hle, hvault⟩ := transferStake_ok htrac
  -- a claim leaves the token counter, the pools, the profiles and the identities alone
  have hframe : w₁.nft.nextTokenId = w.nft.nextTokenId ∧ w₁.es = w.es ∧
      w₁.profiles = w.profiles ∧ w₁.lastIdentityId = w.lastIdentityId ∧
      w₁.adminKey = w.adminKey := by
    cases hceff with
    | nothing | window => exact ⟨rfl, rfl, rfl, rfl, rfl⟩
  simp only
  rw [removeNodeAt_eq]
  exact ⟨hunlocked, ⟨w₁, hceff, hraw, hcss, rfl, hle, hvault⟩,
    hframe.1, hframe.2.1, hframe.2.2.1, hframe.2.2.2⟩

lemma submitProof_ok {period : ℕ} (h : w.submitProof c b id period = .ok w') :
    ∃ stake score, Proved c b w id stake score w' := by
  unfold submitProof at h
  obtain ⟨_, -, _, -, r₁, h₁, h⟩ := of_bind₃ h
  obtain ⟨css, hcss, score, hscore, r₂, h₂, h⟩ := of_bind₃ h
  obtain ⟨r₃, h₃, r₄, h₄, r₅, h₅, hend⟩ := of_bind₃ h
  rw [inside_eq_ok] at h₁ hcss hscore h₂ h₃ h₄
  rw [uint40_of_lt b.fits] at hcss h₅
  -- the four counters, each one field of the storage
  obtain ⟨n₁, -, h₁⟩ := of_bind h₁
  obtain ⟨n₂, -, h₂⟩ := of_bind h₂
  obtain ⟨n₃, hn₃, h₃⟩ := of_bind h₃
  obtain ⟨n₄, hn₄, h₄⟩ := of_bind h₄
  obtain rfl := of_pure h₁
  obtain rfl := of_pure h₂
  obtain rfl := of_pure h₃
  obtain rfl := of_pure h₄
  obtain ⟨-, rfl⟩ := addUint_eq_ok.mp hn₃
  obtain ⟨-, rfl⟩ := addUint_eq_ok.mp hn₄
  obtain rfl := of_pure hend
  refine ⟨(css.ledger id).runningNodeEffectiveStake, score, ?_⟩
  by_cases hstake : (css.ledger id).runningNodeEffectiveStake > 0
  · rw [if_pos hstake] at h₅
    obtain ⟨scaled, hscaled, newLast, hlast, h₅⟩ := of_bind₂ h₅
    rw [inside_eq_ok] at hscaled hlast h₅
    obtain ⟨-, rfl⟩ := mulUint_eq_ok.mp hscaled
    obtain ⟨-, rfl⟩ := addUint_eq_ok.mp hlast
    unfold RandomSamplingStorage.appendCheckpoint at h₅
    obtain ⟨_, -, ei, hei, h₅⟩ := of_bind₂ h₅
    obtain rfl := of_pure h₅
    refine ⟨hcss, rfl, hscore, rfl, rfl, ?_, rfl, rfl, rfl, rfl, rfl, rfl, rfl, rfl⟩
    rw [if_pos hstake]
    exact ⟨ei, hei, rfl⟩
  · rw [if_neg hstake] at h₅
    obtain rfl := of_pure h₅
    refine ⟨hcss, rfl, hscore, rfl, rfl, ?_, rfl, rfl, rfl, rfl, rfl, rfl, rfl, rfl⟩
    rw [if_neg hstake]

lemma updateOperatorFee_ok {fee : ℕ} (h : w.updateOperatorFee c b sender id fee = .ok w') :
    w.adminKey id sender = true ∧ ∃ kept, w' = { w with
      profiles := { w.profiles with
        operatorFees := update w.profiles.operatorFees id
          (kept ++ [⟨fee, feeEffectiveStart c b⟩]) } } := by
  unfold updateOperatorFee at h
  obtain ⟨_, hadmin, _, -, _, -, h⟩ := of_bind₃ h
  obtain ⟨profiles, hprofiles, hend⟩ := of_bind h
  rw [inside_eq_ok] at hprofiles hadmin
  obtain rfl := of_pure hend
  refine ⟨require_eq_ok.mp hadmin, ?_⟩
  split at hprofiles
  next =>
    unfold ProfileStorage.replacePendingOperatorFee at hprofiles
    obtain ⟨_, -, rfl⟩ := of_bind_pure hprofiles
    exact ⟨_, rfl⟩
  next =>
    obtain rfl := of_pure hprofiles
    exact ⟨_, rfl⟩

lemma requestOperatorFeeWithdrawal_ok
    (h : w.requestOperatorFeeWithdrawal b sender id amount = .ok w') :
    ∃ bal request, bal + request.amount
        = w.css.nodeOperatorFeeBalance id + (w.css.operatorFeeWithdrawals id).amount ∧
      w' = { w with
        css := { w.css with
          nodeOperatorFeeBalance := update w.css.nodeOperatorFeeBalance id bal
          operatorFeeWithdrawals := update w.css.operatorFeeWithdrawals id request } } := by
  unfold requestOperatorFeeWithdrawal at h
  obtain ⟨_, -, _, -, current, hcurrent, h⟩ := of_bind₃ h
  obtain ⟨total, -, _, hle, release, -, hend⟩ := of_bind₃ h
  rw [inside_eq_ok] at hcurrent hle
  rw [require_eq_ok] at hle
  obtain rfl := of_pure hend
  refine ⟨_, _, ?_, rfl⟩
  have hsum : current
      = w.css.nodeOperatorFeeBalance id + (w.css.operatorFeeWithdrawals id).amount := by
    split at hcurrent
    next => exact (addUint_eq_ok.mp hcurrent).2
    next hzero =>
      have := of_pure hcurrent
      omega
  simp only
  omega

end World

/-- **Inversion.** A successful transaction has its effect, and no other. -/
lemma Op.run_effect {c : Chronos} {b : Block} {w w' : World} {op : Op} {events : List Event}
    (h : op.run c b w = .ok (w', events)) : Effect c b w op w' events := by
  cases op with
  | setParameters params | setMarket market =>
    cases h
    exact .environment
  | setAdminKey sender id key on =>
    obtain ⟨w₁, h₁, hend⟩ := of_bind_pure h
    cases hend
    obtain ⟨_, hadmin, rfl⟩ := of_bind_pure h₁
    rw [inside_eq_ok] at hadmin
    exact .setAdminKey (require_eq_ok.mp hadmin)
  | addTier k d m =>
    obtain ⟨w₁, h₁, hend⟩ := of_bind_pure h
    cases hend
    obtain ⟨css, hcss, rfl⟩ := of_bind_pure h₁
    exact .addTier (inside_eq_ok.mp hcss)
  | deactivateTier k =>
    obtain ⟨w₁, h₁, hend⟩ := of_bind_pure h
    cases hend
    obtain ⟨css, hcss, rfl⟩ := of_bind_pure h₁
    exact .deactivateTier (inside_eq_ok.mp hcss)
  | createProfile admin fee =>
    obtain ⟨w₁, h₁, hend⟩ := of_bind_pure h
    cases hend
    obtain ⟨_, -, id, hid, hend⟩ := of_bind₂ h₁
    obtain ⟨-, rfl⟩ := addUint_eq_ok.mp (inside_eq_ok.mp hid)
    obtain rfl := of_pure hend
    exact .createProfile
  | updateOperatorFee sender id fee =>
    obtain ⟨w₁, h₁, hend⟩ := of_bind_pure h
    cases hend
    obtain ⟨hadmin, kept, rfl⟩ := updateOperatorFee_ok h₁
    exact .updateOperatorFee hadmin
  | depositTokens payer s e a =>
    obtain ⟨w₁, h₁, hend⟩ := of_bind_pure h
    cases hend
    obtain ⟨trac, htrac, es, hes, hend⟩ := of_bind₂ h₁
    obtain rfl := of_pure hend
    exact .depositTokens (transferFromToVault_ok (inside_eq_ok.mp htrac)) (inside_eq_ok.mp hes)
  | submitProof id period =>
    obtain ⟨w₁, h₁, hend⟩ := of_bind_pure h
    cases hend
    obtain ⟨stake, score, hproved⟩ := submitProof_ok h₁
    exact .submitProof hproved
  | createConviction sender id amount tier =>
    obtain ⟨w₁, h₁, hend⟩ := of_bind_pure h
    cases hend
    obtain ⟨hcreated, hvault⟩ := createConviction_ok h₁
    exact .createConviction hcreated hvault
  | relock sender old tier =>
    obtain ⟨w₁, h₁, hend⟩ := of_bind_pure h
    cases hend
    have hrelocked := relockPosition_ok h₁
    rw [hrelocked.counter]
    exact .relock hrelocked
  | redelegate sender tok new =>
    obtain ⟨w₁, h₁, hend⟩ := of_bind_pure h
    cases hend
    exact .redelegate (redelegatePosition_ok h₁)
  | withdraw sender tok =>
    obtain ⟨⟨w₁, record⟩, h₁, hend⟩ := of_bind_pure h
    cases hend
    exact .withdraw (withdrawPosition_ok h₁)
  | claim sender tok =>
    obtain ⟨⟨w₁, record⟩, h₁, hend⟩ := of_bind_pure h
    cases hend
    obtain ⟨_, -, hclaim⟩ := of_bind h₁
    exact .claim (_claim_ok hclaim)
  | migrateV8 delegator id tier =>
    obtain ⟨w₁, h₁, hend⟩ := of_bind_pure h
    cases hend
    obtain ⟨total, htotal, hcreated, htrac⟩ := migrateV8_ok h₁
    exact .migrateV8 htotal hcreated htrac
  | requestOperatorFeeWithdrawal sender id amount =>
    obtain ⟨w₁, h₁, hend⟩ := of_bind_pure h
    cases hend
    obtain ⟨bal, request, hsum, rfl⟩ := requestOperatorFeeWithdrawal_ok h₁
    exact .requestFee hsum
  | finalizeOperatorFeeWithdrawal sender id =>
    obtain ⟨w₁, h₁, hend⟩ := of_bind_pure h
    cases hend
    obtain ⟨_, -, _, -, _, -, h₁⟩ := of_bind₃ h₁
    obtain ⟨trac, htrac, rfl⟩ := of_bind_pure h₁
    obtain ⟨hle, hvault⟩ := transferStake_ok (inside_eq_ok.mp htrac)
    exact .finalizeFee hle hvault
  | cancelOperatorFeeWithdrawal sender id =>
    obtain ⟨w₁, h₁, hend⟩ := of_bind_pure h
    cases hend
    obtain ⟨_, -, _, -, css, hcss, hend⟩ := of_bind₃ h₁
    obtain ⟨-, rfl⟩ := ConvictionStakingStorage.increaseOperatorFeeBalance_ok (inside_eq_ok.mp hcss)
    obtain rfl := of_pure hend
    exact .cancelFee
  | transferPosition sender receiver tok =>
    obtain ⟨w₁, h₁, hend⟩ := of_bind_pure h
    cases hend
    obtain ⟨nft, hnft, hend⟩ := of_bind h₁
    rw [inside_eq_ok] at hnft
    obtain ⟨_, -, _, -, hnft⟩ := of_bind₂ hnft
    obtain rfl := of_pure hnft
    obtain rfl := of_pure hend
    exact .environment

end Dkg
