import Dkg.ConvictionStaking.EffectiveStake
import Dkg.Staking.Effects

/-! # Invariants of the staking system

What every run keeps: the invariants of `ConvictionStakingStorage` with the sums over the
positions (`SysInv`), and the bookkeeping of the token ids and the claim cursors. The first part
says what each transaction does to the positions.
-/

namespace Dkg

open Function (update)
open Lib ConvictionStakingStorage

lemma Chronos.getCurrentEpoch_lt (c : Chronos) (b : Block) : c.getCurrentEpoch b < 2 ^ 32 :=
  c.epochAtTimestamp_lt b.fits

/-! ## What happens to the positions -/

/-- The fee accounts of the nodes stay as they are. -/
structure FeesKept (s s' : ConvictionStakingStorage) : Prop where
  flag : s'.isOperatorFeeClaimedForEpoch = s.isOperatorFeeClaimedForEpoch
  net : s'.netNodeEpochRewards = s.netNodeEpochRewards
  balance : s'.nodeOperatorFeeBalance = s.nodeOperatorFeeBalance
  withdrawals : s'.operatorFeeWithdrawals = s.operatorFeeWithdrawals

lemma FeesKept.refl (s : ConvictionStakingStorage) : FeesKept s s := ⟨rfl, rfl, rfl, rfl⟩

/-- Only the fee accounts change. -/
def OnlyFees (s s' : ConvictionStakingStorage) : Prop :=
  s' = { s with
    isOperatorFeeClaimedForEpoch := s'.isOperatorFeeClaimedForEpoch
    netNodeEpochRewards := s'.netNodeEpochRewards
    nodeOperatorFeeBalance := s'.nodeOperatorFeeBalance }

/-- The position after a claim of `r` up to the epoch `upTo`. -/
def Position.afterClaim (p : Position) (r upTo : ℕ) : Position :=
  { p with
    raw := p.raw + r
    cumulativeRewardsClaimed := p.cumulativeRewardsClaimed + r
    lastClaimedEpoch := upTo }

def Claimed.total (record : Claimed) : ℕ := (record.lines.map ClaimLine.reward).sum

/-- The reward a transaction's claim has paid. -/
def claimTotal : Option Claimed → ℕ
  | none => 0
  | some record => record.total

section

variable {c : Chronos} {b : Block} {w w' : World} {now : ℕ}

lemma Created.spec {tok id raw tier mig : ℕ} (h : Created c b w tok id raw tier mig w')
    (hinv : w.css.Inv now) (hnow : now ≤ b.timestamp) :
    id ≠ 0 ∧ (w.css.positions tok).identityId = 0 ∧ 0 < raw ∧
    FeesKept w.css w'.css ∧ w'.css.tiers = w.css.tiers ∧
    w'.css.totalStakeV10 = w.css.totalStakeV10 + raw ∧
    ∃ x, w'.css.positions = update w.css.positions tok
      { raw := raw
        lockTier := tier
        expiryTimestamp := x
        identityId := id
        cumulativeRewardsClaimed := 0
        multiplier18 := (w.css.tiers tier).multiplier18
        lastClaimedEpoch := c.getCurrentEpoch b - 1
        migrationEpoch := mig } := by
  obtain ⟨hid, hdead, hraw, -, x, l, -, -, hs'⟩ :=
    createPosition_ok hinv.tiers (hinv.ledger id) hnow h.position
  have hlt := c.getCurrentEpoch_lt b
  rw [uint32_of_lt (by omega)] at hs'
  rw [hs']
  exact ⟨hid, hdead, hraw, ⟨rfl, rfl, rfl, rfl⟩, rfl, rfl, x, rfl⟩

lemma Relocked.spec {old new tier : ℕ} (h : Relocked c b w old new tier w')
    (hinv : w.css.Inv now) (hnow : now ≤ b.timestamp) :
    (w.css.positions new).identityId = 0 ∧ old ≠ new ∧ 0 < (w.css.positions old).raw ∧
    FeesKept w.css w'.css ∧ w'.css.tiers = w.css.tiers ∧
    w'.css.totalStakeV10 = w.css.totalStakeV10 ∧
    ∃ x, w'.css.positions = update (update w.css.positions new
      { w.css.positions old with
        lockTier := tier
        expiryTimestamp := x
        multiplier18 := (w.css.tiers tier).multiplier18 }) old Position.zero := by
  obtain ⟨-, hdead, hne, -, hraw, -, x, l, -, -, hs'⟩ :=
    createNewPositionFromExisting_ok hinv.tiers hinv.scale_le
      (hinv.ledger _) hnow h.position
  rw [hs']
  exact ⟨hdead, hne, hraw, ⟨rfl, rfl, rfl, rfl⟩, rfl, rfl, x, rfl⟩

lemma Redelegated.spec {tok new : ℕ} (h : Redelegated c b w tok new w')
    (hinv : w.css.Inv now) (hnow : now ≤ b.timestamp) :
    new ≠ 0 ∧ FeesKept w.css w'.css ∧ w'.css.tiers = w.css.tiers ∧
    w'.css.totalStakeV10 = w.css.totalStakeV10 ∧
    w'.css.positions = update w.css.positions tok
      { w.css.positions tok with identityId := new } := by
  obtain ⟨hnew, -, -, lOld, lNew, -, -, hs'⟩ :=
    updateOnRedelegate_ok hinv.scale_le (hinv.ledger _) (hinv.ledger _)
      hnow h.position
  rw [hs']
  exact ⟨hnew, ⟨rfl, rfl, rfl, rfl⟩, rfl, rfl, rfl⟩

lemma CompoundEffect.spec {s s' : ConvictionStakingStorage} {tok upTo r : ℕ}
    (h : CompoundEffect b s tok upTo r s') (hupTo : upTo < 2 ^ 32) (hinv : s.Inv now)
    (hnow : now ≤ b.timestamp) :
    FeesKept s s' ∧ s'.tiers = s.tiers ∧ s'.totalStakeV10 = s.totalStakeV10 + r ∧
    s'.positions
      = update s.positions tok ((s.positions tok).afterClaim r upTo) := by
  cases h with
  | nothing hset =>
    obtain ⟨-, rfl⟩ := setLastClaimedEpoch_ok hset
    rw [uint32_of_lt hupTo]
    exact ⟨⟨rfl, rfl, rfl, rfl⟩, rfl, rfl, rfl⟩
  | reward hr hmax hinc hadd hset =>
    obtain ⟨-, -, l, -, rfl⟩ := increaseRaw_ok hinv.scale_le (hinv.ledger _) hnow hinc
    obtain ⟨-, rfl⟩ := addCumulativeRewardsClaimed_ok hadd
    obtain ⟨-, rfl⟩ := setLastClaimedEpoch_ok hset
    rw [uint32_of_lt hupTo]
    refine ⟨⟨rfl, rfl, rfl, rfl⟩, rfl, rfl, ?_⟩
    simp [setPosition, setLedger, Position.afterClaim]

lemma SplitEffect.onlyFees {css css' : ConvictionStakingStorage} {id : ℕ} {line : ClaimLine}
    (h : SplitEffect w css id line css') : OnlyFees css css' := by
  cases h with
  | taken => rfl
  | before => rfl
  | unscored => rfl

lemma World.claimLoop_ok {tok k e : ℕ} {pos : Position} {st : ClaimState}
    (h : w.claimLoop c tok pos k e ⟨w.css, 0, []⟩ = .ok st) :
    OnlyFees w.css st.css ∧ st.rewardTotal = (st.lines.map ClaimLine.reward).sum := by
  refine World.claimLoop_induct
    (P := fun _ st => OnlyFees w.css st.css ∧
      st.rewardTotal = (st.lines.map ClaimLine.reward).sum) k ?_ ?_ h
  rotate_left
  · exact ⟨rfl, rfl⟩
  rintro x st₁ st₂ - - ⟨hfees, htotal⟩ hepoch
  rcases World.claimEpoch_ok hepoch with ⟨rfl, -⟩ | ⟨line, hline⟩
  · exact ⟨hfees, htotal⟩
  · constructor
    · have := hline.split.onlyFees
      unfold OnlyFees at hfees this ⊢
      rw [this, hfees]
    · rw [hline.total, htotal, hline.lines]
      simp

/-- A claim of a window, with the storage between the loop and the compounding. -/
lemma ClaimEffect.spec {tok : ℕ} {record : Option Claimed}
    (h : ClaimEffect c b w tok w' record) (hinv : w.css.Inv now) (hnow : now ≤ b.timestamp) :
    (w.css.positions tok).identityId ≠ 0 ∧
    w'.css.operatorFeeWithdrawals = w.css.operatorFeeWithdrawals ∧
    w'.css.tiers = w.css.tiers ∧ w'.nft = w.nft ∧ w'.es = w.es ∧
    w'.profiles = w.profiles ∧ w'.trac = w.trac ∧
    w'.css.totalStakeV10 = w.css.totalStakeV10 + claimTotal record ∧
    w'.css.positions = update w.css.positions tok
      ((w.css.positions tok).afterClaim (claimTotal record)
        (if record = none then (w.css.positions tok).lastClaimedEpoch
          else c.getCurrentEpoch b - 1)) := by
  cases h with
  | nothing hid hwin =>
    refine ⟨hid, rfl, rfl, rfl, rfl, rfl, rfl, rfl, ?_⟩
    simp [Position.afterClaim, claimTotal]
  | window hpos hid hcur hwin hearned hrss hloop hcomp =>
    have hlt := c.getCurrentEpoch_lt b
    obtain ⟨hfees, htotal⟩ := World.claimLoop_ok hloop
    rename_i st css table rss pos
    have hsame : st.css.ledger = w.css.ledger ∧ st.css.tiers = w.css.tiers ∧
        st.css.positions = w.css.positions ∧ st.css.totalStakeV10 = w.css.totalStakeV10 ∧
        st.css.operatorFeeWithdrawals = w.css.operatorFeeWithdrawals := by
      rw [hfees]
      exact ⟨rfl, rfl, rfl, rfl, rfl⟩
    obtain ⟨hledger, htiers, hpositions, htot, hpending⟩ := hsame
    obtain ⟨hkept, htiers', htot', hpos'⟩ := hcomp.spec (by omega)
      (hinv.of_eq hnow hledger htiers hpositions) le_rfl
    subst hpos
    refine ⟨hid, hkept.withdrawals.trans hpending, htiers'.trans htiers, rfl, rfl, rfl, rfl, ?_, ?_⟩
    · show css.totalStakeV10 = _
      rw [htot', htot, htotal]
      rfl
    · show css.positions = _
      rw [hpos', hpositions, htotal, if_neg (by simp)]
      rfl

end

lemma Proved.spec {c : Chronos} {b : Block} {w w' : World} {id stake score : ℕ}
    (h : Proved c b w id stake score w') :
    FeesKept w.css w'.css ∧ w'.css.tiers = w.css.tiers ∧
    w'.css.totalStakeV10 = w.css.totalStakeV10 ∧ w'.css.positions = w.css.positions := by
  have hrun := h.ledger
  unfold settleNodeTo _settleNodeTo at hrun
  obtain ⟨l, -, hcss⟩ := onLedger_eq_ok.mp hrun
  rw [hcss]
  exact ⟨⟨rfl, rfl, rfl, rfl⟩, rfl, rfl, rfl⟩

variable {s s' : ConvictionStakingStorage} {k d m : ℕ}

lemma addTier_ok (hrun : s.addTier k d m = .ok s') : s' = s._addTierInternal k d m := by
  unfold addTier at hrun
  obtain ⟨_, -, _, -, hrun⟩ := of_bind₂ hrun
  exact (of_pure hrun).symm

lemma deactivateTier_ok (hrun : s.deactivateTier k = .ok s') :
    s' = { s with tiers := update s.tiers k { s.tiers k with active := false } } := by
  unfold deactivateTier at hrun
  obtain ⟨_, -, _, -, hrun⟩ := of_bind₂ hrun
  exact (of_pure hrun).symm

lemma addTier_spec (hrun : s.addTier k d m = .ok s') :
    FeesKept s s' ∧ s'.totalStakeV10 = s.totalStakeV10 ∧ s'.positions = s.positions := by
  rw [addTier_ok hrun]
  exact ⟨⟨rfl, rfl, rfl, rfl⟩, rfl, rfl⟩

lemma deactivateTier_spec (hrun : s.deactivateTier k = .ok s') :
    FeesKept s s' ∧ s'.totalStakeV10 = s.totalStakeV10 ∧ s'.positions = s.positions := by
  rw [deactivateTier_ok hrun]
  exact ⟨⟨rfl, rfl, rfl, rfl⟩, rfl, rfl⟩

/-! ## The storage of the positions -/

section

variable {c : Chronos} {b : Block} {w w' : World} {now : ℕ}

/-- No carry between the fractions when the reward of a claim is compounded into a position that
is still boosted. -/
def Position.CompoundsExactly (p : Position) (b : Block) (r : ℕ) : Prop :=
  stillBoosted p.expiryTimestamp b.timestamp → RoundsExactly p.raw r p.multiplier18

/-- Both kinds of sums over the positions, before and after. -/
def SumsKept (s s' : ConvictionStakingStorage) (now : ℕ) (b : Block) : Prop :=
  s'.Inv b.timestamp ∧ s'.RawInv ∧ (s.DropInv now → s'.DropInv b.timestamp)

variable {s s' : ConvictionStakingStorage} {tok : ℕ} {record : Option Claimed}

lemma ConvictionStakingStorage.Inv.sumsKept_of_eq (hinv : s.Inv now) (hraw : s.RawInv)
    (hnow : now ≤ b.timestamp) (hl : s'.ledger = s.ledger) (ht : s'.tiers = s.tiers)
    (hp : s'.positions = s.positions) (htot : s'.totalStakeV10 = s.totalStakeV10) :
    SumsKept s s' now b :=
  ⟨hinv.of_eq hnow hl ht hp, hraw.of_eq hp hl htot, fun hdrop => hdrop.of_eq hnow hp hl⟩

/-- A call of the storage that keeps the drops whatever the amounts. -/
lemma ConvictionStakingStorage.Inv.sumsKept_call (hinv : s.Inv now) (hraw : s.RawInv)
    (hnow : now ≤ b.timestamp) (call : CssCall) (htyped : call.Typed b) (hexact : call.ExactAt s b)
    (hrun : call.run c b s = .ok s') : SumsKept s s' now b := by
  obtain ⟨hraw', hdrop'⟩ := sums_run hinv hraw hnow call htyped hrun
  exact ⟨hinv.run hnow call htyped hrun, hraw', fun hdrop => hdrop' hdrop hexact⟩

lemma CompoundEffect.sums {upTo r : ℕ} (h : CompoundEffect b s tok upTo r s') (hinv : s.Inv now)
    (hraw : s.RawInv) (hnow : now ≤ b.timestamp) (htok : tok < 2 ^ 256) :
    s'.Inv b.timestamp ∧ s'.RawInv ∧
      (s.DropInv now → (s.positions tok).CompoundsExactly b r → s'.DropInv b.timestamp) := by
  have hmem : tok ∈ tokenIds := Finset.mem_range.mpr htok
  cases h with
  | nothing hset =>
    obtain ⟨hinv', hraw', hdrop'⟩ := hinv.sumsKept_call (c := hourlyChronos) hraw hnow
      (.setLastClaimedEpoch tok _) htok trivial hset
    exact ⟨hinv', hraw', fun hdrop _ => hdrop' hdrop⟩
  | reward hr hmax hinc hadd hset =>
    have hinv₁ := hinv.increaseRaw hnow hinc
    have hraw₁ := hraw.of_rawChanged hmem (increaseRaw_lists hinc)
    obtain ⟨hinv₂, hraw₂, hdrop₂⟩ := hinv₁.sumsKept_call (c := hourlyChronos) hraw₁ le_rfl
      (.addCumulativeRewardsClaimed tok _) htok trivial hadd
    obtain ⟨hinv₃, hraw₃, hdrop₃⟩ := hinv₂.sumsKept_call (c := hourlyChronos) hraw₂ le_rfl
      (.setLastClaimedEpoch tok _) htok trivial hset
    refine ⟨hinv₃, hraw₃, fun hdrop hexact => hdrop₃ (hdrop₂ ?_)⟩
    exact increaseRaw_dropInv hinv hnow hdrop hmem hexact hinc

lemma ClaimEffect.sums (h : ClaimEffect c b w tok w' record) (hinv : w.css.Inv now)
    (hraw : w.css.RawInv) (hnow : now ≤ b.timestamp) (htok : tok < 2 ^ 256) :
    w'.css.Inv b.timestamp ∧ w'.css.RawInv ∧
      (w.css.DropInv now → (w.css.positions tok).CompoundsExactly b (claimTotal record) →
        w'.css.DropInv b.timestamp) := by
  cases h with
  | nothing hid hwin =>
    exact ⟨hinv.mono hnow, hraw, fun hdrop _ => hdrop.of_eq hnow rfl rfl⟩
  | window hpos hid hcur hwin hearned hrss hloop hcomp =>
    obtain ⟨hfees, htotal⟩ := World.claimLoop_ok hloop
    rename_i st css table rss pos
    have hpositions : st.css.positions = w.css.positions := by rw [hfees]
    have hsums : SumsKept w.css st.css now b := hinv.sumsKept_of_eq hraw hnow
      (by rw [hfees]) (by rw [hfees]) hpositions (by rw [hfees])
    obtain ⟨hinv₁, hraw₁, hdrop₁⟩ := hsums
    obtain ⟨hinv', hraw', hdrop'⟩ := hcomp.sums hinv₁ hraw₁ le_rfl htok
    refine ⟨hinv', hraw', fun hdrop hexact => hdrop' (hdrop₁ hdrop) ?_⟩
    rw [hpositions, htotal]
    exact hexact

/-- A withdrawal, seen from the storage its claim leaves. -/
lemma Withdrawn.spec (h : Withdrawn c b w tok record w') (hinv : w.css.Inv now)
    (hraw : w.css.RawInv) (hnow : now ≤ b.timestamp)
    (htok : (w.css.positions tok).identityId ≠ 0 → tok < 2 ^ 256) :
    ∃ w₁, ClaimEffect c b w tok w₁ record ∧ w₁.css.Inv b.timestamp ∧ w₁.css.RawInv ∧
      FeesKept w₁.css w'.css ∧ w'.css.tiers = w₁.css.tiers ∧ w'.rss = w₁.rss ∧
      w'.css.totalStakeV10 + (w₁.css.positions tok).raw = w₁.css.totalStakeV10 ∧
      w'.trac.vault + (w₁.css.positions tok).raw = w₁.trac.vault ∧
      w'.css.positions = update w₁.css.positions tok Position.zero := by
  obtain ⟨w₁, hclaim, -, hdelete, hrss, hle, hvault⟩ := h.claim
  obtain ⟨hid, -⟩ := hclaim.spec hinv hnow
  obtain ⟨hinv₁, hraw₁, -⟩ := hclaim.sums hinv hraw hnow (htok hid)
  obtain ⟨hid₁, l, -, hs'⟩ := deletePosition_ok hinv₁.scale_le (hinv₁.ledger _) le_rfl hdelete
  have htotal := hraw₁.raw_le_total (htok hid) hid₁
  refine ⟨w₁, hclaim, hinv₁, hraw₁, ?_, ?_, hrss, ?_, by omega, ?_⟩
  · rw [hs']
    exact ⟨rfl, rfl, rfl, rfl⟩
  · rw [hs']
    rfl
  · rw [hs']
    show w₁.css.totalStakeV10 - (w₁.css.positions tok).raw + (w₁.css.positions tok).raw = _
    omega
  · rw [hs']
    rfl

/-- Every transaction keeps the invariants of the storage, and the drops too when its claim
compounds exactly. -/
lemma Effect.sums {op : Op} {events : List Event} (h : Effect c b w op w' events)
    (hadm : op.Admissible c b) (hinv : w.css.Inv now) (hraw : w.css.RawInv)
    (hnow : now ≤ b.timestamp) (hcount : w.nft.nextTokenId < 2 ^ 256)
    (htokens : ∀ tok, (w.css.positions tok).identityId ≠ 0 → tok ≤ w.nft.nextTokenId) :
    w'.css.Inv b.timestamp ∧ w'.css.RawInv ∧
      (w.css.DropInv now →
        (∀ sender tok record, op = .claim sender tok → events = Op.claimEvents record →
          (w.css.positions tok).CompoundsExactly b (claimTotal record)) →
        w'.css.DropInv b.timestamp) := by
  -- a transaction whose rounding does not depend on anything
  have hany : SumsKept w.css w'.css now b → w'.css.Inv b.timestamp ∧ w'.css.RawInv ∧
      (w.css.DropInv now →
        (∀ sender tok record, op = .claim sender tok → events = Op.claimEvents record →
          (w.css.positions tok).CompoundsExactly b (claimTotal record)) →
        w'.css.DropInv b.timestamp) :=
    fun ⟨hinv', hraw', hdrop'⟩ => ⟨hinv', hraw', fun hdrop _ => hdrop' hdrop⟩
  have hlive : ∀ {tok : ℕ}, (w.css.positions tok).identityId ≠ 0 → tok < 2 ^ 256 :=
    fun hid => lt_of_le_of_lt (htokens _ hid) hcount
  cases h with
  | environment | setAdminKey | createProfile | updateOperatorFee | depositTokens | requestFee
  | finalizeFee | cancelFee => exact hany (hinv.sumsKept_of_eq hraw hnow rfl rfl rfl rfl)
  | addTier hrun =>
    exact hany (hinv.sumsKept_call (c := c) hraw hnow (.addTier _ _ _) ⟨hadm.1, hadm.2.2⟩
      trivial hrun)
  | deactivateTier hrun =>
    exact hany (hinv.sumsKept_call (c := c) hraw hnow (.deactivateTier _) trivial trivial hrun)
  | submitProof hproved =>
    exact hany (hinv.sumsKept_call (c := c) hraw hnow (.settleNodeTo _ _) rfl trivial
      hproved.ledger)
  | createConviction hcreated hvault =>
    exact hany (hinv.sumsKept_call (c := c) hraw hnow (.createPosition _ _ _ _ _)
      ⟨hcreated.fits, hadm.1, hadm.2⟩ trivial hcreated.position)
  | migrateV8 htotal hcreated htrac =>
    exact hany (hinv.sumsKept_call (c := c) hraw hnow (.createPosition _ _ _ _ _)
      ⟨hcreated.fits, hadm, htotal⟩ trivial hcreated.position)
  | relock hrelocked =>
    exact hany (hinv.sumsKept_call (c := c) hraw hnow (.createNewPositionFromExisting _ _ _ _)
      ⟨hlive hrelocked.live, hrelocked.fits⟩ trivial hrelocked.position)
  | redelegate hmoved =>
    exact hany (hinv.sumsKept_call (c := c) hraw hnow (.updateOnRedelegate _ _)
      ⟨hlive hmoved.live, hadm⟩ trivial hmoved.position)
  | claim hclaim =>
    obtain ⟨hlive', -⟩ := hclaim.spec hinv hnow
    obtain ⟨hinv', hraw', hdrop'⟩ := hclaim.sums hinv hraw hnow (hlive hlive')
    exact ⟨hinv', hraw', fun hdrop hexact => hdrop' hdrop (hexact _ _ _ rfl rfl)⟩
  | withdraw hout =>
    obtain ⟨w₁, hclaim, hpos, hdelete, -⟩ := hout.claim
    obtain ⟨hlive', -⟩ := hclaim.spec hinv hnow
    obtain ⟨hinv₁, hraw₁, hdrop₁⟩ := hclaim.sums hinv hraw hnow (hlive hlive')
    obtain ⟨hinv', hraw', hdrop'⟩ := hinv₁.sumsKept_call (c := c) hraw₁ le_rfl
      (.deletePosition _) (hlive hlive') trivial hdelete
    refine hany ⟨hinv', hraw', fun hdrop => hdrop' (hdrop₁ hdrop ?_)⟩
    -- the lock is over, so nothing is boosted
    intro hboosted
    have := hout.unlocked
    unfold stillBoosted at hboosted
    omega

end

/-! ## Token ids and claim cursors -/

variable {tok next cur : ℕ} {p : Position}

/-- What holds of the live positions holds after one of them is replaced. -/
lemma live_update {f : ℕ → Position} {Q : ℕ → Position → Prop}
    (hf : ∀ tok, (f tok).identityId ≠ 0 → Q tok (f tok)) (hp : p.identityId ≠ 0 → Q tok p)
    (tok' : ℕ) (hid : (update f tok p tok').identityId ≠ 0) : Q tok' (update f tok p tok') := by
  by_cases htok : tok' = tok
  · subst htok
    rw [Function.update_self] at hid ⊢
    exact hp hid
  · rw [Function.update_of_ne htok] at hid ⊢
    exact hf tok' hid

/-- A live position has a token that was minted and is on a node, has not claimed the epoch `cur`
yet, and was not migrated after what it has claimed. -/
structure CursorOk (next cur tok : ℕ) (p : Position) : Prop where
  minted : tok ≤ next
  node : p.identityId < 2 ^ 72
  claimed : p.lastClaimedEpoch < cur
  migrated : p.migrationEpoch ≤ p.lastClaimedEpoch + 1

/-- All of them are so, and the counter fits its type. -/
structure CursorInv (w : World) (cur : ℕ) : Prop where
  counter : w.nft.nextTokenId < 2 ^ 256
  live : ∀ tok, (w.css.positions tok).identityId ≠ 0 →
    CursorOk w.nft.nextTokenId cur tok (w.css.positions tok)

lemma CursorOk.mono {next' cur' : ℕ} (h : CursorOk next cur tok p) (hnext : next ≤ next')
    (hcur : cur ≤ cur') : CursorOk next' cur' tok p :=
  ⟨h.minted.trans hnext, h.node, lt_of_lt_of_le h.claimed hcur, h.migrated⟩

lemma CursorOk.claimFromEpoch (h : CursorOk next cur tok p) :
    p.claimFromEpoch = p.lastClaimedEpoch + 1 := by
  have := h.migrated
  unfold Position.claimFromEpoch
  rw [if_neg (by omega)]

section

variable {c : Chronos} {b : Block} {w w' : World} {now cur : ℕ}

lemma CursorInv.minted_lt {tok : ℕ} (hcursor : CursorInv w cur)
    (hid : (w.css.positions tok).identityId ≠ 0) : tok < 2 ^ 256 :=
  lt_of_le_of_lt (hcursor.live _ hid).minted hcursor.counter

/-- The positions stay, and no token is taken back. -/
lemma CursorInv.of_eq (h : CursorInv w cur) {cur' : ℕ} (hcur : cur ≤ cur')
    (hpos : w'.css.positions = w.css.positions)
    (hnext : w'.nft.nextTokenId = w.nft.nextTokenId) : CursorInv w' cur' := by
  refine ⟨hnext ▸ h.counter, ?_⟩
  rw [hpos, hnext]
  exact fun tok hid => (h.live tok hid).mono le_rfl hcur

lemma ClaimEffect.cursors {tok : ℕ} {record : Option Claimed}
    (h : ClaimEffect c b w tok w' record) (hcursor : CursorInv w cur)
    (hcur : cur ≤ c.getCurrentEpoch b) (hinv : w.css.Inv now) (hnow : now ≤ b.timestamp) :
    CursorInv w' (c.getCurrentEpoch b) := by
  obtain ⟨hid, -, -, hnft, -, -, -, -, hpos⟩ := h.spec hinv hnow
  have hok := hcursor.live tok hid
  refine ⟨by rw [hnft]; exact hcursor.counter, ?_⟩
  rw [hpos, hnft]
  refine live_update (fun tok' hid' => (hcursor.live tok' hid').mono le_rfl hcur) ?_
  intro _
  refine ⟨hok.minted, hok.node, ?_, ?_⟩
  · have := hok.claimed
    have := c.getCurrentEpoch_pos b
    simp only [Position.afterClaim]
    split <;> omega
  · have hmig := hok.migrated
    have hlt := hok.claimed
    simp only [Position.afterClaim]
    split <;> omega

lemma Effect.cursors {op : Op} {events : List Event} (h : Effect c b w op w' events)
    (hadm : op.Admissible c b) (hcursor : CursorInv w cur) (hcur : cur ≤ c.getCurrentEpoch b)
    (hinv : w.css.Inv now)
    (hraw : w.css.RawInv) (hnow : now ≤ b.timestamp) : CursorInv w' (c.getCurrentEpoch b) := by
  have hpos₁ := c.getCurrentEpoch_pos b
  cases h with
  | environment | setAdminKey | createProfile | updateOperatorFee | depositTokens | requestFee
  | finalizeFee | cancelFee => exact hcursor.of_eq hcur rfl rfl
  | addTier hrun => exact hcursor.of_eq hcur (addTier_spec hrun).2.2 rfl
  | deactivateTier hrun => exact hcursor.of_eq hcur (deactivateTier_spec hrun).2.2 rfl
  | submitProof hproved =>
    exact hcursor.of_eq hcur hproved.spec.2.2.2 (congrArg ConvictionNFT.nextTokenId hproved.nft)
  | createConviction hcreated hvault =>
    obtain ⟨-, -, -, -, -, -, x, hpos⟩ := hcreated.spec hinv hnow
    refine ⟨hcreated.counter ▸ hcreated.fits, ?_⟩
    rw [hpos, hcreated.counter]
    refine live_update (fun tok hid => (hcursor.live tok hid).mono ?_ hcur) fun _ => ?_
    · rw [hcreated.token]
      exact Nat.le_succ _
    · exact ⟨le_rfl, hadm.1, by simp only; omega, Nat.zero_le _⟩
  | migrateV8 htotal hcreated htrac =>
    obtain ⟨-, -, -, -, -, -, x, hpos⟩ := hcreated.spec hinv hnow
    refine ⟨hcreated.counter ▸ hcreated.fits, ?_⟩
    rw [hpos, hcreated.counter]
    refine live_update (fun tok hid => (hcursor.live tok hid).mono ?_ hcur) fun _ => ?_
    · rw [hcreated.token]
      exact Nat.le_succ _
    · refine ⟨le_rfl, hadm, by simp only; omega, ?_⟩
      simp only [uint32_of_lt (c.getCurrentEpoch_lt b)]
      omega
  | relock hrelocked =>
    obtain ⟨-, -, -, -, -, -, x, hpos⟩ := hrelocked.spec hinv hnow
    have hok := hcursor.live _ hrelocked.live
    refine ⟨hrelocked.counter ▸ hrelocked.fits, ?_⟩
    rw [hpos, hrelocked.counter]
    refine live_update (live_update (fun tok hid => (hcursor.live tok hid).mono ?_ hcur)
      fun _ => ?_) fun h0 => absurd rfl h0
    · rw [hrelocked.token]
      exact Nat.le_succ _
    · exact ⟨le_rfl, hok.node, lt_of_lt_of_le hok.claimed hcur, hok.migrated⟩
  | redelegate hmoved =>
    obtain ⟨-, -, -, -, hpos⟩ := hmoved.spec hinv hnow
    refine ⟨by rw [hmoved.counter]; exact hcursor.counter, ?_⟩
    rw [hpos, hmoved.counter]
    refine live_update (fun tok hid => (hcursor.live tok hid).mono le_rfl hcur) fun _ => ?_
    have hok := (hcursor.live _ hmoved.live).mono le_rfl hcur
    exact ⟨hok.minted, hadm, hok.claimed, hok.migrated⟩
  | claim hclaim => exact hclaim.cursors hcursor hcur hinv hnow
  | withdraw hout =>
    obtain ⟨w₁, hclaim, -, -, -, -, -, -, -, hpos⟩ := hout.spec hinv hraw hnow hcursor.minted_lt
    have hcursor₁ := hclaim.cursors hcursor hcur hinv hnow
    obtain ⟨-, -, -, hnft, -⟩ := hclaim.spec hinv hnow
    have hcounter : w'.nft.nextTokenId = w₁.nft.nextTokenId := by rw [hout.counter, hnft]
    refine ⟨by rw [hcounter]; exact hcursor₁.counter, ?_⟩
    rw [hpos, hcounter]
    exact live_update hcursor₁.live fun h0 => absurd rfl h0

end

/-- What every run keeps. -/
structure SysInv (c : Chronos) (s : SysState) : Prop where
  css : s.world.css.Inv s.now
  raw : s.world.css.RawInv
  cursors : CursorInv s.world (c.epochAtTimestamp s.now)

lemma SysInv.init {c : Chronos} {s : SysState} (h : (sysMachine c).init s) : SysInv c s := by
  obtain ⟨hfresh, -⟩ := h
  refine ⟨?_, ?_, ?_, ?_⟩
  · rw [hfresh.css]
    exact seed_inv _
  · rw [hfresh.css]
    exact .seed
  · rw [hfresh.nft]
    norm_num
  · rw [hfresh.css]
    exact fun tok hid => absurd rfl hid

/-- **The step lemma** of the system. -/
lemma SysInv.step {c : Chronos} {s s' : SysState} {l : Block × Op} (h : SysInv c s)
    (hstep : sysStep c s l s') : SysInv c s' := by
  obtain ⟨hnow, hnow', hadm, events, hrun, -⟩ := hstep
  have heff := Op.run_effect hrun
  have hcur := c.epochAtTimestamp_mono hnow
  obtain ⟨hinv, hraw, -⟩ := heff.sums hadm h.css h.raw hnow h.cursors.counter
    fun tok hid => (h.cursors.live tok hid).minted
  rw [← hnow'] at hinv
  refine ⟨hinv, hraw, ?_⟩
  rw [hnow']
  exact heff.cursors hadm h.cursors hcur h.css h.raw hnow

lemma SysState.inv {c : Chronos} {s : SysState} (hr : (sysMachine c).Reachable s) : SysInv c s :=
  hr.invariant (P := SysInv c) (fun _ => SysInv.init) fun _ _ _ h hstep => h.step hstep

end Dkg
