import Dkg.Staking.Invariant

/-! # What a position is owed

The reward of a claim as a function of the storage before it: for each epoch of the window, the
position's part of the node's net reward. `_claim` settles and takes fees on its way and still
pays exactly this sum, whoever claims before.
-/

namespace Dkg

open World ConvictionStakingStorage

/-- The value of a computation, or zero. -/
def valueOrZero {ε : Type} : Except ε ℕ → ℕ
  | .ok n => n
  | .error _ => 0

namespace World

variable (c : Chronos) (b : Block) (w : World)

/-- The net reward of a node's epoch: what the first claim has stored, or what it would store. -/
def netOwed (id e : ℕ) : ℕ :=
  if w.css.isOperatorFeeClaimedForEpoch id e = true then w.css.netNodeEpochRewards id e
  else
    let pool := valueOrZero (w.es.getEpochPool EPOCH_POOL_INDEX e)
    let gross := pool * w.rss.nodeEpochScore id e / w.rss.allNodesEpochScore e
    gross - uint96 (gross * (w.profiles.getLatestOperatorFee id).feePercentage
      / w.params.maxOperatorFee)

/-- The score of a position in a past epoch: settled, and since its cursor. -/
def scoreOwed (tok e : ℕ) : ℕ :=
  let pos := w.css.positions tok
  w.rss.epochNodeDelegatorScore e pos.identityId tok + valueOrZero
    (pos.scoreIncrement c w.rss e pos.identityId
      (w.rss.getEpochLastScorePerStake pos.identityId e)
      (w.rss.delegatorLastSettledNodeEpochScorePerStake e pos.identityId tok))

/-- The reward of a position for a past epoch. -/
def owedAt (tok e : ℕ) : ℕ :=
  let id := (w.css.positions tok).identityId
  if w.rss.getEpochLastScorePerStake id e = 0 then 0
  else w.scoreOwed c tok e * w.netOwed id e / w.rss.nodeEpochScore id e

/-- The reward of a claim at `b`. -/
def owedReward (tok : ℕ) : ℕ :=
  ∑ e ∈ Finset.Ico (w.css.positions tok).claimFromEpoch (c.getCurrentEpoch b), w.owedAt c tok e

end World

section

variable {c : Chronos} {b : Block} {w w' : World}

variable {id tok tok' earned e : ℕ} {css css' : ConvictionStakingStorage} {line : ClaimLine}
  {st : ClaimState}

/-- A settlement of the current epoch does not change what past epochs owe. -/
lemma World.owedAt_settle {cur : ℕ} (he : e ≠ cur) :
    owedAt c { w with rss := w.rss.settle cur id tok earned } tok' e = w.owedAt c tok' e := by
  have hscore : ∀ x y, store₃ w.rss.epochNodeDelegatorScore cur id tok
      (w.rss.epochNodeDelegatorScore cur id tok + earned) e x y
      = w.rss.epochNodeDelegatorScore e x y := fun x y => if_neg fun h => he h.1
  have hcursor : ∀ x y, store₃ w.rss.delegatorLastSettledNodeEpochScorePerStake cur id tok
      (w.rss.getEpochLastScorePerStake id cur) e x y
      = w.rss.delegatorLastSettledNodeEpochScorePerStake e x y := fun x y => if_neg fun h => he h.1
  unfold owedAt scoreOwed RandomSamplingStorage.settle
  simp only [hscore, hcursor]
  rfl

/-- A rewarded epoch takes the net reward that the fee accounts owe it. -/
lemma SplitEffect.net_eq (h : SplitEffect w css id line css')
    (hnode : line.nodeScore = w.rss.nodeEpochScore id line.epoch) :
    line.net = { w with css := css }.netOwed id line.epoch := by
  unfold netOwed
  cases h with
  | taken pool sp hfree hsplit hpool hgross hentry hfee hsum hline hfit =>
    simp only [hfree, hpool, valueOrZero, Bool.false_eq_true, if_false]
    rw [← hnode, ← hgross, ← hentry, ← hfee]
    omega
  | before htaken hsplit hline => exact hline.trans (if_pos htaken).symm
  | unscored hfree hsplit hall hline => simp [hfree, hall, hline]

/-- A split leaves the accounts of the other epochs alone. -/
lemma SplitEffect.other_epoch (h : SplitEffect w css id line css') (he : e ≠ line.epoch) (id' : ℕ) :
    css'.isOperatorFeeClaimedForEpoch id' e = css.isOperatorFeeClaimedForEpoch id' e ∧
      css'.netNodeEpochRewards id' e = css.netNodeEpochRewards id' e := by
  cases h with
  | taken => exact ⟨if_neg fun h => he h.2, if_neg fun h => he h.2⟩
  | before | unscored => exact ⟨rfl, rfl⟩

/-- What a split stores is what it would compute again. -/
lemma SplitEffect.netOwed_kept (h : SplitEffect w css id line css')
    (hnode : line.nodeScore = w.rss.nodeEpochScore id line.epoch) (id' e : ℕ) :
    { w with css := css' }.netOwed id' e = { w with css := css }.netOwed id' e := by
  have hnet := h.net_eq hnode
  cases h with
  | before | unscored => rfl
  | taken pool sp _ _ _ _ _ _ _ hline =>
    by_cases hkey : id' = id ∧ e = line.epoch
    · obtain ⟨rfl, rfl⟩ := hkey
      rw [← hnet, hline]
      exact (if_pos (if_pos ⟨rfl, rfl⟩)).trans (if_pos ⟨rfl, rfl⟩)
    · unfold netOwed setOperatorFeeBalance setNetNodeEpochRewards setIsOperatorFeeClaimedForEpoch
        store₂
      simp only [if_neg hkey]

/-- The loop adds up what the epochs of its window owe, and changes no net reward. -/
lemma World.claimLoop_owed {k : ℕ}
    (h : w.claimLoop c tok (w.css.positions tok) k e ⟨w.css, 0, []⟩ = .ok st) :
    st.rewardTotal = ∑ x ∈ Finset.Ico e (e + k), w.owedAt c tok x ∧
      ∀ id y, { w with css := st.css }.netOwed id y = w.netOwed id y := by
  refine claimLoop_induct (P := fun x st =>
    st.rewardTotal = ∑ x ∈ Finset.Ico e x, w.owedAt c tok x ∧
      ∀ id y, { w with css := st.css }.netOwed id y = w.netOwed id y) k ?_ ?_ h
  rotate_left
  · exact ⟨by simp, fun _ _ => rfl⟩
  rintro x st₁ st₂ hx - ⟨htotal, hkept⟩ hepoch
  rw [Finset.sum_Ico_succ_top hx]
  rcases claimEpoch_ok hepoch with ⟨rfl, hskip⟩ | ⟨line, hline⟩
  · refine ⟨?_, hkept⟩
    have hzero : w.owedAt c tok x = 0 := by
      unfold owedAt
      rcases hskip with hskip | hskip
      · exact if_pos hskip
      · simp only [hskip, Nat.div_zero, ite_self]
    rw [hzero, htotal, add_zero]
  · have hepoch := hline.epoch
    subst hepoch
    obtain ⟨unsettled, hinc, hscore⟩ := hline.score
    have hnet := (hline.split.net_eq hline.nodeScore).trans (hkept _ _)
    refine ⟨?_, fun id y => (hline.split.netOwed_kept hline.nodeScore id y).trans (hkept id y)⟩
    have howed : w.owedAt c tok line.epoch = line.reward := by
      unfold owedAt scoreOwed
      simp only
      rw [if_neg hline.indexed, hinc, hline.reward, hscore, hnet, hline.nodeScore]
      rfl
    rw [hline.total, htotal, howed]

lemma Position.claimFromEpoch_pos (p : Position) : 1 ≤ p.claimFromEpoch := by
  unfold claimFromEpoch
  split <;> omega

lemma World.claimLoop_owedReward (hcur : 1 < c.getCurrentEpoch b)
    (hwin : (w.css.positions tok).claimFromEpoch ≤ c.getCurrentEpoch b - 1) (hloop : claimLoop c
      { w with
        rss := w.rss.settle (c.getCurrentEpoch b) (w.css.positions tok).identityId tok earned }
      tok (w.css.positions tok)
      (c.getCurrentEpoch b - 1 + 1 - (w.css.positions tok).claimFromEpoch)
      (w.css.positions tok).claimFromEpoch ⟨w.css, 0, []⟩ = .ok st) :
    st.rewardTotal = w.owedReward c b tok := by
  have htotal := (claimLoop_owed (w := { w with rss := _ }) hloop).1
  have hend : (w.css.positions tok).claimFromEpoch + (c.getCurrentEpoch b - 1 + 1
      - (w.css.positions tok).claimFromEpoch) = c.getCurrentEpoch b := by omega
  unfold owedReward
  rw [htotal, hend]
  refine Finset.sum_congr rfl fun e he => ?_
  have := (Finset.mem_Ico.mp he).2
  exact owedAt_settle (by omega)

/-- **A claim pays what the position is owed.** -/
lemma ClaimEffect.total_eq {record : Option Claimed} (h : ClaimEffect c b w tok w' record) :
    claimTotal record = w.owedReward c b tok := by
  cases h with
  | nothing hid hwin =>
    have hpos₁ := (w.css.positions tok).claimFromEpoch_pos
    unfold owedReward
    rw [Finset.Ico_eq_empty_of_le (by omega)]
    rfl
  | @window earned st css table rss pos hpos hid hcur hwin hearned hrss hloop hcomp =>
    subst hpos hrss
    have hlines := (claimLoop_ok (w := { w with rss := _ }) hloop).2
    show (st.lines.map ClaimLine.reward).sum = _
    rw [← hlines]
    exact claimLoop_owedReward hcur hwin hloop

/-! ## Claims one after the other -/

variable {now cur : ℕ} {record : Option Claimed}

/-- What is owed depends on the position, the scores and the net reward. -/
lemma World.owedAt_congr (hpos : w'.css.positions tok = w.css.positions tok)
    (hnet : ∀ id, w'.netOwed id e = w.netOwed id e) (hrss : w'.rss = w.rss) :
    w'.owedAt c tok e = w.owedAt c tok e := by
  unfold owedAt scoreOwed
  simp only [hpos, hnet, hrss]

/-- A claim leaves what the other positions hold and what they are owed. -/
lemma ClaimEffect.others_kept (h : ClaimEffect c b w tok w' record) (hinv : w.css.Inv now)
    (hnow : now ≤ b.timestamp) (hother : tok' ≠ tok) :
    w'.css.positions tok' = w.css.positions tok' ∧
      w'.owedReward c b tok' = w.owedReward c b tok' := by
  obtain ⟨-, -, -, -, -, -, -, -, hpos⟩ := h.spec hinv hnow
  have hsame : w'.css.positions tok' = w.css.positions tok' := by
    rw [hpos, Function.update_of_ne hother]
  refine ⟨hsame, ?_⟩
  cases h with
  | nothing => rfl
  | @window earned st css table rss pos hpos' hid hcur hwin hearned hrss hloop hcomp =>
    subst hpos'
    have hlt := c.getCurrentEpoch_lt b
    have hfees := (claimLoop_ok (w := { w with rss := rss }) hloop).1
    have hst : st.css.Inv b.timestamp := by
      rw [hfees]
      exact hinv.of_eq hnow rfl rfl rfl
    obtain ⟨hkept, -⟩ := hcomp.spec (by omega) hst le_rfl
    have hnet := (claimLoop_owed (w := { w with rss := rss }) hloop).2
    unfold owedReward
    rw [hsame]
    refine Finset.sum_congr rfl fun e he => ?_
    have hold : owedAt c { w with rss := rss } tok' e = w.owedAt c tok' e := by
      rw [hrss]
      exact owedAt_settle (ne_of_lt (Finset.mem_Ico.mp he).2)
    rw [← hold]
    refine owedAt_congr hsame (fun id => Eq.trans ?_ (hnet id e)) rfl
    unfold netOwed
    simp only [hkept.flag, hkept.net]

/-- A claim pays its position in full. -/
lemma ClaimEffect.paid_up (h : ClaimEffect c b w tok w' record) (hcursor : CursorInv w cur)
    (hcur : cur ≤ c.getCurrentEpoch b) (hinv : w.css.Inv now) (hnow : now ≤ b.timestamp) :
    (w'.css.positions tok).raw = (w.css.positions tok).raw + w.owedReward c b tok ∧
      w'.owedReward c b tok = 0 := by
  have htotal := h.total_eq
  obtain ⟨hid, -, -, -, -, -, -, -, hpos⟩ := h.spec hinv hnow
  have hafter := congrFun hpos tok
  rw [Function.update_self] at hafter
  have hfrom := ((h.cursors hcursor hcur hinv hnow).live tok
    (by rw [hafter]; exact hid)).claimFromEpoch
  refine ⟨by rw [hafter, ← htotal]; rfl, ?_⟩
  cases h with
  | nothing => exact htotal.symm
  | window =>
    unfold owedReward
    rw [hfrom, hafter, Finset.Ico_eq_empty_of_le]
    · rfl
    · show c.getCurrentEpoch b ≤ c.getCurrentEpoch b - 1 + 1
      omega

end

/-- **Claims do not disturb each other.** From every reachable state on, whatever claims succeed
one after the other within an epoch, each position that claims is paid exactly what it was owed
before the first of them, once, and no other position changes what it holds. -/
theorem claims_pay_what_is_owed (c : Chronos) (claims : List (Block × ℕ × ℕ)) {s s' : SysState}
    {b : Block} (hr : (sysMachine c).Reachable s)
    (hepoch : ∀ l ∈ claims, c.getCurrentEpoch l.1 = c.getCurrentEpoch b)
    (hrun : Lib.Machine.runList (sysExec c) (claims.map fun l => (l.1, .claim l.2.1 l.2.2)) s
      = .ok s') (tok : ℕ) :
    (s'.world.css.positions tok).raw = (s.world.css.positions tok).raw
      + if tok ∈ claims.map (·.2.2) then s.world.owedReward c b tok else 0 := by
  induction claims generalizing s with
  | nil =>
    cases hrun
    rfl
  | cons l claims ih =>
    obtain ⟨s₁, hexec, hrest⟩ := of_bind hrun
    have hr₁ := hr.step (sysStep_of_sysExec _ _ _ _ hexec)
    obtain ⟨hnow, -, -, events, hop, -⟩ := sysStep_of_sysExec _ _ _ _ hexec
    have hinv := SysState.inv hr
    have howed : ∀ w : World, w.owedReward c b tok = w.owedReward c l.1 tok := fun w => by
      unfold owedReward
      rw [hepoch l List.mem_cons_self]
    rw [ih hr₁ (fun l' h => hepoch l' (List.mem_cons_of_mem _ h)) hrest, howed, howed]
    obtain ⟨⟨w₁, record⟩, hcall, hend⟩ := of_bind_pure hop
    obtain ⟨rfl, -⟩ := Prod.mk.inj hend
    obtain ⟨_, -, hclaim⟩ := of_bind hcall
    have heff := _claim_ok hclaim
    by_cases htok : tok = l.2.2
    · -- whatever claims of the position follow, nothing is left for them
      subst htok
      obtain ⟨hraw, hzero⟩ := heff.paid_up hinv.cursors (c.epochAtTimestamp_mono hnow) hinv.css hnow
      rw [hraw, hzero, ite_self, List.map_cons, if_pos List.mem_cons_self]
      rfl
    · obtain ⟨hsame, hkept⟩ := heff.others_kept hinv.css hnow htok
      rw [hsame, hkept, List.map_cons]
      simp only [List.mem_cons, htok, false_or]

/-- Two stakes of one node claim, one of them twice. -/
theorem claims_pay_what_is_owed_two : ∃ s s' : SysState, (sysMachine hourlyChronos).Reachable s ∧
    Lib.Machine.runList (sysExec hourlyChronos)
      [(4700, .claim 7 1), (4700, .claim 7 2), (4701, .claim 7 1)] s = .ok s' ∧
    0 < s.world.owedReward hourlyChronos 4700 1 ∧ 0 < s.world.owedReward hourlyChronos 4700 2 ∧
    ∀ tok ∈ [1, 2], (s'.world.css.positions tok).raw
      = (s.world.css.positions tok).raw + s.world.owedReward hourlyChronos 4700 tok := by
  obtain ⟨s, hrun, htest⟩ := exists_of_succeeds
    (x := Lib.Machine.runList (sysExec hourlyChronos) (stakedSteps.take 3 ++
      [(1002, .createConviction 7 1 100 0), (1003, .submitProof 1 0)]) sysStart)
    (t := fun s => succeeds (Lib.Machine.runList (sysExec hourlyChronos)
      [(4700, .claim 7 1), (4700, .claim 7 2), (4701, .claim 7 1)] s)
      fun _ => decide (0 < s.world.owedReward hourlyChronos 4700 1 ∧
        0 < s.world.owedReward hourlyChronos 4700 2)) (by decide +kernel)
  obtain ⟨s', hclaims, htest⟩ := exists_of_succeeds htest
  obtain ⟨h₁, h₂⟩ := of_decide_eq_true htest
  have hr := sysReachable_of_run hrun
  refine ⟨s, s', hr, hclaims, h₁, h₂, fun tok htok => ?_⟩
  rw [claims_pay_what_is_owed hourlyChronos [(4700, 7, 1), (4700, 7, 2), (4701, 7, 1)] (b := 4700)
    hr (by decide) hclaims, if_pos]
  revert tok
  decide

end Dkg
