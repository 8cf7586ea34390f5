import Dkg.Lib.Failure
import Dkg.Staking.Effects

/-! # How a transaction can fail

The contracts call each other, so a transaction can fail in any of them. The properties of
failures looked at here are about `ConvictionStakingStorage` and the token only (`Elsewhere`), and
each rule below leaves the calls of these two to its user.
-/

namespace Dkg

open Lib ConvictionStakingStorage

/-- Any contract but the storage of the positions and the token. -/
def Contract.Outside : Contract → Prop
  | .convictionStakingStorage => False
  | .token => False
  | _ => True

/-- `P` says nothing about failures outside the two. -/
def Elsewhere (P : Failure → Prop) : Prop := ∀ k e, k.Outside → P ⟨k, e⟩

variable {α : Type} {P : Failure → Prop} {k : Contract} {x : Tx α}

lemma Lib.FailsOnly.inside (h : ∀ e, x = .error e → P ⟨k, e⟩) : FailsOnly P (inside k x) := by
  rintro ⟨k', e⟩ hx
  obtain ⟨rfl, he⟩ := inside_eq_error.mp hx
  exact h e he

lemma Elsewhere.inside (hP : Elsewhere P) (hk : k.Outside) :
    FailsOnly P (inside k x) := .inside fun e _ => hP k e hk

namespace World

variable {P : Failure → Prop} {c : Chronos} {b : Block} {w : World}

lemma prepare_failsOnly (hP : Elsewhere P) (e tok id : ℕ) :
    FailsOnly P (w._prepareForStakeChangeV10 c e tok id) := by
  unfold _prepareForStakeChangeV10
  refine .ite (fun _ => .pure _) fun _ => ?_
  refine .bind (hP.inside trivial) fun _ _ => ?_
  exact .bind (hP.inside trivial) fun _ _ => .pure _

/-- Taking the fee can fail when it is added to the node's balance. -/
lemma netNodeRewards_failsOnly (hP : Elsewhere P) {css : ConvictionStakingStorage}
    {id e nodeScore : ℕ} (hfee : ∀ pool r, w.es.getEpochPool EPOCH_POOL_INDEX e = .ok pool →
      css.isOperatorFeeClaimedForEpoch id e = false →
      addUint 96 (css.nodeOperatorFeeBalance id)
        (uint96 (pool * nodeScore / w.rss.allNodesEpochScore e
          * (w.profiles.getLatestOperatorFee id).feePercentage / w.params.maxOperatorFee))
        = .error r →
      P ⟨.convictionStakingStorage, r⟩) : FailsOnly P (w.netNodeRewards css id e nodeScore) := by
  unfold netNodeRewards
  refine .ite (fun _ => .pure _) fun hflag => .ite (fun _ => ?_) fun _ => .pure _
  rw [Bool.not_eq_true] at hflag
  refine .bind (hP.inside trivial) fun pool hpool => ?_
  refine .bind (hP.inside trivial) fun poolScore hmul => ?_
  refine .bind (hP.inside trivial) fun weighted hweighted => ?_
  refine .bind (hP.inside trivial) fun fee hdiv => ?_
  refine .bind (hP.inside trivial) fun net _ => ?_
  refine .bind (.inside fun r hr => ?_) fun _ _ => .pure _
  rw [inside_eq_ok] at hpool hmul hweighted hdiv
  obtain ⟨-, rfl⟩ := mulUint_eq_ok.mp hmul
  obtain ⟨-, rfl⟩ := mulUint_eq_ok.mp hweighted
  obtain ⟨-, rfl⟩ := divUint_eq_ok.mp hdiv
  refine hfee pool r hpool hflag ?_
  unfold increaseOperatorFeeBalance at hr
  cases hadd : addUint 96 (css.nodeOperatorFeeBalance id)
      (uint96 (pool * nodeScore / w.rss.allNodesEpochScore e
        * (w.profiles.getLatestOperatorFee id).feePercentage / w.params.maxOperatorFee)) with
  | error r' =>
    simp only [setIsOperatorFeeClaimedForEpoch, setNetNodeEpochRewards,
      RandomSamplingStorage.getAllNodesEpochScore] at hr
    rw [hadd] at hr
    cases hr
    rfl
  | ok v =>
    simp only [setIsOperatorFeeClaimedForEpoch, setNetNodeEpochRewards,
      RandomSamplingStorage.getAllNodesEpochScore] at hr
    rw [hadd] at hr
    cases hr

lemma claimEpoch_failsOnly (hP : Elsewhere P) {tok e : ℕ} {pos : Position} {st : ClaimState}
    (hsplit : w.rss.getEpochLastScorePerStake pos.identityId e ≠ 0 →
      0 < w.rss.nodeEpochScore pos.identityId e →
      FailsOnly P (w.netNodeRewards st.css pos.identityId e
        (w.rss.nodeEpochScore pos.identityId e))) : FailsOnly P (w.claimEpoch c tok pos e st) := by
  unfold claimEpoch
  refine .ite (fun _ => .pure _) fun hidx => ?_
  refine .bind (hP.inside trivial) fun _ _ => ?_
  refine .bind (hP.inside trivial) fun _ _ => ?_
  refine .ite (fun hscore => ?_) fun _ => .pure _
  refine .bind (hsplit hidx hscore) fun _ _ => ?_
  refine .bind (hP.inside trivial) fun _ _ => ?_
  exact .bind (hP.inside trivial) fun _ _ => .pure _

/-- What the epochs of a window keep, and every epoch's failures. -/
lemma claimLoop_failsOnly {tok : ℕ} {pos : Position} {I : ℕ → ClaimState → Prop} (k : ℕ) :
    ∀ {e : ℕ} {st : ClaimState},
      (∀ x st₁, e ≤ x → x < e + k → I x st₁ → FailsOnly P (w.claimEpoch c tok pos x st₁) ∧
        ∀ st₂, w.claimEpoch c tok pos x st₁ = .ok st₂ → I (x + 1) st₂) →
      I e st → FailsOnly P (w.claimLoop c tok pos k e st) := by
  induction k with
  | zero => exact fun _ _ => .pure _
  | succ k ih =>
    intro e st hstep hI
    obtain ⟨hfails, hnext⟩ := hstep e st le_rfl (by omega) hI
    refine .bind hfails fun st₁ h₁ => ih ?_ (hnext st₁ h₁)
    exact fun x st₂ hx hlt => hstep x st₂ (by omega) (by omega)

lemma _claim_failsOnly (hP : Elsewhere P) {tok : ℕ}
    (hloop : ∀ earned, Earned c w (c.getCurrentEpoch b) tok (w.css.positions tok).identityId earned
      →
      (w.css.positions tok).identityId ≠ 0 → 1 < c.getCurrentEpoch b →
      (w.css.positions tok).claimFromEpoch ≤ c.getCurrentEpoch b - 1 →
      ∀ w₁, w₁ = { w with
          rss := w.rss.settle (c.getCurrentEpoch b) (w.css.positions tok).identityId tok
            earned } →
      FailsOnly P (w₁.claimLoop c tok (w.css.positions tok)
        (c.getCurrentEpoch b - 1 + 1 - (w.css.positions tok).claimFromEpoch)
        (w.css.positions tok).claimFromEpoch ⟨w.css, 0, []⟩) ∧
      ∀ st, w₁.claimLoop c tok (w.css.positions tok)
          (c.getCurrentEpoch b - 1 + 1 - (w.css.positions tok).claimFromEpoch)
          (w.css.positions tok).claimFromEpoch ⟨w.css, 0, []⟩ = .ok st →
        FailsOnly P (World.compound b { w₁ with css := st.css } tok
          (w.css.positions tok).identityId (c.getCurrentEpoch b - 1) st.rewardTotal)) :
    FailsOnly P (w._claim c b tok) := by
  unfold _claim
  refine .bind (hP.inside trivial) fun _ hid => ?_
  rw [inside_eq_ok, require_eq_ok] at hid
  refine .ite (fun _ => .pure _) fun hcur => .ite (fun _ => .pure _) fun hwin => ?_
  refine .bind (prepare_failsOnly hP _ _ _) fun w₁ hprep => ?_
  obtain ⟨earned, hearned, rfl⟩ := prepare_ok hprep
  obtain ⟨hrun, hend⟩ := hloop earned hearned hid (by omega) (by omega) _ rfl
  refine .bind hrun fun st hst => ?_
  exact .bind (hend st hst) fun _ _ => .pure _

end World

end Dkg
