import Dkg.ConvictionStaking.EffectiveStake
import Dkg.Lib.Failure

/-! # The guards of the accounting

When the ledgers have the sums of the positions, the amounts are of their types and there are
fewer than `2^64` positions, no helper of the ledger reverts on a contribution that is really
there; what is left are the guards against a boost that rounds to zero.
-/

namespace Dkg

open Lib NodeLedger Position Finset

/-- The internal accounting errors: they say that the storage has lost track of a position. -/
def Revert.Accounting : Revert → Prop
  | .zeroDrop | .cancelGtScheduled | .negRunningStake | .expiryInPast | .panic => True
  | _ => False

/-- The call does not fail in the accounting. -/
def Accounted {α : Type} (x : Tx α) : Prop := FailsOnly (fun e => ¬ e.Accounting) x

lemma accounted_require {p : Prop} [Decidable p] {e : Revert} (he : ¬ e.Accounting) :
    Accounted (require p e) := by
  intro e' h
  obtain ⟨-, rfl⟩ := require_eq_error.mp h
  exact he

/-! ## The helpers of a ledger -/

namespace NodeLedger

variable {l : NodeLedger} {x d a : ℕ}

lemma applyNodeStakeDelta_pos (h : l.runningNodeEffectiveStake + a < 2 ^ 256) :
    l._applyNodeStakeDelta (a : ℤ) = .ok
      { l with runningNodeEffectiveStake := l.runningNodeEffectiveStake + a } := by
  unfold _applyNodeStakeDelta
  by_cases ha : a = 0
  · rw [if_pos (by exact_mod_cast ha), ha]
    rfl
  · rw [if_neg (by exact_mod_cast ha), if_pos (by omega), Int.toNat_natCast,
      addUint_eq_ok.mpr ⟨h, rfl⟩]
    rfl

lemma applyNodeStakeDelta_neg (h : a ≤ l.runningNodeEffectiveStake) :
    l._applyNodeStakeDelta (-(a : ℤ)) = .ok
      { l with runningNodeEffectiveStake := l.runningNodeEffectiveStake - a } := by
  unfold _applyNodeStakeDelta
  by_cases ha : a = 0
  · rw [if_pos (by omega), ha]
    rfl
  · have hreq : require (l.runningNodeEffectiveStake ≥ a) .negRunningStake = .ok () :=
      require_eq_ok.mpr h
    rw [if_neg (by omega), if_neg (by omega)]
    simp only [neg_neg, Int.toNat_natCast]
    rw [hreq, subUint_eq_ok.mpr ⟨h, rfl⟩]
    rfl

lemma exists_schedule (hd : d ≠ 0) (hx : l.nodeLastSettledAt < x)
    (hfit : l.nodeExpiryDrop x + d < 2 ^ 256) :
    ∃ l', l._scheduleNodeExpiry x d = .ok l' ∧ l'.nodeStakeV10 = l.nodeStakeV10 := by
  unfold _scheduleNodeExpiry
  have hzero : require (d ≠ 0) .zeroDrop = .ok () := require_eq_ok.mpr hd
  have hpast : require (x > l.nodeLastSettledAt) .expiryInPast = .ok () := require_eq_ok.mpr hx
  by_cases hp : l.nodeExpiryPresent x = true
  · exact ⟨_, bind_eq_ok.mpr ⟨_, hzero, bind_eq_ok.mpr ⟨_, hpast, bind_eq_ok.mpr
      ⟨_, addUint_eq_ok.mpr ⟨hfit, rfl⟩, if_pos hp⟩⟩⟩, rfl⟩
  · exact ⟨_, bind_eq_ok.mpr ⟨_, hzero, bind_eq_ok.mpr ⟨_, hpast, bind_eq_ok.mpr
      ⟨_, addUint_eq_ok.mpr ⟨hfit, rfl⟩, if_neg hp⟩⟩⟩, rfl⟩

lemma exists_cancel (h : l.nodeLastSettledAt < x → d ≤ l.nodeExpiryDrop x) :
    ∃ drops, l._cancelNodeExpiry x d = .ok { l with nodeExpiryDrop := drops } ∧
      ∀ t, drops t ≤ l.nodeExpiryDrop t := by
  unfold _cancelNodeExpiry
  by_cases hd : d = 0
  · exact ⟨l.nodeExpiryDrop, if_pos hd, fun _ => le_rfl⟩
  · by_cases hx : x ≤ l.nodeLastSettledAt
    · exact ⟨l.nodeExpiryDrop, by rw [if_neg hd, if_pos hx]; rfl, fun _ => le_rfl⟩
    · have hle := h (by omega)
      have hreq : require (l.nodeExpiryDrop x ≥ d) .cancelGtScheduled = .ok () :=
        require_eq_ok.mpr hle
      rw [if_neg hd, if_neg hx]
      refine ⟨_, bind_eq_ok.mpr ⟨_, hreq, bind_eq_ok.mpr ⟨_, subUint_eq_ok.mpr ⟨hle, rfl⟩, rfl⟩⟩,
        fun t => ?_⟩
      by_cases ht : t = x
      · rw [ht, Function.update_self]
        exact Nat.sub_le _ _
      · rw [Function.update_of_ne ht]

variable {G : Prop} [Decidable G]

/-- A contribution `a` with a drop `d` behind a gate can be put on a ledger with room for it. -/
lemma exists_install (hrun : l.runningNodeEffectiveStake + a < 2 ^ 256)
    (hG : G → d ≠ 0 ∧ l.nodeLastSettledAt < x ∧ l.nodeExpiryDrop x + d < 2 ^ 256) :
    ∃ l₁ l₂, l._applyNodeStakeDelta (a : ℤ) = .ok l₁ ∧
      (if G then l₁._scheduleNodeExpiry x d else pure l₁) = .ok l₂ ∧
      l₂.nodeStakeV10 = l.nodeStakeV10 := by
  by_cases hg : G
  · obtain ⟨hd, hx, hfit⟩ := hG hg
    obtain ⟨l₂, hl₂, hstake⟩ := exists_schedule (l := { l with
      runningNodeEffectiveStake := l.runningNodeEffectiveStake + a }) hd hx hfit
    exact ⟨_, l₂, applyNodeStakeDelta_pos hrun, (if_pos hg).trans hl₂, hstake⟩
  · exact ⟨_, _, applyNodeStakeDelta_pos hrun, if_neg hg, rfl⟩

/-- A contribution that is in the ledger can be taken off it. -/
lemma exists_unwind (hrun : a ≤ l.runningNodeEffectiveStake)
    (hG : G → l.nodeLastSettledAt < x → d ≤ l.nodeExpiryDrop x) :
    ∃ l₁ l₂, l._applyNodeStakeDelta (-(a : ℤ)) = .ok l₁ ∧
      (if G then l₁._cancelNodeExpiry x d else pure l₁) = .ok l₂ ∧
      l₂.nodeStakeV10 = l.nodeStakeV10 ∧ l₂.nodeLastSettledAt = l.nodeLastSettledAt ∧
      l₂.runningNodeEffectiveStake ≤ l.runningNodeEffectiveStake ∧
      ∀ t, l₂.nodeExpiryDrop t ≤ l.nodeExpiryDrop t := by
  by_cases hg : G
  · obtain ⟨drops, hl₂, hdrops⟩ := exists_cancel (l := { l with
      runningNodeEffectiveStake := l.runningNodeEffectiveStake - a }) (hG hg)
    exact ⟨_, _, applyNodeStakeDelta_neg hrun, (if_pos hg).trans hl₂, rfl, rfl, Nat.sub_le _ _,
      hdrops⟩
  · exact ⟨_, _, applyNodeStakeDelta_neg hrun, if_neg hg, rfl, rfl, Nat.sub_le _ _,
      fun _ => le_rfl⟩

end NodeLedger

/-! ## Sizes -/

namespace ConvictionStakingStorage

variable {s s' : ConvictionStakingStorage} {b : Block} {now n : ℕ}

/-- A live position has one of the first `n` tokens, amounts of their types, and has not been
rewarded more than it holds. -/
structure SizeOk (n tok : ℕ) (p : Position) : Prop where
  minted : tok ≤ n
  raw : p.raw < 2 ^ 96
  multiplier : p.multiplier18 < 2 ^ 64
  claimed : p.cumulativeRewardsClaimed ≤ p.raw

/-- All of them are so, and the tiers give multipliers of their type. -/
structure SizeInv (s : ConvictionStakingStorage) (n : ℕ) : Prop where
  live : ∀ tok, (s.positions tok).identityId ≠ 0 → SizeOk n tok (s.positions tok)
  tiers : ∀ k, (s.tiers k).multiplier18 < 2 ^ 64

lemma boosted_lt {a m : ℕ} (ha : a < 2 ^ 96) (hm : m < 2 ^ 64) : boosted a m < 2 ^ 160 := by
  have hprod : a * m < 2 ^ 96 * 2 ^ 64 := Nat.mul_lt_mul'' ha hm
  have hle : a * m / SCALE18 ≤ a * m := Nat.div_le_self _ _
  unfold boosted
  omega

lemma boost_lt {a m : ℕ} (ha : a < 2 ^ 96) (hm : m < 2 ^ 64) : boost a m < 2 ^ 160 := by
  have hprod : a * (m - SCALE18) < 2 ^ 96 * 2 ^ 64 := Nat.mul_lt_mul'' ha (by omega)
  have hle : a * (m - SCALE18) / SCALE18 ≤ a * (m - SCALE18) := Nat.div_le_self _ _
  unfold boost
  omega

/-- A sum over the tokens, of which fewer than `2^64` are in use. -/
lemma sum_tokens_le {f : ℕ → ℕ} (hn : n < 2 ^ 64) (hzero : ∀ tok, n < tok → f tok = 0)
    (hle : ∀ tok, f tok ≤ 2 ^ 160) : ∑ tok ∈ tokenIds, f tok ≤ 2 ^ 224 := by
  have hsub : range (n + 1) ⊆ tokenIds := by
    refine range_subset_range.mpr ?_
    calc n + 1 ≤ 2 ^ 64 := hn
      _ ≤ 2 ^ 256 := Nat.pow_le_pow_right (by norm_num) (by norm_num)
  calc ∑ tok ∈ tokenIds, f tok = ∑ tok ∈ range (n + 1), f tok := by
        refine (sum_subset hsub fun tok _ hout => hzero tok ?_).symm
        rw [mem_range] at hout
        omega
    _ ≤ (range (n + 1)).card • 2 ^ 160 := sum_le_card_nsmul _ _ _ fun tok _ => hle tok
    _ = (n + 1) * 2 ^ 160 := by rw [card_range, smul_eq_mul]
    _ ≤ 2 ^ 64 * 2 ^ 160 := Nat.mul_le_mul_right _ hn
    _ = 2 ^ 224 := by rw [← pow_add]

namespace SizeInv

variable (h : s.SizeInv n) (hn : n < 2 ^ 64)

include h in
lemma dead {tok : ℕ} (htok : n < tok) : (s.positions tok).identityId = 0 := by
  by_contra hid
  have := (h.live tok hid).minted
  omega

include h hn

lemma rawOn_le (id : ℕ) : ∑ tok ∈ tokenIds, (s.positions tok).rawOn id ≤ 2 ^ 224 := by
  refine sum_tokens_le hn (fun tok htok => rawOn_dead (h.dead htok) id) fun tok => ?_
  unfold rawOn
  split
  next hon =>
    have := (h.live tok hon.1).raw
    omega
  next => exact Nat.zero_le _

lemma total_le :
    ∑ tok ∈ tokenIds, (s.positions tok).rawOn (s.positions tok).identityId ≤ 2 ^ 224 := by
  refine sum_tokens_le hn (fun tok htok => rawOn_dead (h.dead htok) _) fun tok => ?_
  unfold rawOn
  split
  next hon =>
    have := (h.live tok hon.1).raw
    omega
  next => exact Nat.zero_le _

lemma boostOn_le (id t : ℕ) : ∑ tok ∈ tokenIds, (s.positions tok).boostOn id t ≤ 2 ^ 224 := by
  refine sum_tokens_le hn (fun tok htok => boostOn_dead (h.dead htok) id t) fun tok => ?_
  unfold boostOn dropAt
  split
  next hon =>
    have hlt := boost_lt (h.live tok hon.1).raw (h.live tok hon.1).multiplier
    split
    · exact hlt.le
    · exact Nat.zero_le _
  next => exact Nat.zero_le _

lemma effectiveOn_le (id ts : ℕ) : s.positionsEffectiveStake id ts ≤ 2 ^ 224 := by
  unfold positionsEffectiveStake
  refine sum_tokens_le hn (fun tok htok => ?_) fun tok => ?_
  · exact if_neg fun hon => hon.1 (h.dead htok)
  · unfold effectiveOn
    split
    next hon =>
      have hraw := (h.live tok hon.1).raw
      have hlt := boosted_lt hraw (h.live tok hon.1).multiplier
      split
      · exact hlt.le
      · omega
    next => exact Nat.zero_le _

end SizeInv

/-! ## Settled ledgers -/

/-- A ledger settled at `ts` that has the sums of the positions. -/
structure Reads (s : ConvictionStakingStorage) (id ts : ℕ) (l : NodeLedger) : Prop where
  settled : l.nodeLastSettledAt = ts
  running : l.runningNodeEffectiveStake = s.positionsEffectiveStake id ts
  stake : l.nodeStakeV10 = ∑ tok ∈ tokenIds, (s.positions tok).rawOn id
  drop : ∀ t > ts, l.nodeExpiryDrop t = ∑ tok ∈ tokenIds, (s.positions tok).boostOn id t

variable {id ts tok a : ℕ} {l : NodeLedger}

lemma reads_of_settle (h : s.Inv now) (hraw : s.RawInv) (hdrop : s.DropInv now)
    (hnow : now ≤ b.timestamp) (hl : (s.ledger id)._settleNodeTo b.timestamp = .ok l) :
    s.Reads id b.timestamp l := by
  obtain ⟨hbal, hlast, hstake, hdrops⟩ := (h.ledger id).settle hnow hl
  refine ⟨hlast, ?_, hstake.trans (hraw.stake id), ?_⟩
  · -- nothing is due any more, so the running stake is what a read gives
    have hrun : s.settleNodeTo id b.timestamp = .ok (s.setLedger id l) := by
      unfold settleNodeTo _settleNodeTo
      exact onLedger_eq_ok.mpr ⟨l, hl, rfl⟩
    have hread := getNodeEffectiveStake_eq (h.settleNodeTo hnow hrun)
      (hraw.of_kept (.of_onLedger (.settle _) hrun))
        (settleNodeTo_dropInv h hnow hdrop hrun) le_rfl id
    unfold getNodeEffectiveStake at hread
    rw [uint40_of_lt b.fits, setLedger_ledger_self] at hread
    obtain ⟨stake, hsim, hsum⟩ := simulate_of_covered (hbal.covered le_rfl) hlast.le
    have hnone : due b.timestamp l.pending = [] := by
      rw [List.eq_nil_iff_forall_not_mem]
      intro t ht
      obtain ⟨hmem, hle⟩ := (mem_due hbal.queue.ascending).mp ht
      have := hbal.queue.after t hmem
      omega
    have hvalue : stake = s.positionsEffectiveStake id b.timestamp :=
      Except.ok.inj (hsim.symm.trans hread)
    rw [hnone, total_nil] at hsum
    omega
  · intro t ht
    rw [hdrops t ht]
    exact hdrop id t (by omega)

lemma exists_settle (h : s.Inv now) (hraw : s.RawInv) (hdrop : s.DropInv now)
    (hnow : now ≤ b.timestamp) (id : ℕ) :
    ∃ l, (s.ledger id)._settleNodeTo b.timestamp = .ok l ∧ s.Reads id b.timestamp l := by
  obtain ⟨l, hl⟩ := (h.ledger id).queue.exists_settled ((h.ledger id).covered le_rfl) b.timestamp
  exact ⟨l, hl, reads_of_settle h hraw hdrop hnow hl⟩

lemma Reads.own (h : s.Reads id ts l) (htok : tok ∈ tokenIds)
    (hid : (s.positions tok).identityId ≠ 0) (hon : (s.positions tok).identityId = id) :
    (s.positions tok).raw ≤ l.nodeStakeV10 ∧
    effectiveNow (s.positions tok).raw (s.positions tok).multiplier18
      (s.positions tok).expiryTimestamp ts ≤ l.runningNodeEffectiveStake ∧
    (ts < (s.positions tok).expiryTimestamp →
      boost (s.positions tok).raw (s.positions tok).multiplier18
        ≤ l.nodeExpiryDrop (s.positions tok).expiryTimestamp) := by
  refine ⟨?_, ?_, ?_⟩
  · have := single_le_sum (f := fun t => (s.positions t).rawOn id)
      (fun _ _ => Nat.zero_le _) htok
    rw [h.stake]
    refine le_trans (le_of_eq ?_) this
    rw [← hon, rawOn_self hid]
  · have := single_le_sum (f := fun t => (s.positions t).effectiveOn id ts)
      (fun _ _ => Nat.zero_le _) htok
    rw [h.running]
    refine le_trans (le_of_eq ?_) this
    unfold effectiveOn
    rw [if_pos ⟨hid, hon⟩]
    rfl
  · intro hlt
    have := single_le_sum
      (f := fun t => (s.positions t).boostOn id (s.positions tok).expiryTimestamp)
      (fun _ _ => Nat.zero_le _) htok
    rw [h.drop _ hlt]
    refine le_trans (le_of_eq ?_) this
    rw [← hon, boostOn_self hid]
    exact (if_pos rfl).symm

/-! ## The mutators -/

lemma increaseNodeStake_accounted (h : (s.ledger id).nodeStakeV10 + a < 2 ^ 256) :
    s.increaseNodeStake id a = .ok (s.setLedger id
      { s.ledger id with nodeStakeV10 := (s.ledger id).nodeStakeV10 + a }) :=
  onLedger_eq_ok.mpr ⟨_, bind_eq_ok.mpr ⟨_, addUint_eq_ok.mpr ⟨h, rfl⟩, rfl⟩, rfl⟩

lemma decreaseNodeStake_accounted (h : a ≤ (s.ledger id).nodeStakeV10) :
    s.decreaseNodeStake id a = .ok (s.setLedger id
      { s.ledger id with nodeStakeV10 := (s.ledger id).nodeStakeV10 - a }) :=
  onLedger_eq_ok.mpr ⟨_, bind_eq_ok.mpr ⟨_, subUint_eq_ok.mpr ⟨h, rfl⟩, rfl⟩, rfl⟩

/-- What a settled ledger holds, in numbers. -/
structure Room (l : NodeLedger) (ts : ℕ) : Prop where
  running : l.runningNodeEffectiveStake ≤ 2 ^ 224
  stake : l.nodeStakeV10 ≤ 2 ^ 224
  drop : ∀ t > ts, l.nodeExpiryDrop t ≤ 2 ^ 224

lemma Reads.room (h : s.Reads id ts l) (hsize : s.SizeInv n) (hn : n < 2 ^ 64) : Room l ts where
  running := h.running ▸ hsize.effectiveOn_le hn id ts
  stake := h.stake ▸ hsize.rawOn_le hn id
  drop := fun t ht => (h.drop t ht).trans_le (hsize.boostOn_le hn id t)

lemma effectiveNow_lt {m : ℕ} (ha : a < 2 ^ 96) (hm : m < 2 ^ 64) (x ts : ℕ) :
    effectiveNow a m x ts < 2 ^ 160 := by
  have := boosted_lt ha hm
  unfold effectiveNow
  split <;> omega

lemma popNodeToken_accounted (h : s.ListedOn id tok) : Accounted (s._popNodeToken id tok) := by
  obtain ⟨s', hrun⟩ := h.exists_pop
  exact .of_ok hrun

/-- The statistics of a position that holds more than it was rewarded. -/
lemma addCumulativeRewardsClaimed_accounted
    (h : (s.positions tok).cumulativeRewardsClaimed + a < 2 ^ 96) :
    Accounted (s.addCumulativeRewardsClaimed tok a) := by
  unfold addCumulativeRewardsClaimed
  refine .bind (accounted_require (fun h => h)) fun _ _ => ?_
  refine .ite (fun _ => .pure _) fun _ => ?_
  refine .bind_ok (addUint_eq_ok.mpr ⟨h, rfl⟩) ?_
  exact .bind (accounted_require (fun h => h)) fun _ _ => .pure _

lemma setLastClaimedEpoch_accounted (tok e : ℕ) : Accounted (s.setLastClaimedEpoch tok e) := by
  unfold setLastClaimedEpoch
  exact .bind (accounted_require (fun h => h)) fun _ _ => .pure _

section

variable (h : s.Inv now) (hraw : s.RawInv) (hdrop : s.DropInv now) (hnow : now ≤ b.timestamp)

include h hraw hdrop hnow

/-- Deleting an unlocked position takes off what is there. -/
lemma deletePosition_accounted (htokens : s.TokenInv) {tok : ℕ} (htok : tok < 2 ^ 256)
    (hunlocked : ¬ stillBoosted (s.positions tok).expiryTimestamp b.timestamp) :
    Accounted (s.deletePosition b tok) := by
  unfold deletePosition
  refine .bind (accounted_require (fun h => h)) fun _ hid => ?_
  rw [require_eq_ok] at hid
  rw [uint40_of_lt b.fits]
  have hlisted := htokens.listedOn hid
  have htotal := hraw.raw_le_total htok hid
  obtain ⟨l₁, hl₁, hreads⟩ := exists_settle h hraw hdrop hnow (s.positions tok).identityId
  obtain ⟨hownRaw, hownEff, -⟩ := hreads.own (mem_range.mpr htok) hid rfl
  generalize hp : s.positions tok = p at *
  obtain ⟨l₂, l₃, hl₂, hl₃, hstake₃, -⟩ := exists_unwind (l := l₁)
    (G := stillBoosted p.expiryTimestamp b.timestamp ∧ p.multiplier18 > SCALE18)
    (x := p.expiryTimestamp) (d := boost p.raw p.multiplier18) hownEff
    (fun hb => absurd hb.1 hunlocked)
  refine .bind_ok (onLedger_eq_ok.mpr ⟨l₁, hl₁, rfl⟩) ?_
  refine .bind_ok (onLedger_eq_ok.mpr ⟨l₂, by rw [setLedger_ledger_self]; exact hl₂, rfl⟩) ?_
  unfold _cancelNodeExpiry
  rw [onLedger_ite]
  refine .bind_ok (onLedger_eq_ok.mpr ⟨l₃, by rw [setLedger_ledger_self]; exact hl₃, rfl⟩) ?_
  refine .bind (popNodeToken_accounted ?_) fun s₄ h₄ => ?_
  · exact hlisted
  have hkept : s₄.ledger p.identityId = l₃ ∧ s₄.totalStakeV10 = s.totalStakeV10 := by
    rw [_popNodeToken_ok h₄]
    exact ⟨setLedger_ledger_self _ _ _, rfl⟩
  refine .bind (.ite (fun _ => ?_) fun _ => .pure _) fun _ _ => .pure _
  unfold _decreaseNodeStakeV10
  refine .bind_ok (decreaseNodeStake_accounted ?_)
    (.bind_ok (subUint_eq_ok.mpr ⟨?_, rfl⟩) (.pure _))
  · rw [hkept.1, hstake₃]
    exact hownRaw
  · show p.raw ≤ s₄.totalStakeV10
    rw [hkept.2]
    exact htotal

variable (hsize : s.SizeInv n) (hn : n < 2 ^ 64)

include hsize hn

/-- Compounding a reward: only a boost that rounds to zero is refused. -/
lemma increaseRaw_accounted {tok a : ℕ} (ha : a < 2 ^ 96)
    (hboost : stillBoosted (s.positions tok).expiryTimestamp b.timestamp → a ≠ 0 →
      boost a (s.positions tok).multiplier18 ≠ 0) : Accounted (s.increaseRaw b tok a) := by
  unfold increaseRaw
  refine .bind (accounted_require (fun h => h)) fun _ hid => ?_
  rw [require_eq_ok] at hid
  refine .ite (fun _ => .pure _) fun hne => ?_
  refine .bind (accounted_require (fun h => h)) fun _ _ => ?_
  rw [uint40_of_lt b.fits]
  have hm := (hsize.live tok hid).multiplier
  generalize hp : s.positions tok = p at *
  obtain ⟨l₁, hl₁, hreads⟩ := exists_settle h hraw hdrop hnow p.identityId
  have hroom := hreads.room hsize hn
  have heff := effectiveNow_lt ha hm p.expiryTimestamp b.timestamp
  have hrunning := hroom.running
  obtain ⟨l₂, l₃, hl₂, hl₃, hstake₃⟩ := exists_install (l := l₁)
    (G := stillBoosted p.expiryTimestamp b.timestamp ∧ p.multiplier18 > SCALE18)
    (x := p.expiryTimestamp) (d := boost a p.multiplier18)
    (a := effectiveNow a p.multiplier18 p.expiryTimestamp b.timestamp) (by omega) (by
      rintro ⟨hb, -⟩
      have hdrop₁ := hroom.drop p.expiryTimestamp hb.2
      have := boost_lt ha hm
      exact ⟨hboost hb hne, by rw [hreads.settled]; exact hb.2, by omega⟩)
  refine .bind_ok (onLedger_eq_ok.mpr ⟨l₁, hl₁, rfl⟩) ?_
  refine .bind_ok (onLedger_eq_ok.mpr ⟨l₂, by rw [setLedger_ledger_self]; exact hl₂, rfl⟩) ?_
  unfold _scheduleNodeExpiry
  rw [onLedger_ite]
  refine .bind_ok (onLedger_eq_ok.mpr ⟨l₃, by rw [setLedger_ledger_self]; exact hl₃, rfl⟩) ?_
  -- the aggregates
  have hstake := hroom.stake
  have htotal := hsize.total_le hn
  rw [← hraw.total] at htotal
  unfold _increaseNodeStakeV10
  refine .bind_ok (increaseNodeStake_accounted ?_) (.bind_ok (addUint_eq_ok.mpr ⟨?_, rfl⟩)
    (.pure _))
  · simp only [setPosition, setLedger_ledger_self]
    omega
  · simp only [setPosition, setLedger]
    omega

/-- Moving a position: its contribution is on the old node, and there is room on the new one. -/
lemma updateOnRedelegate_accounted (htokens : s.TokenInv) {tok new : ℕ} (htok : tok < 2 ^ 256) :
    Accounted (s.updateOnRedelegate b tok new) := by
  unfold updateOnRedelegate
  refine .bind (accounted_require (fun h => h)) fun _ _ => ?_
  refine .bind (accounted_require (fun h => h)) fun _ hid => ?_
  refine .bind (accounted_require (fun h => h)) fun _ hne => ?_
  rw [require_eq_ok] at hid hne
  rw [uint40_of_lt b.fits]
  have hok := hsize.live tok hid
  have hlisted := htokens.listedOn hid
  have hscale := h.scale_le hid
  obtain ⟨o₁, ho₁, hold⟩ := exists_settle h hraw hdrop hnow (s.positions tok).identityId
  obtain ⟨n₁, hn₁, hnew⟩ := exists_settle h hraw hdrop hnow new
  obtain ⟨hownRaw, hownEff, hownDrop⟩ := hold.own (mem_range.mpr htok) hid rfl
  generalize hp : s.positions tok = p at *
  have hroomNew := hnew.room hsize hn
  have heff := effectiveNow_lt hok.raw hok.multiplier p.expiryTimestamp b.timestamp
  have hrunNew := hroomNew.running
  -- the boost that moves is the one still on
  have hbn : (if stillBoosted p.expiryTimestamp b.timestamp ∧ p.multiplier18 > SCALE18
      then boost p.raw p.multiplier18 else 0)
      = boostNow p.raw p.multiplier18 p.expiryTimestamp b.timestamp := rfl
  have hgate : boostNow p.raw p.multiplier18 p.expiryTimestamp b.timestamp ≠ 0 →
      b.timestamp < p.expiryTimestamp ∧
      boostNow p.raw p.multiplier18 p.expiryTimestamp b.timestamp
        = boost p.raw p.multiplier18 := by
    intro hb
    unfold boostNow at hb ⊢
    split at hb
    next hG => exact ⟨hG.1.2, by rw [if_pos hG]⟩
    next => exact absurd rfl hb
  obtain ⟨o₂, o₃, ho₂, ho₃, hstakeOld, -⟩ := exists_unwind (l := o₁)
    (G := boostNow p.raw p.multiplier18 p.expiryTimestamp b.timestamp ≠ 0)
    (x := p.expiryTimestamp) (d := boostNow p.raw p.multiplier18 p.expiryTimestamp b.timestamp)
    hownEff (fun hb _ => by rw [(hgate hb).2]; exact hownDrop (hgate hb).1)
  obtain ⟨n₂, n₃, hn₂, hn₃, hstakeNew⟩ := exists_install (l := n₁)
    (G := boostNow p.raw p.multiplier18 p.expiryTimestamp b.timestamp ≠ 0)
    (x := p.expiryTimestamp) (d := boostNow p.raw p.multiplier18 p.expiryTimestamp b.timestamp)
    (a := effectiveNow p.raw p.multiplier18 p.expiryTimestamp b.timestamp) (by omega) (by
      intro hb
      obtain ⟨hx, heq⟩ := hgate hb
      have hdropNew := hroomNew.drop p.expiryTimestamp hx
      have := boost_lt hok.raw hok.multiplier
      exact ⟨hb, by rw [hnew.settled]; exact hx, by omega⟩)
  have hne' := hne.symm
  simp only [hbn]
  refine .bind_ok (onLedger_eq_ok.mpr ⟨o₁, ho₁, rfl⟩) ?_
  refine .bind_ok (onLedger_eq_ok.mpr
    ⟨n₁, by rw [setLedger_ledger_of_ne _ _ hne']; exact hn₁, rfl⟩) ?_
  refine .bind_ok (onLedger_eq_ok.mpr
    ⟨o₂, by rw [setLedger_ledger_of_ne _ _ hne, setLedger_ledger_self]; exact ho₂, rfl⟩) ?_
  unfold _cancelNodeExpiry _scheduleNodeExpiry
  rw [onLedger_ite]
  refine .bind_ok (onLedger_eq_ok.mpr ⟨o₃, by rw [setLedger_ledger_self]; exact ho₃, rfl⟩) ?_
  refine .bind_ok (onLedger_eq_ok.mpr ⟨n₂, by
    rw [setLedger_ledger_of_ne _ _ hne', setLedger_ledger_of_ne _ _ hne', setLedger_ledger_self]
    exact hn₂, rfl⟩) ?_
  rw [onLedger_ite]
  refine .bind_ok (onLedger_eq_ok.mpr ⟨n₃, by rw [setLedger_ledger_self]; exact hn₃, rfl⟩) ?_
  -- the token lists and the raw aggregates
  refine .bind (popNodeToken_accounted ?_) fun s₇ h₇ => ?_
  · exact hlisted
  have hledger : s₇.ledger p.identityId = o₃ ∧ s₇.ledger new = n₃ := by
    rw [_popNodeToken_ok h₇]
    simp only [setPosition, setLedger_ledger_self]
    rw [setLedger_ledger_of_ne _ _ hne, setLedger_ledger_of_ne _ _ hne, setLedger_ledger_self]
    exact ⟨rfl, trivial⟩
  have hroomStake := hroomNew.stake
  have hrawLt := hok.raw
  refine .bind_ok (decreaseNodeStake_accounted ?_) (.of_ok (increaseNodeStake_accounted ?_))
  · show p.raw ≤ (s₇.ledger p.identityId).nodeStakeV10
    rw [hledger.1, hstakeOld]
    exact hownRaw
  · rw [setLedger_ledger_of_ne _ _ hne']
    show (s₇.ledger new).nodeStakeV10 + p.raw < 2 ^ 256
    rw [hledger.2, hstakeNew]
    omega

/-- Replacing an unlocked position: the new boost must not round to zero, and the new expiry must
fit the type it is computed in. -/
lemma createNewPositionFromExisting_accounted (htokens : s.TokenInv) {old new id tier : ℕ}
    (htok : old < 2 ^ 256)
    (hunlocked : ¬ stillBoosted (s.positions old).expiryTimestamp b.timestamp)
    (hboost : tier ≠ 0 → boost (s.positions old).raw (s.tiers tier).multiplier18 ≠ 0)
    (hexpiry : b.timestamp + (s.tiers tier).duration < 2 ^ 256) :
    Accounted (s.createNewPositionFromExisting b old new id tier) := by
  unfold createNewPositionFromExisting
  iterate 3 refine .bind (accounted_require (fun h => h)) fun _ _ => ?_
  refine .bind (accounted_require (fun h => h)) fun _ hid => ?_
  refine .bind (accounted_require (fun h => h)) fun _ hon => ?_
  refine .bind (accounted_require (fun h => h)) fun _ _ => ?_
  rw [require_eq_ok] at hid hon
  refine .bind ?_ fun m hm => ?_
  · unfold _tierMultiplier
    exact .bind (accounted_require (fun h => h)) fun _ _ => .pure _
  obtain ⟨hexists, rfl⟩ := _tierMultiplier_eq_ok.mp hm
  rw [uint40_of_lt b.fits]
  have hok := hsize.live old hid
  have hlisted := htokens.listedOn hid
  rw [hon] at hlisted
  have htier := hsize.tiers tier
  obtain ⟨l₁, hl₁, hreads⟩ := exists_settle h hraw hdrop hnow id
  obtain ⟨-, hownEff, -⟩ := hreads.own (mem_range.mpr htok) hid hon
  generalize hp : s.positions old = p at *
  have hroom := hreads.room hsize hn
  have hboosted := boosted_lt hok.raw htier
  have hboostLt := boost_lt hok.raw htier
  have hrunning := hroom.running
  obtain ⟨l₂, l₃, hl₂, hl₃, hstake₃, hlast₃, hrun₃, hdrop₃⟩ := exists_unwind (l := l₁)
    (G := stillBoosted p.expiryTimestamp b.timestamp ∧ p.multiplier18 > SCALE18)
    (x := p.expiryTimestamp) (d := boost p.raw p.multiplier18) hownEff
    (fun hb => absurd hb.1 hunlocked)
  refine .bind_ok (onLedger_eq_ok.mpr ⟨l₁, hl₁, rfl⟩) ?_
  refine .bind_ok (onLedger_eq_ok.mpr ⟨l₂, by rw [setLedger_ledger_self]; exact hl₂, rfl⟩) ?_
  unfold _cancelNodeExpiry _scheduleNodeExpiry
  rw [onLedger_ite]
  refine .bind_ok (onLedger_eq_ok.mpr ⟨l₃, by rw [setLedger_ledger_self]; exact hl₃, rfl⟩) ?_
  -- the expiry of the new tier
  refine .bind ?_ fun x hx => ?_
  · unfold _computeExpiryTimestamp _tierDuration
    refine .ite (fun _ => .pure _) fun _ => ?_
    refine .bind (.bind (accounted_require (fun h => h)) fun _ _ => .pure _) fun d hd => ?_
    obtain ⟨_, -, rfl⟩ := of_bind_pure hd
    refine .bind_ok (addUint_eq_ok.mpr ⟨hexpiry, rfl⟩) ?_
    exact .bind (accounted_require (fun h => h)) fun _ _ => .pure _
  replace hx : s._computeExpiryTimestamp b tier = .ok x := hx
  obtain ⟨-, hgate, -⟩ := tier_lock h.tiers hexists hx
  obtain ⟨l₄, l₅, hl₄, hl₅, -⟩ := exists_install (l := l₃)
    (G := tier > 0 ∧ (s.tiers tier).multiplier18 > SCALE18) (x := x)
    (d := boost p.raw (s.tiers tier).multiplier18) (a := boosted p.raw (s.tiers tier).multiplier18)
    (by omega) (by
      rintro ⟨hpos, -⟩
      have hlater := (hgate.mpr hpos).2
      have hdropx := hroom.drop x hlater
      have hdropx₃ := hdrop₃ x
      exact ⟨hboost (by omega), by rw [hlast₃, hreads.settled]; exact hlater, by omega⟩)
  refine .bind_ok (onLedger_eq_ok.mpr ⟨l₄, by rw [setLedger_ledger_self]; exact hl₄, rfl⟩) ?_
  rw [onLedger_ite]
  refine .bind_ok (onLedger_eq_ok.mpr ⟨l₅, by rw [setLedger_ledger_self]; exact hl₅, rfl⟩) ?_
  refine .bind (popNodeToken_accounted ?_) fun _ _ => .pure _
  exact hlisted

end

end ConvictionStakingStorage

end Dkg
