import Dkg.Staking.Integral
import Dkg.Staking.Scores

/-! # The score of an epoch in which a position is relocked

A relock settles the score of the running epoch under the token that it burns, and the position goes
on under a new token, without a score and with the cursor at zero. The next claim therefore counts
the whole epoch at the new effective stake, and never the settled score. `relock_score_iff` says
when that is the score the two positions have accrued.
-/

namespace Dkg

open Lib SysState Position

namespace Position

variable (p : Position) (ei : EpochIndex)

/-- The part of the index that a claim counts at the boosted stake: all of it without a boost. -/
def ratedTo : ℕ :=
  if boosted p.raw p.multiplier18 = p.raw then ei.lastScorePerStake36 else p.boostMark ei

/-- The settled score is what the index up to `start` gives at the effective stake of the position,
rounded like in a claim. -/
def RatesBefore (start settled : ℕ) : Prop :=
  boosted p.raw p.multiplier18 * p.ratedTo ei / SCALE18
    = settled + boosted p.raw p.multiplier18 * (p.ratedTo ei - start) / SCALE18
  deriving Decidable

end Position

lemma SplitFits.mono {effBoosted effBase before after before' : ℕ}
    (h : SplitFits effBoosted effBase before after) (hle : before' ≤ before) :
    SplitFits effBoosted effBase before' after := by
  unfold SplitFits at h ⊢
  split at h
  next heq =>
    rw [if_pos heq]
    exact lt_of_le_of_lt (Nat.mul_le_mul_left _ (Nat.add_le_add_right hle _)) h
  next heq =>
    rw [if_neg heq]
    exact ⟨lt_of_le_of_lt (Nat.mul_le_mul_left _ hle) h.1, h.2⟩

lemma valueOrZero_ok {ε : Type} {x : Except ε ℕ} {n : ℕ} (h : x = .ok n) : valueOrZero x = n := by
  rw [h]
  rfl

variable {c : Chronos} {id : ℕ}

/-- The score of the whole index, and of the index since `start`: they differ in the part up to the
end of the lock. -/
lemma Position.scoreIncrement_since {e now start v : ℕ} {p : Position} {r : RandomSamplingStorage}
    (h : IndexOk c e now (r.nodeEpochIndex id e)) (hexpiry : p.expiryTimestamp < 2 ^ 40)
    (hstart : start ≤ p.ratedTo (r.nodeEpochIndex id e))
    (hrun : p.scoreIncrement c r e id (r.getEpochLastScorePerStake id e) 0 = .ok v) :
    ∃ v', p.scoreIncrement c r e id (r.getEpochLastScorePerStake id e) start = .ok v' ∧
      v + boosted p.raw p.multiplier18 * (p.ratedTo (r.nodeEpochIndex id e) - start) / SCALE18
        = v' + boosted p.raw p.multiplier18 * p.ratedTo (r.nodeEpochIndex id e) / SCALE18 := by
  have hmarkLe := boostMark_le (p := p) h
  have hrated : p.ratedTo (r.nodeEpochIndex id e)
      ≤ (r.nodeEpochIndex id e).lastScorePerStake36 := by
    unfold ratedTo
    split
    · exact le_rfl
    · exact hmarkLe
  rw [scoreIncrement_eq_split h hexpiry (Nat.zero_le _)] at hrun
  simp only [scoreIncrement_eq_split h hexpiry (hstart.trans hrated)]
  generalize r.nodeEpochIndex id e = ei at h hstart hmarkLe hrun ⊢
  rw [Nat.sub_zero, max_eq_left (Nat.zero_le _), splitScore_eq_ok] at hrun
  obtain ⟨hfits, rfl⟩ := hrun
  by_cases hflat : boosted p.raw p.multiplier18 = p.raw
  · -- one stake for the whole index
    have hall : p.ratedTo ei = ei.lastScorePerStake36 := if_pos hflat
    have hsum : p.boostMark ei + (ei.lastScorePerStake36 - p.boostMark ei)
        = ei.lastScorePerStake36 := by omega
    have hsince : (p.boostMark ei - start) + (ei.lastScorePerStake36 - max (p.boostMark ei) start)
        = ei.lastScorePerStake36 - start := by omega
    unfold SplitFits at hfits
    rw [if_pos hflat, hsum] at hfits
    refine ⟨_, splitScore_eq_ok.mpr ⟨?_, rfl⟩, ?_⟩
    · unfold SplitFits
      rw [if_pos hflat, hsince]
      exact lt_of_le_of_lt (Nat.mul_le_mul_left _ (Nat.sub_le _ _)) hfits
    · rw [if_pos hflat, if_pos hflat, hsum, hsince, hall, hflat]
      exact Nat.add_comm _ _
  · have hmark : p.ratedTo ei = p.boostMark ei := if_neg hflat
    rw [hmark] at hstart
    rw [hmark, max_eq_left hstart, if_neg hflat]
    refine ⟨_, splitScore_eq_ok.mpr ⟨hfits.mono (Nat.sub_le _ _), rfl⟩, ?_⟩
    rw [if_neg hflat]
    omega

lemma Proved.read_mono {stake score next : ℕ} (h : Proved c b w id stake score w')
    (hkeys : KeyInv c w.rss next b.timestamp) (id' e t : ℕ) :
    (w.rss.nodeEpochIndex id' e).findScorePerStakeAt t
      ≤ (w'.rss.nodeEpochIndex id' e).findScorePerStakeAt t := by
  by_cases hstake : 0 < stake
  · obtain ⟨ei', hstore, -, -, hread⟩ := h.index_spec hkeys hstake
    rw [hstore]
    unfold store₂
    split
    next hkey =>
      obtain ⟨rfl, rfl⟩ := hkey
      rw [hread]
      split
      · calc (w.rss.nodeEpochIndex id' (c.getCurrentEpoch b)).findScorePerStakeAt t
            ≤ w.rss.getEpochLastScorePerStake id' (c.getCurrentEpoch b) :=
              (hkeys.index id' (c.getCurrentEpoch b)).find_le t
          _ ≤ _ := Nat.le_add_right _ _
      · exact le_rfl
    next => exact le_rfl
  · have hindex := h.index
    rw [if_neg hstake] at hindex
    rw [hindex]

/-- A claim before the first epoch of its window is over does nothing. -/
lemma Op.claim_idle {sender tok : ℕ} {events : List Event}
    (hrun : (Op.claim sender tok).run c b w = .ok (w', events))
    (hidle : c.getCurrentEpoch b ≤ (w.css.positions tok).claimFromEpoch) : w' = w := by
  obtain ⟨⟨w₁, record⟩, hclaim, hend⟩ := of_bind_pure hrun
  cases hend
  obtain ⟨_, -, hclaim⟩ := of_bind hclaim
  cases World._claim_ok hclaim with
  | nothing => rfl
  | window hpos hid hcur hwin =>
    rw [hpos] at hwin
    omega

/-! ## Between the relock and the next claim -/

/-- A step that is not about the position, or a claim of it before the epoch `e` is over, which has
nothing to do. -/
def Unclaimed (c : Chronos) (tok e : ℕ) (_ : SysState) (l : Block × Op) : Prop :=
  l.2.Handles tok → (∃ sender, l.2 = .claim sender tok) ∧ c.getCurrentEpoch l.1 ≤ e

/-- What holds until the next claim: the keys of the new token are empty, and the index reads at
least `start` from the relock on. -/
structure SinceRelock (e id tok start : ℕ) (b : Block) (p : Position) (s : SysState) : Prop where
  later : b.timestamp ≤ s.now
  minted : tok ≤ s.world.nft.nextTokenId
  position : s.world.css.positions tok = p
  score : s.world.rss.epochNodeDelegatorScore e id tok = 0
  cursor : s.world.rss.delegatorLastSettledNodeEpochScorePerStake e id tok = 0
  reads : ∀ t, b.timestamp ≤ t → start ≤ (s.world.rss.nodeEpochIndex id e).findScorePerStakeAt t

section

variable {c : Chronos} {s s' s₀ s₁ : SysState} {b : Block}
  {e id tok start sender old tier : ℕ} {p : Position}

lemma SinceRelock.step {l : Block × Op} (hr : (sysMachine c).Reachable s)
    (h : SinceRelock e id tok start b p s) (hfrom : p.claimFromEpoch = e)
    (hquiet : Unclaimed c tok e s l) (hstep : sysStep c s l s') :
    SinceRelock e id tok start b p s' := by
  obtain ⟨hnow, hnow', -, events, hrun, -⟩ := hstep
  have hinv := inv hr
  have heff := Op.run_effect hrun
  have hcur := c.epochAtTimestamp_mono hnow
  have hnext := (heff.cursorStep hinv.cursors hcur hinv.css hinv.raw hnow).next
  have hlater : b.timestamp ≤ s'.now := hnow' ▸ h.later.trans hnow
  by_cases hhandles : l.2.Handles tok
  · -- a claim before the epoch is over
    obtain ⟨⟨sender, hop⟩, hepoch⟩ := hquiet hhandles
    rw [hop] at hrun
    have hsame : s'.world = s.world := by
      refine Op.claim_idle hrun ?_
      rw [h.position, hfrom]
      exact hepoch
    refine ⟨hlater, ?_, ?_, ?_, ?_, ?_⟩
    · exact hsame ▸ h.minted
    · exact hsame ▸ h.position
    · exact hsame ▸ h.score
    · exact hsame ▸ h.cursor
    · exact hsame ▸ h.reads
  · have hposition := heff.position_kept hinv.cursors hinv.css hinv.raw hnow h.minted hhandles
    rcases heff.settles with hsettles | ⟨_, _, _, _, -, hproved⟩
    · have hfree : ¬ (l.2.Handles tok ∨ s.world.nft.nextTokenId < tok) := by
        rintro (hhandled | hnew)
        · exact hhandles hhandled
        · exact absurd h.minted (not_le.mpr hnew)
      obtain ⟨hscore, hcursor⟩ := hsettles.kept hfree e id
      refine ⟨hlater, h.minted.trans hnext, hposition.trans h.position, hscore.trans h.score,
        hcursor.trans h.cursor, ?_⟩
      rw [hsettles.onlySettled.index]
      exact h.reads
    · have hkeys := (scores hr).keys.mono le_rfl hnow
      refine ⟨hlater, h.minted.trans hnext, hposition.trans h.position, ?_, ?_, ?_⟩
      · rw [hproved.delegators]
        exact h.score
      · rw [hproved.cursors]
        exact h.cursor
      · exact fun t ht => (h.reads t ht).trans (hproved.read_mono hkeys id e t)

lemma SinceRelock.steps (hr : (sysMachine c).Reachable s) (h : SinceRelock e id tok start b p s)
    (hfrom : p.claimFromEpoch = e) (hs : ((sysMachine c).restrict (Unclaimed c tok e)).Steps s s') :
    (sysMachine c).Reachable s' ∧ SinceRelock e id tok start b p s' := by
  induction hs with
  | refl => exact ⟨hr, h⟩
  | tail _ hstep ih => exact ⟨ih.1.step hstep.2, ih.2.step ih.1 hfrom hstep.1 hstep.2⟩

/-- A relock, as a transaction. -/
lemma relocked_of_sysStep (hstep : sysStep c s₀ (b, .relock sender old tier) s₁) :
    Relocked c b s₀.world old (s₀.world.nft.nextTokenId + 1) tier s₁.world := by
  obtain ⟨-, -, -, events, hrun, -⟩ := hstep
  obtain ⟨w₁, hrelock, hend⟩ := of_bind_pure hrun
  cases hend
  exact World.relockPosition_ok hrelock

end

/-- A position `old` that is relocked in the epoch `e` on the node `id` and goes on under the token
`new`, which has not been claimed since. -/
structure RelockRun (c : Chronos) (old new id e : ℕ) (s₀ s₁ s₂ : SysState) : Prop where
  reachable : (sysMachine c).Reachable s₀
  relock : ∃ b sender tier, sysStep c s₀ (b, .relock sender old tier) s₁ ∧ c.getCurrentEpoch b = e
  node : (s₀.world.css.positions old).identityId = id
  token : s₁.world.nft.nextTokenId = new
  unclaimed : ((sysMachine c).restrict (Unclaimed c new e)).Steps s₁ s₂

namespace RelockRun

variable {c : Chronos} {old new id e : ℕ} {s₀ s₁ s₂ : SysState}
  (h : RelockRun c old new id e s₀ s₁ s₂)

include h

lemma start : ∃ b, SinceRelock e id new (s₁.world.rss.getEpochLastScorePerStake id e) b
    (s₁.world.css.positions new) s₁ ∧ (s₁.world.css.positions new).identityId = id ∧ id ≠ 0 ∧
      (s₁.world.css.positions new).claimFromEpoch = e ∧
        ((s₁.world.css.positions new).expiryTimestamp ≠ 0 →
          b.timestamp < (s₁.world.css.positions new).expiryTimestamp) := by
  obtain ⟨b, sender, tier, hstep, he⟩ := h.relock
  have hrelocked := relocked_of_sysStep hstep
  have hnow := hstep.1
  have hnow' := hstep.2.1
  have hinv := inv h.reachable
  have hkeys := (scores h.reachable).keys
  have hr₁ := h.reachable.step hstep
  have hnew : new = s₀.world.nft.nextTokenId + 1 := h.token.symm.trans hrelocked.counter
  obtain ⟨-, -, hne, hid, -, hexists, x, l, hx, -, hs'⟩ :=
    ConvictionStakingStorage.createNewPositionFromExisting_ok hinv.css.tiers hinv.css.scale_le
      (hinv.css.ledger _) hnow hrelocked.position
  have hposition : s₁.world.css.positions new
      = { s₀.world.css.positions old with
          lockTier := tier
          expiryTimestamp := x
          multiplier18 := (s₀.world.css.tiers tier).multiplier18 } := by
    rw [hs', hnew]
    show Function.update (Function.update s₀.world.css.positions _ _) old zero _ = _
    rw [Function.update_of_ne hne.symm, Function.update_self]
  obtain ⟨earned, -, hrss⟩ := hrelocked.settled
  have hfresh := hkeys.fresh new (by omega) e id
  have hnot : ¬ (e = c.getCurrentEpoch b ∧ id = (s₀.world.css.positions old).identityId ∧
      new = old) := fun hkey => hne (by rw [← hkey.2.2, hnew])
  refine ⟨b, ⟨hnow'.ge, h.token.ge, rfl, ?_, ?_, ?_⟩, ?_, ?_, ?_, ?_⟩
  · rw [hrss]
    unfold RandomSamplingStorage.settle store₃
    simp only [if_neg hnot]
    exact hfresh.1
  · rw [hrss]
    unfold RandomSamplingStorage.settle store₃
    simp only [if_neg hnot]
    exact hfresh.2
  · intro t ht
    exact (((scores hr₁).keys.index id e).find_of_le (hnow'.trans_le ht)).ge
  · rw [hposition]
    exact h.node
  · exact h.node ▸ hrelocked.live
  · -- all epochs before are claimed, and this one is not
    have hok := hinv.cursors.live old hrelocked.live
    have hclaimed := hrelocked.claimed
    have hlt : (s₀.world.css.positions old).lastClaimedEpoch < c.getCurrentEpoch b :=
      lt_of_lt_of_le hok.claimed (c.epochAtTimestamp_mono hnow)
    have hpos := c.getCurrentEpoch_pos b
    have hfrom : (s₁.world.css.positions new).claimFromEpoch
        = (s₀.world.css.positions old).lastClaimedEpoch + 1 := by
      rw [hposition]
      exact hok.claimFromEpoch
    omega
  · rw [hposition]
    intro hlock
    obtain ⟨-, -, hboosted⟩ := ConvictionStakingStorage.tier_lock hinv.css.tiers hexists hx
    exact (hboosted.mpr hlock).2

end RelockRun

/-- What a position has scored on its node since a value of the index. -/
def World.scoreSince (c : Chronos) (w : World) (tok e start : ℕ) : ℕ :=
  valueOrZero ((w.css.positions tok).scoreIncrement c w.rss e (w.css.positions tok).identityId
    (w.rss.getEpochLastScorePerStake (w.css.positions tok).identityId e) start)

/-- A new lock ends after the relock, so all growth before the relock counts as boosted. -/
lemma SinceRelock.start_le {c : Chronos} {e id tok start : ℕ} {b : Block} {p : Position}
    {s : SysState} (h : SinceRelock e id tok start b p s) (hr : (sysMachine c).Reachable s)
    (hlock : p.LockInv) (hafter : p.expiryTimestamp ≠ 0 → b.timestamp < p.expiryTimestamp) :
    start ≤ p.ratedTo (s.world.rss.nodeEpochIndex id e) := by
  unfold ratedTo
  split
  next =>
    calc start ≤ (s.world.rss.nodeEpochIndex id e).findScorePerStakeAt b.timestamp :=
          h.reads b.timestamp le_rfl
      _ ≤ _ := ((scores hr).keys.index id e).find_le _
  next hboost =>
    have hexpiry : p.expiryTimestamp ≠ 0 := by
      intro hzero
      rcases hlock with ⟨-, hscale⟩ | ⟨hnone, -⟩
      · apply hboost
        rw [hscale, boosted_eq le_rfl, boost_scale, Nat.add_zero]
      · exact hnone hzero
    unfold boostMark
    rw [if_neg hexpiry]
    exact h.reads _ (hafter hexpiry).le

/-- **The score of the epoch of a relock.** The first claim of the new position uses the score that
the old one had settled and the score since the relock, exactly if the settled score is what the
index up to the relock gives at the new effective stake. -/
theorem relock_score_iff {c : Chronos} {old new id e : ℕ} {s₀ s₁ s₂ : SysState}
    (h : RelockRun c old new id e s₀ s₁ s₂) {b : Block} {w' : World} {record : Claimed}
    (hclaim : s₂.world._claim c b new = .ok (w', some record)) :
    record.scoreAt e = s₁.world.rss.epochNodeDelegatorScore e id old
        + s₂.world.scoreSince c new e (s₁.world.rss.getEpochLastScorePerStake id e) ↔
      (s₂.world.css.positions new).RatesBefore (s₂.world.rss.nodeEpochIndex id e)
        (s₁.world.rss.getEpochLastScorePerStake id e)
        (s₁.world.rss.epochNodeDelegatorScore e id old) := by
  obtain ⟨b₁, hsince, hid, hne, hfrom, hafter⟩ := h.start
  obtain ⟨b₁', sender, tier, hstep, -⟩ := h.relock
  obtain ⟨hr, hend⟩ := hsince.steps (h.reachable.step hstep) hfrom h.unclaimed
  have hinv := inv hr
  have hscores := scores hr
  have hposition := hend.position
  have hlive : (s₂.world.css.positions new).identityId ≠ 0 := by
    rw [hposition, hid]
    exact hne
  have hstart := hend.start_le hr (hposition ▸ hinv.css.locks new hlive) hafter
  have hexpiry := hscores.expiries new hlive
  rw [← hposition] at hstart hid hfrom
  -- the claim covers the epoch
  have hcovers : record.Covers e := by
    obtain ⟨-, -, hfirst, -, hshape⟩ := (World._claim_ok hclaim).record hinv.cursors
    have hcursor := (hinv.cursors.live new hlive).claimFromEpoch
    have hwindow := hshape.window
    unfold World.claimedUpTo at hfirst
    constructor
    · omega
    · omega
  obtain ⟨v, hinc, hused⟩ := owes hr hclaim hcovers
  rw [hid, hend.score, Nat.zero_add] at hused
  rw [hid, hend.cursor] at hinc
  obtain ⟨v', hinc', hsum⟩ := scoreIncrement_since (hscores.keys.index id e) hexpiry hstart hinc
  have hscoreSince : s₂.world.scoreSince c new e (s₁.world.rss.getEpochLastScorePerStake id e)
      = v' := by
    unfold World.scoreSince
    rw [hid]
    exact valueOrZero_ok hinc'
  rw [hused, hscoreSince]
  unfold Position.RatesBefore
  constructor
  · intro heq
    omega
  · intro heq
    omega

/-! ## When the settled score is what the index gives -/

lemma RelockRun.rates_unproved {c : Chronos} {old new id e : ℕ} {s₀ s₁ s₂ : SysState}
    (h : RelockRun c old new id e s₀ s₁ s₂)
    (hnone : s₁.world.rss.getEpochLastScorePerStake id e = 0) :
    (s₂.world.css.positions new).RatesBefore (s₂.world.rss.nodeEpochIndex id e)
      (s₁.world.rss.getEpochLastScorePerStake id e)
      (s₁.world.rss.epochNodeDelegatorScore e id old) := by
  obtain ⟨b, sender, tier, hstep, -⟩ := h.relock
  have hscored := (scores (h.reachable.step hstep)).scored
  have hsettled : s₁.world.rss.epochNodeDelegatorScore e id old = 0 := by
    by_contra hne
    exact (hscored.settled e id old (Nat.pos_of_ne_zero hne)).ne' hnone
  unfold RatesBefore
  rw [hnone, hsettled, Nat.sub_zero, Nat.zero_add]

/-- A position relocked before the first proof of the epoch, which then claims what it has scored
since. -/
theorem relock_score_before_proof : ∃ s₀ s₁ s₂ w' record,
    RelockRun hourlyChronos 1 2 1 1 s₀ s₁ s₂ ∧
    s₂.world._claim hourlyChronos ⟨4700, by decide⟩ 2 = .ok (w', some record) ∧
    0 < record.scoreAt 1 ∧
    record.scoreAt 1 = s₁.world.rss.epochNodeDelegatorScore 1 1 1
      + s₂.world.scoreSince hourlyChronos 2 1 (s₁.world.rss.getEpochLastScorePerStake 1 1) := by
  obtain ⟨s₀, hr, htest⟩ := exists_reachable
    [(1001, .createProfile 9 1000),
     (1002, .createConviction 7 1 100 0)]
    (fun s₀ => succeeds (sysExec hourlyChronos s₀ (1003, .relock 7 1 12))
      fun s₁ => succeeds (sysExec hourlyChronos s₁ (1004, .submitProof 1 0))
      fun s₂ => succeeds (s₂.world._claim hourlyChronos ⟨4700, by decide⟩ 2)
      fun out => decide ((s₀.world.css.positions 1).identityId = 1 ∧
        s₁.world.nft.nextTokenId = 2 ∧ s₁.world.rss.getEpochLastScorePerStake 1 1 = 0 ∧
        ∃ record ∈ out.2, 0 < record.scoreAt 1))
    (by decide +kernel)
  obtain ⟨s₁, hrelock, htest⟩ := exists_of_succeeds htest
  obtain ⟨s₂, hproof, htest⟩ := exists_of_succeeds htest
  obtain ⟨⟨w', found⟩, hclaim, htest⟩ := exists_of_succeeds htest
  obtain ⟨hnode, htoken, hnone, record, hrecord, hpos⟩ := of_decide_eq_true htest
  obtain rfl : found = some record := hrecord
  have hquiet : Unclaimed hourlyChronos 2 1 s₁ (1004, .submitProof 1 0) :=
    fun hhandles => absurd hhandles id
  have hall : RelockRun hourlyChronos 1 2 1 1 s₀ s₁ s₂ :=
    ⟨hr, ⟨_, 7, 12, sysStep_of_sysExec _ _ _ _ hrelock, rfl⟩, hnode, htoken,
      .tail .refl ⟨hquiet, sysStep_of_sysExec _ _ _ _ hproof⟩⟩
  exact ⟨s₀, s₁, s₂, w', record, hall, hclaim, hpos,
    (relock_score_iff hall hclaim).mpr (hall.rates_unproved hnone)⟩

/-- A position relocked to a sixfold boost after the proof of the epoch: the next claim uses six
times the score that it had settled. -/
theorem relock_score_rerated : ∃ s₀ s₁ w' record,
    RelockRun hourlyChronos 1 2 1 1 s₀ s₁ s₁ ∧
    s₁.world._claim hourlyChronos ⟨4700, by decide⟩ 2 = .ok (w', some record) ∧
    0 < s₁.world.rss.epochNodeDelegatorScore 1 1 1 ∧
    s₁.world.scoreSince hourlyChronos 2 1 (s₁.world.rss.getEpochLastScorePerStake 1 1) = 0 ∧
    record.scoreAt 1 = 6 * s₁.world.rss.epochNodeDelegatorScore 1 1 1 ∧
    ¬ record.scoreAt 1 = s₁.world.rss.epochNodeDelegatorScore 1 1 1
      + s₁.world.scoreSince hourlyChronos 2 1 (s₁.world.rss.getEpochLastScorePerStake 1 1) := by
  obtain ⟨s₀, hr, htest⟩ := exists_reachable
    [(1001, .createProfile 9 1000),
     (1002, .createConviction 7 1 100 0),
     (1003, .submitProof 1 0)]
    (fun s₀ => succeeds (sysExec hourlyChronos s₀ (1004, .relock 7 1 12))
      fun s₁ => succeeds (s₁.world._claim hourlyChronos ⟨4700, by decide⟩ 2)
      fun out => decide ((s₀.world.css.positions 1).identityId = 1 ∧
        s₁.world.nft.nextTokenId = 2 ∧ 0 < s₁.world.rss.epochNodeDelegatorScore 1 1 1 ∧
        s₁.world.scoreSince hourlyChronos 2 1 (s₁.world.rss.getEpochLastScorePerStake 1 1) = 0 ∧
        ∃ record ∈ out.2, record.scoreAt 1 = 6 * s₁.world.rss.epochNodeDelegatorScore 1 1 1))
    (by decide +kernel)
  obtain ⟨s₁, hrelock, htest⟩ := exists_of_succeeds htest
  obtain ⟨⟨w', found⟩, hclaim, htest⟩ := exists_of_succeeds htest
  obtain ⟨hnode, htoken, hpos, hsince, record, hrecord, hsix⟩ := of_decide_eq_true htest
  obtain rfl : found = some record := hrecord
  refine ⟨s₀, s₁, w', record, ⟨hr,
    ⟨_, 7, 12, sysStep_of_sysExec _ _ _ _ hrelock, rfl⟩, hnode, htoken, .refl⟩,
    hclaim, hpos, hsince, hsix, ?_⟩
  omega

end Dkg
