import Dkg.Staking.Scores

/-! # The score of an epoch in which a position is moved

A redelegation settles the score of the running epoch under the node that the position leaves, and
a claim reads the scores under the node on which it finds the position. An epoch is in the window of
one claim only, so of the scores that a position has on several nodes for one epoch only one is ever
rewarded. `moved_score_iff` says when that is all there is.
-/

namespace Dkg

open Lib

/-- The claim rewards the score that the position has on the node for the epoch. -/
def Claimed.Rewards (record : Claimed) (e id score : ℕ) : Prop :=
  score = 0 ∨ record.identityId = id ∧ score ≤ record.scoreAt e
  deriving Decidable

/-- The score of a position on a node for an epoch: settled, and on its own node what has accrued
since. -/
def World.scoreOn (c : Chronos) (w : World) (tok e id : ℕ) : ℕ :=
  if (w.css.positions tok).identityId = id then w.scoreOwed c tok e
  else w.rss.epochNodeDelegatorScore e id tok

/-- A position `tok` that is moved in the epoch `e` from the node `source` to the node `target`, and
anything that follows. -/
structure MoveRun (c : Chronos) (tok source target e : ℕ) (s₀ s₁ s₂ : SysState) : Prop where
  reachable : (sysMachine c).Reachable s₀
  move : ∃ b sender, sysStep c s₀ (b, .redelegate sender tok target) s₁ ∧ c.getCurrentEpoch b = e
  source : (s₀.world.css.positions tok).identityId = source
  later : (sysMachine c).Steps s₁ s₂

namespace MoveRun

variable {c : Chronos} {tok source target e : ℕ} {s₀ s₁ s₂ : SysState}
  (h : MoveRun c tok source target e s₀ s₁ s₂)

include h

lemma reachable_end : (sysMachine c).Reachable s₂ := by
  obtain ⟨b, sender, hstep, -⟩ := h.move
  exact (h.reachable.step hstep).steps h.later

end MoveRun

/-- **The scores of the epoch of a move.** The claim of the epoch rewards the score settled on the
node that the position has left, and the score on the node to which it was moved, exactly if the
position has no score on the first unless it is back there, and none on the second unless it is
still there. -/
theorem moved_score_iff {c : Chronos} {tok source target e : ℕ} {s₀ s₁ s₂ : SysState}
    (h : MoveRun c tok source target e s₀ s₁ s₂) {b : Block} {w' : World} {record : Claimed}
    (hclaim : s₂.world._claim c b tok = .ok (w', some record)) (hcovers : record.Covers e) :
    record.Rewards e source (s₁.world.rss.epochNodeDelegatorScore e source tok) ∧
      record.Rewards e target (s₂.world.scoreOn c tok e target) ↔
    (s₁.world.rss.epochNodeDelegatorScore e source tok = 0 ∨
        (s₂.world.css.positions tok).identityId = source) ∧
      (s₂.world.scoreOn c tok e target = 0 ∨
        (s₂.world.css.positions tok).identityId = target) := by
  have hr := h.reachable_end
  have hinv := SysState.inv hr
  obtain ⟨-, hnode, -⟩ := (World._claim_ok hclaim).record hinv.cursors
  have howes := SysState.owes hr hclaim hcovers
  have hused := howes.eq_scoreOwed
  obtain ⟨unsettled, -, hscore⟩ := howes
  unfold Claimed.Rewards
  rw [hnode]
  constructor
  · rintro ⟨hsource, htarget⟩
    exact ⟨hsource.imp_right And.left, htarget.imp_right And.left⟩
  · rintro ⟨hsource, htarget⟩
    refine ⟨hsource.imp_right fun hback => ⟨hback, ?_⟩, htarget.imp_right fun hon => ⟨hon, ?_⟩⟩
    · -- the settled score has not fallen since
      rw [hback] at hscore
      calc s₁.world.rss.epochNodeDelegatorScore e source tok
          ≤ s₂.world.rss.epochNodeDelegatorScore e source tok :=
            settledScore_mono h.later e source tok
        _ ≤ record.scoreAt e := by omega
    · unfold World.scoreOn
      rw [if_pos hon, hused]

/-- A position scores on the first of two nodes. -/
def scoredSteps : List (Block × Op) :=
  [(1001, .createProfile 9 1000),
   (1001, .createProfile 9 1000),
   (1002, .createConviction 7 1 100 0),
   (1003, .submitProof 1 0)]

/-- A position scores on a node, is moved to another one and back, and claims. -/
theorem moved_score_back : ∃ s₀ s₁ s₂ w' record,
    MoveRun hourlyChronos 1 1 2 1 s₀ s₁ s₂ ∧
    s₂.world._claim hourlyChronos ⟨4700, by decide⟩ 1 = .ok (w', some record) ∧
    0 < s₁.world.rss.epochNodeDelegatorScore 1 1 1 ∧
    record.Rewards 1 1 (s₁.world.rss.epochNodeDelegatorScore 1 1 1) ∧
      record.Rewards 1 2 (s₂.world.scoreOn hourlyChronos 1 1 2) := by
  obtain ⟨s₀, hr, htest⟩ := exists_reachable scoredSteps
    (fun s₀ => succeeds (sysExec hourlyChronos s₀ (1004, .redelegate 7 1 2))
      fun s₁ => succeeds (sysExec hourlyChronos s₁ (1005, .redelegate 7 1 1))
      fun s₂ => succeeds (s₂.world._claim hourlyChronos ⟨4700, by decide⟩ 1)
      fun out => decide ((s₀.world.css.positions 1).identityId = 1 ∧
        0 < s₁.world.rss.epochNodeDelegatorScore 1 1 1 ∧
        (s₂.world.css.positions 1).identityId = 1 ∧ s₂.world.scoreOn hourlyChronos 1 1 2 = 0 ∧
        ∃ record ∈ out.2, record.fromEpoch ≤ 1 ∧ 1 ≤ record.toEpoch))
    (by decide +kernel)
  obtain ⟨s₁, hmove, htest⟩ := exists_of_succeeds htest
  obtain ⟨s₂, hback, htest⟩ := exists_of_succeeds htest
  obtain ⟨⟨w', found⟩, hclaim, htest⟩ := exists_of_succeeds htest
  obtain ⟨hsource, hpos, hnode, hnone, record, hrecord, hcovers⟩ := of_decide_eq_true htest
  obtain rfl : found = some record := hrecord
  have hall : MoveRun hourlyChronos 1 1 2 1 s₀ s₁ s₂ :=
    ⟨hr, ⟨_, 7, sysStep_of_sysExec _ _ _ _ hmove, rfl⟩, hsource,
      .tail .refl (sysStep_of_sysExec _ _ _ _ hback)⟩
  exact ⟨s₀, s₁, s₂, w', record, hall, hclaim, hpos,
    (moved_score_iff hall hclaim hcovers).mpr ⟨.inr hnode, .inl hnone⟩⟩

/-- A position scores on a node, is moved to another one, and claims: the claim covers the epoch and
uses no score for it. -/
theorem moved_score_lost : ∃ s₀ s₁ w' record,
    MoveRun hourlyChronos 1 1 2 1 s₀ s₁ s₁ ∧
    s₁.world._claim hourlyChronos ⟨4700, by decide⟩ 1 = .ok (w', some record) ∧
    record.Covers 1 ∧ 0 < s₁.world.rss.epochNodeDelegatorScore 1 1 1 ∧ record.scoreAt 1 = 0 ∧
    ¬ record.Rewards 1 1 (s₁.world.rss.epochNodeDelegatorScore 1 1 1) := by
  obtain ⟨s₀, hr, htest⟩ := exists_reachable scoredSteps
    (fun s₀ => succeeds (sysExec hourlyChronos s₀ (1004, .redelegate 7 1 2))
      fun s₁ => succeeds (s₁.world._claim hourlyChronos ⟨4700, by decide⟩ 1)
      fun out => decide ((s₀.world.css.positions 1).identityId = 1 ∧
        0 < s₁.world.rss.epochNodeDelegatorScore 1 1 1 ∧
        ∃ record ∈ out.2, (record.fromEpoch ≤ 1 ∧ 1 ≤ record.toEpoch) ∧ record.scoreAt 1 = 0 ∧
          ¬ record.Rewards 1 1 (s₁.world.rss.epochNodeDelegatorScore 1 1 1)))
    (by decide +kernel)
  obtain ⟨s₁, hmove, htest⟩ := exists_of_succeeds htest
  obtain ⟨⟨w', found⟩, hclaim, htest⟩ := exists_of_succeeds htest
  obtain ⟨hsource, hpos, record, hrecord, hcovers, hzero, hnot⟩ := of_decide_eq_true htest
  obtain rfl : found = some record := hrecord
  exact ⟨s₀, s₁, w', record,
    ⟨hr, ⟨_, 7, sysStep_of_sysExec _ _ _ _ hmove, rfl⟩, hsource, .refl⟩,
    hclaim, hcovers, hpos, hzero, hnot⟩

end Dkg
