import Dkg.RandomSampling.Index
import Dkg.Staking.Invariant

/-! # What a position accrues on a node

The score a position earns on a node between its cursor and the last value of the node's index, in
units of `1/SCALE18`: the raw stake times the growth of the index, and the boost times its growth
up to the end of the lock. `_delegatorIncrementForEpoch` rounds this down, and a proof adds
exactly the position's effective stake times the growth it causes, unless it falls into the very
second in which the lock ends.
-/

namespace Dkg.Position

open Lib

variable {c : Chronos} {p : Position} {e id now cursor : ℕ} {ei ei' : EpochIndex}

/-- The value of the index at the end of the lock. -/
def boostMark (p : Position) (ei : EpochIndex) : ℕ :=
  if p.expiryTimestamp = 0 then 0 else ei.findScorePerStakeAt p.expiryTimestamp

/-- The score since the cursor, not rounded. -/
def accrual (p : Position) (ei : EpochIndex) (cursor : ℕ) : ℕ :=
  p.raw * (ei.lastScorePerStake36 - cursor) + boost p.raw p.multiplier18 * (p.boostMark ei - cursor)

lemma boostMark_le (h : IndexOk c e now ei) : p.boostMark ei ≤ ei.lastScorePerStake36 := by
  unfold boostMark
  split
  · exact Nat.zero_le _
  · exact h.find_le _

/-- Nothing is accrued when the cursor is at the last value. -/
lemma accrual_eq_zero (h : IndexOk c e now ei) (hcursor : ei.lastScorePerStake36 ≤ cursor) :
    p.accrual ei cursor = 0 := by
  have hmark := boostMark_le (p := p) h
  unfold accrual
  rw [Nat.sub_eq_zero_of_le hcursor, Nat.sub_eq_zero_of_le (hmark.trans hcursor), Nat.mul_zero,
    Nat.mul_zero]

lemma scoreBetween_le {eff lower upper r : ℕ} (h : scoreBetween eff lower upper = .ok r) :
    r * SCALE18 ≤ eff * (upper - lower) := by
  unfold scoreBetween at h
  obtain ⟨diff, hdiff, product, hmul, hend⟩ := of_bind₂ h
  obtain ⟨-, rfl⟩ := subUint_eq_ok.mp hdiff
  obtain ⟨-, rfl⟩ := mulUint_eq_ok.mp hmul
  obtain rfl := of_pure hend
  exact Nat.div_mul_le_self _ _

lemma raw_le_accrual (p : Position) (ei : EpochIndex) (cursor : ℕ) :
    p.raw * (ei.lastScorePerStake36 - cursor) ≤ p.accrual ei cursor := Nat.le_add_right _ _

/-- **The code rounds the accrual down.** -/
lemma scoreIncrement_le {rss : RandomSamplingStorage}
    (h : IndexOk c e now (rss.nodeEpochIndex id e)) (hm : SCALE18 ≤ p.multiplier18)
    (hexpiry : p.expiryTimestamp < 2 ^ 40) {r : ℕ}
    (hrun : p.scoreIncrement c rss e id (rss.getEpochLastScorePerStake id e) cursor = .ok r) :
    r * SCALE18 ≤ p.accrual (rss.nodeEpochIndex id e) cursor := by
  unfold scoreIncrement _delegatorIncrementForEpoch expiryEpoch at hrun
  rw [boosted_eq hm, uint40_of_lt hexpiry] at hrun
  set ei := rss.nodeEpochIndex id e with hei
  have hlast : rss.getEpochLastScorePerStake id e = ei.lastScorePerStake36 := rfl
  have hraw := raw_le_accrual p ei cursor
  rw [hlast] at hrun
  by_cases hcur : ei.lastScorePerStake36 ≤ cursor
  · rw [if_pos hcur] at hrun
    obtain rfl := of_pure hrun
    rw [Nat.zero_mul]
    exact Nat.zero_le _
  rw [if_neg hcur] at hrun
  by_cases hnone : p.expiryTimestamp = 0
  · rw [if_pos (.inl hnone), if_pos hnone] at hrun
    exact (scoreBetween_le hrun).trans hraw
  simp only [hnone, false_or, if_false] at hrun
  by_cases hbefore : e < c.epochAtTimestamp p.expiryTimestamp
  · -- boosted in the whole epoch
    rw [if_pos hbefore] at hrun
    refine (scoreBetween_le hrun).trans (le_of_eq ?_)
    unfold accrual boostMark
    rw [if_neg hnone, h.find_later hbefore, Nat.add_mul]
  rw [if_neg hbefore] at hrun
  by_cases hafter : e > c.epochAtTimestamp p.expiryTimestamp
  · rw [if_pos hafter] at hrun
    exact (scoreBetween_le hrun).trans hraw
  rw [if_neg hafter] at hrun
  by_cases hflat : p.raw + boost p.raw p.multiplier18 = p.raw
  · rw [if_pos hflat] at hrun
    exact (scoreBetween_le hrun).trans hraw
  rw [if_neg hflat] at hrun
  have hmark : p.boostMark ei = rss.findScorePerStakeAt id e p.expiryTimestamp := if_neg hnone
  have hmarkLe := boostMark_le (p := p) h
  rw [← hmark] at hrun
  by_cases hsplit : p.boostMark ei > cursor
  · -- the boost ends inside the part to be settled
    rw [if_pos hsplit] at hrun
    obtain ⟨b₁, h₁, b₂, h₂, hrun⟩ := of_bind₂ hrun
    obtain ⟨-, rfl⟩ := addUint_eq_ok.mp hrun
    have hle₁ := scoreBetween_le h₁
    have hle₂ := scoreBetween_le h₂
    have hparts : ei.lastScorePerStake36 - cursor
        = (p.boostMark ei - cursor) + (ei.lastScorePerStake36 - p.boostMark ei) := by
      omega
    calc (b₁ + b₂) * SCALE18 = b₁ * SCALE18 + b₂ * SCALE18 := Nat.add_mul _ _ _
      _ ≤ (p.raw + boost p.raw p.multiplier18) * (p.boostMark ei - cursor)
          + p.raw * (ei.lastScorePerStake36 - p.boostMark ei) := Nat.add_le_add hle₁ hle₂
      _ = p.accrual ei cursor := by
          unfold accrual
          rw [hparts, Nat.mul_add, Nat.add_mul]
          ring
  · rw [if_neg hsplit] at hrun
    exact (scoreBetween_le hrun).trans hraw

/-- **A proof adds the effective stake at its time**, times the growth `δ` of the index. -/
lemma accrual_upsert (h : IndexOk c e now ei) {ts δ : ℕ} (hts : now ≤ ts)
    (hm : SCALE18 ≤ p.multiplier18) (hcursor : cursor ≤ ei.lastScorePerStake36)
    (hlast : ei'.lastScorePerStake36 = ei.lastScorePerStake36 + δ)
    (hread : ∀ t, ei'.findScorePerStakeAt t
      = if ts ≤ t then ei.lastScorePerStake36 + δ else ei.findScorePerStakeAt t)
    (hne : p.expiryTimestamp ≠ ts) :
    p.accrual ei' cursor
      = p.accrual ei cursor + effectiveNow p.raw p.multiplier18 p.expiryTimestamp ts * δ := by
  have hgrow : ei.lastScorePerStake36 + δ - cursor = ei.lastScorePerStake36 - cursor + δ := by
    omega
  unfold accrual effectiveNow
  rw [hlast, hgrow]
  by_cases hb : stillBoosted p.expiryTimestamp ts
  · -- the lock runs, so the mark moves with the index
    obtain ⟨hnone, hlt⟩ := hb
    have hmark : p.boostMark ei = ei.lastScorePerStake36 := by
      unfold boostMark
      rw [if_neg hnone]
      exact h.find_of_le (hts.trans hlt.le)
    have hmark' : p.boostMark ei' = ei.lastScorePerStake36 + δ := by
      unfold boostMark
      rw [if_neg hnone, hread, if_pos hlt.le]
    rw [if_pos ⟨hnone, hlt⟩, boosted_eq hm, hmark, hmark', hgrow]
    ring
  · have hmark : p.boostMark ei' = p.boostMark ei := by
      unfold boostMark
      by_cases hnone : p.expiryTimestamp = 0
      · rw [if_pos hnone, if_pos hnone]
      · have hlt : ¬ ts ≤ p.expiryTimestamp := by
          unfold stillBoosted at hb
          omega
        rw [if_neg hnone, if_neg hnone, hread, if_neg hlt]
    rw [if_neg hb, hmark]
    ring

end Dkg.Position
