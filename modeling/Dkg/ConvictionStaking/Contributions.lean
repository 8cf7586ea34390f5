import Dkg.ConvictionStaking.Runs
import Dkg.Lib.Table

/-! # What the positions contribute

`getNodeEffectiveStake` reads a ledger; the positions say what it should read. The two sides are
kept together by sums over the token ids: the raw aggregates are the sums of the positions' raw
stakes (`RawInv`), and the drop pending at a second is the sum of the boosts that end there
(`DropInv`).
-/

namespace Dkg

open Lib NodeLedger Position Finset ConvictionStakingStorage Function

/-! ## Contributions of a position -/

namespace Position

/-- The position is live and on the node. -/
def On (p : Position) (id : ℕ) : Prop := p.identityId ≠ 0 ∧ p.identityId = id
  deriving Decidable

/-- Its raw stake on a node. -/
def rawOn (p : Position) (id : ℕ) : ℕ := if p.On id then p.raw else 0

/-- Its boost on a node that ends at `t`. -/
def boostOn (p : Position) (id t : ℕ) : ℕ :=
  if p.On id then dropAt p.expiryTimestamp (boost p.raw p.multiplier18) t else 0

/-- Its effective stake on a node at `ts`: boosted before the expiry, raw from then on. -/
def effectiveOn (p : Position) (id ts : ℕ) : ℕ :=
  if p.On id then
    if p.expiryTimestamp ≠ 0 ∧ ts < p.expiryTimestamp then p.raw * p.multiplier18 / SCALE18
    else p.raw
  else 0

variable {p : Position} {id : ℕ}

lemma rawOn_dead (h : p.identityId = 0) (id : ℕ) : p.rawOn id = 0 :=
  if_neg fun hon => hon.1 h

lemma boostOn_dead (h : p.identityId = 0) (id t : ℕ) : p.boostOn id t = 0 :=
  if_neg fun hon => hon.1 h

lemma rawOn_self (h : p.identityId ≠ 0) : p.rawOn p.identityId = p.raw :=
  if_pos ⟨h, rfl⟩

lemma boostOn_self (h : p.identityId ≠ 0) (t : ℕ) :
    p.boostOn p.identityId t = dropAt p.expiryTimestamp (boost p.raw p.multiplier18) t :=
  if_pos ⟨h, rfl⟩

lemma rawOn_of_ne (h : id ≠ p.identityId) : p.rawOn id = 0 :=
  if_neg fun hon => h hon.2.symm

lemma boostOn_of_ne (h : id ≠ p.identityId) (t : ℕ) : p.boostOn id t = 0 :=
  if_neg fun hon => h hon.2.symm

lemma effectiveOn_eq (h : p.identityId ≠ 0 → p.LockInv) (id ts : ℕ) :
    p.effectiveOn id ts
      = p.rawOn id + if ts < p.expiryTimestamp then p.boostOn id p.expiryTimestamp else 0 := by
  unfold effectiveOn rawOn boostOn
  by_cases hon : p.On id
  · have heff := effectiveNow_eq (h hon.1).scale_le p.raw p.expiryTimestamp ts
    have hself : dropAt p.expiryTimestamp (boost p.raw p.multiplier18) p.expiryTimestamp
        = boost p.raw p.multiplier18 := if_pos rfl
    rw [if_pos hon, if_pos hon, if_pos hon, hself]
    show effectiveNow p.raw p.multiplier18 p.expiryTimestamp ts = _
    rw [heff]
    unfold boostNow stillBoosted
    rcases h hon.1 with hlock | hlock
    · simp [hlock.1]
    · simp [hlock.1, hlock.2]
  · rw [if_neg hon, if_neg hon, if_neg hon]
    simp

end Position

def tokenIds : Finset ℕ := Finset.range (2 ^ 256)

namespace ConvictionStakingStorage

variable {s s' : ConvictionStakingStorage} {b : Block} {now : ℕ}

/-- The sum over all live positions on a node of their effective stake at `ts`. -/
def positionsEffectiveStake (s : ConvictionStakingStorage) (id ts : ℕ) : ℕ :=
  ∑ tok ∈ tokenIds, (s.positions tok).effectiveOn id ts

/-- The raw aggregates of the nodes and the total are the sums of the positions. -/
structure RawInv (s : ConvictionStakingStorage) : Prop where
  stake : ∀ id, (s.ledger id).nodeStakeV10 = ∑ tok ∈ tokenIds, (s.positions tok).rawOn id
  total : s.totalStakeV10 = ∑ tok ∈ tokenIds, (s.positions tok).rawOn (s.positions tok).identityId

/-- The pending drops after `now` are the sums of the positions' boosts. -/
def DropInv (s : ConvictionStakingStorage) (now : ℕ) : Prop :=
  ∀ id, ∀ t > now, (s.ledger id).nodeExpiryDrop t = ∑ tok ∈ tokenIds, (s.positions tok).boostOn id t

variable {tok : ℕ} {p : Position}

/-- A boost that ends after the block's second is pending, or it is zero. -/
lemma sum_boostOn_later {id : ℕ} (hbal : (s.ledger id).Balance now 0) (hdrop : s.DropInv now)
    (hnow : now ≤ b.timestamp) (htok : tok ∈ tokenIds) :
    ∑ t ∈ (later b.timestamp (s.ledger id).pending).toFinset, (s.positions tok).boostOn id t
      = if b.timestamp < (s.positions tok).expiryTimestamp
          then (s.positions tok).boostOn id (s.positions tok).expiryTimestamp else 0 := by
  set p := s.positions tok with hp
  set x := p.expiryTimestamp with hx
  have hmem : x ∈ (later b.timestamp (s.ledger id).pending).toFinset
      ↔ x ∈ (s.ledger id).pending ∧ b.timestamp < x := by
    rw [List.mem_toFinset, mem_later hbal.queue.ascending]
  have hsum : ∑ t ∈ (later b.timestamp (s.ledger id).pending).toFinset, p.boostOn id t
      = if x ∈ (later b.timestamp (s.ledger id).pending).toFinset then p.boostOn id x else 0 := by
    rw [← sum_ite_eq' _ x fun t => p.boostOn id t]
    apply sum_congr rfl
    intro t _
    by_cases ht : t = x
    · rw [if_pos ht]
    · rw [if_neg ht]
      unfold boostOn dropAt
      rw [if_neg ht, ite_self]
  rw [hsum]
  by_cases hin : x ∈ (s.ledger id).pending
  · simp only [hmem, hin, true_and]
  · -- nothing is scheduled at `x`, so no position has a boost that ends there
    rw [if_neg (fun h => hin (hmem.mp h).1)]
    by_cases hlt : b.timestamp < x
    · have hzero := hdrop id x (by omega)
      rw [hbal.queue.drop_eq_zero x hin] at hzero
      rw [if_pos hlt]
      exact ((sum_eq_zero_iff.mp hzero.symm) tok htok).symm
    · rw [if_neg hlt]

/-- **Reading the ledger.** With both invariants the read is the positions' effective stake. -/
lemma getNodeEffectiveStake_eq (h : s.Inv now) (hraw : s.RawInv) (hdrop : s.DropInv now)
    (hnow : now ≤ b.timestamp) (id : ℕ) :
    s.getNodeEffectiveStake b id = .ok (s.positionsEffectiveStake id b.timestamp) := by
  have hbal := h.ledger id
  set l := s.ledger id with hl
  obtain ⟨stake, hread, hstake⟩ := simulate_of_covered (hbal.covered le_rfl)
    (le_trans hbal.lastSettledAt_le hnow)
  have hrun := hbal.running
  have hsplit := total_due_add_later b.timestamp l.pending l.nodeExpiryDrop
  have hq : (later b.timestamp l.pending).Pairwise (· < ·) :=
    pairwise_later hbal.queue.ascending
  have hmem : ∀ t, t ∈ later b.timestamp l.pending ↔ t ∈ l.pending ∧ b.timestamp < t :=
    fun t => mem_later hbal.queue.ascending
  -- what is pending after the block's second, position by position
  have hlater : total (later b.timestamp l.pending) l.nodeExpiryDrop
      = ∑ tok ∈ tokenIds, if b.timestamp < (s.positions tok).expiryTimestamp
          then (s.positions tok).boostOn id (s.positions tok).expiryTimestamp else 0 := by
    calc total (later b.timestamp l.pending) l.nodeExpiryDrop
        = ∑ t ∈ (later b.timestamp l.pending).toFinset, l.nodeExpiryDrop t :=
          total_eq_sum (hq.imp ne_of_lt) _
      _ = ∑ t ∈ (later b.timestamp l.pending).toFinset,
            ∑ tok ∈ tokenIds, (s.positions tok).boostOn id t := by
          apply sum_congr rfl
          intro t ht
          have := (hmem t).mp (List.mem_toFinset.mp ht)
          exact hdrop id t (by omega)
      _ = ∑ tok ∈ tokenIds, ∑ t ∈ (later b.timestamp l.pending).toFinset,
            (s.positions tok).boostOn id t := sum_comm
      _ = _ := by
          apply sum_congr rfl
          intro tok htok
          exact sum_boostOn_later hbal hdrop hnow htok
  have hvalue : stake = s.positionsEffectiveStake id b.timestamp := by
    unfold positionsEffectiveStake
    rw [sum_congr rfl fun tok _ =>
      (s.positions tok).effectiveOn_eq (h.locks tok) id b.timestamp, sum_add_distrib,
      ← hlater, ← hraw.stake id, ← hl]
    unfold pendingDrop at hrun
    omega
  unfold getNodeEffectiveStake
  rw [uint40_of_lt b.fits, hread, hvalue]

lemma RawInv.raw_le_total (h : s.RawInv) (htok : tok < 2 ^ 256)
    (hid : (s.positions tok).identityId ≠ 0) : (s.positions tok).raw ≤ s.totalStakeV10 := by
  have := single_le_sum (s := tokenIds)
    (f := fun t => (s.positions t).rawOn (s.positions t).identityId)
    (fun _ _ => Nat.zero_le _) (mem_range.mpr htok)
  rw [← h.total, rawOn_self hid] at this
  exact this

/-! ## Keeping the sums -/

/-- The raw aggregates follow a position that changes from `p` to `p'`. -/
structure Restaked (s s' : ConvictionStakingStorage) (p p' : Position) : Prop where
  stake : ∀ id, (s'.ledger id).nodeStakeV10 + p.rawOn id = (s.ledger id).nodeStakeV10 + p'.rawOn id
  total : s'.totalStakeV10 + p.rawOn p.identityId = s.totalStakeV10 + p'.rawOn p'.identityId

/-- A call that replaces one position and moves the raw aggregates by the difference. -/
lemma RawInv.update (h : s.RawInv) (htok : tok ∈ tokenIds)
    (hpos : s'.positions = update s.positions tok p) (hstaked : Restaked s s' (s.positions tok) p) :
    s'.RawInv := by
  constructor
  · intro id
    have hsum := sum_update tokenIds (fun q => q.rawOn id) s.positions htok p
    have hold := h.stake id
    have hnew := hstaked.stake id
    rw [hpos]
    omega
  · have hsum := sum_update tokenIds (fun q => q.rawOn q.identityId) s.positions htok p
    have hold := h.total
    have hnew := hstaked.total
    rw [hpos]
    omega

/-- A call that replaces one position and moves the pending drops by the difference. -/
lemma DropInv.update (h : s.DropInv now) (hnow : now ≤ b.timestamp) (htok : tok ∈ tokenIds)
    (hpos : s'.positions = update s.positions tok p) (hdrop : ∀ id, ∀ t > b.timestamp,
      (s'.ledger id).nodeExpiryDrop t + (s.positions tok).boostOn id t
        = (s.ledger id).nodeExpiryDrop t + p.boostOn id t) : s'.DropInv b.timestamp := by
  intro id t ht
  have hsum := sum_update tokenIds (fun q => q.boostOn id t) s.positions htok p
  have hold := h id t (by omega)
  have hnew := hdrop id t ht
  rw [hpos]
  omega

/-- A sum when a token is replaced: its empty slot is filled, and then the old one is emptied. -/
lemma sum_replace {old new : ℕ} (hold : old ∈ tokenIds) (hnew : new ∈ tokenIds) (hne : old ≠ new)
    (f : Position → ℕ) (hzero : f zero = 0) (hempty : f (s.positions new) = 0) :
    ∑ tok ∈ tokenIds, f (update (update s.positions new p) old zero tok) + f (s.positions old)
      = ∑ tok ∈ tokenIds, f (s.positions tok) + f p := by
  have h1 := sum_update tokenIds f s.positions hnew p
  have h2 := sum_update tokenIds f (update s.positions new p) hold zero
  rw [update_of_ne hne, hzero] at h2
  omega

/-- A call that writes neither positions nor ledgers nor the total. -/
lemma RawInv.of_eq (h : s.RawInv) (hp : s'.positions = s.positions)
    (hl : s'.ledger = s.ledger) (ht : s'.totalStakeV10 = s.totalStakeV10) : s'.RawInv := by
  constructor
  · rw [hp, hl]
    exact h.stake
  · rw [hp, ht]
    exact h.total

lemma DropInv.of_eq (h : s.DropInv now) (hnow : now ≤ b.timestamp)
    (hp : s'.positions = s.positions) (hl : s'.ledger = s.ledger) : s'.DropInv b.timestamp := by
  intro id t ht
  rw [hp, hl]
  exact h id t (by omega)

end ConvictionStakingStorage

end Dkg
