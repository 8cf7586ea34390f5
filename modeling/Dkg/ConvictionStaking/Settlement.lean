import Dkg.ConvictionStaking.Runs

/-! # Settling in steps

The views of a node's effective stake run the loop of a settlement without its writes. They read
what a settlement to the same second leaves (`simulate_eq_settled`), and a settlement may be split
at any second between (`settledTo_settledTo`).
-/

namespace Dkg

open Lib ConvictionStakingStorage List

namespace NodeLedger

variable {l : NodeLedger} {t₁ t₂ : ℕ}

/-- Settling to a second and then to a later one leaves what settling to the later one does. -/
lemma settledTo_settledTo (hq : l.QueueInv) (h : t₁ ≤ t₂) :
    (l.settledTo t₁).settledTo t₂ = l.settledTo t₂ := by
  have hpending := pending_settledTo l t₁
  have hsplit := due_append_due h l.pending
  -- what was due at the earlier second is not in the queue any more
  have hkept : ∀ t ∈ due t₂ (later t₁ l.pending), (l.settledTo t₁).nodeExpiryDrop t =
      l.nodeExpiryDrop t := by
    intro t ht
    have hlater : t ∈ later t₁ l.pending := (takeWhile_subset _) ht
    have hafter := ((mem_later hq.ascending).mp hlater).2
    apply if_neg
    intro hdue
    have hbefore := ((mem_due hq.ascending).mp hdue).2
    omega
  have hstake : total (due t₂ l.pending) l.nodeExpiryDrop =
      total (due t₁ l.pending) l.nodeExpiryDrop +
        total (due t₂ (later t₁ l.pending)) (l.settledTo t₁).nodeExpiryDrop := by
    calc total (due t₂ l.pending) l.nodeExpiryDrop
        = total (due t₁ l.pending) l.nodeExpiryDrop +
            total (due t₂ (later t₁ l.pending)) l.nodeExpiryDrop := by
          rw [hsplit, total_append]
      _ = _ := by rw [total_congr hkept]
  unfold settledTo at hstake hpending ⊢
  rw [hpending]
  simp only [mk.injEq, true_and, and_true]
  refine ⟨?_, ?_, ?_, ?_⟩
  · rw [hstake, Nat.sub_add_eq]
  · funext t
    simp only [hsplit, mem_append]
    split_ifs <;> simp_all
  · rw [hsplit, length_append]
    omega
  · funext t
    simp only [hsplit, mem_append]
    split_ifs <;> simp_all

/-- A settlement to a second not before the last one, on a ledger that covers its drops. -/
lemma settle_of_covered (hq : l.QueueInv) (hle : l.pendingDrop ≤ l.runningNodeEffectiveStake)
    {ts : ℕ} (hts : l.nodeLastSettledAt ≤ ts) : l._settleNodeTo ts = .ok (l.settledTo ts) := by
  rcases hts.lt_or_eq with hlt | heq
  · rw [hq._settleNodeTo_eq hlt, if_pos (due_drop_le hle ts)]
  · -- nothing is due at the second of the last settlement
    have hdue : due ts l.pending = [] := by
      apply eq_nil_iff_forall_not_mem.mpr
      intro t ht
      have hmem := (mem_due hq.ascending).mp ht
      have hafter := hq.after t hmem.1
      omega
    have hsame : l.settledTo ts = l := by
      unfold settledTo
      rw [hdue, ← heq]
      simp
    rw [_settleNodeTo, if_pos heq.ge, hsame]
    rfl

lemma covered_settledTo (hq : l.QueueInv) (hle : l.pendingDrop ≤ l.runningNodeEffectiveStake)
    (ts : ℕ) : (l.settledTo ts).pendingDrop ≤ (l.settledTo ts).runningNodeEffectiveStake := by
  have hsplit := total_due_add_later ts l.pending l.nodeExpiryDrop
  rw [pendingDrop_settledTo hq]
  show _ ≤ l.runningNodeEffectiveStake - total (due ts l.pending) l.nodeExpiryDrop
  unfold pendingDrop at hle
  omega

/-- The view reads the stake that a settlement leaves. -/
lemma simulate_eq_settled (hle : l.pendingDrop ≤ l.runningNodeEffectiveStake) {ts : ℕ}
    (hts : l.nodeLastSettledAt ≤ ts) :
    l._simulateNodeEffectiveStakeAt ts = .ok (l.settledTo ts).runningNodeEffectiveStake := by
  rw [_simulateNodeEffectiveStakeAt, if_neg (Nat.not_lt.mpr hts), simulateLoop_eq]
  exact if_pos (due_drop_le hle ts)

end NodeLedger

namespace ConvictionStakingStorage

variable {s : ConvictionStakingStorage}

def getNodeEffectiveStakeAtTimestamp (s : ConvictionStakingStorage) (identityId ts : ℕ) : Tx ℕ :=
  (s.ledger identityId)._simulateNodeEffectiveStakeAt ts

lemma settleNodeTo_of_settles {id ts : ℕ} {l : NodeLedger}
    (h : (s.ledger id)._settleNodeTo ts = .ok l) :
    s.settleNodeTo id ts = .ok (s.setLedger id l) := by
  unfold settleNodeTo _settleNodeTo onLedger
  simp only [h]
  rfl

end ConvictionStakingStorage

/-- **Settlement composes, and the views agree with it.** In every reachable state and for all
seconds in order that are not before the last settlement of the node: settling to the first one and
then to the second one succeeds and leaves what settling to the second one leaves, and the view at a
second reads the running stake that settling to it leaves. -/
theorem settlement_composes (c : Chronos) {h : CssState} (hr : (cssMachine c).Reachable h)
    (id t₁ t₂ : ℕ) (hfirst : (h.store.ledger id).nodeLastSettledAt ≤ t₁) (hsecond : t₁ ≤ t₂) :
    ∃ s₁ s₂, h.store.settleNodeTo id t₁ = .ok s₁ ∧ s₁.settleNodeTo id t₂ = .ok s₂ ∧
      h.store.settleNodeTo id t₂ = .ok s₂ ∧
      h.store.getNodeEffectiveStakeAtTimestamp id t₁ =
        .ok (s₁.ledger id).runningNodeEffectiveStake ∧
      ∀ b : Block, uint40 b.timestamp = t₁ →
        h.store.getNodeEffectiveStake b id = .ok (s₁.ledger id).runningNodeEffectiveStake := by
  have hbalanced := (CssState.inv hr).ledger id
  have hcovered := hbalanced.covered le_rfl
  have hqueue := hbalanced.queue
  have hsettle₁ := NodeLedger.settle_of_covered hqueue hcovered hfirst
  have hsettle₂ := NodeLedger.settle_of_covered hqueue hcovered (hfirst.trans hsecond)
  have hthen : ((h.store.ledger id).settledTo t₁)._settleNodeTo t₂ =
      .ok ((h.store.ledger id).settledTo t₂) := by
    rw [NodeLedger.settle_of_covered (hqueue.settledTo t₁) (NodeLedger.covered_settledTo hqueue
      hcovered t₁) hsecond, NodeLedger.settledTo_settledTo hqueue hsecond]
  have hview := NodeLedger.simulate_eq_settled hcovered hfirst
  refine ⟨h.store.setLedger id ((h.store.ledger id).settledTo t₁),
    h.store.setLedger id ((h.store.ledger id).settledTo t₂),
    settleNodeTo_of_settles hsettle₁, ?_,
    settleNodeTo_of_settles hsettle₂, ?_, ?_⟩
  · rw [← setLedger_setLedger h.store id
      ((h.store.ledger id).settledTo t₁) ((h.store.ledger id).settledTo t₂)]
    apply settleNodeTo_of_settles
    rw [setLedger_ledger_self]
    exact hthen
  · rw [setLedger_ledger_self]
    exact hview
  · intro b hb
    rw [setLedger_ledger_self, ← hview, ← hb]
    rfl

/-- One lock that expires between the two seconds. -/
theorem settlement_composes_one_lock :
    ∃ h, (cssMachine hourlyChronos).Reachable h ∧
      ∃ s₁ s₂, h.store.settleNodeTo 1 2000 = .ok s₁ ∧ s₁.settleNodeTo 1 3000000 = .ok s₂ ∧
        h.store.settleNodeTo 1 3000000 = .ok s₂ ∧
        h.store.getNodeEffectiveStakeAtTimestamp 1 2000 =
          .ok (s₁.ledger 1).runningNodeEffectiveStake ∧
        ∀ b : Block, uint40 b.timestamp = 2000 →
          h.store.getNodeEffectiveStake b 1 = .ok (s₁.ledger 1).runningNodeEffectiveStake := by
  obtain ⟨h, hrun, htest⟩ := exists_of_succeeds
    (x := Machine.runList (cssExec hourlyChronos)
      [(1001, .createPosition 1 1 3 1 0)] cssStart)
    (t := fun h => decide ((h.store.ledger 1).nodeLastSettledAt ≤ 2000 ∧
      (h.store.ledger 1).runningNodeEffectiveStake = 4))
    (by decide +kernel)
  have hr := cssReachable_of_run hrun
  have hfacts := of_decide_eq_true htest
  exact ⟨h, hr, settlement_composes hourlyChronos hr 1 2000 3000000 hfacts.1 (by decide)⟩

end Dkg
