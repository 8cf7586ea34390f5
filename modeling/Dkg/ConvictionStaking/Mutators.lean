import Dkg.ConvictionStaking.Model
import Dkg.ConvictionStaking.Queue

/-! # What the mutators of ConvictionStakingStorage do

One lemma for each mutator. A ledger is changed by taking one contribution off and putting
another one on (`Shift`): the raw aggregate and the drops after the current second move by exactly
the amounts the call names, and the ledger is balanced again.
-/

namespace Dkg

open NodeLedger

/-! ## Boosts -/

lemma boosted_eq {m : ℕ} (hm : SCALE18 ≤ m) (a : ℕ) : boosted a m = a + boost a m := by
  obtain ⟨d, rfl⟩ := Nat.exists_eq_add_of_le hm
  unfold boosted boost
  rw [Nat.add_sub_cancel_left, Nat.mul_add, Nat.mul_comm a SCALE18,
    Nat.mul_add_div (by norm_num [SCALE18])]

lemma boost_scale (a : ℕ) : boost a SCALE18 = 0 := by
  unfold boost
  simp

lemma boost_zero (m : ℕ) : boost 0 m = 0 := by
  unfold boost
  simp

/-- The boost that is still on at `ts`. -/
def boostNow (a m x ts : ℕ) : ℕ := if stillBoosted x ts ∧ m > SCALE18 then boost a m else 0

lemma effectiveNow_eq {m : ℕ} (hm : SCALE18 ≤ m) (a x ts : ℕ) :
    effectiveNow a m x ts = a + boostNow a m x ts := by
  unfold effectiveNow boostNow
  by_cases hb : stillBoosted x ts
  · rw [if_pos hb, boosted_eq hm]
    by_cases hgt : m > SCALE18
    · rw [if_pos ⟨hb, hgt⟩]
    · obtain rfl : m = SCALE18 := by omega
      rw [if_neg (fun h => hgt h.2), boost_scale]
  · rw [if_neg hb, if_neg (fun h => hb h.1), add_zero]

/-- A drop of `d` at the second `x`. -/
def dropAt (x d : ℕ) : ℕ → ℕ := fun t => if t = x then d else 0

lemma boost_gate {m : ℕ} (hm : SCALE18 ≤ m) (a x : ℕ) {ts t : ℕ} (ht : t > ts) :
    (if (stillBoosted x ts ∧ m > SCALE18) ∧ t = x then boost a m else 0)
      = dropAt x (boost a m) t := by
  unfold dropAt
  by_cases htx : t = x
  · have hb : stillBoosted x ts := ⟨by omega, by omega⟩
    by_cases hgt : m > SCALE18
    · simp [htx, hb, hgt]
    · obtain rfl : m = SCALE18 := by omega
      simp [boost_scale]
  · simp [htx]

lemma boostNow_gate {m : ℕ} (hm : SCALE18 ≤ m) (a x : ℕ) {ts t : ℕ} (ht : t > ts) :
    (if boostNow a m x ts ≠ 0 ∧ t = x then boostNow a m x ts else 0)
      = dropAt x (boost a m) t := by
  rw [← boost_gate hm a x ht]
  unfold boostNow
  by_cases hb : stillBoosted x ts ∧ m > SCALE18
  · by_cases hz : boost a m = 0
    · simp [hz]
    · simp [hb, hz]
  · simp [hb]

/-- Lock tiers and boosts go together: no expiry means no boost. -/
def Position.LockInv (p : Position) : Prop :=
  (p.expiryTimestamp = 0 ∧ p.multiplier18 = SCALE18) ∨
    (p.expiryTimestamp ≠ 0 ∧ SCALE18 < p.multiplier18)

lemma Position.LockInv.scale_le {p : Position} (h : p.LockInv) : SCALE18 ≤ p.multiplier18 := by
  rcases h with h | h
  · exact h.2.ge
  · exact h.2.le

/-- Tier 0 is the rest state, and every other tier has a duration and a boost. -/
def ConvictionStakingStorage.TierInv (s : ConvictionStakingStorage) : Prop :=
  ∀ k, (s.tiers k).exists_ = true →
    (k = 0 → (s.tiers k).multiplier18 = SCALE18) ∧
    (k ≠ 0 → SCALE18 < (s.tiers k).multiplier18 ∧ 0 < (s.tiers k).duration)

/-! ## Changing a ledger -/

/-- `l'` is `l` at `ts` with a contribution taken off (`aOut` raw, drops `dOut`) and one put on. -/
structure Shift (l l' : NodeLedger) (ts aOut aIn : ℕ) (dOut dIn : ℕ → ℕ) : Prop where
  balance : l'.Balance ts 0
  stake : l'.nodeStakeV10 + aOut = l.nodeStakeV10 + aIn
  drop : ∀ t > ts, l'.nodeExpiryDrop t + dOut t = l.nodeExpiryDrop t + dIn t

namespace NodeLedger.Balance

variable {l l₁ l₂ : NodeLedger} {ts a m x : ℕ} {k : ℤ}

section

variable (h : l.Balance ts k) (hlast : l.nodeLastSettledAt = ts) (hm : SCALE18 ≤ m)

include h hlast hm

lemma unwind (h₁ : l._applyNodeStakeDelta (-(effectiveNow a m x ts : ℕ) : ℤ) = .ok l₁)
    (h₂ : (if stillBoosted x ts ∧ m > SCALE18 then l₁._cancelNodeExpiry x (boost a m)
      else pure l₁) = .ok l₂) :
    l₂.Balance ts (k - a) ∧ l₂.nodeLastSettledAt = ts ∧ l₂.nodeStakeV10 = l.nodeStakeV10 ∧
      ∀ t > ts, l₂.nodeExpiryDrop t + dropAt x (boost a m) t = l.nodeExpiryDrop t := by
  obtain ⟨hb₁, hl₁, hs₁, hd₁⟩ := h.applyDelta h₁
  obtain ⟨hb₂, hl₂, hs₂, hd₂⟩ := hb₁.cancelIf (by intro hP; rw [hl₁, hlast]; exact hP.1.2) h₂
  have heff := effectiveNow_eq hm a x ts
  refine ⟨?_, hl₂.trans (hl₁.trans hlast), hs₂.trans hs₁, ?_⟩
  · have hk : k - a = k + -(effectiveNow a m x ts : ℕ) + (boostNow a m x ts : ℕ) := by
      rw [heff]
      push_cast
      ring
    rw [hk]
    exact hb₂
  · intro t ht
    rw [← boost_gate hm a x ht, hd₂, hd₁]

/-- Putting a contribution on a settled ledger. The gate is written as "boosted now" or as
"locked". -/
lemma install {P : Prop} [Decidable P] (hP : stillBoosted x ts ↔ P)
    (h₁ : l._applyNodeStakeDelta (effectiveNow a m x ts : ℕ) = .ok l₁)
    (h₂ : (if P ∧ m > SCALE18 then l₁._scheduleNodeExpiry x (boost a m) else pure l₁) = .ok l₂) :
    l₂.Balance ts (k + a) ∧ l₂.nodeLastSettledAt = ts ∧ l₂.nodeStakeV10 = l.nodeStakeV10 ∧
      ∀ t > ts, l₂.nodeExpiryDrop t = l.nodeExpiryDrop t + dropAt x (boost a m) t := by
  simp only [← hP] at h₂
  obtain ⟨hb₁, hl₁, hs₁, hd₁⟩ := h.applyDelta h₁
  obtain ⟨hb₂, hl₂, hs₂, hd₂⟩ := hb₁.scheduleIf h₂
  have heff := effectiveNow_eq hm a x ts
  refine ⟨?_, hl₂.trans (hl₁.trans hlast), hs₂.trans hs₁, ?_⟩
  · have hk : k + a = k + (effectiveNow a m x ts : ℕ) - (boostNow a m x ts : ℕ) := by
      rw [heff]
      push_cast
      ring
    rw [hk]
    exact hb₂
  · intro t ht
    rw [← boost_gate hm a x ht, hd₂, hd₁]

/-- Taking a contribution off behind the gate of `updateOnRedelegate`. -/
lemma unwindNow (h₁ : l._applyNodeStakeDelta (-(effectiveNow a m x ts : ℕ) : ℤ) = .ok l₁)
    (h₂ : (if boostNow a m x ts ≠ 0 then l₁._cancelNodeExpiry x (boostNow a m x ts)
      else pure l₁) = .ok l₂) :
    l₂.Balance ts (k - a) ∧ l₂.nodeStakeV10 = l.nodeStakeV10 ∧
      ∀ t > ts, l₂.nodeExpiryDrop t + dropAt x (boost a m) t = l.nodeExpiryDrop t := by
  -- a cancellation of zero does nothing, so this is the gate of `unwind`
  have hsame : (if boostNow a m x ts ≠ 0 then l₁._cancelNodeExpiry x (boostNow a m x ts)
      else pure l₁) = if stillBoosted x ts ∧ m > SCALE18 then l₁._cancelNodeExpiry x (boost a m)
      else pure l₁ := by
    unfold boostNow
    by_cases hb : stillBoosted x ts ∧ m > SCALE18
    · by_cases hz : boost a m = 0
      · simp [hb, hz, _cancelNodeExpiry]
      · simp [hb, hz]
    · simp [hb]
  rw [hsame] at h₂
  obtain ⟨hbal, -, hstake, hdrop⟩ := h.unwind hlast hm h₁ h₂
  exact ⟨hbal, hstake, hdrop⟩

end

lemma installNow (h : l.Balance ts k) (hm : SCALE18 ≤ m)
    (h₁ : l._applyNodeStakeDelta (effectiveNow a m x ts : ℕ) = .ok l₁)
    (h₂ : (if boostNow a m x ts ≠ 0 then l₁._scheduleNodeExpiry x (boostNow a m x ts)
      else pure l₁) = .ok l₂) :
    l₂.Balance ts (k + a) ∧ l₂.nodeStakeV10 = l.nodeStakeV10 ∧
      ∀ t > ts, l₂.nodeExpiryDrop t = l.nodeExpiryDrop t + dropAt x (boost a m) t := by
  obtain ⟨hb₁, hl₁, hs₁, hd₁⟩ := h.applyDelta h₁
  obtain ⟨hb₂, hl₂, hs₂, hd₂⟩ := hb₁.scheduleIf h₂
  have heff := effectiveNow_eq hm a x ts
  refine ⟨?_, hs₂.trans hs₁, ?_⟩
  · have hk : k + a = k + (effectiveNow a m x ts : ℕ)
        - (if boostNow a m x ts ≠ 0 then boostNow a m x ts else 0 : ℕ) := by
      rw [heff]
      split <;> omega
    rw [hk]
    exact hb₂
  · intro t ht
    rw [← boostNow_gate hm a x ht, hd₂, hd₁]

end NodeLedger.Balance

namespace ConvictionStakingStorage

variable {s s' : ConvictionStakingStorage} {c : Chronos} {b : Block} {now : ℕ}

/-! ## Helpers -/

variable {id tier m x a tok new : ℕ} {f : NodeLedger → Tx NodeLedger}

lemma onLedger_eq_ok :
    s.onLedger id f = .ok s' ↔ ∃ l, f (s.ledger id) = .ok l ∧ s' = s.setLedger id l := by
  unfold onLedger
  rw [bind_eq_ok]
  constructor
  · rintro ⟨l, hl, h⟩
    exact ⟨l, hl, (of_pure h).symm⟩
  · rintro ⟨l, hl, rfl⟩
    exact ⟨l, hl, rfl⟩

/-- A ledger function behind a condition is a conditional ledger function. -/
lemma onLedger_ite {P : Prop} [Decidable P] :
    (if P then s.onLedger id f else pure s)
      = s.onLedger id (fun l => if P then f l else pure l) := by
  by_cases hP : P
  · simp [hP]
  · simp only [hP, if_false, onLedger, setLedger, pure_bind, Function.update_eq_self]

@[simp] lemma setLedger_ledger_self (s : ConvictionStakingStorage) (id : ℕ) (l : NodeLedger) :
    (s.setLedger id l).ledger id = l := Function.update_self _ _ _

lemma setLedger_ledger_of_ne (s : ConvictionStakingStorage) {id' : ℕ} (l : NodeLedger)
    (h : id' ≠ id) : (s.setLedger id l).ledger id' = s.ledger id' := Function.update_of_ne h _ _

@[simp] lemma setLedger_setLedger (s : ConvictionStakingStorage) (id : ℕ) (l l' : NodeLedger) :
    (s.setLedger id l).setLedger id l' = s.setLedger id l' := by
  simp [setLedger]

lemma _tierMultiplier_eq_ok :
    s._tierMultiplier tier = .ok m
      ↔ (s.tiers tier).exists_ = true ∧ (s.tiers tier).multiplier18 = m := by
  unfold _tierMultiplier
  rw [bind_eq_ok]
  simp only [require_eq_ok, pure_eq_ok, exists_and_left, exists_const]

lemma _computeExpiryTimestamp_ok (h : s._computeExpiryTimestamp b tier = .ok x) :
    (tier = 0 ∧ x = 0) ∨
      (tier ≠ 0 ∧ x = b.timestamp + (s.tiers tier).duration ∧ x < 2 ^ 40) := by
  unfold _computeExpiryTimestamp _tierDuration at h
  by_cases htier : tier = 0
  · rw [if_pos htier] at h
    exact .inl ⟨htier, (of_pure h).symm⟩
  · rw [if_neg htier] at h
    obtain ⟨d, hd, h⟩ := of_bind h
    obtain ⟨_, -, hd⟩ := of_bind hd
    obtain ⟨e, he, h⟩ := of_bind h
    obtain ⟨hmax, h⟩ := of_require h
    obtain rfl := of_pure hd
    obtain ⟨-, rfl⟩ := addUint_eq_ok.mp he
    have hlt : b.timestamp + (s.tiers tier).duration < 2 ^ 40 := by omega
    rw [pure_eq_ok, uint40_of_lt hlt] at h
    exact .inr ⟨htier, h.symm, by omega⟩

lemma increaseNodeStake_ok (h : s.increaseNodeStake id a = .ok s') :
    s' = s.setLedger id
      { s.ledger id with nodeStakeV10 := (s.ledger id).nodeStakeV10 + a } := by
  obtain ⟨l, hl, rfl⟩ := onLedger_eq_ok.mp h
  obtain ⟨stake, hadd, hl⟩ := of_bind hl
  obtain ⟨-, rfl⟩ := addUint_eq_ok.mp hadd
  rw [← of_pure hl]

lemma decreaseNodeStake_ok (h : s.decreaseNodeStake id a = .ok s') :
    a ≤ (s.ledger id).nodeStakeV10 ∧ s' = s.setLedger id
      { s.ledger id with nodeStakeV10 := (s.ledger id).nodeStakeV10 - a } := by
  obtain ⟨l, hl, rfl⟩ := onLedger_eq_ok.mp h
  obtain ⟨stake, hsub, hl⟩ := of_bind hl
  obtain ⟨hle, rfl⟩ := subUint_eq_ok.mp hsub
  rw [← of_pure hl]
  exact ⟨hle, rfl⟩

lemma _increaseNodeStakeV10_ok (h : s._increaseNodeStakeV10 id a = .ok s') :
    s' = { s.setLedger id
        { s.ledger id with nodeStakeV10 := (s.ledger id).nodeStakeV10 + a } with
      totalStakeV10 := s.totalStakeV10 + a } := by
  obtain ⟨s₁, h₁, total, hadd, h⟩ := of_bind₂ h
  obtain rfl := increaseNodeStake_ok h₁
  obtain ⟨-, rfl⟩ := addUint_eq_ok.mp hadd
  rw [← of_pure h]
  rfl

lemma _decreaseNodeStakeV10_ok (h : s._decreaseNodeStakeV10 id a = .ok s') :
    a ≤ (s.ledger id).nodeStakeV10 ∧ a ≤ s.totalStakeV10 ∧
    s' = { s.setLedger id
        { s.ledger id with nodeStakeV10 := (s.ledger id).nodeStakeV10 - a } with
      totalStakeV10 := s.totalStakeV10 - a } := by
  obtain ⟨s₁, h₁, total, hsub, h⟩ := of_bind₂ h
  obtain ⟨hle, rfl⟩ := decreaseNodeStake_ok h₁
  obtain ⟨hle', rfl⟩ := subUint_eq_ok.mp hsub
  rw [← of_pure h]
  exact ⟨hle, hle', rfl⟩

/-- Removing a token from a node's list touches nothing else. -/
lemma _popNodeToken_ok (h : s._popNodeToken id tok = .ok s') :
    s' = { s with nodeTokens := s'.nodeTokens, nodeTokenIndex := s'.nodeTokenIndex } := by
  unfold _popNodeToken at h
  obtain ⟨last, -, moved, -, h⟩ := of_bind₂ h
  rw [← of_pure h]

/-! ## The mutators -/

/-- The expiry and the multiplier a tier gives a position created at `b`. -/
lemma tier_lock (htiers : s.TierInv) (hexists : (s.tiers tier).exists_ = true)
    (hx : s._computeExpiryTimestamp b tier = .ok x) :
    ((x = 0 ∧ (s.tiers tier).multiplier18 = SCALE18) ∨
      (x ≠ 0 ∧ SCALE18 < (s.tiers tier).multiplier18)) ∧
    (stillBoosted x b.timestamp ↔ tier > 0) ∧ (stillBoosted x b.timestamp ↔ x ≠ 0) := by
  obtain ⟨hzero, hpos⟩ := htiers tier hexists
  unfold stillBoosted
  rcases _computeExpiryTimestamp_ok hx with ⟨rfl, rfl⟩ | ⟨htier, hx, -⟩
  · exact ⟨.inl ⟨rfl, hzero rfl⟩, by omega, by omega⟩
  · have hdur := (hpos htier).2
    exact ⟨.inr ⟨by omega, (hpos htier).1⟩, by omega, by omega⟩

lemma boosted_eq_effectiveNow {ts : ℕ} (h : (x = 0 ∧ m = SCALE18) ∨ (x ≠ 0 ∧ SCALE18 < m))
    (hb : stillBoosted x ts ↔ x ≠ 0) : boosted a m = effectiveNow a m x ts := by
  unfold effectiveNow
  rcases h with ⟨hx, rfl⟩ | ⟨hx, -⟩
  · rw [if_neg (fun h => hb.mp h hx), boosted_eq le_rfl, boost_scale, add_zero]
  · rw [if_pos (hb.mpr hx)]

/-- `createPosition` puts the new position's contribution on its node. -/
lemma createPosition_ok (htiers : s.TierInv) {raw mig : ℕ} (hbal : (s.ledger id).Balance now 0)
    (hnow : now ≤ b.timestamp) (hrun : s.createPosition c b tok id raw tier mig = .ok s') :
    id ≠ 0 ∧ (s.positions tok).identityId = 0 ∧ 0 < raw ∧ (s.tiers tier).exists_ = true ∧
    ∃ x l, s._computeExpiryTimestamp b tier = .ok x ∧
      Shift (s.ledger id) l b.timestamp 0 raw 0 (dropAt x (boost raw (s.tiers tier).multiplier18)) ∧
      s' = { ((s.setPosition tok
          { raw := raw
            lockTier := tier
            expiryTimestamp := x
            identityId := id
            cumulativeRewardsClaimed := 0
            multiplier18 := (s.tiers tier).multiplier18
            lastClaimedEpoch := uint32 (c.getCurrentEpoch b - 1)
            migrationEpoch := mig })._pushNodeToken id tok).setLedger id l with
        totalStakeV10 := s.totalStakeV10 + raw } := by
  unfold createPosition at hrun
  obtain ⟨hid, hnew, hrun⟩ := of_require₂ hrun
  obtain ⟨hraw, hrun⟩ := of_require hrun
  obtain ⟨_, -, m, hm, _, -, hrun⟩ := of_bind₃ hrun
  obtain ⟨x, hx, s₁, h₁, s₂, h₂, hrun⟩ := of_bind₃ hrun
  obtain ⟨s₃, h₃, hrun⟩ := of_bind hrun
  obtain ⟨hexists, rfl⟩ := _tierMultiplier_eq_ok.mp hm
  rw [uint40_of_lt b.fits] at h₂
  obtain ⟨hlock, hboosted, hxne⟩ := tier_lock htiers hexists hx
  have hscale : SCALE18 ≤ (s.tiers tier).multiplier18 := by omega
  -- the three ledger steps: raw aggregate, settlement, contribution
  obtain rfl := _increaseNodeStakeV10_ok h₁
  obtain ⟨l₂, hl₂, rfl⟩ := onLedger_eq_ok.mp h₂
  obtain ⟨l₃, hl₃, rfl⟩ := onLedger_eq_ok.mp h₃
  unfold _scheduleNodeExpiry at hrun
  rw [onLedger_ite] at hrun
  obtain ⟨l₄, hl₄, rfl⟩ := onLedger_eq_ok.mp hrun
  simp only [setLedger_ledger_self] at hl₂ hl₃ hl₄
  have hinc := hbal.setStake ((s.ledger id).nodeStakeV10 + raw)
  obtain ⟨hb₂, hlast₂, hs₂, hd₂⟩ := hinc.settle hnow hl₂
  rw [boosted_eq_effectiveNow hlock hxne] at hl₃
  obtain ⟨hb₄, -, hs₄, hd₄⟩ := hb₂.install hlast₂ hscale hboosted hl₃ hl₄
  refine ⟨hid, hnew, hraw, hexists, x, l₄, hx, ⟨?_, ?_, ?_⟩, ?_⟩
  · have hk : (0 : ℤ) + (s.ledger id).nodeStakeV10 - ((s.ledger id).nodeStakeV10 + raw : ℕ) + raw
        = 0 := by
      push_cast
      ring
    rw [hk] at hb₄
    exact hb₄
  · rw [hs₄, hs₂]
    rfl
  · intro t ht
    rw [hd₄ t ht, hd₂ t ht]
    rfl
  · simp [setLedger, setPosition, _pushNodeToken]

section

variable (hm : (s.positions tok).identityId ≠ 0 → SCALE18 ≤ (s.positions tok).multiplier18)

include hm

section

variable (hbal : (s.ledger (s.positions tok).identityId).Balance now 0)

include hbal

/-- `increaseRaw` adds a contribution of its own for the added amount. -/
lemma increaseRaw_ok (hnow : now ≤ b.timestamp) (hrun : s.increaseRaw b tok a = .ok s') :
    (s.positions tok).identityId ≠ 0 ∧ (a ≠ 0 → (s.positions tok).raw + a < 2 ^ 96) ∧
    ∃ l, Shift (s.ledger (s.positions tok).identityId) l b.timestamp 0 a 0
        (dropAt (s.positions tok).expiryTimestamp (boost a (s.positions tok).multiplier18)) ∧
      s' = { (s.setPosition tok
          { s.positions tok with raw := (s.positions tok).raw + a }).setLedger
            (s.positions tok).identityId l with
        totalStakeV10 := s.totalStakeV10 + a } := by
  unfold increaseRaw at hrun
  obtain ⟨hid, hrun⟩ := of_require hrun
  by_cases ha : a = 0
  · subst ha
    rw [if_pos rfl] at hrun
    obtain rfl := of_pure hrun
    refine ⟨hid, fun h => absurd rfl h, _, ⟨hbal.mono hnow, rfl, ?_⟩, ?_⟩
    · intro t _
      rw [boost_zero]
      simp [dropAt]
    · simp [setLedger, setPosition]
  · rw [if_neg ha] at hrun
    obtain ⟨hmax, hrun⟩ := of_require hrun
    obtain ⟨s₁, h₁, s₂, h₂, s₃, h₃, hrun⟩ := of_bind₃ hrun
    rw [uint40_of_lt b.fits] at h₁ h₂ h₃
    obtain ⟨l₁, hl₁, rfl⟩ := onLedger_eq_ok.mp h₁
    obtain ⟨l₂, hl₂, rfl⟩ := onLedger_eq_ok.mp h₂
    unfold _scheduleNodeExpiry at h₃
    rw [onLedger_ite] at h₃
    obtain ⟨l₃, hl₃, rfl⟩ := onLedger_eq_ok.mp h₃
    obtain rfl := _increaseNodeStakeV10_ok hrun
    simp only [setLedger_ledger_self, setLedger_setLedger] at hl₂ hl₃
    obtain ⟨hb₁, hlast₁, hs₁, hd₁⟩ := hbal.settle hnow hl₁
    obtain ⟨hb₃, -, hs₃, hd₃⟩ := hb₁.install hlast₁ (hm hid) Iff.rfl hl₂ hl₃
    have hb₄ := hb₃.setStake (l₃.nodeStakeV10 + a)
    refine ⟨hid, fun _ => by omega, { l₃ with nodeStakeV10 := l₃.nodeStakeV10 + a },
      ⟨?_, ?_, ?_⟩, ?_⟩
    · have hk : (0 : ℤ) + a + l₃.nodeStakeV10 - (l₃.nodeStakeV10 + a : ℕ) = 0 := by
        push_cast
        ring
      rw [hk] at hb₄
      exact hb₄
    · show l₃.nodeStakeV10 + a + 0 = _
      rw [hs₃, hs₁]
      rfl
    · intro t ht
      show l₃.nodeExpiryDrop t + 0 = _
      rw [hd₃ t ht, hd₁ t ht]
      rfl
    · simp [setLedger, setPosition]

/-- `decreaseRaw` takes a contribution of its own off for the removed amount. -/
lemma decreaseRaw_ok (hnow : now ≤ b.timestamp) (hrun : s.decreaseRaw b tok a = .ok s') :
    (s.positions tok).identityId ≠ 0 ∧ a ≤ (s.positions tok).raw ∧
    ∃ l, Shift (s.ledger (s.positions tok).identityId) l b.timestamp a 0
        (dropAt (s.positions tok).expiryTimestamp (boost a (s.positions tok).multiplier18)) 0 ∧
      s' = { (s.setPosition tok
          { s.positions tok with raw := (s.positions tok).raw - a }).setLedger
            (s.positions tok).identityId l with
        totalStakeV10 := s.totalStakeV10 - a } := by
  unfold decreaseRaw at hrun
  obtain ⟨hid, hraw, hrun⟩ := of_require₂ hrun
  by_cases ha : a = 0
  · subst ha
    rw [if_pos rfl] at hrun
    obtain rfl := of_pure hrun
    refine ⟨hid, hraw, _, ⟨hbal.mono hnow, rfl, ?_⟩, ?_⟩
    · intro t _
      rw [boost_zero]
      simp [dropAt]
    · simp [setLedger, setPosition]
  · rw [if_neg ha] at hrun
    obtain ⟨s₁, h₁, s₂, h₂, s₃, h₃, hrun⟩ := of_bind₃ hrun
    rw [uint40_of_lt b.fits] at h₁ h₂ h₃
    obtain ⟨l₁, hl₁, rfl⟩ := onLedger_eq_ok.mp h₁
    obtain ⟨l₂, hl₂, rfl⟩ := onLedger_eq_ok.mp h₂
    unfold _cancelNodeExpiry at h₃
    rw [onLedger_ite] at h₃
    obtain ⟨l₃, hl₃, rfl⟩ := onLedger_eq_ok.mp h₃
    obtain ⟨hstake, -, rfl⟩ := _decreaseNodeStakeV10_ok hrun
    simp only [setLedger_ledger_self, setLedger_setLedger] at hl₂ hl₃
    replace hstake : a ≤ l₃.nodeStakeV10 := by simpa [setLedger, setPosition] using hstake
    obtain ⟨hb₁, hlast₁, hs₁, hd₁⟩ := hbal.settle hnow hl₁
    obtain ⟨hb₃, -, hs₃, hd₃⟩ := hb₁.unwind hlast₁ (hm hid) hl₂ hl₃
    have hb₄ := hb₃.setStake (l₃.nodeStakeV10 - a)
    refine ⟨hid, hraw, { l₃ with nodeStakeV10 := l₃.nodeStakeV10 - a }, ⟨?_, ?_, ?_⟩, ?_⟩
    · have hk : (0 : ℤ) - a + l₃.nodeStakeV10 - (l₃.nodeStakeV10 - a : ℕ) = 0 := by
        omega
      rw [hk] at hb₄
      exact hb₄
    · show l₃.nodeStakeV10 - a + a = _
      rw [← hs₁, ← hs₃]
      omega
    · intro t ht
      show l₃.nodeExpiryDrop t + _ = _
      rw [hd₃ t ht, hd₁ t ht]
      rfl
    · simp [setLedger, setPosition]

/-- `deletePosition` takes the whole contribution off. -/
lemma deletePosition_ok (hnow : now ≤ b.timestamp) (hrun : s.deletePosition b tok = .ok s') :
    (s.positions tok).identityId ≠ 0 ∧
    ∃ l, Shift (s.ledger (s.positions tok).identityId) l b.timestamp (s.positions tok).raw 0
        (dropAt (s.positions tok).expiryTimestamp
          (boost (s.positions tok).raw (s.positions tok).multiplier18)) 0 ∧
      s' = { (s.setPosition tok Position.zero).setLedger (s.positions tok).identityId l with
        totalStakeV10 := s.totalStakeV10 - (s.positions tok).raw
        nodeTokens := s'.nodeTokens
        nodeTokenIndex := s'.nodeTokenIndex } := by
  unfold deletePosition at hrun
  obtain ⟨hid, hrun⟩ := of_require hrun
  obtain ⟨s₁, h₁, s₂, h₂, s₃, h₃, hrun⟩ := of_bind₃ hrun
  obtain ⟨s₄, h₄, s₅, h₅, hrun⟩ := of_bind₂ hrun
  rw [uint40_of_lt b.fits] at h₁ h₂ h₃
  obtain ⟨l₁, hl₁, rfl⟩ := onLedger_eq_ok.mp h₁
  obtain ⟨l₂, hl₂, rfl⟩ := onLedger_eq_ok.mp h₂
  unfold _cancelNodeExpiry at h₃
  rw [onLedger_ite] at h₃
  obtain ⟨l₃, hl₃, rfl⟩ := onLedger_eq_ok.mp h₃
  simp only [setLedger_ledger_self, setLedger_setLedger] at hl₂ hl₃ h₄
  have hpop := _popNodeToken_ok h₄
  obtain ⟨hb₁, hlast₁, hs₁, hd₁⟩ := hbal.settle hnow hl₁
  obtain ⟨hb₃, -, hs₃, hd₃⟩ := hb₁.unwind hlast₁ (hm hid) hl₂ hl₃
  have hb₅ := hb₃.setStake (l₃.nodeStakeV10 - (s.positions tok).raw)
  -- `raw > 0` guards a subtraction that does nothing at zero
  have hdec : (s.positions tok).raw ≤ l₃.nodeStakeV10 ∧
      s₅ = { s₄.setLedger (s.positions tok).identityId
          { l₃ with nodeStakeV10 := l₃.nodeStakeV10 - (s.positions tok).raw } with
        totalStakeV10 := s₄.totalStakeV10 - (s.positions tok).raw } := by
    have hledger : s₄.ledger (s.positions tok).identityId = l₃ := by
      rw [hpop]
      exact setLedger_ledger_self _ _ _
    by_cases hraw : (s.positions tok).raw > 0
    · rw [if_pos hraw] at h₅
      obtain ⟨hle, -, rfl⟩ := _decreaseNodeStakeV10_ok h₅
      rw [hledger] at hle ⊢
      exact ⟨hle, rfl⟩
    · rw [if_neg hraw] at h₅
      obtain rfl := of_pure h₅
      have hzero : (s.positions tok).raw = 0 := by omega
      refine ⟨by omega, ?_⟩
      rw [hzero, ← hledger]
      simp [setLedger]
  obtain ⟨hstake, rfl⟩ := hdec
  obtain rfl := of_pure hrun
  refine ⟨hid, { l₃ with nodeStakeV10 := l₃.nodeStakeV10 - (s.positions tok).raw },
    ⟨?_, ?_, ?_⟩, ?_⟩
  · have hk : (0 : ℤ) - (s.positions tok).raw + l₃.nodeStakeV10
        - (l₃.nodeStakeV10 - (s.positions tok).raw : ℕ) = 0 := by
      omega
    rw [hk] at hb₅
    exact hb₅
  · show l₃.nodeStakeV10 - (s.positions tok).raw + (s.positions tok).raw = _
    rw [← hs₁, ← hs₃]
    omega
  · intro t ht
    show l₃.nodeExpiryDrop t + _ = _
    rw [hd₃ t ht, hd₁ t ht]
    rfl
  · rw [hpop]
    simp [setLedger, setPosition]

end

omit hm in
lemma createNewPositionFromExisting_ok (htiers : s.TierInv) {old : ℕ}
    (hm : (s.positions old).identityId ≠ 0 → SCALE18 ≤ (s.positions old).multiplier18)
    (hbal : (s.ledger id).Balance now 0) (hnow : now ≤ b.timestamp)
    (hrun : s.createNewPositionFromExisting b old new id tier = .ok s') :
    id ≠ 0 ∧ (s.positions new).identityId = 0 ∧ old ≠ new ∧ (s.positions old).identityId = id ∧
    0 < (s.positions old).raw ∧ (s.tiers tier).exists_ = true ∧
    ∃ x l, s._computeExpiryTimestamp b tier = .ok x ∧
      Shift (s.ledger id) l b.timestamp (s.positions old).raw (s.positions old).raw
        (dropAt (s.positions old).expiryTimestamp
          (boost (s.positions old).raw (s.positions old).multiplier18))
        (dropAt x (boost (s.positions old).raw (s.tiers tier).multiplier18)) ∧
      s' = { ((s.setPosition new
          { raw := (s.positions old).raw
            lockTier := tier
            expiryTimestamp := x
            identityId := id
            cumulativeRewardsClaimed := (s.positions old).cumulativeRewardsClaimed
            multiplier18 := (s.tiers tier).multiplier18
            lastClaimedEpoch := (s.positions old).lastClaimedEpoch
            migrationEpoch := (s.positions old).migrationEpoch }).setPosition old
              Position.zero).setLedger id l with
        nodeTokens := s'.nodeTokens
        nodeTokenIndex := s'.nodeTokenIndex } := by
  unfold createNewPositionFromExisting at hrun
  obtain ⟨hid, hnew, hrun⟩ := of_require₂ hrun
  obtain ⟨hne, hrun⟩ := of_require hrun
  obtain ⟨_, -, hrun⟩ := of_bind hrun
  obtain ⟨hident, hraw, hrun⟩ := of_require₂ hrun
  obtain ⟨m, hmult, s₁, h₁, s₂, h₂, hrun⟩ := of_bind₃ hrun
  obtain ⟨s₃, h₃, x, hx, s₄, h₄, hrun⟩ := of_bind₃ hrun
  obtain ⟨s₅, h₅, s₆, h₆, h₇⟩ := of_bind₂ hrun
  obtain ⟨hexists, rfl⟩ := _tierMultiplier_eq_ok.mp hmult
  rw [uint40_of_lt b.fits] at h₁ h₂ h₃
  -- settle, take the old contribution off, put the new one on: all on the ledger of `id`
  obtain ⟨l₁, hl₁, rfl⟩ := onLedger_eq_ok.mp h₁
  obtain ⟨l₂, hl₂, rfl⟩ := onLedger_eq_ok.mp h₂
  unfold _cancelNodeExpiry at h₃
  rw [onLedger_ite] at h₃
  obtain ⟨l₃, hl₃, rfl⟩ := onLedger_eq_ok.mp h₃
  obtain ⟨l₄, hl₄, rfl⟩ := onLedger_eq_ok.mp h₄
  unfold _scheduleNodeExpiry at h₅
  rw [onLedger_ite] at h₅
  obtain ⟨l₅, hl₅, rfl⟩ := onLedger_eq_ok.mp h₅
  simp only [setLedger_ledger_self, setLedger_setLedger] at hl₂ hl₃ hl₄ hl₅ h₆
  replace hx : s._computeExpiryTimestamp b tier = .ok x := hx
  obtain ⟨hlock, hboosted, hxne⟩ := tier_lock htiers hexists hx
  have hscale : SCALE18 ≤ (s.tiers tier).multiplier18 := by omega
  obtain ⟨hb₁, hlast₁, hs₁, hd₁⟩ := hbal.settle hnow hl₁
  obtain ⟨hb₃, hlast₃, hs₃, hd₃⟩ := hb₁.unwind hlast₁ (hm (hident ▸ hid)) hl₂ hl₃
  rw [boosted_eq_effectiveNow hlock hxne] at hl₄
  obtain ⟨hb₅, -, hs₅, hd₅⟩ := hb₃.install hlast₃ hscale hboosted hl₄ hl₅
  refine ⟨hid, hnew, hne, hident, hraw, hexists, x, l₅, hx, ⟨?_, ?_, ?_⟩, ?_⟩
  · have hk : (0 : ℤ) - (s.positions old).raw + (s.positions old).raw = 0 := by ring
    rw [hk] at hb₅
    exact hb₅
  · rw [hs₅, hs₃, hs₁]
  · intro t ht
    have h₃ := hd₃ t ht
    have h₅ := hd₅ t ht
    have h₁ := hd₁ t ht
    omega
  · have hpop := _popNodeToken_ok h₆
    obtain rfl := of_pure h₇
    rw [hpop]
    rfl

/-- `updateOnRedelegate` moves the whole contribution from one node to the other. -/
lemma updateOnRedelegate_ok (hbalOld : (s.ledger (s.positions tok).identityId).Balance now 0)
    (hbalNew : (s.ledger new).Balance now 0) (hnow : now ≤ b.timestamp)
    (hrun : s.updateOnRedelegate b tok new = .ok s') :
    new ≠ 0 ∧ (s.positions tok).identityId ≠ 0 ∧ (s.positions tok).identityId ≠ new ∧
    ∃ lOld lNew,
      Shift (s.ledger (s.positions tok).identityId) lOld b.timestamp (s.positions tok).raw 0
        (dropAt (s.positions tok).expiryTimestamp
          (boost (s.positions tok).raw (s.positions tok).multiplier18)) 0 ∧
      Shift (s.ledger new) lNew b.timestamp 0 (s.positions tok).raw 0
        (dropAt (s.positions tok).expiryTimestamp
          (boost (s.positions tok).raw (s.positions tok).multiplier18)) ∧
      s' = { ((s.setPosition tok { s.positions tok with identityId := new }).setLedger
          (s.positions tok).identityId lOld).setLedger new lNew with
        nodeTokens := s'.nodeTokens
        nodeTokenIndex := s'.nodeTokenIndex } := by
  unfold updateOnRedelegate at hrun
  obtain ⟨hnew, hid, hrun⟩ := of_require₂ hrun
  obtain ⟨hne, hrun⟩ := of_require hrun
  obtain ⟨s₁, h₁, s₂, h₂, s₃, h₃, hrun⟩ := of_bind₃ hrun
  obtain ⟨s₄, h₄, s₅, h₅, s₆, h₆, hrun⟩ := of_bind₃ hrun
  obtain ⟨s₇, h₇, s₈, h₈, h₉⟩ := of_bind₂ hrun
  rw [uint40_of_lt b.fits] at h₁ h₂ h₃ h₄ h₅ h₆
  refine ⟨hnew, hid, hne, ?_⟩
  generalize hp : s.positions tok = p at *
  -- the ledgers of the two nodes go through their own helpers
  obtain ⟨o₁, ho₁, rfl⟩ := onLedger_eq_ok.mp h₁
  obtain ⟨n₁, hn₁, rfl⟩ := onLedger_eq_ok.mp h₂
  obtain ⟨o₂, ho₂, rfl⟩ := onLedger_eq_ok.mp h₃
  unfold _cancelNodeExpiry at h₄
  rw [onLedger_ite] at h₄
  obtain ⟨o₃, ho₃, rfl⟩ := onLedger_eq_ok.mp h₄
  obtain ⟨n₂, hn₂, rfl⟩ := onLedger_eq_ok.mp h₅
  unfold _scheduleNodeExpiry at h₆
  rw [onLedger_ite] at h₆
  obtain ⟨n₃, hn₃, rfl⟩ := onLedger_eq_ok.mp h₆
  have hne' := hne.symm
  simp only [setLedger_ledger_self, setLedger_ledger_of_ne _ _ hne,
    setLedger_ledger_of_ne _ _ hne'] at hn₁ ho₂ ho₃ hn₂ hn₃
  have hpop := _popNodeToken_ok h₇
  obtain ⟨hstake, rfl⟩ := decreaseNodeStake_ok h₈
  obtain rfl := increaseNodeStake_ok h₉
  have hold : (s₇._pushNodeToken new tok).ledger p.identityId = o₃ := by
    show s₇.ledger p.identityId = o₃
    rw [hpop]
    show ((_ : ConvictionStakingStorage).setLedger new n₃).ledger p.identityId = o₃
    rw [setLedger_ledger_of_ne _ _ hne, setLedger_ledger_of_ne _ _ hne, setLedger_ledger_self]
  rw [hold] at hstake
  obtain ⟨hbo₁, hlo₁, hso₁, hdo₁⟩ := hbalOld.settle hnow ho₁
  obtain ⟨hbn₁, hln₁, hsn₁, hdn₁⟩ := hbalNew.settle hnow hn₁
  obtain ⟨hbo₃, hso₃, hdo₃⟩ := hbo₁.unwindNow hlo₁ (hm hid) ho₂ ho₃
  obtain ⟨hbn₃, hsn₃, hdn₃⟩ := hbn₁.installNow (hm hid) hn₂ hn₃
  have hbo := hbo₃.setStake (o₃.nodeStakeV10 - p.raw)
  have hbn := hbn₃.setStake (n₃.nodeStakeV10 + p.raw)
  refine ⟨{ o₃ with nodeStakeV10 := o₃.nodeStakeV10 - p.raw },
    { n₃ with nodeStakeV10 := n₃.nodeStakeV10 + p.raw }, ⟨?_, ?_, ?_⟩, ⟨?_, ?_, ?_⟩, ?_⟩
  · have hk : (0 : ℤ) - p.raw + o₃.nodeStakeV10 - (o₃.nodeStakeV10 - p.raw : ℕ) = 0 := by
      omega
    rw [hk] at hbo
    exact hbo
  · show o₃.nodeStakeV10 - p.raw + p.raw = _
    rw [← hso₁, ← hso₃]
    omega
  · intro t ht
    show o₃.nodeExpiryDrop t + _ = _
    rw [hdo₃ t ht, hdo₁ t ht]
    rfl
  · have hk : (0 : ℤ) + p.raw + n₃.nodeStakeV10 - (n₃.nodeStakeV10 + p.raw : ℕ) = 0 := by
      push_cast
      ring
    rw [hk] at hbn
    exact hbn
  · show n₃.nodeStakeV10 + p.raw + 0 = _
    rw [hsn₃, hsn₁]
    rfl
  · intro t ht
    show n₃.nodeExpiryDrop t + 0 = _
    rw [hdn₃ t ht, hdn₁ t ht]
    rfl
  · have hnewLedger : (s₇._pushNodeToken new tok).ledger new = n₃ := by
      show s₇.ledger new = n₃
      rw [hpop]
      exact setLedger_ledger_self _ _ _
    rw [hold, setLedger_ledger_of_ne _ _ hne', hnewLedger, hpop]
    simp only [setLedger, setPosition, _pushNodeToken]
    congr 1
    funext i
    by_cases hin : i = new
    · simp [hin]
    · by_cases hio : i = p.identityId
      · simp [hio, hne]
      · simp [hin, hio]

/-! ## Bookkeeping -/

end

lemma setLastClaimedEpoch_ok {e : ℕ} (hrun : s.setLastClaimedEpoch tok e = .ok s') :
    (s.positions tok).identityId ≠ 0 ∧
      s' = s.setPosition tok { s.positions tok with lastClaimedEpoch := e } := by
  unfold setLastClaimedEpoch at hrun
  obtain ⟨hid, hrun⟩ := of_require hrun
  exact ⟨hid, (of_pure hrun).symm⟩

lemma addCumulativeRewardsClaimed_ok (hrun : s.addCumulativeRewardsClaimed tok a = .ok s') :
    (s.positions tok).identityId ≠ 0 ∧
      s' = s.setPosition tok
        { s.positions tok with
          cumulativeRewardsClaimed := (s.positions tok).cumulativeRewardsClaimed + a } := by
  unfold addCumulativeRewardsClaimed at hrun
  obtain ⟨hid, hrun⟩ := of_require hrun
  refine ⟨hid, ?_⟩
  by_cases ha : a = 0
  · rw [if_pos ha] at hrun
    obtain rfl := of_pure hrun
    simp [setPosition, ha]
  · rw [if_neg ha] at hrun
    obtain ⟨n, hn, _, -, hrun⟩ := of_bind₂ hrun
    obtain ⟨-, rfl⟩ := addUint_eq_ok.mp hn
    exact (of_pure hrun).symm

lemma increaseOperatorFeeBalance_ok (hrun : s.increaseOperatorFeeBalance id a = .ok s') :
    s.nodeOperatorFeeBalance id + a < 2 ^ 96 ∧
      s' = s.setOperatorFeeBalance id (s.nodeOperatorFeeBalance id + a) := by
  unfold increaseOperatorFeeBalance at hrun
  obtain ⟨n, hn, hrun⟩ := of_bind hrun
  obtain ⟨hlt, rfl⟩ := addUint_eq_ok.mp hn
  exact ⟨hlt, (of_pure hrun).symm⟩

end ConvictionStakingStorage

end Dkg
