import Dkg.ConvictionStaking.Tokens

/-! # The effective stake of the positions

Every mutator moves the pending drops and the boosts of the positions by the same amounts, with one
exception. `increaseRaw` and `decreaseRaw` round the boost of the changed amount, while the
position's boost is rounded on its new total. The two agree when the fractions do not carry
(`RoundsExactly`).
-/

namespace Dkg

open Lib NodeLedger Position Finset ConvictionStakingStorage Function

section

variable {s s' : ConvictionStakingStorage} {b : Block} {id₀ aOut aIn : ℕ} {l : NodeLedger}
  {dOut dIn : ℕ → ℕ} {p p' : Position}

variable (hshift : Shift (s.ledger id₀) l b.timestamp aOut aIn dOut dIn)
    (hl : s'.ledger = update s.ledger id₀ l)

include hshift hl

/-- A shift of one ledger, against a position that changes on that node only. -/
lemma Shift.boostOn (hself : ∀ t > b.timestamp, p.boostOn id₀ t + dIn t = p'.boostOn id₀ t + dOut t)
    (hoff : ∀ id, id ≠ id₀ → ∀ t, p.boostOn id t = p'.boostOn id t) (id t : ℕ)
    (ht : t > b.timestamp) :
    (s'.ledger id).nodeExpiryDrop t + p.boostOn id t
      = (s.ledger id).nodeExpiryDrop t + p'.boostOn id t := by
  rw [hl]
  by_cases hid : id = id₀
  · have hd := hshift.drop t ht
    have hs := hself t ht
    rw [hid, update_self]
    omega
  · rw [update_of_ne hid, hoff id hid]

end

namespace ConvictionStakingStorage

variable {s s' : ConvictionStakingStorage} {c : Chronos} {b : Block} {now : ℕ}

variable (h : s.Inv now) (hnow : now ≤ b.timestamp) (hdrop : s.DropInv now)

include h hnow hdrop

lemma createPosition_dropInv {tok id raw tier mig : ℕ} (htok : tok ∈ tokenIds)
    (hrun : s.createPosition c b tok id raw tier mig = .ok s') : s'.DropInv b.timestamp := by
  obtain ⟨hid, hdead, -, -, x, l, -, hshift, rfl⟩ :=
    createPosition_ok h.tiers (h.ledger id) hnow hrun
  apply hdrop.update hnow htok rfl
  apply hshift.boostOn rfl
  · intro t _
    rw [boostOn_dead hdead]
    exact Nat.zero_add _ |>.trans (if_pos ⟨hid, rfl⟩).symm
  · intro id' hne t
    rw [boostOn_dead hdead, boostOn_of_ne hne]

lemma deletePosition_dropInv {tok : ℕ} (htok : tok ∈ tokenIds)
    (hrun : s.deletePosition b tok = .ok s') : s'.DropInv b.timestamp := by
  obtain ⟨hid, l, hshift, hs'⟩ := deletePosition_ok h.scale_le (h.ledger _) hnow hrun
  have hpos : s'.positions = update s.positions tok zero := by rw [hs']; rfl
  have hl : s'.ledger = update s.ledger (s.positions tok).identityId l := by rw [hs']; rfl
  apply hdrop.update hnow htok hpos
  apply hshift.boostOn hl
  · intro t _
    rw [boostOn_self hid, boostOn_dead rfl]
    exact Nat.add_comm _ _
  · intro id' hne t
    rw [boostOn_of_ne hne, boostOn_dead rfl]

lemma updateOnRedelegate_dropInv {tok new : ℕ} (htok : tok ∈ tokenIds)
    (hrun : s.updateOnRedelegate b tok new = .ok s') : s'.DropInv b.timestamp := by
  obtain ⟨hnew, hid, hne, lOld, lNew, hold, hins, hs'⟩ :=
    updateOnRedelegate_ok h.scale_le (h.ledger _) (h.ledger _) hnow hrun
  have hpos : s'.positions
      = update s.positions tok { s.positions tok with identityId := new } := by
    rw [hs']; rfl
  -- the old node, then the new one, then everybody else
  have hledOld : s'.ledger (s.positions tok).identityId = lOld := by
    rw [hs']
    show ((_ : ConvictionStakingStorage).setLedger new lNew).ledger _ = lOld
    rw [setLedger_ledger_of_ne _ _ hne, setLedger_ledger_self]
  have hledNew : s'.ledger new = lNew := by
    rw [hs']
    exact setLedger_ledger_self _ _ _
  have hledOff : ∀ id, id ≠ (s.positions tok).identityId → id ≠ new →
      s'.ledger id = s.ledger id := by
    intro id h1 h2
    rw [hs']
    show ((_ : ConvictionStakingStorage).setLedger new lNew).ledger id = _
    rw [setLedger_ledger_of_ne _ _ h2, setLedger_ledger_of_ne _ _ h1]
    rfl
  set p := s.positions tok with hp
  set p' : Position := { p with identityId := new } with hp'
  have hboostNew : ∀ t, p'.boostOn new t = dropAt p.expiryTimestamp (boost p.raw p.multiplier18)
      t :=
    fun t => if_pos ⟨hnew, rfl⟩
  apply hdrop.update hnow htok hpos
  intro id t ht
  by_cases h1 : id = p.identityId
  · rw [h1, hledOld, boostOn_self hid, boostOn_of_ne (p := p') hne]
    exact hold.drop t ht
  · by_cases h2 : id = new
    · rw [h2, hledNew, hboostNew, boostOn_of_ne hne.symm]
      exact hins.drop t ht
    · rw [hledOff id h1 h2, boostOn_of_ne h1, boostOn_of_ne (p := p') h2]

lemma createNewPositionFromExisting_dropInv {old new id tier : ℕ} (hold : old ∈ tokenIds)
    (hnew : new ∈ tokenIds) (hrun : s.createNewPositionFromExisting b old new id tier = .ok s') :
    s'.DropInv b.timestamp := by
  obtain ⟨hid, hdead, hne, hident, -, -, x, l, -, hshift, hs'⟩ :=
    createNewPositionFromExisting_ok h.tiers h.scale_le (h.ledger id) hnow hrun
  set q : Position :=
    ⟨(s.positions old).raw, tier, x, id, (s.positions old).cumulativeRewardsClaimed,
      (s.tiers tier).multiplier18, (s.positions old).lastClaimedEpoch,
      (s.positions old).migrationEpoch⟩ with hq
  have hpos : s'.positions = update (update s.positions new q) old zero := by rw [hs']; rfl
  have hl : s'.ledger = update s.ledger id l := by rw [hs']; rfl
  intro id' t ht
  have hsum := sum_replace (p := q) hold hnew hne (fun p => p.boostOn id' t) (boostOn_dead rfl _ _)
    (boostOn_dead hdead _ _)
  have hold' := hdrop id' t (by omega)
  have hmove : (s'.ledger id').nodeExpiryDrop t + (s.positions old).boostOn id' t
      = (s.ledger id').nodeExpiryDrop t + q.boostOn id' t := by
    apply hshift.boostOn hl
    · intro t _
      have h1 : (s.positions old).boostOn id t = _ := if_pos ⟨hident ▸ hid, hident⟩
      have h2 : q.boostOn id t = _ := if_pos ⟨hid, rfl⟩
      rw [h1, h2]
      exact Nat.add_comm _ _
    · intro id'' hii t
      rw [boostOn_of_ne (hident ▸ hii), boostOn_of_ne (p := q) hii]
    · exact ht
  rw [hpos]
  omega

/-! ## Partial changes -/

end ConvictionStakingStorage

/-- The boosts of `r` and `a` at the multiplier `m` have fractions that add up to less than one
unit, so that the boost of the sum is the sum of the boosts. -/
def RoundsExactly (r a m : ℕ) : Prop :=
  r * (m - SCALE18) % SCALE18 + a * (m - SCALE18) % SCALE18 < SCALE18
  deriving Decidable

lemma boost_add {r a m : ℕ} (h : RoundsExactly r a m) :
    boost (r + a) m = boost r m + boost a m := by
  unfold boost
  unfold RoundsExactly at h
  rw [Nat.add_mul, Nat.add_div (by norm_num [SCALE18]), if_neg (Nat.not_le.mpr h), add_zero]

namespace ConvictionStakingStorage

variable {s s' : ConvictionStakingStorage} {b : Block} {now : ℕ}

variable {tok a : ℕ}

section

variable (h : s.Inv now) (hnow : now ≤ b.timestamp) (hdrop : s.DropInv now) (htok : tok ∈ tokenIds)

include hnow hdrop htok

/-- A position gets another raw stake, and its ledger the difference of the boosts. -/
lemma restake_dropInv {r aOut aIn : ℕ} {dOut dIn : ℕ → ℕ} {l : NodeLedger}
    (hid : (s.positions tok).identityId ≠ 0)
    (hshift : Shift (s.ledger (s.positions tok).identityId) l b.timestamp aOut aIn dOut dIn)
    (hl : s'.ledger = update s.ledger (s.positions tok).identityId l)
    (hpos : s'.positions = update s.positions tok { s.positions tok with raw := r })
    (hself : ∀ t > b.timestamp, dropAt (s.positions tok).expiryTimestamp
        (boost (s.positions tok).raw (s.positions tok).multiplier18) t + dIn t
      = dropAt (s.positions tok).expiryTimestamp (boost r (s.positions tok).multiplier18) t
        + dOut t) : s'.DropInv b.timestamp := by
  set p : Position := { s.positions tok with raw := r }
  have hnew : ∀ t, p.boostOn (s.positions tok).identityId t =
      dropAt (s.positions tok).expiryTimestamp (boost r (s.positions tok).multiplier18) t :=
    fun t => if_pos ⟨hid, rfl⟩
  apply hdrop.update hnow htok hpos
  apply hshift.boostOn hl
  · intro t ht
    rw [boostOn_self hid, hnew]
    exact hself t ht
  · intro id' hne t
    rw [boostOn_of_ne hne, boostOn_of_ne (p := p) hne]

include h

lemma increaseRaw_dropInv
    (hexact : stillBoosted (s.positions tok).expiryTimestamp b.timestamp →
      RoundsExactly (s.positions tok).raw a (s.positions tok).multiplier18)
    (hrun : s.increaseRaw b tok a = .ok s') : s'.DropInv b.timestamp := by
  obtain ⟨hid, -, l, hshift, rfl⟩ := increaseRaw_ok h.scale_le (h.ledger _) hnow hrun
  refine restake_dropInv hnow hdrop htok hid hshift rfl rfl fun t ht => ?_
  unfold dropAt
  by_cases htx : t = (s.positions tok).expiryTimestamp
  · have hadd := boost_add (hexact ⟨by omega, by omega⟩)
    rw [if_pos htx, if_pos htx, if_pos htx, hadd, Pi.zero_apply, add_zero]
  · rw [if_neg htx, if_neg htx, if_neg htx, Pi.zero_apply]

lemma decreaseRaw_dropInv
    (hexact : stillBoosted (s.positions tok).expiryTimestamp b.timestamp →
      RoundsExactly ((s.positions tok).raw - a) a (s.positions tok).multiplier18)
    (hrun : s.decreaseRaw b tok a = .ok s') : s'.DropInv b.timestamp := by
  obtain ⟨hid, hle, l, hshift, rfl⟩ := decreaseRaw_ok h.scale_le (h.ledger _) hnow hrun
  refine restake_dropInv hnow hdrop htok hid hshift rfl rfl fun t ht => ?_
  unfold dropAt
  by_cases htx : t = (s.positions tok).expiryTimestamp
  · have hadd := boost_add (hexact ⟨by omega, by omega⟩)
    rw [Nat.sub_add_cancel hle] at hadd
    rw [if_pos htx, if_pos htx, if_pos htx, hadd, Pi.zero_apply, add_zero]
  · rw [if_neg htx, if_neg htx, if_neg htx, Pi.zero_apply]

end

/-- Writing the statistics of a position changes no contribution. -/
lemma sums_of_statistics (hraw : s.RawInv) (hnow : now ≤ b.timestamp) (htok : tok ∈ tokenIds)
    (crc lce : ℕ) :
    (s.setPosition tok { s.positions tok with
      cumulativeRewardsClaimed := crc
      lastClaimedEpoch := lce }).RawInv ∧
    (s.DropInv now → (s.setPosition tok { s.positions tok with
      cumulativeRewardsClaimed := crc
      lastClaimedEpoch := lce }).DropInv b.timestamp) :=
  ⟨hraw.update htok rfl ⟨fun _ => rfl, rfl⟩,
    fun hdrop => hdrop.update hnow htok rfl fun _ _ _ => rfl⟩

end ConvictionStakingStorage

/-! ## Runs -/

/-- The condition on a call under which both sides stay together: a partial change of a boosted
position has no carry between the fractions. -/
def CssCall.ExactAt (s : ConvictionStakingStorage) (b : Block) : CssCall → Prop
  | increaseRaw tok a =>
    stillBoosted (s.positions tok).expiryTimestamp b.timestamp →
      RoundsExactly (s.positions tok).raw a (s.positions tok).multiplier18
  | decreaseRaw tok a =>
    stillBoosted (s.positions tok).expiryTimestamp b.timestamp →
      RoundsExactly ((s.positions tok).raw - a) a (s.positions tok).multiplier18
  | _ => True

instance (s : ConvictionStakingStorage) (b : Block) :
    (call : CssCall) → Decidable (call.ExactAt s b)
  | .increaseRaw .. | .decreaseRaw .. => inferInstanceAs (Decidable (_ → _))
  | .addTier .. | .deactivateTier .. | .settleNodeTo .. | .settleNode .. | .createPosition ..
  | .updateOnRedelegate .. | .createNewPositionFromExisting .. | .deletePosition ..
  | .addCumulativeRewardsClaimed .. | .setLastClaimedEpoch .. | .setIsOperatorFeeClaimedForEpoch ..
  | .setNetNodeEpochRewards .. | .setOperatorFeeBalance .. | .increaseOperatorFeeBalance ..
  | .createOperatorFeeWithdrawalRequest .. | .deleteOperatorFeeWithdrawalRequest .. =>
    isTrue trivial

namespace ConvictionStakingStorage

variable {s s' : ConvictionStakingStorage} {c : Chronos} {b : Block} {now : ℕ}

lemma settleNodeTo_dropInv (h : s.Inv now) (hnow : now ≤ b.timestamp) (hdrop : s.DropInv now)
    {id : ℕ} (hrun : s.settleNodeTo id b.timestamp = .ok s') : s'.DropInv b.timestamp := by
  unfold settleNodeTo _settleNodeTo at hrun
  obtain ⟨l, hl, rfl⟩ := onLedger_eq_ok.mp hrun
  obtain ⟨-, -, -, hsame⟩ := (h.ledger id).settle hnow hl
  intro id' t ht
  by_cases hid : id' = id
  · rw [hid, setLedger_ledger_self, hsame t ht]
    exact hdrop id t (by omega)
  · rw [setLedger_ledger_of_ne _ _ hid]
    exact hdrop id' t (by omega)

lemma seed_dropInv (now : ℕ) : _seedBaselineTiers.DropInv now :=
  fun _ _ _ => (sum_eq_zero fun _ _ => boostOn_dead rfl _ _).symm

/-- Every call keeps the raw sums, and without a carry the sums of the boosts. -/
lemma sums_run (hinv : s.Inv now) (hraw : s.RawInv) (hnow : now ≤ b.timestamp)
    (call : CssCall) (htyped : call.Typed b) (hrun : call.run c b s = .ok s') :
    s'.RawInv ∧ (s.DropInv now → call.ExactAt s b → s'.DropInv b.timestamp) := by
  have hmem : ∀ {tok : ℕ}, tok < 2 ^ 256 → tok ∈ tokenIds := mem_range.mpr
  -- calls whose rounding does not depend on anything
  have hany : s'.RawInv ∧ (s.DropInv now → s'.DropInv b.timestamp) →
      s'.RawInv ∧ (s.DropInv now → call.ExactAt s b → s'.DropInv b.timestamp) :=
    fun hboth => ⟨hboth.1, fun hdrop _ => hboth.2 hdrop⟩
  have hfree : s'.positions = s.positions → s'.ledger = s.ledger →
      s'.totalStakeV10 = s.totalStakeV10 →
      s'.RawInv ∧ (s.DropInv now → call.ExactAt s b → s'.DropInv b.timestamp) :=
    fun hp hl ht => hany ⟨hraw.of_eq hp hl ht, fun hdrop => hdrop.of_eq hnow hp hl⟩
  cases call with
  | addTier k d m =>
    unfold CssCall.run addTier at hrun
    obtain ⟨_, -, _, -, hrun⟩ := of_bind₂ hrun
    obtain rfl := of_pure hrun
    exact hfree rfl rfl rfl
  | deactivateTier k =>
    unfold CssCall.run deactivateTier at hrun
    obtain ⟨_, -, _, -, hrun⟩ := of_bind₂ hrun
    obtain rfl := of_pure hrun
    exact hfree rfl rfl rfl
  | settleNodeTo id ts =>
    obtain rfl : ts = b.timestamp := htyped
    exact hany ⟨hraw.of_kept (.of_onLedger (.settle _) hrun),
      fun hdrop => settleNodeTo_dropInv hinv hnow hdrop hrun⟩
  | settleNode id =>
    simp only [CssCall.run, settleNode, uint40_of_lt b.fits] at hrun
    exact hany ⟨hraw.of_kept (.of_onLedger (.settle _) hrun),
      fun hdrop => settleNodeTo_dropInv hinv hnow hdrop hrun⟩
  | createPosition tok id raw tier mig =>
    exact hany ⟨hraw.createPosition (hmem htyped.1) hrun,
      fun hdrop => createPosition_dropInv hinv hnow hdrop (hmem htyped.1) hrun⟩
  | updateOnRedelegate tok new =>
    exact hany ⟨hraw.updateOnRedelegate (hmem htyped.1) hrun,
      fun hdrop => updateOnRedelegate_dropInv hinv hnow hdrop (hmem htyped.1) hrun⟩
  | createNewPositionFromExisting old new id tier =>
    exact hany ⟨hraw.createNewPositionFromExisting (hmem htyped.1) (hmem htyped.2) hrun,
      fun hdrop => createNewPositionFromExisting_dropInv hinv hnow hdrop (hmem htyped.1)
        (hmem htyped.2) hrun⟩
  | deletePosition tok =>
    exact hany ⟨hraw.deletePosition (hmem htyped) hrun,
      fun hdrop => deletePosition_dropInv hinv hnow hdrop (hmem htyped) hrun⟩
  | decreaseRaw tok a =>
    exact ⟨hraw.of_rawChanged (hmem htyped) (decreaseRaw_lists hrun),
      fun hdrop hexact => decreaseRaw_dropInv hinv hnow hdrop (hmem htyped) hexact hrun⟩
  | increaseRaw tok a =>
    exact ⟨hraw.of_rawChanged (hmem htyped) (increaseRaw_lists hrun),
      fun hdrop hexact => increaseRaw_dropInv hinv hnow hdrop (hmem htyped) hexact hrun⟩
  | addCumulativeRewardsClaimed tok a =>
    obtain ⟨-, rfl⟩ := addCumulativeRewardsClaimed_ok hrun
    exact hany (sums_of_statistics hraw hnow (hmem htyped) _ _)
  | setLastClaimedEpoch tok e =>
    obtain ⟨-, rfl⟩ := setLastClaimedEpoch_ok hrun
    exact hany (sums_of_statistics hraw hnow (hmem htyped) _ _)
  | setIsOperatorFeeClaimedForEpoch id e f | setNetNodeEpochRewards id e a
  | setOperatorFeeBalance id a | createOperatorFeeWithdrawalRequest id a i t
  | deleteOperatorFeeWithdrawalRequest id =>
    cases hrun
    exact hfree rfl rfl rfl
  | increaseOperatorFeeBalance id a =>
    obtain ⟨-, rfl⟩ := increaseOperatorFeeBalance_ok hrun
    exact hfree rfl rfl rfl

end ConvictionStakingStorage

/-- The machine whose partial changes of boosted positions have no carry. -/
def cssMachineExact (c : Chronos) : Machine CssState (Block × CssCall) :=
  (cssMachine c).restrict fun h l => l.2.ExactAt h.store l.1

/-- Every state of such a run has all three invariants. -/
lemma CssState.sums {c : Chronos} {h : CssState} (hr : (cssMachineExact c).Reachable h) :
    h.store.Inv h.now ∧ h.store.RawInv ∧ h.store.DropInv h.now := by
  apply hr.invariant (P := fun h => h.store.Inv h.now ∧ h.store.RawInv ∧ h.store.DropInv h.now)
  · intro h hinit
    rw [show h.store = _ from hinit]
    exact ⟨seed_inv _, .seed, seed_dropInv _⟩
  · rintro h ⟨b, call⟩ h' ⟨hinv, hraw, hdrop⟩ ⟨hexact, hnow, hnow', htyped, hrun⟩
    obtain ⟨hraw', hdrop'⟩ := sums_run hinv hraw hnow call htyped hrun
    rw [hnow']
    exact ⟨hinv.run hnow call htyped hrun, hraw', hdrop' hdrop hexact⟩

/-- **The effective stake is the positions'.** In every run whose partial changes of boosted
positions have no carry, the effective stake read at any later second is the sum over the live
positions on the node. -/
theorem getNodeEffectiveStake_eq_positions (c : Chronos) {h : CssState}
    (hr : (cssMachineExact c).Reachable h) (id : ℕ) (b : Block) (hnow : h.now ≤ b.timestamp) :
    h.store.getNodeEffectiveStake b id
      = .ok (∑ tok ∈ tokenIds, (h.store.positions tok).effectiveOn id b.timestamp) := by
  obtain ⟨hinv, hraw, hdrop⟩ := CssState.sums hr
  exact getNodeEffectiveStake_eq hinv hraw hdrop hnow id

/-- The step as a function, with the condition checked. -/
def cssExecExact (c : Chronos) (h : CssState) (l : Block × CssCall) : Tx CssState :=
  if l.2.ExactAt h.store l.1 then cssExec c h l else .error .abiDecode

lemma cssReachableExact_of_run {c : Chronos} {calls : List (Block × CssCall)} {h : CssState}
    (hrun : Machine.runList (cssExecExact c) calls cssStart = .ok h) :
    (cssMachineExact c).Reachable h := by
  refine Machine.Reachable.runList ?_ (.init (s := cssStart) rfl) hrun
  intro h l h' hexec
  unfold cssExecExact at hexec
  split at hexec
  next hexact => exact ⟨hexact, cssStep_of_cssExec c h l h' hexec⟩
  next => cases hexec

/-- Four wei locked at `1.5x` and two more compounded: the read is nine, as the position says. -/
theorem getNodeEffectiveStake_eq_positions_even :
    ∃ h : CssState, (h.store.positions 1).raw = 6 ∧
      h.store.getNodeEffectiveStake ⟨1003, by decide⟩ 1 = .ok 9 ∧
      h.store.getNodeEffectiveStake ⟨1003, by decide⟩ 1
        = .ok (∑ tok ∈ tokenIds, (h.store.positions tok).effectiveOn 1 1003) := by
  obtain ⟨h, hrun, htest⟩ := exists_of_succeeds
    (x := Machine.runList (cssExecExact hourlyChronos)
      [(1001, .createPosition 1 1 4 1 0),
       (1002, .increaseRaw 1 2)] cssStart)
    (t := fun h => decide ((h.store.positions 1).raw = 6 ∧ h.now = 1002 ∧
      h.store.getNodeEffectiveStake ⟨1003, by decide⟩ 1 = .ok 9))
    (by decide +kernel)
  obtain ⟨hraw, hnow, hread⟩ := of_decide_eq_true htest
  exact ⟨h, hraw, hread, getNodeEffectiveStake_eq_positions hourlyChronos
    (cssReachableExact_of_run hrun) 1 ⟨1003, by decide⟩ (by rw [hnow]; norm_num)⟩

/-- Three wei locked at `1.5x` and three more compounded: the ledger reads `4 + 4`, the position's
effective stake is `9`. -/
theorem getNodeEffectiveStake_below_positions :
    ¬ ∀ h, (cssMachine hourlyChronos).Reachable h → ∀ id, ∀ b : Block, h.now ≤ b.timestamp →
      h.store.getNodeEffectiveStake b id
        = .ok (∑ tok ∈ tokenIds, (h.store.positions tok).effectiveOn id b.timestamp) := by
  intro hall
  obtain ⟨h, hrun, htest⟩ := exists_of_succeeds
    (x := Machine.runList (cssExec hourlyChronos)
      [(1001, .createPosition 1 1 3 1 0),
       (1002, .increaseRaw 1 3)] cssStart)
    (t := fun h => decide (h.now = 1002 ∧ (h.store.positions 1).effectiveOn 1 1003 = 9 ∧
      h.store.getNodeEffectiveStake ⟨1003, by decide⟩ 1 = .ok 8))
    (by decide +kernel)
  obtain ⟨hnow, heff, hread⟩ := of_decide_eq_true htest
  have hsum := hall h (cssReachable_of_run hrun) 1 ⟨1003, by decide⟩ (by rw [hnow]; norm_num)
  rw [hread, Except.ok.injEq] at hsum
  replace hsum : 8 = ∑ tok ∈ tokenIds, (h.store.positions tok).effectiveOn 1 1003 := hsum
  have hle := single_le_sum (s := tokenIds)
    (f := fun tok => (h.store.positions tok).effectiveOn 1 1003)
    (fun _ _ => Nat.zero_le _) (show 1 ∈ tokenIds from mem_range.mpr (by norm_num))
  simp only [heff] at hle
  omega

end Dkg
