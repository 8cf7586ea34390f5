import Dkg.ConvictionStaking.Tokens

/-! # Token lists and raw aggregates of every run

`nodeTokens` enumerates the live positions of a node: each one is in the list once, at the slot
the index table says, and nothing else is. With that the raw aggregates, which are sums over all
token ids, are the sums over the lists.

Neither depends on the queues of boost expiries, so the runs here are all sequences of successful
calls: blocks need not follow each other, and a settlement may be to any second.
-/

namespace Dkg

open Lib Position List
open Function (update update_of_ne update_self)

/-- What the ABI decoder lets through, with a settlement to any second. -/
def CssCall.Decoded (b : Block) : CssCall → Prop
  | settleNodeTo _ _ => True
  | call => call.Typed b

def cssCallStep (c : Chronos) (s : ConvictionStakingStorage) (l : Block × CssCall)
    (s' : ConvictionStakingStorage) : Prop :=
  l.2.Decoded l.1 ∧ l.2.run c l.1 s = .ok s'

/-- All sequences of successful calls, from the initialised contract. -/
def cssCalls (c : Chronos) : Machine ConvictionStakingStorage (Block × CssCall) where
  init s := s = ConvictionStakingStorage._seedBaselineTiers
  step := cssCallStep c

namespace ConvictionStakingStorage

variable {s s' : ConvictionStakingStorage} {c : Chronos} {b : Block}

/-- The lists enumerate the live positions, which all have a token id of the contract's type, and
the raw aggregates are their sums. -/
structure EnumInv (s : ConvictionStakingStorage) : Prop where
  lists : s.TokenInv
  typed : ∀ tok, (s.positions tok).identityId ≠ 0 → tok ∈ tokenIds
  sums : s.RawInv

namespace EnumInv

lemma seed : _seedBaselineTiers.EnumInv where
  lists := .seed
  typed := fun _ h => absurd rfl h
  sums := .seed

variable {tok id raw tier new : ℕ} {p : Position}

variable (h : s.EnumInv)

include h

section

variable (htok : tok ∈ tokenIds)

include htok

lemma typed_update (hpos : s'.positions = update s.positions tok p) :
    ∀ t, (s'.positions t).identityId ≠ 0 → t ∈ tokenIds := by
  intro t ht
  by_cases hne : t = tok
  · rw [hne]
    exact htok
  · rw [hpos, update_of_ne hne] at ht
    exact h.typed t ht

/-- One position is replaced on its own node, and the aggregates follow. -/
lemma rewrite (hpos : s'.positions = update s.positions tok p)
    (hid : p.identityId = (s.positions tok).identityId) (hlists : SameLists s s')
    (hstaked : Restaked s s' (s.positions tok) p) : s'.EnumInv where
  lists := by
    refine h.lists.of_eq hlists fun t => ?_
    by_cases hne : t = tok
    · rw [hpos, hne, update_self, hid]
    · rw [hpos, update_of_ne hne]
  typed := h.typed_update htok hpos
  sums := h.sums.update htok hpos hstaked

omit htok in
lemma of_kept (hkept : TokensKept s s') : s'.EnumInv where
  lists := h.lists.of_eq hkept.sameLists fun _ => by rw [hkept.positions]
  typed := by
    rw [hkept.positions]
    exact h.typed
  sums := h.sums.of_kept hkept

lemma createPosition {mig : ℕ}
    (hrun : s.createPosition c b tok id raw tier mig = .ok s') : s'.EnumInv := by
  obtain ⟨-, -, ⟨p, -, hpos, -⟩, -⟩ := createPosition_lists hrun
  exact ⟨h.lists.createPosition hrun, h.typed_update htok hpos, h.sums.createPosition htok hrun⟩

lemma deletePosition (hrun : s.deletePosition b tok = .ok s') : s'.EnumInv := by
  obtain ⟨-, hpos, -⟩ := deletePosition_lists hrun
  exact ⟨h.lists.deletePosition hrun, h.typed_update htok hpos, h.sums.deletePosition htok hrun⟩

lemma updateOnRedelegate (hrun : s.updateOnRedelegate b tok new = .ok s') : s'.EnumInv := by
  obtain ⟨-, -, -, hpos, -⟩ := updateOnRedelegate_lists hrun
  exact ⟨h.lists.updateOnRedelegate hrun, h.typed_update htok hpos,
    h.sums.updateOnRedelegate htok hrun⟩

omit htok in
lemma createNewPositionFromExisting {old : ℕ} (hold : old ∈ tokenIds)
    (hnew : new ∈ tokenIds) (hrun : s.createNewPositionFromExisting b old new id tier = .ok s') :
    s'.EnumInv := by
  obtain ⟨-, -, -, -, -, ⟨p, -, -, hpos⟩, -⟩ := createNewPositionFromExisting_lists hrun
  refine ⟨h.lists.createNewPositionFromExisting hrun, ?_, ?_⟩
  · intro t ht
    by_cases hto : t = old
    · rw [hto]
      exact hold
    · rw [hpos, update_of_ne hto] at ht
      by_cases htn : t = new
      · rw [htn]
        exact hnew
      · rw [update_of_ne htn] at ht
        exact h.typed t ht
  · exact h.sums.createNewPositionFromExisting hold hnew hrun

lemma of_rawChanged (hch : RawChanged s s' tok raw) : s'.EnumInv :=
  h.rewrite htok hch.positions rfl hch.sameLists hch.staked

end

/-- Every call keeps the lists and the sums. -/
lemma run (call : CssCall) (htyped : call.Decoded b)
    (hrun : call.run c b s = .ok s') : s'.EnumInv := by
  have hmem : ∀ {tok : ℕ}, tok < 2 ^ 256 → tok ∈ tokenIds := Finset.mem_range.mpr
  have hkept : ∀ {s₁ : ConvictionStakingStorage}, s₁.positions = s.positions →
      s₁.nodeTokens = s.nodeTokens → s₁.nodeTokenIndex = s.nodeTokenIndex →
      s₁.ledger = s.ledger → s₁.totalStakeV10 = s.totalStakeV10 → s₁.EnumInv :=
    fun hp hl hi hled ht =>
      h.of_kept ⟨hp, ⟨hl, hi⟩, fun id => congrArg (fun f => (f id).nodeStakeV10) hled, ht⟩
  cases call with
  | addTier k d m =>
    unfold CssCall.run addTier at hrun
    obtain ⟨_, -, _, -, hrun⟩ := of_bind₂ hrun
    obtain rfl := of_pure hrun
    exact hkept rfl rfl rfl rfl rfl
  | deactivateTier k =>
    unfold CssCall.run deactivateTier at hrun
    obtain ⟨_, -, _, -, hrun⟩ := of_bind₂ hrun
    obtain rfl := of_pure hrun
    exact hkept rfl rfl rfl rfl rfl
  | settleNodeTo id ts | settleNode id => exact h.of_kept (.of_onLedger (.settle _) hrun)
  | createPosition tok id raw tier mig => exact h.createPosition (hmem htyped.1) hrun
  | updateOnRedelegate tok new => exact h.updateOnRedelegate (hmem htyped.1) hrun
  | createNewPositionFromExisting old new id tier =>
    exact h.createNewPositionFromExisting (hmem htyped.1) (hmem htyped.2) hrun
  | deletePosition tok => exact h.deletePosition (hmem htyped) hrun
  | decreaseRaw tok a => exact h.of_rawChanged (hmem htyped) (decreaseRaw_lists hrun)
  | increaseRaw tok a => exact h.of_rawChanged (hmem htyped) (increaseRaw_lists hrun)
  | addCumulativeRewardsClaimed tok a =>
    obtain ⟨-, rfl⟩ := addCumulativeRewardsClaimed_ok hrun
    exact h.rewrite (hmem htyped) rfl rfl ⟨rfl, rfl⟩ ⟨fun _ => rfl, rfl⟩
  | setLastClaimedEpoch tok e =>
    obtain ⟨-, rfl⟩ := setLastClaimedEpoch_ok hrun
    exact h.rewrite (hmem htyped) rfl rfl ⟨rfl, rfl⟩ ⟨fun _ => rfl, rfl⟩
  | setIsOperatorFeeClaimedForEpoch id e f | setNetNodeEpochRewards id e a
  | setOperatorFeeBalance id a | createOperatorFeeWithdrawalRequest id a i t
  | deleteOperatorFeeWithdrawalRequest id =>
    cases hrun
    exact hkept rfl rfl rfl rfl rfl
  | increaseOperatorFeeBalance id a =>
    obtain ⟨-, rfl⟩ := increaseOperatorFeeBalance_ok hrun
    exact hkept rfl rfl rfl rfl rfl

end EnumInv

/-- The sum over a list of the live positions of a node is the sum over all token ids. -/
lemma EnumInv.sum_nodeTokens (h : s.EnumInv) (id : ℕ) :
    ((s.nodeTokens id).map fun tok => (s.positions tok).raw).sum
      = ∑ tok ∈ tokenIds, (s.positions tok).rawOn id := by
  have hset : (s.nodeTokens id).toFinset = tokenIds.filter fun tok => (s.positions tok).On id := by
    ext tok
    rw [mem_toFinset, h.lists.members, Finset.mem_filter]
    constructor
    · intro hon
      exact ⟨h.typed tok hon.1, hon⟩
    · intro hboth
      exact hboth.2
  calc ((s.nodeTokens id).map fun tok => (s.positions tok).raw).sum
      = ∑ tok ∈ (s.nodeTokens id).toFinset, (s.positions tok).raw :=
        (sum_toFinset _ (h.lists.indexed id).nodup).symm
    _ = ∑ tok ∈ tokenIds with (s.positions tok).On id, (s.positions tok).raw := by rw [hset]
    _ = ∑ tok ∈ tokenIds, (s.positions tok).rawOn id := Finset.sum_filter _ _

end ConvictionStakingStorage

/-- Every reachable storage has enumerated positions. -/
lemma enumInv_of_reachable {c : Chronos} {s : ConvictionStakingStorage}
    (hr : (cssCalls c).Reachable s) : s.EnumInv := by
  apply hr.invariant (P := ConvictionStakingStorage.EnumInv)
  · intro s hinit
    rw [show s = _ from hinit]
    exact ConvictionStakingStorage.EnumInv.seed
  · rintro s ⟨b, call⟩ s' hinv ⟨htyped, hrun⟩
    exact hinv.run call htyped hrun

/-- **Aggregates and enumeration.** After any sequence of successful calls, for every node: its
list has no duplicates, holds exactly the live positions of the node, and the index table gives
the slot of each; its raw stake is the sum over the list. The total is the sum over all live
positions. -/
theorem nodeTokens_enumerate_positions (c : Chronos) {s : ConvictionStakingStorage}
    (hr : (cssCalls c).Reachable s) :
    (∀ id, (s.nodeTokens id).Nodup ∧
      (∀ tok, tok ∈ s.nodeTokens id
        ↔ (s.positions tok).identityId ≠ 0 ∧ (s.positions tok).identityId = id) ∧
      (∀ i tok, (s.nodeTokens id)[i]? = some tok → s.nodeTokenIndex id tok = i) ∧
      s.getNodeStakeV10 id = ((s.nodeTokens id).map fun tok => (s.positions tok).raw).sum) ∧
    (∀ tok, (s.positions tok).identityId ≠ 0 → tok ∈ tokenIds) ∧
    s.totalStakeV10
      = ∑ tok ∈ tokenIds with (s.positions tok).identityId ≠ 0, (s.positions tok).raw := by
  have hinv := enumInv_of_reachable hr
  refine ⟨fun id => ⟨?_, ?_, ?_, ?_⟩, hinv.typed, ?_⟩
  · exact (hinv.lists.indexed id).nodup
  · exact hinv.lists.members id
  · exact hinv.lists.indexed id
  · exact (hinv.sums.stake id).trans (hinv.sum_nodeTokens id).symm
  · rw [Finset.sum_filter, hinv.sums.total]
    apply Finset.sum_congr rfl
    intro tok _
    by_cases hlive : (s.positions tok).identityId = 0
    · rw [if_neg (not_not.mpr hlive), rawOn_dead hlive]
    · rw [if_pos hlive, rawOn_self hlive]

/-- The step as a function, for calls other than a settlement to a given second. -/
def cssCallExec (c : Chronos) (s : ConvictionStakingStorage) (l : Block × CssCall) :
    Tx ConvictionStakingStorage :=
  if l.2.Typed l.1 then l.2.run c l.1 s else .error .abiDecode

lemma cssCallStep_of_exec (c : Chronos) (s : ConvictionStakingStorage) (l : Block × CssCall)
    (s' : ConvictionStakingStorage) (hexec : cssCallExec c s l = .ok s') :
    cssCallStep c s l s' := by
  unfold cssCallExec at hexec
  split at hexec
  next htyped =>
    refine ⟨?_, hexec⟩
    unfold CssCall.Decoded
    split
    · trivial
    · exact htyped
  next => cases hexec

/-- Three positions on node `1`; the first is replaced by token `4`, the second moves to node `2`
and the third loses two wei: node `1` is left with the tokens `3` and `4`. -/
theorem nodeTokens_enumerate_positions_moved :
    ∃ s, (cssCalls hourlyChronos).Reachable s ∧ s.nodeTokens 1 = [3, 4] ∧
      s.nodeTokens 2 = [2] ∧ s.getNodeStakeV10 1 = 10 ∧ (s.nodeTokens 1).Nodup ∧
      s.getNodeStakeV10 1 = ((s.nodeTokens 1).map fun tok => (s.positions tok).raw).sum := by
  obtain ⟨s, hrun, htest⟩ := exists_of_succeeds
    (x := Machine.runList (cssCallExec hourlyChronos)
      [(1001, .createPosition 1 1 5 1 0),
       (1001, .createPosition 2 1 6 1 0),
       (1001, .createPosition 3 1 7 0 0),
       (1002, .createNewPositionFromExisting 1 4 1 3),
       (1002, .updateOnRedelegate 2 2),
       (1003, .decreaseRaw 3 2)]
      ConvictionStakingStorage._seedBaselineTiers)
    (t := fun s => decide (s.nodeTokens 1 = [3, 4] ∧ s.nodeTokens 2 = [2] ∧
      s.getNodeStakeV10 1 = 10))
    (by decide +kernel)
  obtain ⟨hone, htwo, hstake⟩ := of_decide_eq_true htest
  have hr : (cssCalls hourlyChronos).Reachable s :=
    Machine.Reachable.runList (cssCallStep_of_exec hourlyChronos) (.init rfl) hrun
  obtain ⟨hnodes, -, -⟩ := nodeTokens_enumerate_positions hourlyChronos hr
  obtain ⟨hnodup, -, -, hsum⟩ := hnodes 1
  exact ⟨s, hr, hone, htwo, hstake, hnodup, hsum⟩

end Dkg
