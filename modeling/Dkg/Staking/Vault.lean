import Dkg.Staking.ClaimOnce
import Dkg.Staking.Failures

/-! # The vault

What the vault holds against what it owes. Stakes and deposits bring TRAC in, withdrawals and
finalised operator fees take it out; a claim moves nothing and turns a part of the epoch pools
into stake and fees. A V8 conversion raises the stake and brings nothing in, so the account is
kept for the runs without one.
-/

namespace Dkg

open Lib ConvictionStakingStorage List

/-! ## What the log says -/

def depositLog (log : List Event) : List Deposit :=
  log.filterMap fun
    | .deposited d => some d
    | _ => none

/-- The operator fees a log has paid out, each with its node. -/
def feeWithdrawals (log : List Event) : List (ℕ × ℕ) :=
  log.filterMap fun
    | .feeWithdrawn identityId amount => some (identityId, amount)
    | _ => none

def feesPaid (log : List Event) : ℕ := ((feeWithdrawals log).map Prod.snd).sum

def rewardsPaid (lines : List (ℕ × ClaimLine)) : ℕ := (lines.map fun a => a.2.reward).sum

/-- What the claims have taken from the pool of an epoch: rewards and operator fees. -/
def grantedAt (lines : List (ℕ × ClaimLine)) (e : ℕ) : ℕ :=
  (lines.map fun a => if a.2.epoch = e then a.2.reward + a.2.fee else 0).sum

/-- No epoch's pool has been overdrawn. -/
def WithinPools (log : List Event) : Prop :=
  ∀ e, grantedAt (linesOf log) e ≤ poolOf (depositLog log) e

lemma depositLog_append (log events : List Event) :
    depositLog (log ++ events) = depositLog log ++ depositLog events := filterMap_append

lemma feesPaid_append (log events : List Event) :
    feesPaid (log ++ events) = feesPaid log + feesPaid events := by
  simp [feesPaid, feeWithdrawals]

lemma rewardsPaid_append (L L' : List (ℕ × ClaimLine)) :
    rewardsPaid (L ++ L') = rewardsPaid L + rewardsPaid L' := by
  simp [rewardsPaid]

lemma rewardsPaid_recordLines (record : Option Claimed) :
    rewardsPaid (recordLines record) = claimTotal record := by
  cases record with
  | none => rfl
  | some record =>
    simp only [rewardsPaid, recordLines, claimTotal, Claimed.total, map_map]
    rfl

@[simp] lemma depositLog_claimEvents (record : Option Claimed) :
    depositLog (Op.claimEvents record) = [] := by
  cases record <;> rfl

@[simp] lemma feesPaid_claimEvents (record : Option Claimed) :
    feesPaid (Op.claimEvents record) = 0 := by
  cases record <;> rfl

lemma feesWithdrawn_eq (log : List Event) (id : ℕ) :
    feesWithdrawn log id
      = ((feeWithdrawals log).map fun p => if p.1 = id then p.2 else 0).sum := by
  induction log with
  | nil => rfl
  | cons event log ih =>
    have hlog : feesWithdrawn (event :: log) id = feesWithdrawn [event] id + feesWithdrawn log id :=
      feesWithdrawn_append [event] log id
    rw [hlog, ih]
    cases event <;> simp [feesWithdrawn, feeWithdrawals]

def nodeIds : Finset ℕ := Finset.range (2 ^ 72)

/-- What the vault owes: the stake, the fee balances, and the fees about to be withdrawn. -/
def ConvictionStakingStorage.owed (s : ConvictionStakingStorage) : ℕ :=
  s.totalStakeV10 + ∑ id ∈ nodeIds, s.nodeOperatorFeeBalance id
    + ∑ id ∈ nodeIds, (s.operatorFeeWithdrawals id).amount

/-! ## The account of the vault -/

/-- TRAC in the vault, and what has left it, is the stake and the deposits. -/
structure VaultInv (w : World) (log : List Event) : Prop where
  balance : w.trac.vault + rewardsPaid (linesOf log) + feesPaid log
    = w.css.totalStakeV10 + totalDeposited (depositLog log)
  deposits : WellFormedLog (depositLog log) (w.es.shard EPOCH_POOL_INDEX).accumulatedRemainder
  nodes : ∀ a ∈ linesOf log, a.1 ∈ nodeIds ∧ a.2.epoch < 2 ^ 32

/-- A deposit leaves the remainder that its log entry says. -/
lemma EpochStorage.addTokensToEpochRange_remainder {c : Chronos} {b : Block}
    {es es' : EpochStorage} {sid s e a : ℕ} (h : es.addTokensToEpochRange c b sid s e a = .ok es') :
    s ≤ e ∧ e + 1 < 2 ^ 256 ∧ (es'.shard sid).accumulatedRemainder
      = (⟨sid, s, e, a, (es.shard sid).accumulatedRemainder⟩ : Deposit).leftover := by
  unfold EpochStorage.addTokensToEpochRange at h
  obtain ⟨sh₁, h₁, sh₂, h₂, hend⟩ := of_bind₂ h
  obtain rfl := of_pure hend
  obtain ⟨hse, hend, htotal, rfl⟩ := Shard.spread_eq_ok h₁
  have hkept : sh₂.accumulatedRemainder
      = uint96 ((a + (es.shard sid).accumulatedRemainder) % (e - s + 1)) := by
    unfold Shard.finalizePast at h₂
    split at h₂
    next =>
      unfold Shard.finalizeEpochsUpTo at h₂
      obtain ⟨cumulative, -, rfl⟩ := of_bind_pure h₂
      rfl
    next =>
      obtain rfl := of_pure h₂
      rfl
  refine ⟨hse, hend, ?_⟩
  simp only [Function.update_self]
  rw [hkept, uint96_of_lt (lt_of_le_of_lt (Nat.mod_le _ _) htotal)]
  rfl

namespace VaultInv

variable {c : Chronos} {b : Block} {w w' : World} {now cur : ℕ} {log events : List Event}

variable (h : VaultInv w log)

include h

/-- A transaction that claims nothing and pays what it has to. -/
lemma transfer (hlines : linesOf events = [])
    (hvault : w'.trac.vault + feesPaid events + w.css.totalStakeV10
      = w.trac.vault + w'.css.totalStakeV10 + totalDeposited (depositLog events))
    (hdeposits : WellFormedLog (depositLog (log ++ events))
      (w'.es.shard EPOCH_POOL_INDEX).accumulatedRemainder) : VaultInv w' (log ++ events) := by
  refine ⟨?_, hdeposits, ?_⟩
  · have := h.balance
    have hsum : totalDeposited (depositLog (log ++ events))
        = totalDeposited (depositLog log) + totalDeposited (depositLog events) := by
      rw [depositLog_append]
      simp [totalDeposited]
    rw [linesOf_append, feesPaid_append, hlines, hsum, append_nil]
    omega
  · rw [linesOf_append, hlines, append_nil]
    exact h.nodes

/-- A transaction that moves no TRAC and stakes nothing. -/
lemma quiet (hvault : w'.trac.vault = w.trac.vault)
    (htotal : w'.css.totalStakeV10 = w.css.totalStakeV10) (hes : w'.es = w.es)
    (hlines : linesOf events = []) (hfees : feesPaid events = 0)
    (hdeposits : depositLog events = []) : VaultInv w' (log ++ events) := by
  refine h.transfer hlines ?_ ?_
  · rw [hvault, htotal, hfees, hdeposits]
    simp [totalDeposited]
  · rw [depositLog_append, hdeposits, append_nil, hes]
    exact h.deposits

lemma claim {tok : ℕ} {record : Option Claimed}
    (heff : ClaimEffect c b w tok w' record) (hinv : w.css.Inv now) (hnow : now ≤ b.timestamp)
    (hcursor : CursorInv w cur) : VaultInv w' (log ++ Op.claimEvents record) := by
  obtain ⟨hid, -, -, -, hes, -, htrac, htotal, -⟩ := heff.spec hinv hnow
  refine ⟨?_, ?_, ?_⟩
  · have := h.balance
    rw [linesOf_append, feesPaid_append, depositLog_append, linesOf_claimEvents,
      feesPaid_claimEvents, depositLog_claimEvents, rewardsPaid_append, rewardsPaid_recordLines,
      htrac, htotal, append_nil]
    omega
  · rw [depositLog_append, depositLog_claimEvents, append_nil, hes]
    exact h.deposits
  · rw [linesOf_append, linesOf_claimEvents]
    intro a ha
    rcases mem_append.mp ha with ha | ha
    · exact h.nodes a ha
    · cases record with
      | none => cases ha
      | some record =>
        obtain ⟨line, hline, rfl⟩ := mem_map.mp ha
        obtain ⟨-, hnode, -, hto, hshape⟩ := heff.record hcursor
        have hin := (hshape.inside line hline).2
        have hlt := c.getCurrentEpoch_lt b
        refine ⟨?_, by simp only; omega⟩
        rw [hnode]
        exact Finset.mem_range.mpr (hcursor.live tok hid).node

/-- Every transaction but a V8 conversion keeps the account. -/
lemma step {op : Op} (heff : Effect c b w op w' events)
    (hadm : op.Admissible c b) (hconv : ∀ delegator id tier, op ≠ .migrateV8 delegator id tier)
    (hinv : w.css.Inv now) (hraw : w.css.RawInv) (hnow : now ≤ b.timestamp)
    (hcursor : CursorInv w cur) : VaultInv w' (log ++ events) := by
  cases heff with
  | environment | setAdminKey | createProfile | updateOperatorFee | requestFee | cancelFee =>
    exact h.quiet rfl rfl rfl rfl rfl rfl
  | addTier hrun => exact h.quiet rfl (addTier_spec hrun).2.1 rfl rfl rfl rfl
  | deactivateTier hrun => exact h.quiet rfl (deactivateTier_spec hrun).2.1 rfl rfl rfl rfl
  | @depositTokens payer s e a trac es hvault hrun =>
    obtain ⟨hse, hend, hrem⟩ := EpochStorage.addTokensToEpochRange_remainder hrun
    have hpos := c.getCurrentEpoch_pos b
    have hstart := hadm.1
    refine h.transfer rfl ?_ ?_
    · show trac.vault + 0 + w.css.totalStakeV10 = w.trac.vault + w.css.totalStakeV10 + (a + 0)
      omega
    · rw [depositLog_append]
      show WellFormedLog (depositLog log ++ [_]) (es.shard EPOCH_POOL_INDEX).accumulatedRemainder
      rw [hrem]
      exact h.deposits.append (by simp only; omega) hse hend
  | submitProof hproved =>
    exact h.quiet (by rw [hproved.trac]) hproved.spec.2.2.1 hproved.es rfl rfl rfl
  | createConviction hcreated hvault =>
    obtain ⟨-, -, -, -, -, htotal, -⟩ := hcreated.spec hinv hnow
    refine h.transfer rfl ?_ ?_
    · rw [hvault, htotal]
      show w.trac.vault + _ + 0 + _ = _ + _ + 0
      omega
    · rw [append_nil, hcreated.es]
      exact h.deposits
  | migrateV8 => exact absurd rfl (hconv _ _ _)
  | relock hrelocked =>
    obtain ⟨-, -, -, -, -, htotal, -⟩ := hrelocked.spec hinv hnow
    exact h.quiet (by rw [hrelocked.trac]) htotal hrelocked.es rfl rfl rfl
  | redelegate hmoved =>
    obtain ⟨-, -, -, htotal, -⟩ := hmoved.spec hinv hnow
    exact h.quiet (by rw [hmoved.trac]) htotal hmoved.es rfl rfl rfl
  | claim hclaim => exact h.claim hclaim hinv hnow hcursor
  | withdraw hout =>
    obtain ⟨w₁, hclaim, -, -, -, -, -, htotal, hvault, -⟩ :=
        hout.spec hinv hraw hnow hcursor.minted_lt
    obtain ⟨hbalance, hdeposits, hnodes⟩ := h.claim hclaim hinv hnow hcursor
    obtain ⟨-, -, -, -, hes, -⟩ := hclaim.spec hinv hnow
    refine ⟨by omega, ?_, hnodes⟩
    rw [hout.es, ← hes]
    exact hdeposits
  | @finalizeFee sender id trac hle hvault =>
    refine h.transfer rfl ?_ ?_
    · show trac.vault + ((w.css.operatorFeeWithdrawals id).amount + 0) + _ = _ + _ + 0
      rw [hvault]
      simp only [deleteOperatorFeeWithdrawalRequest]
      omega
    · rw [depositLog_append]
      exact (append_nil (depositLog log)).symm ▸ h.deposits

/-- No fee was ever taken for an id that is no identity id. -/
lemma feesTaken_outside {id : ℕ} (hid : id ∉ nodeIds) : feesTaken (linesOf log) id = 0 := by
  unfold feesTaken
  refine sum_eq_zero fun v hv => ?_
  obtain ⟨a, ha, rfl⟩ := mem_map.mp hv
  rw [if_neg]
  rintro rfl
  exact hid (h.nodes a ha).1

lemma pending_le (hfee : FeeInv w.css (linesOf log) (feesWithdrawn log))
    (id : ℕ) : (w.css.operatorFeeWithdrawals id).amount ≤ w.css.owed := by
  unfold owed
  by_cases hid : id ∈ nodeIds
  · have := Finset.single_le_sum (f := fun id => (w.css.operatorFeeWithdrawals id).amount)
      (fun _ _ => Nat.zero_le _) hid
    omega
  · have := hfee.balance id
    rw [h.feesTaken_outside hid] at this
    omega

lemma covers (hfee : FeeInv w.css (linesOf log) (feesWithdrawn log))
    (hpools : WithinPools log) : w.css.owed ≤ w.trac.vault := by
  -- the fees taken, node by node
  have htaken : ∑ id ∈ nodeIds, feesTaken (linesOf log) id
      = ((linesOf log).map fun a => a.2.fee).sum := by
    unfold feesTaken
    rw [← sum_keys nodeIds (fun a => a.1) (fun a => a.2.fee) (linesOf log)
      fun a ha => .inl (h.nodes a ha).1]
  have hpaid : ∑ id ∈ nodeIds, feesWithdrawn log id = feesPaid log := by
    simp only [feesWithdrawn_eq, feesPaid]
    rw [← sum_keys nodeIds Prod.fst Prod.snd (feeWithdrawals log)]
    intro p hp
    by_cases hid : p.1 ∈ nodeIds
    · exact .inl hid
    · -- no fee was ever taken for such an id, so none was paid out
      have hbal := hfee.balance p.1
      have hle : p.2 ≤ feesWithdrawn log p.1 := by
        rw [feesWithdrawn_eq]
        refine single_le_sum (fun _ _ => Nat.zero_le _) _ (mem_map.mpr ⟨p, hp, ?_⟩)
        rw [if_pos rfl]
      rw [h.feesTaken_outside hid] at hbal
      exact .inr (by omega)
  have hfees : ∑ id ∈ nodeIds, w.css.nodeOperatorFeeBalance id
      + ∑ id ∈ nodeIds, (w.css.operatorFeeWithdrawals id).amount + feesPaid log
      = ((linesOf log).map fun a => a.2.fee).sum := by
    rw [← htaken, ← hpaid, ← Finset.sum_add_distrib, ← Finset.sum_add_distrib]
    exact Finset.sum_congr rfl fun id _ => hfee.balance id
  -- the pools, epoch by epoch
  have hgranted : ∑ e ∈ Finset.range (2 ^ 256), grantedAt (linesOf log) e
      = rewardsPaid (linesOf log) + ((linesOf log).map fun a => a.2.fee).sum := by
    unfold grantedAt rewardsPaid
    rw [sum_keys (Finset.range (2 ^ 256)) (fun a => a.2.epoch)
      (fun a => a.2.reward + a.2.fee) (linesOf log) ?_]
    · exact sum_map_add
    · intro a ha
      exact .inl (Finset.mem_range.mpr (lt_trans (h.nodes a ha).2 (by norm_num)))
  have hsum := h.deposits.sum_poolOf
  have hle : ∑ e ∈ Finset.range (2 ^ 256), grantedAt (linesOf log) e
      ≤ ∑ e ∈ Finset.range (2 ^ 256), poolOf (depositLog log) e :=
    Finset.sum_le_sum fun e _ => hpools e
  have hbalance := h.balance
  unfold owed
  omega

end VaultInv

/-! ## Payments do not fail -/

def Op.isConversion : Op → Bool
  | .migrateV8 .. => true
  | _ => false

/-- A transaction that converts no V8 stake. -/
def NoConversion (_ : SysState) (l : Block × Op) : Prop := l.2.isConversion = false
  deriving Decidable

section

variable {c : Chronos} {b : Block} {w : World}

def NotToken (f : Failure) : Prop := f.contract ≠ .token

lemma notToken_elsewhere : Elsewhere NotToken := by
  intro k e hk
  rintro rfl
  exact hk

lemma notToken_inside {α : Type} {k : Contract} {x : Tx α} (hk : k ≠ .token) :
    FailsOnly NotToken (inside k x) := .inside fun _ _ => hk

lemma compound_notToken (tok id upTo r : ℕ) : FailsOnly NotToken (w.compound b tok id upTo r) := by
  unfold World.compound
  refine .ite (fun _ => ?_) fun _ => ?_
  · exact .bind (notToken_inside (by decide)) fun _ _ => .pure _
  · refine .bind (notToken_inside (by decide)) fun _ _ => ?_
    refine .bind (notToken_inside (by decide)) fun _ _ => ?_
    refine .bind (notToken_inside (by decide)) fun _ _ => ?_
    exact .bind (notToken_inside (by decide)) fun _ _ => .pure _

lemma _claim_notToken (tok : ℕ) : FailsOnly NotToken (w._claim c b tok) := by
  refine World._claim_failsOnly notToken_elsewhere fun earned _ _ _ _ w₁ _ =>
    ⟨?_, fun _ _ => compound_notToken _ _ _ _⟩
  refine World.claimLoop_failsOnly (I := fun _ _ => True) _ (fun x st _ _ _ =>
      ⟨?_, fun _ _ => trivial⟩)
    trivial
  refine World.claimEpoch_failsOnly notToken_elsewhere fun _ _ => ?_
  exact World.netNodeRewards_failsOnly notToken_elsewhere fun _ _ _ _ _ => by simp [NotToken]

/-- A payment the vault can make. -/
lemma transferStake_failsOnly {t : Trac} {receiver amount : ℕ} (h : amount ≤ t.vault)
    {P : Failure → Prop} : FailsOnly P (inside .token (t.transferStake receiver amount)) := by
  refine .inside fun e he => ?_
  unfold Trac.transferStake at he
  rw [require_eq_ok (u := ()) |>.mpr h] at he
  cases he

/-- A withdrawal does not fail in the token when the vault has the raw stake after its claim. -/
lemma withdraw_notToken {sender tok : ℕ} (h : ∀ out, w._claim c b tok = .ok out →
      (out.1.css.positions tok).raw ≤ out.1.trac.vault) :
    FailsOnly NotToken ((Op.withdraw sender tok).run c b w) := by
  unfold Op.run World.withdrawPosition World.requireOwner World.withdraw
  refine .bind (.bind ?_ fun _ _ => ?_) fun _ _ => .pure _
  · exact .bind (notToken_inside (by decide)) fun _ _ => notToken_inside (by decide)
  · refine .bind ?_ fun _ _ => .bind (notToken_inside (by decide)) fun _ _ => .pure _
    refine .bind (notToken_inside (by decide)) fun _ _ => ?_
    refine .bind (notToken_inside (by decide)) fun _ _ => ?_
    refine .bind (_claim_notToken tok) fun out hout => ?_
    refine .bind (notToken_inside (by decide)) fun _ _ => ?_
    refine .bind (notToken_inside (by decide)) fun _ _ => ?_
    exact .bind (transferStake_failsOnly (h out hout)) fun _ _ => .pure _

lemma finalizeFee_notToken {sender id : ℕ}
    (h : (w.css.operatorFeeWithdrawals id).amount ≤ w.trac.vault) :
    FailsOnly NotToken ((Op.finalizeOperatorFeeWithdrawal sender id).run c b w) := by
  unfold Op.run World.finalizeOperatorFeeWithdrawal
  refine .bind ?_ fun _ _ => .pure _
  iterate 3 refine .bind (notToken_inside (by decide)) fun _ _ => ?_
  exact .bind (transferStake_failsOnly h) fun _ _ => .pure _

end

lemma SysState.vault {c : Chronos} {s : SysState}
    (hr : ((sysMachine c).restrict NoConversion).Reachable s) : VaultInv s.world s.log := by
  refine hr.invariant_of (P := fun s => VaultInv s.world s.log) (Q := SysInv c)
    (fun _ h => SysState.inv h.of_restrict) ?_ ?_
  · rintro s ⟨hfresh, hlog⟩
    rw [hlog]
    refine ⟨?_, ?_, fun _ ha => absurd ha not_mem_nil⟩
    · rw [hfresh.vault, hfresh.css]
      rfl
    · rw [hfresh.es]
      exact Shard.Refines.empty.wellFormed
  · rintro s l s' hinv - hvault ⟨hconv, hnow, -, hadm, events, hrun, hlog⟩
    rw [hlog]
    refine hvault.step (Op.run_effect hrun) hadm ?_ hinv.css hinv.raw hnow hinv.cursors
    rintro delegator id tier hop
    unfold NoConversion at hconv
    rw [hop] at hconv
    cases hconv

/-- **The vault covers what it owes.** In every run without a V8 conversion whose claims are
within the epoch pools: the vault holds the stake, the fee balances and the pending fees, so a
finalised fee is always paid, and so is a withdrawal whose own claim is within the pools. -/
theorem vault_covers_obligations (c : Chronos) {s : SysState}
    (hr : ((sysMachine c).restrict NoConversion).Reachable s) (hpools : WithinPools s.log) :
    s.world.css.owed ≤ s.world.trac.vault ∧
    (∀ (b : Block) (sender id : ℕ) (f : Failure),
      (Op.finalizeOperatorFeeWithdrawal sender id).run c b s.world = .error f →
        f.contract ≠ .token) ∧
    ∀ (b : Block), s.now ≤ b.timestamp → ∀ (sender tok : ℕ) (f : Failure),
      (∀ out, s.world._claim c b tok = .ok out →
        WithinPools (s.log ++ Op.claimEvents out.2)) →
      (Op.withdraw sender tok).run c b s.world = .error f → f.contract ≠ .token := by
  have hinv := SysState.inv hr.of_restrict
  have hvault := SysState.vault hr
  obtain ⟨hscore, hfee⟩ := SysState.fees hr.of_restrict
  have hcovers := hvault.covers hfee hpools
  refine ⟨hcovers, ?_, ?_⟩
  · intro b sender id f hf
    refine finalizeFee_notToken ?_ f hf
    exact (hvault.pending_le hfee id).trans hcovers
  · intro b hnow sender tok f hclaims hf
    refine withdraw_notToken ?_ f hf
    rintro ⟨w₁, record⟩ hout
    have hclaim := World._claim_ok hout
    have hlive := (hclaim.spec hinv.css hnow).1
    have htok := lt_of_le_of_lt (hinv.cursors.live tok hlive).minted hinv.cursors.counter
    -- the account after the claim covers the stake, and this position is a part of it
    have hvault₁ := hvault.claim hclaim hinv.css hnow hinv.cursors
    have hfee₁ := hclaim.fees hinv.css hnow hscore hfee
    rw [← linesOf_claimEvents, ← linesOf_append] at hfee₁
    have hout₁ : feesWithdrawn (s.log ++ Op.claimEvents record) = feesWithdrawn s.log := by
      funext id
      rw [feesWithdrawn_append, feesWithdrawn_claimEvents, Nat.add_zero]
    rw [← hout₁] at hfee₁
    have hcovers₁ := hvault₁.covers hfee₁ (hclaims _ hout)
    have hraw₁ := (hclaim.sums hinv.css hinv.raw hnow htok).2.1
    have hle := hraw₁.raw_le_total htok (by
      rw [(hclaim.spec hinv.css hnow).2.2.2.2.2.2.2.2, Function.update_self]
      exact hlive)
    unfold owed at hcovers₁
    simp only
    omega

/-- A stake of `100` earns `900` of a deposit of `1000`, and the node's operator `100`: the vault
holds all of it. -/
theorem vault_covers_one_claim :
    ∃ s, ((sysMachine hourlyChronos).restrict NoConversion).Reachable s ∧
        s.world.trac.vault = 1100 ∧
      s.world.css.totalStakeV10 = 1000 ∧ s.world.css.nodeOperatorFeeBalance 1 = 100 ∧
      s.world.css.owed ≤ s.world.trac.vault := by
  obtain ⟨s, hrun, htest⟩ := exists_of_succeeds
    (x := Machine.runList (sysExecWhen hourlyChronos NoConversion)
      (stakedSteps.append [(4700, .claim 7 1)]) sysStart)
    (t := fun s => decide (s.world.trac.vault = 1100 ∧ s.world.css.totalStakeV10 = 1000 ∧
      s.world.css.nodeOperatorFeeBalance 1 = 100 ∧ depositLog s.log = [⟨1, 1, 1, 1000, 0⟩] ∧
      (linesOf s.log).map (fun a => (a.2.epoch, a.2.reward + a.2.fee)) = [(1, 1000)]))
    (by decide +kernel)
  obtain ⟨hvault, htotal, hfee, hdeposits, hlines⟩ := of_decide_eq_true htest
  have hr := sysReachable_restrict_of_run hrun
  have hpools : WithinPools s.log := by
    intro e
    have hgranted : grantedAt (linesOf s.log) e
        = (((linesOf s.log).map fun a => (a.2.epoch, a.2.reward + a.2.fee)).map
          fun p => if p.1 = e then p.2 else 0).sum := by
      rw [map_map]
      rfl
    rw [hgranted, hlines, hdeposits]
    by_cases he : 1 = e
    · subst he
      decide
    · simp [he]
  exact ⟨s, hr, hvault, htotal, hfee, (vault_covers_obligations hourlyChronos hr hpools).1⟩

/-- A V8 stake of `100` is converted and withdrawn at once: nothing has reached the vault. -/
theorem vault_short_after_conversion :
    ∃ s, (sysMachine hourlyChronos).Reachable s ∧ WithinPools s.log ∧
      s.world.trac.vault < s.world.css.owed ∧
      (Op.withdraw 8 1).run hourlyChronos ⟨1002, by decide⟩ s.world
        = .error ⟨.token, .insufficientBalance⟩ := by
  obtain ⟨s, hr, htest⟩ := exists_reachable
    [(1001, .migrateV8 8 1 0)]
    (fun s => decide (s.world.trac.vault = 0 ∧ s.world.css.totalStakeV10 = 100 ∧
      linesOf s.log = []) && fails ((Op.withdraw 8 1).run hourlyChronos ⟨1002, by decide⟩ s.world)
        ⟨.token, .insufficientBalance⟩)
    (by decide +kernel)
  rw [Bool.and_eq_true] at htest
  obtain ⟨hvault, htotal, hlines⟩ := of_decide_eq_true htest.1
  refine ⟨s, hr, ?_, ?_, eq_error_of_fails htest.2⟩
  · intro e
    rw [hlines]
    exact Nat.zero_le _
  · unfold owed
    omega

end Dkg
