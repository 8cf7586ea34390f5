import Dkg.Staking.FeeAccounts

/-! # Withdrawals of operator fees

A request moves fees out of the account into a queue of one entry per node; a second request adds
to the entry and restarts its delay. The fees of a node are in its account, in its entry or paid
out (`FeeInv.balance`). An entry with an amount has an origin: the step of the run that requested
it, from which on nobody has written the entry.
-/

namespace Dkg

open Lib Function

/-! ## What a transaction does to the entries -/

section

variable {c : Chronos} {b : Block} {w w' : World} {now cur : ℕ}

variable {sender id : ℕ} {op : Op} {events : List Event}

/-- A request leaves the merged amount, to be released after the delay in force. -/
lemma World.requestOperatorFeeWithdrawal_entry {amount : ℕ}
    (h : w.requestOperatorFeeWithdrawal b sender id amount = .ok w') :
    w'.css.operatorFeeWithdrawals = update w.css.operatorFeeWithdrawals id
      ⟨(w.css.operatorFeeWithdrawals id).amount + amount, 0,
        b.timestamp + w.params.stakeWithdrawalDelay⟩ := by
  unfold World.requestOperatorFeeWithdrawal at h
  obtain ⟨_, -, _, -, current, -, h⟩ := of_bind₃ h
  obtain ⟨total, htotal, _, -, release, hrelease, hend⟩ := of_bind₃ h
  rw [inside_eq_ok] at htotal hrelease
  obtain ⟨-, rfl⟩ := addUint_eq_ok.mp htotal
  obtain ⟨-, rfl⟩ := addUint_eq_ok.mp hrelease
  obtain rfl := of_pure hend
  rfl

/-- A finalization pays the whole entry to the caller, no earlier than the release. -/
lemma World.finalizeOperatorFeeWithdrawal_paid
    (h : w.finalizeOperatorFeeWithdrawal b sender id = .ok w') :
    (w.css.operatorFeeWithdrawals id).amount ≠ 0 ∧
    (w.css.operatorFeeWithdrawals id).timestamp ≤ b.timestamp ∧
    w'.trac.vault + (w.css.operatorFeeWithdrawals id).amount = w.trac.vault ∧
    w'.trac.balanceOf = update w.trac.balanceOf sender
      (w.trac.balanceOf sender + (w.css.operatorFeeWithdrawals id).amount) := by
  unfold World.finalizeOperatorFeeWithdrawal at h
  obtain ⟨_, -, _, hamount, _, hrelease, h⟩ := of_bind₃ h
  obtain ⟨trac, htrac, hend⟩ := of_bind h
  rw [inside_eq_ok] at hamount hrelease htrac
  rw [require_eq_ok] at hamount hrelease
  obtain rfl := of_pure hend
  obtain ⟨hle, htrac⟩ := of_require htrac
  obtain rfl := of_pure htrac
  exact ⟨hamount, hrelease, Nat.sub_add_cancel hle, rfl⟩

/-- An entry stays as it is, unless the transaction requests for the node or leaves nothing. -/
lemma Effect.entry (h : Effect c b w op w' events) (hinv : w.css.Inv now) (hraw : w.css.RawInv)
    (hnow : now ≤ b.timestamp) (hcursor : CursorInv w cur) (id : ℕ) :
    w'.css.operatorFeeWithdrawals id = w.css.operatorFeeWithdrawals id ∨
    (w'.css.operatorFeeWithdrawals id).amount = 0 ∨
    ∃ sender amount, op = .requestOperatorFeeWithdrawal sender id amount := by
  have hkept : w'.css.operatorFeeWithdrawals = w.css.operatorFeeWithdrawals →
      w'.css.operatorFeeWithdrawals id = w.css.operatorFeeWithdrawals id ∨
      (w'.css.operatorFeeWithdrawals id).amount = 0 ∨
      ∃ sender amount, op = .requestOperatorFeeWithdrawal sender id amount :=
    fun heq => .inl (congrFun heq id)
  cases h with
  | environment | setAdminKey | createProfile | updateOperatorFee | depositTokens => exact hkept rfl
  | addTier hrun => exact hkept (addTier_spec hrun).1.withdrawals
  | deactivateTier hrun => exact hkept (deactivateTier_spec hrun).1.withdrawals
  | submitProof hproved => exact hkept hproved.spec.1.withdrawals
  | createConviction hcreated _ | migrateV8 _ hcreated _ =>
    obtain ⟨-, -, -, hfees, -⟩ := hcreated.spec hinv hnow
    exact hkept hfees.withdrawals
  | relock hrelocked =>
    obtain ⟨-, -, -, hfees, -⟩ := hrelocked.spec hinv hnow
    exact hkept hfees.withdrawals
  | redelegate hmoved =>
    obtain ⟨-, hfees, -⟩ := hmoved.spec hinv hnow
    exact hkept hfees.withdrawals
  | claim hclaim =>
    obtain ⟨-, hsame, -⟩ := hclaim.spec hinv hnow
    exact hkept hsame
  | withdraw hw =>
    obtain ⟨w₁, hclaim, -, -, hfees, -⟩ := hw.spec hinv hraw hnow hcursor.minted_lt
    obtain ⟨-, hsame, -⟩ := hclaim.spec hinv hnow
    exact hkept (hfees.withdrawals.trans hsame)
  | requestFee =>
    rename_i sender id₀ amount bal request hsum
    by_cases hid : id = id₀
    · subst hid
      exact .inr (.inr ⟨sender, amount, rfl⟩)
    · exact .inl (update_of_ne hid _ _)
  | finalizeFee =>
    rename_i sender id₀ trac hle hvault
    by_cases hid : id = id₀
    · subst hid
      refine .inr (.inl ?_)
      simp [ConvictionStakingStorage.deleteOperatorFeeWithdrawalRequest]
    · exact .inl (update_of_ne hid _ _)
  | cancelFee =>
    rename_i sender id₀
    by_cases hid : id = id₀
    · subst hid
      refine .inr (.inl ?_)
      simp [ConvictionStakingStorage.deleteOperatorFeeWithdrawalRequest,
        ConvictionStakingStorage.setOperatorFeeBalance]
    · exact .inl (update_of_ne hid _ _)

/-- Only a finalization for the node pays its fees out. -/
lemma Effect.pays (h : Effect c b w op w' events) (hpaid : feesWithdrawn events id ≠ 0) :
    ∃ sender, op = .finalizeOperatorFeeWithdrawal sender id := by
  cases h with
  | finalizeFee =>
    rename_i sender id₀ trac hle hvault
    refine ⟨sender, ?_⟩
    by_cases hid : id₀ = id
    · rw [hid]
    · simp [feesWithdrawn, hid] at hpaid
  | claim | withdraw => exact absurd (feesWithdrawn_claimEvents _ id) hpaid
  | _ => exact absurd rfl hpaid

end

/-! ## The origin of an entry -/

def SysState.feeEntry (s : SysState) (id : ℕ) : StakeWithdrawalRequest :=
  s.world.css.operatorFeeWithdrawals id

/-- The state `s` is reached from `s₁` by steps of the system, and in every state on the way the
entry of the node is `entry`. -/
def EntryUnchanged (c : Chronos) (id : ℕ) (entry : StakeWithdrawalRequest) (s₁ s : SysState) :
    Prop :=
  ((sysMachine c).restrict fun t _ => t.feeEntry id = entry).Steps s₁ s ∧ s.feeEntry id = entry

/-- A request of the run, at `b₀`, has left this entry, with the delay of that moment, and nobody
has written it since. -/
def Requested (c : Chronos) (id : ℕ) (entry : StakeWithdrawalRequest) (s : SysState) : Prop :=
  ∃ s₀ b₀ sender amount s₁, (sysMachine c).Reachable s₀ ∧
    sysStep c s₀ (b₀, .requestOperatorFeeWithdrawal sender id amount) s₁ ∧
    entry.amount = (s₀.feeEntry id).amount + amount ∧
    entry.timestamp = b₀.timestamp + s₀.world.params.stakeWithdrawalDelay ∧
    EntryUnchanged c id entry s₁ s

variable {c : Chronos} {id : ℕ} {s s' : SysState}

/-- A step that leaves the entry alone extends its history. -/
lemma Requested.step {l : Block × Op} (h : Requested c id (s.feeEntry id) s)
    (hstep : sysStep c s l s') (hsame : s'.feeEntry id = s.feeEntry id) :
    Requested c id (s'.feeEntry id) s' := by
  obtain ⟨s₀, b₀, sender, amount, s₁, hr, hreq, hamount, htime, hsteps, -⟩ := h
  rw [hsame]
  exact ⟨s₀, b₀, sender, amount, s₁, hr, hreq, hamount, htime, hsteps.tail ⟨rfl, hstep⟩, hsame⟩

lemma Requested.start {b : Block} {sender amount : ℕ} (hr : (sysMachine c).Reachable s)
    (hstep : sysStep c s (b, .requestOperatorFeeWithdrawal sender id amount) s') :
    Requested c id (s'.feeEntry id) s' := by
  have ⟨_, _, _, events, hrun, _⟩ := hstep
  obtain ⟨w₁, hrequest, hend⟩ := of_bind hrun
  obtain ⟨hw, -⟩ := Prod.mk.inj (of_pure hend)
  have hentry : s'.feeEntry id = ⟨(s.feeEntry id).amount + amount, 0,
      b.timestamp + s.world.params.stakeWithdrawalDelay⟩ := by
    unfold SysState.feeEntry
    rw [← hw, World.requestOperatorFeeWithdrawal_entry hrequest, update_self]
  refine ⟨s, b, sender, amount, s', hr, hstep, ?_, ?_, .refl, rfl⟩
  · rw [hentry]
  · rw [hentry]

lemma SysState.requested (hr : (sysMachine c).Reachable s) (id : ℕ)
    (hpending : (s.feeEntry id).amount ≠ 0) : Requested c id (s.feeEntry id) s := by
  revert hpending
  refine hr.invariant_of
    (P := fun s => (s.feeEntry id).amount ≠ 0 → Requested c id (s.feeEntry id) s)
    (Q := fun s => (sysMachine c).Reachable s) (fun _ h => h) ?_ ?_
  · rintro s ⟨hfresh, -⟩ hpending
    refine absurd ?_ hpending
    unfold SysState.feeEntry
    rw [hfresh.css]
    rfl
  · rintro s ⟨b, op⟩ s' hrs - ih hstep hpending
    have ⟨hnow, _, _, events, hrun, _⟩ := hstep
    have hinv := SysState.inv hrs
    rcases (Op.run_effect hrun).entry hinv.css hinv.raw hnow hinv.cursors id with
      hsame | hzero | ⟨sender, amount, rfl⟩
    · have hold : (s.feeEntry id).amount ≠ 0 := by
        unfold SysState.feeEntry at hpending ⊢
        rwa [hsame] at hpending
      exact (ih hold).step hstep hsame
    · exact absurd hzero hpending
    · exact Requested.start hrs hstep

/-- **Withdrawals of operator fees.** In every reachable state, the fees taken for a node are its
balance, its pending request and what was paid out. Only finalizations pay. And whatever a
finalization pays was left by a request of the run, with the amount paid, and has been pending
unchanged since; at least the delay that request recorded has passed. -/
theorem operator_fees_conserved (c : Chronos) {s : SysState} (hr : (sysMachine c).Reachable s)
    (id : ℕ) :
    feesTaken (linesOf s.log) id
      = s.world.css.nodeOperatorFeeBalance id + (s.feeEntry id).amount + feesWithdrawn s.log id ∧
    (∀ b op s', sysStep c s (b, op) s' → feesWithdrawn s'.log id ≠ feesWithdrawn s.log id →
      ∃ sender, op = .finalizeOperatorFeeWithdrawal sender id) ∧
    ∀ b sender s', sysStep c s (b, .finalizeOperatorFeeWithdrawal sender id) s' →
      s'.log = s.log ++ [.feeWithdrawn id (s.feeEntry id).amount] ∧
      s'.world.trac.vault + (s.feeEntry id).amount = s.world.trac.vault ∧
      s'.world.trac.balanceOf sender
        = s.world.trac.balanceOf sender + (s.feeEntry id).amount ∧
      ∃ s₀ b₀ sender₀ amount s₁, (sysMachine c).Reachable s₀ ∧
        sysStep c s₀ (b₀, .requestOperatorFeeWithdrawal sender₀ id amount) s₁ ∧
        (s.feeEntry id).amount = (s₀.feeEntry id).amount + amount ∧
        EntryUnchanged c id (s.feeEntry id) s₁ s ∧
        b₀.timestamp + s₀.world.params.stakeWithdrawalDelay ≤ b.timestamp := by
  refine ⟨((SysState.fees hr).2.balance id).symm, ?_, ?_⟩
  · rintro b op s' ⟨-, -, -, events, hrun, hlog⟩ hpaid
    apply (Op.run_effect hrun).pays
    intro hzero
    rw [hlog, feesWithdrawn_append, hzero] at hpaid
    exact hpaid rfl
  intro b sender s' hstep
  obtain ⟨-, -, -, events, hrun, hlog⟩ := hstep
  obtain ⟨w₁, hfinal, hend⟩ := of_bind hrun
  obtain ⟨rfl, hevents⟩ := Prod.mk.inj (of_pure hend)
  obtain ⟨hamount, hrelease, hvault, hpaid⟩ := World.finalizeOperatorFeeWithdrawal_paid hfinal
  obtain ⟨s₀, b₀, sender₀, amount, s₁, hr₀, hreq, hsum, htime, hsame⟩ :=
    SysState.requested hr id hamount
  refine ⟨?_, hvault, ?_, s₀, b₀, sender₀, amount, s₁, hr₀, hreq, hsum, hsame, ?_⟩
  · rw [hlog, ← hevents]
    rfl
  · rw [hpaid, update_self]
    rfl
  · rw [← htime]
    exact hrelease

/-- Of a fee of `100` the operator requests `30`, then `20` more, and is paid `50` when the delay
of the second request has passed. -/
theorem operator_fees_conserved_merged : ∃ s, (sysMachine hourlyChronos).Reachable s ∧
    s.world.css.nodeOperatorFeeBalance 1 = 50 ∧ (s.feeEntry 1).amount = 0 ∧
    feesWithdrawn s.log 1 = 50 ∧
    feesTaken (linesOf s.log) 1 = s.world.css.nodeOperatorFeeBalance 1 + (s.feeEntry 1).amount
      + feesWithdrawn s.log 1 := by
  obtain ⟨s, hr, htest⟩ := exists_reachable
    (stakedSteps.append [(4700, .claim 7 1),
     (4710, .requestOperatorFeeWithdrawal 9 1 30),
     (4750, .requestOperatorFeeWithdrawal 9 1 20),
     (4850, .finalizeOperatorFeeWithdrawal 9 1)])
    (fun s => decide (s.world.css.nodeOperatorFeeBalance 1 = 50 ∧
      (s.feeEntry 1).amount = 0 ∧ feesWithdrawn s.log 1 = 50))
    (by decide +kernel)
  obtain ⟨hbalance, hentry, hpaid⟩ := of_decide_eq_true htest
  exact ⟨s, hr, hbalance, hentry, hpaid, (operator_fees_conserved hourlyChronos hr 1).1⟩

end Dkg
