import Dkg.EpochStorage.Ledger

/-! # Runs of EpochStorage

The calls of a run come in the order of their blocks' timestamps, so epochs pass between any two
of them. A history keeps the log of the successful deposits beside the contract's storage. The
callers' guarantee for a deposit (its range starts at the current epoch or later and is not
empty) is part of the step.
-/

namespace Dkg

open Lib Function List

/-- The state-changing calls of `EpochStorage`. -/
inductive EpochCall
  | addTokensToEpochRange (shardId startEpoch endEpoch tokenAmount : ℕ)
  | payOutEpochTokens (shardId epoch identityId amount : ℕ)

/-- The storage, the timestamp of the last call, and the deposits so far. -/
structure EpochHistory where
  store : EpochStorage
  now : ℕ
  log : List Deposit

/-- A successful call, at a block not before the last one. -/
def epochStep (c : Chronos) (h : EpochHistory) (l : Block × EpochCall) (h' : EpochHistory) : Prop :=
  h.now ≤ l.1.timestamp ∧ h'.now = l.1.timestamp ∧
  match l.2 with
  | .addTokensToEpochRange shardId startEpoch endEpoch tokenAmount =>
    c.getCurrentEpoch l.1 ≤ startEpoch ∧ startEpoch ≤ endEpoch ∧
    h.store.addTokensToEpochRange c l.1 shardId startEpoch endEpoch tokenAmount = .ok h'.store ∧
    h'.log = h.log ++ [{ shardId, startEpoch, endEpoch, tokenAmount,
                         carried := (h.store.shard shardId).accumulatedRemainder }]
  | .payOutEpochTokens shardId epoch identityId amount =>
    h.store.payOutEpochTokens c l.1 shardId epoch identityId amount = .ok h'.store ∧
    h'.log = h.log

/-- `EpochStorage` as deployed with the clock `c`, and its runs. -/
def epochMachine (c : Chronos) : Machine EpochHistory (Block × EpochCall) where
  init h := h.store = EpochStorage.empty ∧ h.log = []
  step := epochStep c

/-- What every history keeps for a shard whose deposits stay below `2^95`. -/
def EpochHistory.ShardInv (c : Chronos) (h : EpochHistory) (shardId : ℕ) : Prop :=
  totalDeposited (depositsOf h.log shardId) < 2 ^ 95 →
    (h.store.shard shardId).Refines (depositsOf h.log shardId) ∧
    (h.store.shard shardId).lastFinalizedEpoch < c.epochAtTimestamp h.now

lemma depositsOf_append_self (log : List Deposit) (d : Deposit) :
    depositsOf (log ++ [d]) d.shardId = depositsOf log d.shardId ++ [d] := by
  simp [depositsOf]

lemma depositsOf_append_ne (log : List Deposit) {d : Deposit} {shardId : ℕ}
    (h : d.shardId ≠ shardId) : depositsOf (log ++ [d]) shardId = depositsOf log shardId := by
  simp [depositsOf, h]

lemma totalDeposited_depositsOf_append (log later : List Deposit) (shardId : ℕ) :
    totalDeposited (depositsOf (log ++ later) shardId) =
      totalDeposited (depositsOf log shardId) + totalDeposited (depositsOf later shardId) := by
  simp [depositsOf, totalDeposited]

variable {h h' : EpochHistory} {b : Block} {sid : ℕ}

lemma EpochHistory.shardInv_addTokens (c : Chronos) {s e a : ℕ} (hinv : ∀ i, h.ShardInv c i)
    (hstep : epochStep c h (b, .addTokensToEpochRange sid s e a) h') (i : ℕ) : h'.ShardInv c i := by
  obtain ⟨hnow, hnow', hs, hse, hrun, hlog⟩ := hstep
  simp only at hnow hnow' hs hrun
  intro hb
  set d : Deposit := ⟨sid, s, e, a, (h.store.shard sid).accumulatedRemainder⟩ with hd
  have hmono := c.epochAtTimestamp_mono hnow
  have hlt : totalDeposited (depositsOf h.log i) < 2 ^ 95 := by
    rw [hlog, totalDeposited_depositsOf_append] at hb
    omega
  obtain ⟨href, hlast⟩ := hinv i hlt
  simp only [EpochStorage.addTokensToEpochRange, bind_eq_ok, pure_eq_ok] at hrun
  obtain ⟨sh1, h1, sh2, h2, hstore⟩ := hrun
  rw [hnow', ← hstore, hlog]
  by_cases hi : i = sid
  · subst hi
    have hsame : depositsOf (h.log ++ [d]) i = depositsOf h.log i ++ [d] :=
      depositsOf_append_self h.log d
    rw [hlog, hsame] at hb
    have hcur : c.getCurrentEpoch b = c.epochAtTimestamp b.timestamp := rfl
    obtain ⟨href1, hlast1⟩ := href.spread (d := d) rfl hb (by show _ < s; omega) h1
    obtain ⟨sh2', h2', href2, hlast2⟩ := href1.finalizePast hb (c.getCurrentEpoch b) (by omega)
    rw [h2] at h2'
    cases h2'
    simp only [update_self]
    rw [hsame]
    exact ⟨href2, hlast2⟩
  · simp only [update_of_ne hi]
    rw [depositsOf_append_ne h.log (d := d) (Ne.symm hi)]
    exact ⟨href, by omega⟩

lemma EpochHistory.shardInv_payOut (c : Chronos) {epoch identityId amount : ℕ}
    (hinv : ∀ i, h.ShardInv c i)
    (hstep : epochStep c h (b, .payOutEpochTokens sid epoch identityId amount) h') (i : ℕ) :
    h'.ShardInv c i := by
  obtain ⟨hnow, hnow', hrun, hlog⟩ := hstep
  simp only at hnow hnow' hrun
  intro hb
  rw [hlog] at hb
  have hmono := c.epochAtTimestamp_mono hnow
  obtain ⟨href, hlast⟩ := hinv i hb
  simp only [EpochStorage.payOutEpochTokens, bind_eq_ok, pure_eq_ok] at hrun
  obtain ⟨sh1, h1, _, -, _, -, hstore⟩ := hrun
  rw [hnow', ← hstore, hlog]
  by_cases hi : i = sid
  · subst hi
    have hcur : c.getCurrentEpoch b = c.epochAtTimestamp b.timestamp := rfl
    obtain ⟨sh1', h1', href1, hlast1⟩ := href.finalizePast hb (c.getCurrentEpoch b) (by omega)
    rw [h1] at h1'
    cases h1'
    simp only [update_self]
    -- a payout only moves `distributed`, which the pools do not read
    exact ⟨⟨href1.wellFormed, href1.prefixSum_eq, href1.cumulative_eq⟩, hlast1⟩
  · simp only [update_of_ne hi]
    exact ⟨href, by omega⟩

lemma EpochHistory.shardInv (c : Chronos) (hr : (epochMachine c).Reachable h) :
    ∀ i, h.ShardInv c i := by
  refine hr.invariant (P := fun h => ∀ i, h.ShardInv c i) ?_ ?_
  · rintro ⟨store, now, log⟩ ⟨rfl, rfl⟩ i _
    exact ⟨Shard.Refines.empty, c.epochAtTimestamp_pos now⟩
  · rintro h ⟨b, call⟩ h' hinv hstep
    cases call with
    | addTokensToEpochRange sid s e a => exact shardInv_addTokens c hinv hstep
    | payOutEpochTokens sid epoch identityId amount => exact shardInv_payOut c hinv hstep

/-- **The epoch ledger refines the per-epoch map of its deposits.** In every history, for a
shard whose deposits stay below `2^95`: `getEpochPool` returns the sum of the shares of the
deposits that cover the epoch, whatever has been finalised; all pools and the accumulated
remainder add up to the deposits; and no value that a cast to `int96` or `uint96` is applied to
is changed by it. -/
theorem getEpochPool_refines_deposits (c : Chronos) {h : EpochHistory}
    (hr : (epochMachine c).Reachable h) (shardId : ℕ)
    (hb : totalDeposited (depositsOf h.log shardId) < 2 ^ 95) :
    (∀ x, h.store.getEpochPool shardId x = .ok (poolOf (depositsOf h.log shardId) x)) ∧
    ∑ x ∈ Finset.range (2 ^ 256), poolOf (depositsOf h.log shardId) x
        + (h.store.shard shardId).accumulatedRemainder
      = totalDeposited (depositsOf h.log shardId) ∧
    (∀ d ∈ depositsOf h.log shardId, uint96 d.share = d.share ∧ int96 d.share = d.share ∧
      uint96 d.leftover = d.leftover) ∧
    (∀ x, int96 (poolOf (depositsOf h.log shardId) x) = poolOf (depositsOf h.log shardId) x ∧
      (uint96OfInt (prefixSum (h.store.shard shardId).diff x) : ℤ)
        = prefixSum (h.store.shard shardId).diff x) ∧
    ∀ x ≤ (h.store.shard shardId).lastFinalizedEpoch,
      int96 ((h.store.shard shardId).cumulative x) = (h.store.shard shardId).cumulative x := by
  obtain ⟨href, -⟩ := h.shardInv c hr shardId hb
  have hpool := href.poolOf_lt hb
  have hpow : (2 : ℕ) ^ 95 ≤ 2 ^ 96 := by norm_num
  refine ⟨href.getEpochPool_eq hb, href.wellFormed.sum_poolOf, fun d hd => ?_, fun x => ?_,
    fun x hx => ?_⟩
  · have htot := lt_of_le_of_lt (href.wellFormed.share_le d hd) hb
    have hshare : d.share < 2 ^ 95 := lt_of_le_of_lt (Nat.div_le_self _ _) htot
    have hleft : d.leftover < 2 ^ 95 := lt_of_le_of_lt (Nat.mod_le _ _) htot
    exact ⟨uint96_of_lt (by omega), int96_of_lt hshare, uint96_of_lt (by omega)⟩
  · refine ⟨int96_of_lt (hpool x), ?_⟩
    rw [href.prefixSum_eq x, uint96OfInt_natCast (hpool x)]
  · rw [href.cumulative_eq x hx]
    exact int96_of_lt (hpool x)

lemma Lib.Machine.Reachable.addTokens {c : Chronos} (hr : (epochMachine c).Reachable h) (b : Block)
    (sid s e a : ℕ) (hnow : h.now ≤ b.timestamp) (hs : c.getCurrentEpoch b ≤ s) (hse : s ≤ e)
    {store' : EpochStorage} (hrun : h.store.addTokensToEpochRange c b sid s e a = .ok store') :
    (epochMachine c).Reachable
      ⟨store', b.timestamp,
        h.log ++ [⟨sid, s, e, a, (h.store.shard sid).accumulatedRemainder⟩]⟩ :=
  hr.step (c := (b, .addTokensToEpochRange sid s e a)) ⟨hnow, rfl, hs, hse, hrun, rfl⟩

lemma reachable_empty : (epochMachine hourlyChronos).Reachable ⟨EpochStorage.empty, 0, []⟩ :=
  .init ⟨rfl, rfl⟩

/-- `10` tokens over epochs `1..3` leave a remainder of `1`; `5` more for epoch `2` make its pool
`3 + 6`. -/
theorem getEpochPool_refines_two_deposits :
    ∃ h, (epochMachine hourlyChronos).Reachable h ∧
      h.log = [⟨1, 1, 3, 10, 0⟩, ⟨1, 2, 2, 5, 1⟩] ∧ h.store.getEpochPool 1 2 = .ok 9 := by
  have hreach : ∃ h, (epochMachine hourlyChronos).Reachable h ∧
      h.log = [⟨1, 1, 3, 10, 0⟩, ⟨1, 2, 2, 5, 1⟩] := by
    have h1 := reachable_empty.addTokens ⟨1001, by decide⟩ 1 1 3 10 (by decide) (by decide)
      (by decide) rfl
    have h2 := h1.addTokens ⟨4700, by decide⟩ 1 2 2 5 (by decide) (by decide) (by decide) rfl
    exact ⟨_, h2, rfl⟩
  obtain ⟨h, hr, hlog⟩ := hreach
  have hb : totalDeposited (depositsOf h.log 1) < 2 ^ 95 := by
    rw [hlog]
    norm_num [depositsOf, totalDeposited]
  refine ⟨h, hr, hlog, ?_⟩
  rw [(getEpochPool_refines_deposits hourlyChronos hr 1 hb).1 2, hlog]
  rfl

/-- Later deposits are for the epoch of `h` and those after it. -/
lemma later_deposits {c : Chronos} (hrun : (epochMachine c).Steps h h') : h.now ≤ h'.now ∧
    ∃ later, h'.log = h.log ++ later ∧ ∀ d ∈ later, c.epochAtTimestamp h.now ≤ d.startEpoch := by
  induction hrun with
  | refl => exact ⟨le_rfl, [], by simp⟩
  | tail _ hstep ih =>
    obtain ⟨hle, later, hlog, hall⟩ := ih
    obtain ⟨hle', hnow', hcall⟩ := hstep
    have hmono := c.epochAtTimestamp_mono (hle.trans hle')
    refine ⟨by omega, ?_⟩
    split at hcall
    · refine ⟨later ++ [_], by rw [hcall.2.2.2, hlog, append_assoc], ?_⟩
      exact forall_mem_append.mpr ⟨hall, forall_mem_singleton.mpr (hmono.trans hcall.1)⟩
    · exact ⟨later, hcall.2.trans hlog, hall⟩

/-- **Past pools are final.** Whatever is deposited, paid out and finalised from a history on, no
pool shrinks, and that of an epoch which has passed stays as it is. -/
theorem past_pool_final {c : Chronos} (hr : (epochMachine c).Reachable h)
    (hrun : (epochMachine c).Steps h h') (sid x : ℕ)
    (hb : totalDeposited (depositsOf h'.log sid) < 2 ^ 95) :
    ∃ pool pool', h.store.getEpochPool sid x = .ok pool ∧
      h'.store.getEpochPool sid x = .ok pool' ∧ pool ≤ pool' ∧
      (x < c.epochAtTimestamp h.now → pool' = pool) := by
  obtain ⟨-, later, hlog, hall⟩ := later_deposits hrun
  have hpool : poolOf (depositsOf h'.log sid) x =
      poolOf (depositsOf h.log sid) x + poolOf (depositsOf later sid) x := by
    simp [hlog, depositsOf, poolOf]
  have hb' : totalDeposited (depositsOf h.log sid) < 2 ^ 95 := by
    rw [hlog, totalDeposited_depositsOf_append] at hb
    omega
  refine ⟨_, _, (h.shardInv c hr sid hb').1.getEpochPool_eq hb' x,
    (h'.shardInv c (hr.steps hrun) sid hb).1.getEpochPool_eq hb x, by omega, fun hx => ?_⟩
  rw [hpool, Nat.add_eq_left]
  refine sum_eq_zero fun n hn => ?_
  obtain ⟨d, hd, rfl⟩ := mem_map.mp hn
  have hstart := hx.trans_le (hall d (mem_of_mem_filter hd))
  exact if_neg fun hcovers => hcovers.1.not_gt hstart

/-- Nine tokens for epoch `1`, and then five for epoch `2`. -/
def twoDeposits (b b' : Block) : EpochHistory where
  store := (do
    let store ← EpochStorage.empty.addTokensToEpochRange hourlyChronos b 1 1 1 9
    store.addTokensToEpochRange hourlyChronos b' 1 2 2 5).toOption.getD .empty
  now := b'.timestamp
  log := [⟨1, 1, 1, 9, 0⟩, ⟨1, 2, 2, 5, 0⟩]

/-- Two deposits in the epochs they are for. Another one leaves the pool of epoch `1` as it is. -/
theorem past_pool_final_first : ∃ h h', (epochMachine hourlyChronos).Reachable h ∧
    (epochMachine hourlyChronos).Steps h h' ∧ h.log = [⟨1, 1, 1, 9, 0⟩, ⟨1, 2, 2, 5, 0⟩] ∧
      h'.log.length = 3 ∧ h.store.getEpochPool 1 1 = .ok 9 ∧
      h'.store.getEpochPool 1 1 = .ok 9 := by
  have hfirst := reachable_empty.addTokens ⟨1001, by decide⟩ 1 1 1 9 (by decide) (by decide)
    (by decide) rfl
  have hr : (epochMachine hourlyChronos).Reachable
      (twoDeposits ⟨1001, by decide⟩ ⟨4700, by decide⟩) :=
    hfirst.addTokens ⟨4700, by decide⟩ 1 2 2 5 (by decide) (by decide) (by decide) rfl
  have hrun : (epochMachine hourlyChronos).Steps
      (twoDeposits ⟨1001, by decide⟩ ⟨4700, by decide⟩) ⟨_, _, _⟩ :=
    .tail .refl (c := (⟨4701, by decide⟩, .addTokensToEpochRange 1 2 2 7))
      ⟨by decide, rfl, by decide, by decide, rfl, rfl⟩
  obtain ⟨_, _, hpool, hpool', -, heq⟩ := past_pool_final hr hrun 1 1 (by decide)
  have hnine := (EpochHistory.shardInv hourlyChronos hr 1 (by decide)).1.getEpochPool_eq
    (by decide) 1
  rw [heq (by decide), ← hpool] at hpool'
  exact ⟨_, _, hr, hrun, rfl, rfl, hnine, hpool'.trans hnine⟩

end Dkg
