import Dkg.EpochStorage.History

/-! # The pool of a range of epochs

`getEpochRangePool` adds what is finalised and then goes on with a simulation of its own. It returns
the sum of what `getEpochPool` returns for the single epochs, as far as that fits into a `uint96`
(`getEpochRangePool_eq_sum`).
-/

namespace Dkg

open Lib Finset

namespace Shard

variable {sh : Shard} {q : ℕ → ℕ} {a b e k s total : ℕ}

/-- Before the first finalisation nothing is crystallised. -/
def Untouched (sh : Shard) : Prop := sh.lastFinalizedEpoch = 0 → ∀ x, sh.cumulative x = 0

lemma simulateLoop_succ (diff : ℕ → ℤ) (k e c : ℕ) : simulateLoop diff (k + 1) e c =
    simulateLoop diff k e c >>= fun c' => addInt 96 (int96 c') (diff (e + k)) >>= fun r =>
      pure (uint96OfInt r) := by
  induction k generalizing e c with
  | zero => simp only [simulateLoop, pure_bind, Nat.add_zero]
  | succ k ih =>
    rw [simulateLoop]
    conv_rhs => rw [simulateLoop]
    rw [bind_assoc]
    refine congrArg _ (funext fun r => ?_)
    rw [ih, show e + 1 + k = e + (k + 1) by omega]

variable (h : sh.Untouched)

include h

/-- From the last finalised epoch on a pool is simulated. -/
lemma getEpochPool_eq_simulate (hlast : sh.lastFinalizedEpoch ≤ e) :
    sh.getEpochPool e = simulateLoop sh.diff (e - sh.lastFinalizedEpoch)
      (sh.lastFinalizedEpoch + 1) (sh.cumulative sh.lastFinalizedEpoch) := by
  rw [getEpochPool]
  by_cases heq : e ≤ sh.lastFinalizedEpoch
  · obtain rfl : e = sh.lastFinalizedEpoch := le_antisymm heq hlast
    rw [if_pos le_rfl, Nat.sub_self]
    rfl
  · rw [if_neg heq, simulateEpochFinalization, if_neg heq, Nat.add_sub_add_right]
    by_cases hzero : sh.lastFinalizedEpoch > 0
    · rw [if_pos hzero]
    · rw [if_neg hzero, h (by omega)]

lemma getEpochPool_succ (hlast : sh.lastFinalizedEpoch ≤ e) :
    sh.getEpochPool (e + 1) = sh.getEpochPool e >>= fun c =>
      addInt 96 (int96 c) (sh.diff (e + 1)) >>= fun r => pure (uint96OfInt r) := by
  rw [getEpochPool_eq_simulate h hlast, getEpochPool_eq_simulate h (by omega),
    Nat.sub_add_comm hlast, simulateLoop_succ,
    show sh.lastFinalizedEpoch + 1 + (e - sh.lastFinalizedEpoch) = e + 1 by omega]

/-- A pool that can be read is preceded by pools that can be read. -/
lemma exists_pools (hrun : sh.getEpochPool b = .ok s) :
    ∃ q : ℕ → ℕ, ∀ x ≤ b, sh.getEpochPool x = .ok (q x) := by
  have hall : ∀ k ≤ b, ∃ p, sh.getEpochPool (b - k) = .ok p := by
    intro k
    induction k with
    | zero => exact fun _ => ⟨s, hrun⟩
    | succ k ih =>
      intro hk
      obtain ⟨p, hp⟩ := ih (by omega)
      by_cases hlast : sh.lastFinalizedEpoch ≤ b - (k + 1)
      · rw [show b - k = b - (k + 1) + 1 by omega, getEpochPool_succ h hlast] at hp
        obtain ⟨p', hp', -⟩ := of_bind hp
        exact ⟨p', hp'⟩
      · exact ⟨_, if_pos (by omega)⟩
  choose! p hp using hall
  exact ⟨fun x => p (b - x), fun x hx => by simpa [Nat.sub_sub_self hx] using hp (b - x) (by omega)⟩

/-! ## The loops -/

omit h in
lemma sumFinalized_eq_ok (cumulative : ℕ → ℕ) (htotal : total < 2 ^ 96) :
    sumFinalized cumulative k e total = .ok s ↔
      s < 2 ^ 96 ∧ s = total + ∑ x ∈ Ico e (e + k), cumulative x := by
  induction k generalizing e total with
  | zero =>
    simp only [sumFinalized, pure_eq_ok, Nat.add_zero, Ico_self, sum_empty]
    omega
  | succ k ih =>
    simp only [sumFinalized, bind_eq_ok, addUint_eq_ok]
    rw [sum_eq_sum_Ico_succ_bot (by omega), show e + (k + 1) = e + 1 + k by omega]
    constructor
    · rintro ⟨t, ⟨hlt, rfl⟩, hrest⟩
      rw [ih hlt] at hrest
      omega
    · rintro ⟨hlt, hs⟩
      have hfits : total + cumulative e < 2 ^ 96 := by omega
      exact ⟨_, ⟨hfits, rfl⟩, (ih hfits).mpr (by omega)⟩

lemma sumSimulated_eq_ok (hlast : sh.lastFinalizedEpoch ≤ e)
    (hq : ∀ x ≤ e + k, sh.getEpochPool x = .ok (q x)) (htotal : total < 2 ^ 96) :
    sumSimulated sh.diff a k (e + 1) (q e) total = .ok s ↔
      s < 2 ^ 96 ∧ s = total + ∑ x ∈ Ico (max a (e + 1)) (e + 1 + k), q x := by
  induction k generalizing e total with
  | zero =>
    rw [Ico_eq_empty (by omega), sum_empty, sumSimulated, pure_eq_ok]
    omega
  | succ k ih =>
    have hstep := getEpochPool_succ h hlast
    rw [hq e (by omega), hq (e + 1) (by omega)] at hstep
    obtain ⟨c, hc, r, hr, hvalue⟩ := of_bind₂ hstep.symm
    cases hc
    have hvalue := of_pure hvalue
    have hih : ∀ {total : ℕ}, total < 2 ^ 96 → _ := fun htotal =>
      ih (e := e + 1) (by omega) (fun x hx => hq x (by omega)) htotal
    simp only [sumSimulated, hr, ok_bind, hvalue]
    rw [show e + 1 + (k + 1) = e + 1 + 1 + k by omega]
    by_cases ha : a ≤ e + 1
    · rw [max_eq_right (by omega)] at hih
      rw [max_eq_right ha, sum_eq_sum_Ico_succ_bot (by omega)]
      simp only [if_pos ha, bind_eq_ok, addUint_eq_ok]
      constructor
      · rintro ⟨t, ⟨hlt, rfl⟩, hrest⟩
        rw [hih hlt] at hrest
        omega
      · rintro ⟨hlt, hs⟩
        have hfits : total + q (e + 1) < 2 ^ 96 := by omega
        exact ⟨_, ⟨hfits, rfl⟩, (hih hfits).mpr (by omega)⟩
    · rw [show max a (e + 1) = max a (e + 1 + 1) by omega]
      simp only [if_neg ha, pure_bind]
      exact hih htotal

omit h in
lemma sumSimulated_reads (diff : ℕ → ℤ) {c : ℕ} (h : sumSimulated diff a k e c total = .ok s) :
    ∃ c', simulateLoop diff k e c = .ok c' := by
  induction k generalizing e c total with
  | zero => exact ⟨c, rfl⟩
  | succ k ih =>
    rw [sumSimulated] at h
    obtain ⟨r, hr, t, -, h⟩ := of_bind₂ h
    obtain ⟨c', hc'⟩ := ih h
    refine ⟨c', ?_⟩
    simp only [simulateLoop, hr, ok_bind]
    exact hc'

/-- The second loop begins with the last finalised pool. -/
lemma getEpochRangePool_eq : sh.getEpochRangePool a b = (if a ≤ sh.lastFinalizedEpoch then
      sumFinalized sh.cumulative (min sh.lastFinalizedEpoch b + 1 - a) a 0 else pure 0) >>=
        sumSimulated sh.diff a (b - sh.lastFinalizedEpoch) (sh.lastFinalizedEpoch + 1)
          (sh.cumulative sh.lastFinalizedEpoch) := by
  have hstart : (if sh.lastFinalizedEpoch > 0 then sh.cumulative sh.lastFinalizedEpoch
      else sh.cumulative 1) = sh.cumulative sh.lastFinalizedEpoch := by
    split
    next => rfl
    next hzero => rw [h (by omega), h (by omega)]
  rw [getEpochRangePool]
  simp only [hstart, Nat.add_sub_add_right]

/-- When all pools up to the end can be read, the loops add those of the range. -/
lemma getEpochRangePool_of_reads (hle : a ≤ b)
    (hq : ∀ x ≤ b, sh.getEpochPool x = .ok (q x)) : sh.getEpochRangePool a b = .ok s ↔
      s < 2 ^ 96 ∧ s = ∑ x ∈ Ico a (b + 1), q x := by
  have hfinal : ∀ x ≤ b, x ≤ sh.lastFinalizedEpoch → sh.cumulative x = q x := fun x hx hlast =>
    Except.ok.inj ((if_pos hlast).symm.trans (hq x hx))
  rw [getEpochRangePool_eq h]
  rcases Nat.lt_or_ge sh.lastFinalizedEpoch b with hlast | hlast
  · have hloop : ∀ {total : ℕ}, total < 2 ^ 96 → _ := fun htotal =>
      sumSimulated_eq_ok (a := a) (s := s) (k := b - sh.lastFinalizedEpoch) h le_rfl
        (fun x hx => hq x (by omega)) htotal
    rw [show sh.lastFinalizedEpoch + 1 + (b - sh.lastFinalizedEpoch) = b + 1 by omega] at hloop
    rw [hfinal _ hlast.le le_rfl, min_eq_left hlast.le]
    by_cases ha : a ≤ sh.lastFinalizedEpoch
    · have hsum : ∑ x ∈ Ico a (b + 1), q x =
          ∑ x ∈ Ico a (a + (sh.lastFinalizedEpoch + 1 - a)), sh.cumulative x +
            ∑ x ∈ Ico (sh.lastFinalizedEpoch + 1) (b + 1), q x := by
        rw [Nat.add_sub_cancel' (by omega), ← sum_Ico_consecutive q
          (show a ≤ sh.lastFinalizedEpoch + 1 by omega) (by omega)]
        refine congrArg (· + _) (sum_congr rfl fun x hx => ?_)
        have := (mem_Ico.mp hx).2
        exact (hfinal x (by omega) (by omega)).symm
      rw [max_eq_right (by omega)] at hloop
      rw [if_pos ha, bind_eq_ok, hsum]
      constructor
      · rintro ⟨t, ht, hrun⟩
        obtain ⟨hlt, rfl⟩ := (sumFinalized_eq_ok _ (by norm_num)).mp ht
        have := (hloop hlt).mp hrun
        omega
      · rintro ⟨hlt, hs⟩
        have hfits : 0 + ∑ x ∈ Ico a (a + (sh.lastFinalizedEpoch + 1 - a)),
          sh.cumulative x < 2 ^ 96 := by omega
        exact ⟨_, (sumFinalized_eq_ok _ (by norm_num)).mpr ⟨hfits, rfl⟩,
          (hloop hfits).mpr (by omega)⟩
    · rw [if_neg ha, pure_bind, hloop (by norm_num), max_eq_left (by omega), Nat.zero_add]
  · have hsum : ∑ x ∈ Ico a (a + (b + 1 - a)), sh.cumulative x = ∑ x ∈ Ico a (b + 1), q x := by
      rw [Nat.add_sub_cancel' (by omega)]
      refine sum_congr rfl fun x hx => ?_
      have := (mem_Ico.mp hx).2
      exact hfinal x (by omega) (by omega)
    rw [if_pos (hle.trans hlast), min_eq_right hlast, Nat.sub_eq_zero_of_le hlast]
    rw [show sumSimulated sh.diff a 0 _ _ = pure from rfl, bind_pure,
      sumFinalized_eq_ok _ (by norm_num), hsum, Nat.zero_add]

/-- **A range of epochs.** The query returns the sum of the pools, if it fits and they can all be
read. -/
lemma getEpochRangePool_eq_sum (hle : a ≤ b) :
    sh.getEpochRangePool a b = .ok s ↔ s < 2 ^ 96 ∧ ∃ p : ℕ → ℕ,
      (∀ x, a ≤ x → x ≤ b → sh.getEpochPool x = .ok (p x)) ∧
      s = ∑ x ∈ Ico a (b + 1), p x := by
  constructor
  · intro hrun
    have hreads : ∃ t, sh.getEpochPool b = .ok t := by
      rcases le_total b sh.lastFinalizedEpoch with hlast | hlast
      · exact ⟨_, if_pos hlast⟩
      · rw [getEpochRangePool_eq h] at hrun
        obtain ⟨t, -, hrun⟩ := of_bind hrun
        rw [getEpochPool_eq_simulate h hlast]
        exact sumSimulated_reads _ hrun
    obtain ⟨t, ht⟩ := hreads
    obtain ⟨q, hq⟩ := exists_pools h ht
    obtain ⟨hlt, hs⟩ := (getEpochRangePool_of_reads h hle hq).mp hrun
    exact ⟨hlt, q, fun x _ hx => hq x hx, hs⟩
  · rintro ⟨hlt, p, hp, hs⟩
    obtain ⟨q, hq⟩ := exists_pools h (hp b hle le_rfl)
    refine (getEpochRangePool_of_reads h hle hq).mpr ⟨hlt, hs.trans (sum_congr rfl fun x hx => ?_)⟩
    obtain ⟨hax, hxb⟩ := mem_Ico.mp hx
    exact Except.ok.inj ((hp x hax (by omega)).symm.trans (hq x (by omega)))

end Shard

lemma Shard.Untouched.finalizePast {sh sh' : Shard} {currentEpoch : ℕ} (h : sh.Untouched)
    (hrun : sh.finalizePast currentEpoch = .ok sh') : sh'.Untouched := by
  unfold Shard.finalizePast at hrun
  split at hrun
  next hpast =>
    obtain ⟨cumulative, -, rfl⟩ := of_bind_pure hrun
    intro hzero
    have : currentEpoch - 1 = 0 := hzero
    omega
  next =>
    cases hrun
    exact h

/-- No shard of a run is crystallised before its first finalisation. -/
lemma EpochHistory.untouched (c : Chronos) {h : EpochHistory}
    (hr : (epochMachine c).Reachable h) : ∀ i, (h.store.shard i).Untouched := by
  refine hr.invariant (P := fun h => ∀ i, (h.store.shard i).Untouched) ?_ ?_
  · rintro ⟨store, now, log⟩ ⟨rfl, rfl⟩ i _ x
    rfl
  · rintro h ⟨b, call⟩ h' hinv ⟨-, -, hstep⟩ i
    cases call with
    | addTokensToEpochRange sid s e a =>
      obtain ⟨-, -, hrun, -⟩ := hstep
      simp only [EpochStorage.addTokensToEpochRange, bind_eq_ok, pure_eq_ok] at hrun
      obtain ⟨sh₁, h₁, sh₂, h₂, hstore⟩ := hrun
      obtain ⟨-, -, -, rfl⟩ := Shard.spread_eq_ok h₁
      have hnew : sh₂.Untouched := by
        refine Shard.Untouched.finalizePast ?_ h₂
        exact hinv sid
      rw [← hstore]
      by_cases hi : i = sid
      · subst hi
        simpa using hnew
      · simpa [hi] using hinv i
    | payOutEpochTokens sid epoch identityId amount =>
      obtain ⟨hrun, -⟩ := hstep
      simp only [EpochStorage.payOutEpochTokens, bind_eq_ok, pure_eq_ok] at hrun
      obtain ⟨sh₁, h₁, _, -, _, -, hstore⟩ := hrun
      have hnew := (hinv sid).finalizePast h₁
      rw [← hstore]
      by_cases hi : i = sid
      · subst hi
        simp only [Function.update_self]
        exact hnew
      · simpa [hi] using hinv i

/-- **A range query is the sum of the single queries**, in every history: it returns `s` just when
the single queries all return and `s` is their sum, a `uint96`. -/
theorem epoch_range_is_sum (c : Chronos) {h : EpochHistory} (hr : (epochMachine c).Reachable h)
    (shardId : ℕ) {a b : ℕ} (hle : a ≤ b) (s : ℕ) :
    h.store.getEpochRangePool shardId a b = .ok s ↔ s < 2 ^ 96 ∧ ∃ p : ℕ → ℕ,
      (∀ x, a ≤ x → x ≤ b → h.store.getEpochPool shardId x = .ok (p x)) ∧
      s = ∑ x ∈ Finset.Ico a (b + 1), p x :=
  Shard.getEpochRangePool_eq_sum (h.untouched c hr shardId) hle

/-- `10` tokens over epochs `1..3`. -/
theorem epoch_range_is_sum_three : ∃ h, (epochMachine hourlyChronos).Reachable h ∧
    h.store.getEpochRangePool 1 1 3 = .ok 9 := by
  have h1 := reachable_empty.addTokens ⟨1001, by decide⟩ 1 1 3 10 (by decide) (by decide)
    (by decide) rfl
  refine ⟨_, h1, (epoch_range_is_sum hourlyChronos h1 1 (by decide) 9).mpr
    ⟨by norm_num, fun _ => 3, fun x hx hx' => ?_, rfl⟩⟩
  interval_cases x <;> exact eq_ok_of_succeeds (by decide +kernel)

/-- `2 ^ 95 - 1` tokens in each of the epochs `1` and `2` and `3` in epoch `3`. -/
theorem epoch_range_overflows : ∃ h, (epochMachine hourlyChronos).Reachable h ∧
    h.store.getEpochPool 1 1 = .ok (2 ^ 95 - 1) ∧ h.store.getEpochPool 1 2 = .ok (2 ^ 95 - 1) ∧
    h.store.getEpochPool 1 3 = .ok 3 ∧ h.store.getEpochRangePool 1 1 3 = .error .panic := by
  have h1 := reachable_empty.addTokens ⟨1001, by decide⟩ 1 1 2 (2 ^ 96 - 1) (by decide) (by decide)
    (by decide) rfl
  have h2 := h1.addTokens ⟨1001, by decide⟩ 1 3 3 2 (by decide) (by decide) (by decide) rfl
  exact ⟨_, h2, eq_ok_of_succeeds (by decide +kernel), eq_ok_of_succeeds (by decide +kernel),
    eq_ok_of_succeeds (by decide +kernel), eq_error_of_fails (by decide +kernel)⟩

end Dkg
