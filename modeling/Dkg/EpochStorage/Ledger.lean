import Dkg.EpochStorage.Model
import Dkg.Lib.DiffArray

/-! # The epoch pools are the per-epoch map of the deposits

The abstract ledger is the log of the deposits themselves: `poolOf log x` adds the per-epoch
share of every deposit whose range contains `x`. The shard refines it (`Shard.Refines`): its
increments have these sums as prefix sums, and the epochs already crystallised hold them. Each
function of the model keeps the refinement, as long as all deposits together stay below `2^95`,
which is also what keeps every cast in range.
-/

namespace Dkg

open Lib List

/-- One successful `addTokensToEpochRange` call: its arguments, and the remainder it found. -/
structure Deposit where
  (shardId startEpoch endEpoch tokenAmount carried : ℕ)
  deriving DecidableEq, Repr

namespace Deposit

def numEpochs (d : Deposit) : ℕ := d.endEpoch - d.startEpoch + 1

/-- The per-epoch share of the deposit: amount and carried remainder over the range. -/
def share (d : Deposit) : ℕ := (d.tokenAmount + d.carried) / d.numEpochs

/-- What the deposit leaves for the next one. -/
def leftover (d : Deposit) : ℕ := (d.tokenAmount + d.carried) % d.numEpochs

def Covers (d : Deposit) (x : ℕ) : Prop := d.startEpoch ≤ x ∧ x ≤ d.endEpoch
  deriving Decidable

/-- The part of epoch `x` in the deposit. -/
def shareAt (d : Deposit) (x : ℕ) : ℕ := if d.Covers x then d.share else 0

lemma share_mul_add_leftover (d : Deposit) :
    d.share * d.numEpochs + d.leftover = d.tokenAmount + d.carried :=
  Nat.div_add_mod' _ _

end Deposit

/-- **The abstract pool**: the sum of the shares of the deposits that cover `x`. -/
def poolOf (log : List Deposit) (x : ℕ) : ℕ := (log.map (fun d => d.shareAt x)).sum

def totalDeposited (log : List Deposit) : ℕ := (log.map (fun d => d.tokenAmount)).sum

def depositsOf (log : List Deposit) (shardId : ℕ) : List Deposit :=
  log.filter (fun d => d.shardId = shardId)

lemma poolOf_append_singleton (log : List Deposit) (d : Deposit) (x : ℕ) :
    poolOf (log ++ [d]) x = poolOf log x + d.shareAt x := by
  simp [poolOf]

lemma totalDeposited_append_singleton (log : List Deposit) (d : Deposit) :
    totalDeposited (log ++ [d]) = totalDeposited log + d.tokenAmount := by
  simp [totalDeposited]

/-- Summed over all epochs, a deposit gives its share once for every epoch of its range. -/
lemma sum_shareAt {d : Deposit} (h : d.startEpoch ≤ d.endEpoch) {n : ℕ}
    (hn : d.endEpoch < n) : ∑ x ∈ Finset.range n, d.shareAt x = d.share * d.numEpochs := by
  have hfilter : (Finset.range n).filter d.Covers = Finset.Icc d.startEpoch d.endEpoch := by
    ext x
    simp only [Finset.mem_filter, Finset.mem_range, Finset.mem_Icc, Deposit.Covers]
    omega
  simp only [Deposit.shareAt]
  rw [← Finset.sum_filter, hfilter, Finset.sum_const, Nat.card_Icc, smul_eq_mul, Nat.mul_comm,
    Deposit.numEpochs]
  congr 1
  omega

/-! ## The refinement -/

/-- The log of a shard is well formed: ranges are non-empty, start after epoch `0`, end below
`2^256`, and the remainders are carried from one deposit to the next. -/
structure WellFormedLog (log : List Deposit) (remainder : ℕ) : Prop where
  range : ∀ d ∈ log, 1 ≤ d.startEpoch ∧ d.startEpoch ≤ d.endEpoch ∧ d.endEpoch + 1 < 2 ^ 256
  conserve : (log.map (fun d => d.share * d.numEpochs)).sum + remainder = totalDeposited log
  share_le : ∀ d ∈ log, d.tokenAmount + d.carried ≤ totalDeposited log

/-- The shard refines the abstract ledger of its log. -/
structure Shard.Refines (sh : Shard) (log : List Deposit) : Prop where
  wellFormed : WellFormedLog log sh.accumulatedRemainder
  prefixSum_eq : ∀ x, prefixSum sh.diff x = poolOf log x
  cumulative_eq : ∀ x, x ≤ sh.lastFinalizedEpoch → sh.cumulative x = poolOf log x

lemma Shard.Refines.empty : Shard.empty.Refines [] where
  wellFormed := ⟨by simp, by simp [Shard.empty, totalDeposited], by simp⟩
  prefixSum_eq := fun x => by simp [prefixSum, Shard.empty, poolOf]
  cumulative_eq := fun x _ => by simp [Shard.empty, poolOf]

variable {log : List Deposit} {r : ℕ}

lemma WellFormedLog.poolOf_le (h : WellFormedLog log r) (x : ℕ) :
    poolOf log x ≤ totalDeposited log := by
  have key : poolOf log x ≤ (log.map (fun d => d.share * d.numEpochs)).sum := by
    refine sum_le_sum (fun d _ => ?_)
    rw [Deposit.shareAt]
    split
    · exact Nat.le_mul_of_pos_right _ (Nat.succ_pos _)
    · exact Nat.zero_le _
  have := h.conserve
  omega

lemma WellFormedLog.poolOf_zero (h : WellFormedLog log r) : poolOf log 0 = 0 := by
  rw [poolOf, sum_eq_zero]
  intro v hv
  obtain ⟨d, hd, rfl⟩ := mem_map.mp hv
  have hs := (h.range d hd).1
  rw [Deposit.shareAt, if_neg]
  rintro ⟨hle, -⟩
  omega

/-- **Conservation**: all pools and the remainder together are the deposits. -/
lemma WellFormedLog.sum_poolOf (h : WellFormedLog log r) :
    ∑ x ∈ Finset.range (2 ^ 256), poolOf log x + r = totalDeposited log := by
  have key : ∀ l : List Deposit,
      (∀ d ∈ l, d.startEpoch ≤ d.endEpoch ∧ d.endEpoch + 1 < 2 ^ 256) →
      ∑ x ∈ Finset.range (2 ^ 256), poolOf l x = (l.map (fun d => d.share * d.numEpochs)).sum := by
    intro l hl
    induction l with
    | nil => simp [poolOf]
    | cons d l ih =>
      have hd := hl d mem_cons_self
      have ih' := ih (fun d' hd' => hl d' (mem_cons_of_mem d hd'))
      simp only [poolOf, map_cons, sum_cons] at ih' ⊢
      rw [Finset.sum_add_distrib, ih', sum_shareAt hd.1 (by omega)]
  rw [key log (fun d hd => (h.range d hd).2)]
  exact h.conserve

/-! ## The loops -/

section

variable {diff : ℕ → ℤ} {V : ℕ → ℕ}

variable (hV : ∀ x, prefixSum diff x = V x) (hb : ∀ x, V x < 2 ^ 95)

include hV hb

/-- One iteration stays in range: the increment leads from one pool to the next. -/
lemma addInt_step (e : ℕ) : addInt 96 (V e) (diff (e + 1)) = .ok (V (e + 1) : ℤ) := by
  have h1 := hV (e + 1)
  rw [prefixSum_succ, hV e] at h1
  have h2 : ((V (e + 1) : ℕ) : ℤ) < 2 ^ 95 := by exact_mod_cast hb (e + 1)
  rw [addInt_eq_ok, h1]
  refine ⟨⟨?_, ?_⟩, rfl⟩
  · have : -(2 : ℤ) ^ (96 - 1) ≤ 0 := by norm_num
    omega
  · simpa using h2

omit hV hb in
lemma uint96OfInt_natCast {n : ℕ} (h : n < 2 ^ 95) : uint96OfInt (n : ℤ) = n := by
  have h2 : ((n : ℕ) : ℤ) < 2 ^ 96 := by
    have : (n : ℤ) < 2 ^ 95 := by exact_mod_cast h
    have h3 : (2 : ℤ) ^ 95 ≤ 2 ^ 96 := by norm_num
    omega
  exact_mod_cast uint96OfInt_of_nonneg (by omega) h2

/-- The finalisation loop crystallises the pools of the `k` epochs from `e + 1` and nothing
else. -/
lemma Shard.finalizeLoop_eq (k e : ℕ) (cum : ℕ → ℕ) (he : e ≠ 0 → cum e = V e) :
    ∃ cum', Shard.finalizeLoop diff k (e + 1) cum = .ok cum' ∧
      ∀ x, cum' x = if e < x ∧ x ≤ e + k then V x else cum x := by
  have hV0 : V 0 = 0 := by
    have := hV 0
    rw [prefixSum_zero] at this
    exact_mod_cast this.symm
  induction k generalizing e cum with
  | zero =>
    refine ⟨cum, rfl, fun x => ?_⟩
    rw [if_neg (by omega)]
  | succ k ih =>
    have hprev : (if e + 1 > 1 then int96 (cum (e + 1 - 1)) else 0) = (V e : ℤ) := by
      by_cases h0 : e = 0
      · subst h0
        simp [hV0]
      · rw [if_pos (by omega), Nat.add_sub_cancel, he h0, int96_of_lt (hb e)]
    obtain ⟨cum', hrun, hcum'⟩ := ih (e + 1) (Function.update cum (e + 1) (V (e + 1)))
      (fun _ => Function.update_self _ _ _)
    refine ⟨cum', ?_, fun x => ?_⟩
    · rw [Shard.finalizeLoop, hprev, addInt_step hV hb e]
      simp only [bind, Except.bind]
      rw [uint96OfInt_natCast (hb (e + 1))]
      exact hrun
    · rw [hcum' x]
      by_cases hx : x = e + 1
      · subst hx
        rw [if_neg (by omega), Function.update_self, if_pos (by omega)]
      · rw [Function.update_of_ne hx]
        by_cases hin : e + 1 < x ∧ x ≤ e + 1 + k
        · rw [if_pos hin, if_pos (by omega)]
        · rw [if_neg hin, if_neg (by omega)]

/-- The simulation loop computes the pool `k` epochs on. -/
lemma Shard.simulateLoop_eq
    (k e : ℕ) : Shard.simulateLoop diff k (e + 1) (V e) = .ok (V (e + k)) := by
  induction k generalizing e with
  | zero => rfl
  | succ k ih =>
    rw [Shard.simulateLoop, int96_of_lt (hb e), addInt_step hV hb e]
    simp only [bind, Except.bind]
    rw [uint96OfInt_natCast (hb (e + 1)), ih (e + 1)]
    congr 2
    omega

end

/-! ## The functions -/

section

variable {sh sh' : Shard} {log : List Deposit}

section

variable (h : sh.Refines log) (hb : totalDeposited log < 2 ^ 95)

include h hb

lemma Shard.Refines.poolOf_lt (x : ℕ) : poolOf log x < 2 ^ 95 :=
  lt_of_le_of_lt (h.wellFormed.poolOf_le x) hb

/-- Reading a pool gives the abstract pool, crystallised or not. -/
lemma Shard.Refines.getEpochPool_eq (x : ℕ) : sh.getEpochPool x = .ok (poolOf log x) := by
  have hlt := h.poolOf_lt hb
  rw [Shard.getEpochPool]
  by_cases hx : x ≤ sh.lastFinalizedEpoch
  · rw [if_pos hx, h.cumulative_eq x hx]
    rfl
  · rw [if_neg hx, Shard.simulateEpochFinalization, if_neg hx]
    have hstart : (if sh.lastFinalizedEpoch > 0 then sh.cumulative sh.lastFinalizedEpoch else 0)
        = poolOf log sh.lastFinalizedEpoch := by
      by_cases h0 : sh.lastFinalizedEpoch > 0
      · rw [if_pos h0, h.cumulative_eq _ le_rfl]
      · have hz : sh.lastFinalizedEpoch = 0 := by omega
        rw [if_neg h0, hz, h.wellFormed.poolOf_zero]
    rw [hstart, Shard.simulateLoop_eq h.prefixSum_eq hlt]
    congr 2
    omega

/-- Finalising the past keeps the refinement and does not fail. -/
lemma Shard.Refines.finalizePast (currentEpoch : ℕ) (hlast : sh.lastFinalizedEpoch < currentEpoch) :
    ∃ sh', sh.finalizePast currentEpoch = .ok sh' ∧ sh'.Refines log ∧
      sh'.lastFinalizedEpoch < currentEpoch := by
  rw [Shard.finalizePast]
  by_cases hc : currentEpoch > 1
  · obtain ⟨cum', hrun, hcum'⟩ := Shard.finalizeLoop_eq h.prefixSum_eq (h.poolOf_lt hb)
      (currentEpoch - 1 + 1 - (sh.lastFinalizedEpoch + 1)) sh.lastFinalizedEpoch sh.cumulative
      (fun _ => h.cumulative_eq _ le_rfl)
    refine ⟨{ sh with cumulative := cum', lastFinalizedEpoch := currentEpoch - 1 }, ?_, ?_, ?_⟩
    · rw [if_pos hc, Shard.finalizeEpochsUpTo, hrun]
      rfl
    · refine ⟨h.wellFormed, h.prefixSum_eq, fun x hx => ?_⟩
      have hx' : x ≤ currentEpoch - 1 := hx
      show cum' x = poolOf log x
      rw [hcum' x]
      by_cases hold : x ≤ sh.lastFinalizedEpoch
      · rw [if_neg (by omega), h.cumulative_eq x hold]
      · rw [if_pos (by omega)]
    · show currentEpoch - 1 < currentEpoch
      omega
  · exact ⟨sh, by rw [if_neg hc]; rfl, h, hlast⟩

end

/-- A log stays well formed when a deposit is recorded with the remainder it found. -/
lemma WellFormedLog.append {d : Deposit} (h : WellFormedLog log d.carried)
    (hs : 1 ≤ d.startEpoch) (he : d.startEpoch ≤ d.endEpoch) (hn : d.endEpoch + 1 < 2 ^ 256) :
    WellFormedLog (log ++ [d]) d.leftover := by
  have hc := h.conserve
  have hd := d.share_mul_add_leftover
  refine ⟨fun d' hd' => ?_, ?_, fun d' hd' => ?_⟩
  · rcases mem_append.mp hd' with hold | hnew
    · exact h.range d' hold
    · rw [mem_singleton.mp hnew]
      exact ⟨hs, he, hn⟩
  · rw [totalDeposited_append_singleton, map_append, sum_append]
    simp only [map_cons, map_nil, sum_cons, sum_nil]
    omega
  · rw [totalDeposited_append_singleton]
    rcases mem_append.mp hd' with hold | hnew
    · have := h.share_le d' hold
      omega
    · rw [mem_singleton.mp hnew]
      omega

/-- What a successful `spread` does, its casts still in place. -/
lemma Shard.spread_eq_ok {s e amount : ℕ} (h : sh.spread s e amount = .ok sh') :
    s ≤ e ∧ e + 1 < 2 ^ 256 ∧ amount + sh.accumulatedRemainder < 2 ^ 96 ∧
    sh' = { sh with
      accumulatedRemainder := uint96 ((amount + sh.accumulatedRemainder) % (e - s + 1))
      diff := addRange sh.diff s (e + 1)
        (int96 (uint96 ((amount + sh.accumulatedRemainder) / (e - s + 1)))) } := by
  simp only [Shard.spread, bind_eq_ok, subUint_eq_ok, addUint_eq_ok, addInt_eq_ok, pure_eq_ok] at h
  obtain ⟨_, ⟨hse, rfl⟩, _, ⟨-, rfl⟩, _, ⟨htot, rfl⟩, _, ⟨-, rfl⟩, _, ⟨hnext, rfl⟩, _, ⟨-, rfl⟩,
    rfl⟩ := h
  exact ⟨hse, hnext, htot, by rw [addRange, sub_eq_add_neg]⟩

/-- Recording a deposit keeps the refinement: the shares reach exactly the epochs of the range,
and nothing already crystallised is in it. -/
lemma Shard.Refines.spread {d : Deposit} (h : sh.Refines log)
    (hcarried : d.carried = sh.accumulatedRemainder)
    (hb : totalDeposited (log ++ [d]) < 2 ^ 95) (hstart : sh.lastFinalizedEpoch < d.startEpoch)
    (hrun : sh.spread d.startEpoch d.endEpoch d.tokenAmount = .ok sh') :
    sh'.Refines (log ++ [d]) ∧ sh'.lastFinalizedEpoch = sh.lastFinalizedEpoch := by
  obtain ⟨hse, hnext, -, rfl⟩ := Shard.spread_eq_ok hrun
  rw [← hcarried]
  have hwf : WellFormedLog (log ++ [d]) d.leftover := by
    refine WellFormedLog.append ?_ (by omega) hse hnext
    rw [hcarried]
    exact h.wellFormed
  have htot : d.tokenAmount + d.carried < 2 ^ 95 :=
    lt_of_le_of_lt (hwf.share_le d (by simp)) hb
  have hshare : d.share < 2 ^ 95 := lt_of_le_of_lt (Nat.div_le_self _ _) htot
  have hleft : uint96 ((d.tokenAmount + d.carried) % (d.endEpoch - d.startEpoch + 1))
      = d.leftover := by
    refine uint96_of_lt (lt_of_le_of_lt (Nat.mod_le _ _) ?_)
    have : (2 : ℕ) ^ 95 ≤ 2 ^ 96 := by norm_num
    omega
  have hcast : int96 (uint96 ((d.tokenAmount + d.carried) / (d.endEpoch - d.startEpoch + 1)))
      = (d.share : ℤ) := by
    have h96 : d.share < 2 ^ 96 := lt_trans hshare (by norm_num)
    show int96 (uint96 d.share) = _
    rw [uint96_of_lt h96, int96_of_lt hshare]
  refine ⟨⟨?_, fun x => ?_, fun x hx => ?_⟩, rfl⟩
  · show WellFormedLog (log ++ [d]) (uint96 _)
    rw [hleft]
    exact hwf
  · have hat : (if d.startEpoch ≤ x ∧ x < d.endEpoch + 1 then (d.share : ℤ) else 0)
        = (d.shareAt x : ℤ) := by
      by_cases hx : d.Covers x
      · rw [Deposit.shareAt, if_pos hx, if_pos ⟨hx.1, Nat.lt_succ_of_le hx.2⟩]
      · rw [Deposit.shareAt, if_neg hx, if_neg]
        · rfl
        · rintro ⟨h1, h2⟩
          exact hx ⟨h1, Nat.le_of_lt_succ h2⟩
    show prefixSum (addRange sh.diff _ _ _) x = _
    rw [hcast, prefixSum_addRange _ _ (by omega) (by omega), h.prefixSum_eq x,
      poolOf_append_singleton, hat]
    push_cast
    rfl
  · have hx' : x ≤ sh.lastFinalizedEpoch := hx
    show sh.cumulative x = _
    rw [poolOf_append_singleton, h.cumulative_eq x hx', Deposit.shareAt, if_neg]
    · rfl
    · rintro ⟨h1, -⟩
      omega

end

end Dkg
