import Dkg.Lib.StepIntegral
import Dkg.Staking.Accrual

/-! # The score of a position as an integral

`_delegatorIncrementForEpoch` splits the growth of a node's index at the end of the lock, while each
proof was scored with the stake that the node ledger counted in its second. A proof in the very
second in which the lock ends is on different sides of the two splits: the ledger counts the raw
stake, and the claim the boosted one. `scoreIncrement_integral_iff` says when the result is the
integral anyway.
-/

namespace Dkg

open Lib Checkpoint List RandomSamplingStorage

/-! ## A recorded list of checkpoints -/

def RandomSamplingStorage.record (r : RandomSamplingStorage) (identityId epoch : ℕ) :
    List Checkpoint → Tx RandomSamplingStorage
  | [] => pure r
  | x :: l => do
      let r ← r.appendCheckpoint identityId epoch x.timestamp x.scorePerStake36
      r.record identityId epoch l

variable {ei : EpochIndex} {id e eff effBoosted effBase now : ℕ} {c : Chronos}

lemma EpochIndex.upsert_later {ei' : EpochIndex} {ts value : ℕ}
    (hlater : ∀ x ∈ ei.mid, x.timestamp < ts) (hrun : ei._upsertCheckpoint ts value = .ok ei') :
    ei' = ⟨ei.lastScorePerStake36, ei.mid ++ [⟨ts, value⟩]⟩ := by
  unfold EpochIndex._upsertCheckpoint at hrun
  obtain ⟨_, -, hrun⟩ := of_bind hrun
  cases htail : ei.mid.getLast? with
  | none =>
    rw [htail] at hrun
    exact (of_pure hrun).symm
  | some tail =>
    rw [htail] at hrun
    obtain ⟨_, -, hrun⟩ := of_bind hrun
    have hlt := hlater tail (mem_of_getLast? htail)
    rw [if_neg (by omega)] at hrun
    exact (of_pure hrun).symm

/-- The index after checkpoints in the order of time. -/
lemma RandomSamplingStorage.record_index {r r' : RandomSamplingStorage} {l₀ l : List Checkpoint}
    (hstart : r.nodeEpochIndex id e = ⟨lastValue scorePerStake36 l₀, l₀⟩)
    (hordered : (l₀ ++ l).Pairwise fun x y => x.timestamp < y.timestamp)
    (hrun : r.record id e l = .ok r') : r'.nodeEpochIndex id e
      = ⟨lastValue scorePerStake36 (l₀ ++ l), l₀ ++ l⟩ := by
  induction l generalizing r l₀ with
  | nil =>
    obtain rfl := of_pure hrun
    rw [append_nil]
    exact hstart
  | cons x l ih =>
    obtain ⟨next, happend, hrest⟩ := of_bind hrun
    have hindex : next.nodeEpochIndex id e
        = ⟨lastValue scorePerStake36 (l₀ ++ [x]), l₀ ++ [x]⟩ := by
      unfold appendCheckpoint at happend
      obtain ⟨_, -, ei, hei, happend⟩ := of_bind₂ happend
      obtain rfl := of_pure happend
      have hlater : ∀ y ∈ l₀, y.timestamp < x.timestamp := fun y hy =>
        (pairwise_append.mp hordered).2.2 y hy x mem_cons_self
      have hnew := EpochIndex.upsert_later (by rw [hstart]; exact hlater) hei
      show store₂ r.nodeEpochIndex id e ei id e = _
      rw [hnew, hstart, lastValue_concat]
      exact if_pos ⟨rfl, rfl⟩
    have hassoc : l₀ ++ x :: l = (l₀ ++ [x]) ++ l := by simp
    rw [hassoc] at hordered ⊢
    exact ih hindex hordered hrest

/-! ## Both halves -/

/-- A half of the score: the stake times the growth of the index. -/
def scorePart (eff growth : ℕ) : Tx ℕ := do
  let product ← mulUint 256 eff growth
  pure (product / SCALE18)

lemma scorePart_eq_ok {growth v : ℕ} :
    scorePart eff growth = .ok v ↔ eff * growth < 2 ^ 256 ∧ v = eff * growth / SCALE18 := by
  unfold scorePart
  rw [bind_eq_ok]
  constructor
  · rintro ⟨product, hmul, hend⟩
    obtain ⟨hfits, rfl⟩ := mulUint_eq_ok.mp hmul
    exact ⟨hfits, (of_pure hend).symm⟩
  · rintro ⟨hfits, rfl⟩
    exact ⟨_, mulUint_eq_ok.mpr ⟨hfits, rfl⟩, rfl⟩

lemma scoreBetween_eq {lower upper : ℕ} (h : lower ≤ upper) :
    scoreBetween eff lower upper = scorePart eff (upper - lower) := by
  unfold scoreBetween subUint
  rw [if_pos h]
  rfl

lemma scorePart_zero (eff : ℕ) : scorePart eff 0 = .ok 0 :=
  scorePart_eq_ok.mpr ⟨by simp, by simp⟩

/-- The growths before and after the split, at the boosted and the raw stake; without a boost there
is one half. -/
def splitScore (effBoosted effBase before after : ℕ) : Tx ℕ :=
  if effBoosted = effBase then scorePart effBase (before + after)
  else do
    let boostedPart ← scorePart effBoosted before
    let basePart ← scorePart effBase after
    addUint 256 boostedPart basePart

/-- The products fit in `uint256`. -/
def SplitFits (effBoosted effBase before after : ℕ) : Prop :=
  if effBoosted = effBase then effBase * (before + after) < 2 ^ 256
  else effBoosted * before < 2 ^ 256 ∧ effBase * after < 2 ^ 256
  deriving Decidable

/-- What rounding down takes off the two halves. -/
def splitRest (effBoosted effBase before after : ℕ) : ℕ :=
  effBoosted * before % SCALE18 + effBase * after % SCALE18

lemma splitScore_eq_ok {before after v : ℕ} :
    splitScore effBoosted effBase before after = .ok v ↔
      SplitFits effBoosted effBase before after ∧ v = if effBoosted = effBase then
        effBase * (before + after) / SCALE18
      else effBoosted * before / SCALE18 + effBase * after / SCALE18 := by
  unfold splitScore SplitFits
  split
  next => exact scorePart_eq_ok
  next =>
    rw [bind_eq_ok]
    constructor
    · rintro ⟨boostedPart, hboosted, hrun⟩
      obtain ⟨basePart, hbase, hsum⟩ := of_bind hrun
      obtain ⟨hfits, rfl⟩ := scorePart_eq_ok.mp hboosted
      obtain ⟨hfits', rfl⟩ := scorePart_eq_ok.mp hbase
      exact ⟨⟨hfits, hfits'⟩, (addUint_eq_ok.mp hsum).2⟩
    · rintro ⟨⟨hfits, hfits'⟩, rfl⟩
      refine ⟨_, scorePart_eq_ok.mpr ⟨hfits, rfl⟩, bind_eq_ok.mpr
        ⟨_, scorePart_eq_ok.mpr ⟨hfits', rfl⟩, addUint_eq_ok.mpr ⟨?_, rfl⟩⟩⟩
      -- either half is far below the bound
      have hhalf : ∀ n : ℕ, n < 2 ^ 256 → n / SCALE18 < 2 ^ 255 := fun n hn => by
        rw [Nat.div_lt_iff_lt_mul (by decide)]
        exact hn.trans (by decide)
      have hsum := Nat.add_lt_add (hhalf _ hfits) (hhalf _ hfits')
      have hdouble : 2 ^ 255 + 2 ^ 255 = 2 ^ 256 := by decide
      exact hdouble ▸ hsum

/-- Nothing before the split. -/
lemma splitScore_after {after v : ℕ} :
    splitScore effBoosted effBase 0 after = .ok v ↔ scorePart effBase after = .ok v := by
  rw [splitScore_eq_ok, scorePart_eq_ok]
  unfold SplitFits
  split
  next => rw [Nat.zero_add]
  next => simp

/-- Nothing after the split. -/
lemma splitScore_before {before v : ℕ} :
    splitScore effBoosted effBase before 0 = .ok v ↔ scorePart effBoosted before = .ok v := by
  rw [splitScore_eq_ok, scorePart_eq_ok]
  unfold SplitFits
  split
  next heq => rw [Nat.add_zero, heq]
  next => simp

/-! ## The increment -/

lemma IndexOk.find_earlier {t : ℕ} (h : IndexOk c e now ei) (ht : c.epochAtTimestamp t < e) :
    ei.findScorePerStakeAt t = 0 := by
  rw [h.find_eq]
  exact valueAt_of_gt fun x hx =>
    c.lt_of_epochAtTimestamp_lt (ht.trans_eq (h.times x hx).1.symm)

/-- The increment is the score of the growth up to the end of the lock, and of the growth after
it. -/
lemma Position.scoreIncrement_eq_split {cursor v : ℕ} {p : Position} {r : RandomSamplingStorage}
    (h : IndexOk c e now (r.nodeEpochIndex id e)) (hexpiry : p.expiryTimestamp < 2 ^ 40)
    (hcursor : cursor ≤ (r.nodeEpochIndex id e).lastScorePerStake36) :
    p.scoreIncrement c r e id (r.getEpochLastScorePerStake id e) cursor = .ok v ↔
      splitScore (boosted p.raw p.multiplier18) p.raw
        (p.boostMark (r.nodeEpochIndex id e) - cursor)
        ((r.nodeEpochIndex id e).lastScorePerStake36
          - max (p.boostMark (r.nodeEpochIndex id e)) cursor) = .ok v := by
  have hmarkLe := Position.boostMark_le (p := p) h
  have hfind : r.findScorePerStakeAt id e p.expiryTimestamp
      = (r.nodeEpochIndex id e).findScorePerStakeAt p.expiryTimestamp := rfl
  have hlast : r.getEpochLastScorePerStake id e = (r.nodeEpochIndex id e).lastScorePerStake36 := rfl
  generalize r.nodeEpochIndex id e = ei at h hcursor hmarkLe hfind hlast ⊢
  -- without a mark above the cursor, all growth is after the split
  have hunmarked (hmark : p.boostMark ei ≤ cursor) :
      scoreBetween p.raw cursor ei.lastScorePerStake36 = .ok v ↔
        splitScore (boosted p.raw p.multiplier18) p.raw (p.boostMark ei - cursor)
          (ei.lastScorePerStake36 - max (p.boostMark ei) cursor) = .ok v := by
    rw [Nat.sub_eq_zero_of_le hmark, max_eq_right hmark, scoreBetween_eq hcursor]
    exact splitScore_after.symm
  unfold Position.scoreIncrement _delegatorIncrementForEpoch Position.expiryEpoch
  rw [hlast, uint40_of_lt hexpiry, hfind]
  by_cases hnothing : ei.lastScorePerStake36 ≤ cursor
  · rw [if_pos hnothing, ← hunmarked (hmarkLe.trans hnothing), scoreBetween_eq hcursor,
      Nat.sub_eq_zero_of_le hnothing, scorePart_zero]
    rfl
  rw [if_neg hnothing]
  by_cases hnone : p.expiryTimestamp = 0
  · rw [if_pos (.inl hnone), if_pos hnone]
    refine hunmarked ?_
    rw [Position.boostMark, if_pos hnone]
    exact Nat.zero_le _
  have hmark : p.boostMark ei = ei.findScorePerStakeAt p.expiryTimestamp := if_neg hnone
  simp only [hnone, false_or, if_false]
  rcases lt_trichotomy e (c.epochAtTimestamp p.expiryTimestamp) with hlt | heq | hgt
  · -- boosted in the whole epoch
    rw [if_pos hlt, hmark, h.find_later hlt, max_eq_left hcursor, Nat.sub_self,
      scoreBetween_eq hcursor]
    exact splitScore_before.symm
  · rw [if_neg heq.not_lt, if_neg (not_lt.mpr heq.le)]
    split
    next hflat =>
      -- one stake
      have hsum : (p.boostMark ei - cursor)
          + (ei.lastScorePerStake36 - max (p.boostMark ei) cursor)
          = ei.lastScorePerStake36 - cursor := by
        omega
      rw [splitScore, if_pos hflat, hsum, scoreBetween_eq hcursor]
    next hflat =>
      split
      next habove =>
        rw [← hmark] at habove ⊢
        rw [splitScore, if_neg hflat, scoreBetween_eq habove.le, scoreBetween_eq hmarkLe,
          max_eq_left habove.le]
      next habove =>
        rw [← hmark] at habove
        exact hunmarked (not_lt.mp habove)
  · -- the boost ended before the epoch
    rw [if_neg hgt.not_gt, if_pos hgt]
    refine hunmarked ?_
    rw [hmark, h.find_earlier hgt]
    exact Nat.zero_le _

/-! ## The integral -/

/-- The result is the total, up to less than one unit for each half. -/
def IntegralOf (run : Tx ℕ) (total : ℕ) : Prop :=
  ∃ v, run = .ok v ∧ v * SCALE18 ≤ total ∧ total < v * SCALE18 + 2 * SCALE18

/-- The total of a split in which the growth `late` belongs to the second half but is counted in the
first. -/
lemma splitScore_integralOf {before after late total : ℕ}
    (htotal : total + effBoosted * late = effBoosted * before + effBase * after + effBase * late) :
    IntegralOf (splitScore effBoosted effBase before after) total ↔
      SplitFits effBoosted effBase before after ∧
        effBoosted * late ≤ effBase * late + splitRest effBoosted effBase before after ∧
        effBase * late + splitRest effBoosted effBase before after
          < effBoosted * late + 2 * SCALE18 := by
  have hscale : 0 < SCALE18 := by decide
  have hboosted := Nat.div_add_mod (effBoosted * before) SCALE18
  have hbase := Nat.div_add_mod (effBase * after) SCALE18
  have hboostedLt := Nat.mod_lt (effBoosted * before) hscale
  have hbaseLt := Nat.mod_lt (effBase * after) hscale
  unfold IntegralOf
  simp only [splitScore_eq_ok]
  unfold splitRest
  by_cases heq : effBoosted = effBase
  · -- one stake, so it does not matter where the growth is counted
    subst heq
    have hboth := Nat.div_add_mod (effBoosted * (before + after)) SCALE18
    have hbothLt := Nat.mod_lt (effBoosted * (before + after)) hscale
    rw [Nat.mul_add] at hboth hbothLt
    simp only [if_true, Nat.mul_add]
    constructor
    · rintro ⟨v, ⟨hfits, -⟩, -, -⟩
      exact ⟨hfits, by omega, by omega⟩
    · rintro ⟨hfits, -, -⟩
      refine ⟨_, ⟨hfits, rfl⟩, ?_, ?_⟩
      · rw [Nat.mul_comm]
        omega
      · rw [Nat.mul_comm]
        omega
  · simp only [if_neg heq]
    constructor
    · rintro ⟨v, ⟨hfits, rfl⟩, hle, hlt⟩
      rw [Nat.add_mul, Nat.mul_comm _ SCALE18, Nat.mul_comm _ SCALE18] at hle hlt
      exact ⟨hfits, by omega, by omega⟩
    · rintro ⟨hfits, hle, hlt⟩
      refine ⟨_, ⟨hfits, rfl⟩, ?_, ?_⟩
      · rw [Nat.add_mul, Nat.mul_comm _ SCALE18, Nat.mul_comm _ SCALE18]
        omega
      · rw [Nat.add_mul, Nat.mul_comm _ SCALE18, Nat.mul_comm _ SCALE18]
        omega

/-- The cursor after the first `k` checkpoints. -/
def cursorAt (cps : List Checkpoint) (k : ℕ) : ℕ :=
  lastValue scorePerStake36 (cps.take k)

def epochIndexOf (cps : List Checkpoint) : EpochIndex :=
  ⟨lastValue scorePerStake36 cps, cps⟩

lemma epochIndexOf_last (cps : List Checkpoint) (k : ℕ) : (epochIndexOf cps).lastScorePerStake36
    = valueAfter scorePerStake36 (cursorAt cps k) (cps.drop k) := by
  have hcursor : lastValue scorePerStake36 (cps.take k) = cursorAt cps k := rfl
  have hlast := lastValue_append hcursor (cps.drop k)
  rw [take_append_drop] at hlast
  exact hlast

namespace Position

variable (p : Position) (cps : List Checkpoint) (k : ℕ)

/-- The stake that the node ledger counts at each proof after the cursor, times the growth at it. -/
def integral : ℕ :=
  Lib.integral timestamp scorePerStake36
    (effectiveNow p.raw p.multiplier18 p.expiryTimestamp) (cursorAt cps k) (cps.drop k)

/-- The growth after the cursor that the claim counts at the boosted stake. -/
def before : ℕ := p.boostMark (epochIndexOf cps) - cursorAt cps k

/-- The growth after the cursor that the claim counts at the raw stake. -/
def after : ℕ :=
  (epochIndexOf cps).lastScorePerStake36 - max (p.boostMark (epochIndexOf cps)) (cursorAt cps k)

/-- The growth after the cursor in the second in which the lock ends. -/
def late : ℕ :=
  if p.expiryTimestamp = 0 then 0
  else growth timestamp scorePerStake36 (fun t => t = p.expiryTimestamp)
    (cursorAt cps k) (cps.drop k)

/-- The products fit, and the boost on the growth in the last second of the lock is within what
rounding takes off. -/
structure Integrable : Prop where
  fits : SplitFits (boosted p.raw p.multiplier18) p.raw (p.before cps k) (p.after cps k)
  most : boosted p.raw p.multiplier18 * p.late cps k ≤ p.raw * p.late cps k
    + splitRest (boosted p.raw p.multiplier18) p.raw (p.before cps k) (p.after cps k)
  least : p.raw * p.late cps k
    + splitRest (boosted p.raw p.multiplier18) p.raw (p.before cps k) (p.after cps k)
      < boosted p.raw p.multiplier18 * p.late cps k + 2 * SCALE18

end Position

/-- A list of checkpoints of an epoch, in the order of time and with values that do not fall. -/
structure ProofRecord (c : Chronos) (e : ℕ) (cps : List Checkpoint) : Prop where
  ordered : cps.Pairwise fun x y => x.timestamp < y.timestamp
  rising : cps.Pairwise fun x y => x.scorePerStake36 ≤ y.scorePerStake36
  inside : ∀ x ∈ cps, c.epochAtTimestamp x.timestamp = e

namespace ProofRecord

variable {c : Chronos} {e : ℕ} {cps : List Checkpoint} (h : ProofRecord c e cps)

include h

lemma le_last {x : Checkpoint} (hx : x ∈ cps) :
    x.scorePerStake36 ≤ lastValue scorePerStake36 cps := by
  rcases eq_nil_or_concat' cps with rfl | ⟨l, y, rfl⟩
  · exact absurd hx not_mem_nil
  · rw [lastValue_concat]
    rcases mem_append.mp hx with hl | hy
    · exact (pairwise_append.mp h.rising).2.2 x hl y (mem_singleton_self y)
    · rw [mem_singleton.mp hy]

lemma indexOk : ∃ now, IndexOk c e now (epochIndexOf cps) := by
  obtain ⟨now, hnow⟩ : ∃ now, ∀ x ∈ cps, x.timestamp ≤ now :=
    ⟨(cps.map timestamp).sum, fun x hx =>
      le_sum_of_mem (mem_map_of_mem hx)⟩
  exact ⟨now, h.ordered, fun x hx => ⟨h.inside x hx, hnow x hx⟩, fun x hx => h.le_last hx, rfl⟩

lemma take (k : ℕ) : ProofRecord c e (cps.take k) :=
  ⟨h.ordered.sublist (take_sublist k cps), h.rising.sublist (take_sublist k cps),
    fun x hx => h.inside x (mem_of_mem_take hx)⟩

/-- The values after the cursor do not fall below it. -/
lemma rising_after (k : ℕ) : Rising scorePerStake36 (cursorAt cps k) (cps.drop k) := by
  refine ⟨fun x hx => ?_, h.rising.sublist (drop_sublist k cps)⟩
  have hsplit := h.rising
  rw [← take_append_drop k cps] at hsplit
  unfold cursorAt
  rcases eq_nil_or_concat' (cps.take k) with hnil | ⟨l, y, hconcat⟩
  · rw [hnil]
    exact Nat.zero_le _
  · rw [hconcat, lastValue_concat]
    rw [hconcat] at hsplit
    exact (pairwise_append.mp hsplit).2.2 y (mem_append_right _ (mem_singleton_self y)) x hx

lemma cursor_le (k : ℕ) : cursorAt cps k ≤ (epochIndexOf cps).lastScorePerStake36 := by
  rw [epochIndexOf_last cps k]
  exact (h.rising_after k).le_valueAfter

lemma growth_le (k T : ℕ) : growth timestamp scorePerStake36 (· ≤ T)
    (cursorAt cps k) (cps.drop k) = (epochIndexOf cps).findScorePerStakeAt T - cursorAt cps k := by
  obtain ⟨now, hok⟩ := h.indexOk
  have hordered : (cps.take k ++ cps.drop k).Pairwise fun x y => x.timestamp < y.timestamp := by
    rw [take_append_drop]
    exact h.ordered
  have hgrowth := growth_upTo (rfl : lastValue _ _ = cursorAt cps k)
    (fun x hx => (h.take k).le_last hx) (h.rising_after k) hordered T
  rw [take_append_drop] at hgrowth
  rw [hok.find_eq]
  exact hgrowth

lemma growth_total (k : ℕ) : growth timestamp scorePerStake36
    (fun _ => True) (cursorAt cps k) (cps.drop k)
      = (epochIndexOf cps).lastScorePerStake36 - cursorAt cps k := by
  rw [epochIndexOf_last cps k, ← growth_all (h.rising_after k), Nat.add_sub_cancel_left]

/-- The integral counts the growth in the second in which the lock ends at the raw stake. -/
lemma integral_eq (p : Position) (k : ℕ) :
    p.integral cps k + boosted p.raw p.multiplier18 * p.late cps k
      = boosted p.raw p.multiplier18 * p.before cps k + p.raw * p.after cps k
        + p.raw * p.late cps k := by
  have htotal := h.growth_total k
  by_cases hnone : p.expiryTimestamp = 0
  · -- never boosted
    have hconst : p.integral cps k = p.raw * growth timestamp
        scorePerStake36 (fun _ => True) (cursorAt cps k) (cps.drop k) := by
      unfold Position.integral growth
      have hlinear := integral_linear timestamp scorePerStake36
        (indicator fun _ => True) (fun _ => 0) p.raw 0 (cursorAt cps k) (cps.drop k)
      simp only [Nat.zero_mul, Nat.add_zero] at hlinear
      refine Eq.trans (integral_congr (fun x _ => ?_) _) hlinear
      simp [effectiveNow, stillBoosted, hnone, indicator]
    have hmark : p.boostMark (epochIndexOf cps) = 0 := if_pos hnone
    unfold Position.late Position.before Position.after
    rw [hconst, htotal, hmark, if_pos hnone, Nat.zero_sub, Nat.zero_max]
    simp
  · have hmark : p.boostMark (epochIndexOf cps)
        = (epochIndexOf cps).findScorePerStakeAt p.expiryTimestamp := if_neg hnone
    have hsplit : p.integral cps k = _ := integral_split (T := p.expiryTimestamp)
      (a := boosted p.raw p.multiplier18) (b := p.raw)
      (fun t => by simp [effectiveNow, stillBoosted, hnone]) (cursorAt cps k) (cps.drop k)
    have hupTo := h.growth_le k p.expiryTimestamp
    obtain ⟨now, hok⟩ := h.indexOk
    have hle := hok.find_le p.expiryTimestamp
    -- the growth before, in and after the second in which the lock ends
    have hle_split := growth_or timestamp scorePerStake36
      (p := (· < p.expiryTimestamp)) (q := (· = p.expiryTimestamp))
      (r := (· ≤ p.expiryTimestamp)) (fun t => Nat.le_iff_lt_or_eq) (fun t ht => ht.ne)
      (cursorAt cps k) (cps.drop k)
    have hge_split := growth_or timestamp scorePerStake36
      (p := (· = p.expiryTimestamp)) (q := (p.expiryTimestamp < ·))
      (r := (p.expiryTimestamp ≤ ·)) (fun t => le_iff_eq_or_lt.trans (or_congr_left eq_comm))
      (fun t ht hlt => hlt.ne' ht)
      (cursorAt cps k) (cps.drop k)
    have hall_split := growth_or timestamp scorePerStake36
      (p := (· ≤ p.expiryTimestamp)) (q := (p.expiryTimestamp < ·))
      (r := fun _ => True) (fun t => iff_of_true trivial (le_or_gt t _))
      (fun t ht => not_lt.mpr ht)
      (cursorAt cps k) (cps.drop k)
    have hlate : p.late cps k = _ := if_neg hnone
    have hbefore : p.before cps k = growth timestamp scorePerStake36
        (· ≤ p.expiryTimestamp) (cursorAt cps k) (cps.drop k) := by
      rw [hupTo, Position.before, hmark]
    have hafter : p.after cps k = growth timestamp scorePerStake36
        (p.expiryTimestamp < ·) (cursorAt cps k) (cps.drop k) := by
      unfold Position.after
      rw [hmark]
      omega
    rw [hsplit, hbefore, hafter, hlate, hle_split, hge_split]
    ring

lemma scoreIncrement_eq_ok {p : Position} (hexpiry : p.expiryTimestamp < 2 ^ 40)
    {r : RandomSamplingStorage} {id : ℕ} (hindex : r.nodeEpochIndex id e = epochIndexOf cps)
    (k v : ℕ) :
    p.scoreIncrement c r e id (r.getEpochLastScorePerStake id e) (cursorAt cps k) = .ok v ↔
      splitScore (boosted p.raw p.multiplier18) p.raw (p.before cps k) (p.after cps k) = .ok v := by
  obtain ⟨now, hok⟩ := h.indexOk
  have hcursor := h.cursor_le k
  rw [← hindex] at hok hcursor
  have hsplit := Position.scoreIncrement_eq_split (v := v) hok hexpiry hcursor
  rw [hindex] at hsplit
  exact hsplit

end ProofRecord

/-- **The increment is the integral** over the proofs after the cursor, of the stake that the node
ledger counts at each, exactly if the products fit and the boost on a proof in the last second of
the lock is within what rounding takes off. -/
theorem scoreIncrement_integral_iff {c : Chronos} {e : ℕ} {cps : List Checkpoint}
    (h : ProofRecord c e cps) {r r' : RandomSamplingStorage} {id : ℕ}
    (hempty : r.nodeEpochIndex id e = ⟨0, []⟩) (hrun : r.record id e cps = .ok r')
    {p : Position} (hexpiry : p.expiryTimestamp < 2 ^ 40) (k : ℕ) :
    IntegralOf (p.scoreIncrement c r' e id (r'.getEpochLastScorePerStake id e) (cursorAt cps k))
      (p.integral cps k) ↔ p.Integrable cps k := by
  have hstart : r.nodeEpochIndex id e = ⟨lastValue scorePerStake36 [], []⟩ := hempty
  have hindex : r'.nodeEpochIndex id e = epochIndexOf cps := record_index hstart h.ordered hrun
  have hsame : IntegralOf (p.scoreIncrement c r' e id (r'.getEpochLastScorePerStake id e)
      (cursorAt cps k)) (p.integral cps k) ↔ IntegralOf (splitScore (boosted p.raw p.multiplier18)
        p.raw (p.before cps k) (p.after cps k)) (p.integral cps k) :=
    exists_congr fun v => and_congr_left fun _ => h.scoreIncrement_eq_ok hexpiry hindex k v
  rw [hsame, splitScore_integralOf (h.integral_eq p k)]
  exact ⟨fun hall => ⟨hall.1, hall.2.1, hall.2.2⟩, fun hall => ⟨hall.fits, hall.most, hall.least⟩⟩

/-! ## A proof before, and one in the last second of the lock -/

namespace LastSecond

/-- A stake of ten with a double multiplier until the time. -/
def position (expiryTimestamp : ℕ) : Position :=
  { Position.zero with
    raw := 10
    identityId := 7
    multiplier18 := 2 * SCALE18
    expiryTimestamp := expiryTimestamp }

def proofs : List Checkpoint := [⟨2000, SCALE18⟩, ⟨3000, 2 * SCALE18⟩]

def recorded : RandomSamplingStorage :=
  match empty.record 7 1 proofs with
  | .ok r => r
  | .error _ => .empty

lemma record_ok : empty.record 7 1 proofs = .ok recorded := rfl

lemma proofs_record : ProofRecord hourlyChronos 1 proofs :=
  ⟨by decide, by decide, by decide⟩

/-- The score of both proofs. -/
def increment (expiryTimestamp : ℕ) : Tx ℕ :=
  (position expiryTimestamp).scoreIncrement hourlyChronos recorded 1 7
    (recorded.getEpochLastScorePerStake 7 1) (cursorAt proofs 0)

end LastSecond

/-- The lock ends between the two proofs. -/
theorem lock_ends_between : LastSecond.increment 2500 = .ok 30 ∧
    IntegralOf (LastSecond.increment 2500)
      ((LastSecond.position 2500).integral LastSecond.proofs 0) :=
  ⟨by rfl, (scoreIncrement_integral_iff LastSecond.proofs_record rfl LastSecond.record_ok
    (by decide) 0).mpr ⟨by decide +kernel, by decide +kernel, by decide +kernel⟩⟩

/-- The first proof is in the second in which the lock ends: the ledger counts a stake of ten at
both proofs, and the claim counts twenty at the first. -/
theorem lock_ends_at_proof : ProofRecord hourlyChronos 1 LastSecond.proofs ∧
    empty.record 7 1 LastSecond.proofs = .ok LastSecond.recorded ∧
      (LastSecond.position 2000).integral LastSecond.proofs 0 = 20 * SCALE18 ∧
        LastSecond.increment 2000 = .ok 30 ∧
          ¬ IntegralOf (LastSecond.increment 2000)
            ((LastSecond.position 2000).integral LastSecond.proofs 0) := by
  have hrun : LastSecond.increment 2000 = .ok 30 := by rfl
  have htotal : (LastSecond.position 2000).integral LastSecond.proofs 0 = 20 * SCALE18 := by
    decide +kernel
  refine ⟨LastSecond.proofs_record, LastSecond.record_ok, htotal, hrun, ?_⟩
  rintro ⟨v, hv, hle, -⟩
  rw [hrun] at hv
  cases hv
  rw [htotal] at hle
  exact absurd hle (by decide)

end Dkg
