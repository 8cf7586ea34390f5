import Dkg.KnowledgeAssets.Payments

/-! # The distribution of a payment over epochs

`_distributeTokens` cuts an amount into a part for the current epoch, one for the full epochs after
it and one for the final epoch. `distribution` is this cut by itself; the call makes exactly its
deposits (`distributeTokens_eq`), and the parts add up to the amount.
-/

namespace Dkg.KnowledgeAssetsV10

open List

/-- What one call of `addTokensToEpochRange` is given. -/
structure PoolPart where
  (startEpoch endEpoch amount : ℕ)

/-- The parts of an amount, with the seconds that are left of the current epoch. -/
def distribution (tokenAmount epochs currentEpoch remaining epochLength : ℕ) : List PoolPart :=
  let base := tokenAmount / epochs
  let current := base * remaining / epochLength
  let full := base * (epochs - 1)
  [⟨currentEpoch, currentEpoch, current⟩, ⟨currentEpoch + 1, currentEpoch + (epochs - 1), full⟩,
    ⟨currentEpoch + epochs, currentEpoch + epochs, tokenAmount - (current + full)⟩].filter
      fun part => 0 < part.amount

def depositAll (c : Chronos) (b : Block) : EpochStorage → List PoolPart →
    Tx (EpochStorage × List Deposit)
  | es, [] => pure (es, [])
  | es, part :: rest => do
      let first ← addToPool c b es part.startEpoch part.endEpoch part.amount
      let others ← depositAll c b first.1 rest
      pure (others.1, first.2 ++ others.2)

/-- Every part is a deposit of shard 1, with what was carried there. -/
lemma depositAll_deposits {c : Chronos} {b : Block} {parts : List PoolPart}
    {es es' : EpochStorage} {ds : List Deposit} (hrun : depositAll c b es parts = .ok (es', ds)) :
    ds.map (fun d => (d.shardId, (⟨d.startEpoch, d.endEpoch, d.tokenAmount⟩ : PoolPart))) =
      parts.map fun part => (1, part) := by
  induction parts generalizing es es' ds with
  | nil =>
    cases hrun
    rfl
  | cons part rest ih =>
    obtain ⟨first, hfirst, others, hothers, hrun⟩ := of_bind₂ hrun
    obtain ⟨es₁, -, hfirst⟩ := of_bind hfirst
    cases hfirst
    cases hrun
    rw [map_append, ih hothers]
    rfl

/-! ## The parts -/

section

variable (tokenAmount : ℕ) {epochs currentEpoch remaining epochLength : ℕ} {part : PoolPart}

/-- The share of the current epoch is at most that of a full epoch. -/
lemma current_le (epochs : ℕ) (hremaining : remaining ≤ epochLength) :
    tokenAmount / epochs * remaining / epochLength ≤ tokenAmount / epochs := by
  rcases Nat.eq_zero_or_pos epochLength with hzero | hpos
  · rw [hzero, Nat.div_zero]
    exact Nat.zero_le _
  · calc tokenAmount / epochs * remaining / epochLength
        ≤ tokenAmount / epochs * epochLength / epochLength :=
          Nat.div_le_div_right (Nat.mul_le_mul_left _ hremaining)
      _ = tokenAmount / epochs := Nat.mul_div_cancel _ hpos

/-- A full epoch's share for every epoch is at most the amount. -/
lemma full_add_base_le (hepochs : 1 ≤ epochs) :
    tokenAmount / epochs * (epochs - 1) + tokenAmount / epochs ≤ tokenAmount := by
  calc tokenAmount / epochs * (epochs - 1) + tokenAmount / epochs
      = tokenAmount / epochs * (epochs - 1 + 1) := by ring
    _ = tokenAmount / epochs * epochs := by rw [Nat.sub_add_cancel hepochs]
    _ ≤ tokenAmount := Nat.div_mul_le_self _ _

lemma sum_amount_filter (parts : List PoolPart) :
    ((parts.filter fun part => 0 < part.amount).map PoolPart.amount).sum =
      (parts.map PoolPart.amount).sum := by
  induction parts with
  | nil => rfl
  | cons part rest ih =>
    rcases Nat.eq_zero_or_pos part.amount with hzero | hpos
    · simp [hzero, ih]
    · simp [hpos, ih]

lemma sum_distribution (hepochs : 1 ≤ epochs) (hremaining : remaining ≤ epochLength) :
    ((distribution tokenAmount epochs currentEpoch remaining epochLength).map
      PoolPart.amount).sum = tokenAmount := by
  have hcurrent := current_le tokenAmount epochs hremaining
  have hfull := full_add_base_le tokenAmount hepochs
  rw [distribution, sum_amount_filter]
  simp only [map_cons, map_nil, sum_cons, sum_nil]
  omega

lemma mem_distribution
    (h : part ∈ distribution tokenAmount epochs currentEpoch remaining epochLength) :
    part = ⟨currentEpoch, currentEpoch, tokenAmount / epochs * remaining / epochLength⟩ ∨
      (part.startEpoch = currentEpoch + 1 ∧ part.endEpoch = currentEpoch + (epochs - 1) ∧
        part.amount = tokenAmount / epochs * (epochs - 1) ∧ 0 < part.amount) ∨
      (part.startEpoch = currentEpoch + epochs ∧ part.endEpoch = currentEpoch + epochs ∧
        part.amount ≤ tokenAmount) := by
  obtain ⟨hmem, hpos⟩ := mem_filter.mp h
  have hpos : 0 < part.amount := of_decide_eq_true hpos
  rcases mem_cons.mp hmem with rfl | hmem
  · exact .inl rfl
  · rcases mem_cons.mp hmem with rfl | hmem
    · exact .inr (.inl ⟨rfl, rfl, rfl, hpos⟩)
    · rw [mem_singleton.mp hmem]
      exact .inr (.inr ⟨rfl, rfl, Nat.sub_le _ _⟩)

lemma distribution_range (hepochs : 1 ≤ epochs) (hremaining : remaining ≤ epochLength)
    (h : part ∈ distribution tokenAmount epochs currentEpoch remaining epochLength) :
    currentEpoch ≤ part.startEpoch ∧ part.startEpoch ≤ part.endEpoch ∧
      part.endEpoch ≤ currentEpoch + epochs ∧ part.amount ≤ tokenAmount := by
  have hcurrent := current_le tokenAmount epochs hremaining
  have hfull := full_add_base_le tokenAmount hepochs
  rcases mem_distribution tokenAmount h with rfl | ⟨hstart, hend, hamount, hpos⟩ |
    ⟨hstart, hend, ha⟩
  · refine ⟨le_rfl, le_rfl, Nat.le_add_right _ _, ?_⟩
    show tokenAmount / epochs * remaining / epochLength ≤ tokenAmount
    omega
  · -- the range of the full epochs is not empty, since their part is not
    have hmore : epochs - 1 ≠ 0 := by
      intro hzero
      rw [hamount, hzero, Nat.mul_zero] at hpos
      exact absurd hpos (lt_irrefl 0)
    have hle : part.amount ≤ tokenAmount := by
      rw [hamount]
      exact (Nat.le_add_right _ _).trans hfull
    rw [hstart, hend]
    omega
  · rw [hstart, hend]
    omega

/-- The current epoch is charged at most its share of an epoch, by the time that is left of it. -/
lemma distribution_current (hepochs : 1 ≤ epochs)
    (h : part ∈ distribution tokenAmount epochs currentEpoch remaining epochLength)
    (hcurrent : part.startEpoch = currentEpoch) :
    part.amount * (epochs * epochLength) ≤ tokenAmount * remaining := by
  rcases mem_distribution tokenAmount h with rfl | ⟨hstart, _⟩ | ⟨hstart, _⟩
  · calc tokenAmount / epochs * remaining / epochLength * (epochs * epochLength)
        = tokenAmount / epochs * remaining / epochLength * epochLength * epochs := by ring
      _ ≤ tokenAmount / epochs * remaining * epochs :=
          Nat.mul_le_mul_right _ (Nat.div_mul_le_self _ _)
      _ = tokenAmount / epochs * epochs * remaining := by ring
      _ ≤ tokenAmount * remaining := Nat.mul_le_mul_right _ (Nat.div_mul_le_self _ _)
  · omega
  · omega

end

/-! ## The call -/

section

variable {c : Chronos} {b : Block} {es : EpochStorage} {tokenAmount epochs : ℕ}

lemma bind_of_ok {ε α β : Type} {x : Except ε α} {a : α} {f : α → Except ε β} (h : x = .ok a) :
    (x >>= f) = f a := by
  rw [h]
  rfl

lemma timeUntilNextEpoch_le (hstart : c.START_TIME ≤ b.timestamp) :
    c.timeUntilNextEpoch b ≤ c.epochLength := by
  rw [Chronos.timeUntilNextEpoch, if_neg (by omega)]
  exact Nat.sub_le _ _

/-- One deposit under a condition is a deposit of the parts that are not empty. -/
lemma depositAll_cons_filter (part : PoolPart) (rest : List PoolPart) :
    depositAll c b es ((part :: rest).filter fun p => 0 < p.amount) =
      (if 0 < part.amount then addToPool c b es part.startEpoch part.endEpoch part.amount
        else pure (es, [])) >>= fun first =>
          depositAll c b first.1 (rest.filter fun p => 0 < p.amount) >>= fun others =>
            pure (others.1, first.2 ++ others.2) := by
  by_cases hpos : 0 < part.amount
  · rw [filter_cons_of_pos (by simpa using hpos), if_pos hpos]
    rfl
  · rw [filter_cons_of_neg (by simpa using hpos), if_neg hpos]
    show _ = depositAll c b es _ >>= fun others => pure (others.1, [] ++ others.2)
    simp

/-- The call makes the deposits of the parts, and no step of its own arithmetic fails, unless an
epoch is so long that the share of the current one does not fit a word. -/
lemma distributeTokens_eq (hamount : tokenAmount < 2 ^ 96) (hepochs : 1 ≤ epochs)
    (hstart : c.START_TIME ≤ b.timestamp) (hfits : c.getCurrentEpoch b + epochs < 2 ^ 40)
    (hword : tokenAmount / epochs * c.timeUntilNextEpoch b < 2 ^ 256) :
    _distributeTokens c b es tokenAmount epochs (c.getCurrentEpoch b) =
      depositAll c b es (distribution tokenAmount epochs (c.getCurrentEpoch b)
        (c.timeUntilNextEpoch b) c.epochLength) := by
  have hcurrent := current_le tokenAmount epochs (timeUntilNextEpoch_le hstart)
  have hfull := full_add_base_le tokenAmount hepochs
  have hbase : tokenAmount / epochs ≤ tokenAmount := Nat.div_le_self _ _
  have hlength : c.epochLength ≠ 0 := Nat.pos_iff_ne_zero.mp c.length_pos
  generalize hb : tokenAmount / epochs = base at *
  generalize hr : c.timeUntilNextEpoch b = remaining at *
  generalize hl : c.epochLength = len at *
  generalize hc : base * remaining / len = current at *
  generalize hf : base * (epochs - 1) = full at *
  have hrest : subUint base current = .ok (base - current) := subUint_eq_ok.mpr ⟨hcurrent, rfl⟩
  have hfinal : (if current + full + (base - current) < tokenAmount then
      addUint 256 (base - current) (tokenAmount - (current + full + (base - current)))
    else pure (base - current)) = .ok (tokenAmount - (current + full)) := by
    split
    next => exact addUint_eq_ok.mpr ⟨by omega, by omega⟩
    next =>
      refine pure_eq_ok.mpr ?_
      omega
  unfold _distributeTokens
  rw [hr, hl, bind_of_ok (divUint_eq_ok.mpr ⟨by omega, hb.symm⟩),
    bind_of_ok (mulUint_eq_ok.mpr ⟨hword, rfl⟩),
    bind_of_ok (divUint_eq_ok.mpr ⟨hlength, hc.symm⟩), bind_of_ok hrest,
    bind_of_ok (subUint_eq_ok.mpr ⟨hepochs, rfl⟩),
    bind_of_ok (mulUint_eq_ok.mpr ⟨by omega, hf.symm⟩),
    bind_of_ok (addUint_eq_ok.mpr ⟨by omega, rfl⟩), bind_of_ok (addUint_eq_ok.mpr ⟨by omega, rfl⟩),
    bind_of_ok hfinal]
  have hparts : distribution tokenAmount epochs (c.getCurrentEpoch b) remaining len =
      [⟨c.getCurrentEpoch b, c.getCurrentEpoch b, current⟩,
        ⟨c.getCurrentEpoch b + 1, c.getCurrentEpoch b + (epochs - 1), full⟩,
        ⟨c.getCurrentEpoch b + epochs, c.getCurrentEpoch b + epochs,
          tokenAmount - (current + full)⟩].filter fun part => 0 < part.amount := by
    rw [distribution, hb, hc, hf]
  rw [hparts, depositAll_cons_filter, uint96_of_lt (show current < 2 ^ 96 by omega)]
  congr 1
  funext first
  have hfullCall : (if epochs - 1 > 0 ∧ full > 0 then do
        let start ← addUint 40 (c.getCurrentEpoch b) 1
        let last ← addUint 40 (c.getCurrentEpoch b) (uint40 (epochs - 1))
        addToPool c b first.1 start last (uint96 full)
      else pure (first.1, [])) =
      if 0 < full then
        addToPool c b first.1 (c.getCurrentEpoch b + 1) (c.getCurrentEpoch b + (epochs - 1)) full
      else pure (first.1, []) := by
    by_cases hpos : 0 < full
    · have hmore : epochs - 1 > 0 := by
        rcases Nat.eq_zero_or_pos (epochs - 1) with hzero | hmore
        · rw [hzero, Nat.mul_zero] at hf
          omega
        · exact hmore
      rw [if_pos ⟨hmore, hpos⟩, if_pos hpos, uint40_of_lt (by omega), uint96_of_lt (by omega),
        bind_of_ok (addUint_eq_ok.mpr ⟨by omega, rfl⟩),
        bind_of_ok (addUint_eq_ok.mpr ⟨by omega, rfl⟩)]
    · rw [if_neg fun h => hpos h.2, if_neg hpos]
  rw [depositAll_cons_filter, hfullCall]
  simp only [bind_assoc, pure_bind]
  congr 1
  funext others
  rw [depositAll_cons_filter, uint40_of_lt (show epochs < 2 ^ 40 by omega),
    uint96_of_lt (show tokenAmount - (current + full) < 2 ^ 96 by omega)]
  simp only [bind_of_ok (addUint_eq_ok.mpr ⟨hfits, rfl⟩), filter_nil, depositAll, bind_assoc,
    pure_bind, append_assoc, append_nil]

/-- The share of the current epoch overflows a word only in an epoch of more than `2^160`
seconds. -/
lemma distributeTokens_overflow (hamount : tokenAmount < 2 ^ 96) (hepochs : 1 ≤ epochs)
    (hstart : c.START_TIME ≤ b.timestamp)
    (hword : ¬ tokenAmount / epochs * c.timeUntilNextEpoch b < 2 ^ 256) :
    2 ^ 160 < c.epochLength ∧
      _distributeTokens c b es tokenAmount epochs (c.getCurrentEpoch b) = .error .panic := by
  constructor
  · by_contra hshort
    have hbase : tokenAmount / epochs < 2 ^ 96 := lt_of_le_of_lt (Nat.div_le_self _ _) hamount
    have hremaining := timeUntilNextEpoch_le hstart
    refine hword ?_
    calc tokenAmount / epochs * c.timeUntilNextEpoch b
        ≤ tokenAmount / epochs * 2 ^ 160 := Nat.mul_le_mul_left _ (by omega)
      _ < 2 ^ 96 * 2 ^ 160 := Nat.mul_lt_mul_of_pos_right hbase (by norm_num)
      _ = 2 ^ 256 := by norm_num
  · unfold _distributeTokens
    rw [bind_of_ok (divUint_eq_ok.mpr ⟨by omega, rfl⟩), mulUint, if_neg hword]
    rfl

/-- **The distribution is exact.** The call makes the deposits of its parts (or reverts before any
of them, if an epoch is longer than `2^160` seconds). They add up to the amount, their ranges are of
the epochs from the current one to the one after the last full epoch, and the current epoch gets at
most its share by the time that is left of it. -/
theorem distribution_exact (c : Chronos) (b : Block) (es : EpochStorage) (tokenAmount epochs : ℕ)
    (hamount : tokenAmount < 2 ^ 96) (hepochs : 1 ≤ epochs) (hstart : c.START_TIME ≤ b.timestamp)
    (hfits : c.getCurrentEpoch b + epochs < 2 ^ 40) :
    (_distributeTokens c b es tokenAmount epochs (c.getCurrentEpoch b) =
        depositAll c b es (distribution tokenAmount epochs (c.getCurrentEpoch b)
          (c.timeUntilNextEpoch b) c.epochLength) ∨
      (2 ^ 160 < c.epochLength ∧
        _distributeTokens c b es tokenAmount epochs (c.getCurrentEpoch b) = .error .panic)) ∧
    ((distribution tokenAmount epochs (c.getCurrentEpoch b) (c.timeUntilNextEpoch b)
      c.epochLength).map PoolPart.amount).sum = tokenAmount ∧
    (∀ part ∈ distribution tokenAmount epochs (c.getCurrentEpoch b) (c.timeUntilNextEpoch b)
        c.epochLength,
      (c.getCurrentEpoch b ≤ part.startEpoch ∧ part.startEpoch ≤ part.endEpoch ∧
        part.endEpoch ≤ c.getCurrentEpoch b + epochs ∧ part.amount ≤ tokenAmount) ∧
      (part.startEpoch = c.getCurrentEpoch b →
        part.amount * (epochs * c.epochLength) ≤ tokenAmount * c.timeUntilNextEpoch b)) ∧
    ∀ es' ds, _distributeTokens c b es tokenAmount epochs (c.getCurrentEpoch b) = .ok (es', ds) →
      ds.map (fun d => (d.shardId, (⟨d.startEpoch, d.endEpoch, d.tokenAmount⟩ : PoolPart))) =
        (distribution tokenAmount epochs (c.getCurrentEpoch b) (c.timeUntilNextEpoch b)
          c.epochLength).map fun part => (1, part) := by
  have hremaining := timeUntilNextEpoch_le hstart
  refine ⟨?_, sum_distribution tokenAmount hepochs hremaining, fun part hpart =>
    ⟨distribution_range tokenAmount hepochs hremaining hpart,
      distribution_current tokenAmount hepochs hpart⟩, fun es' ds hrun => ?_⟩
  all_goals by_cases hword : tokenAmount / epochs * c.timeUntilNextEpoch b < 2 ^ 256
  · exact .inl (distributeTokens_eq hamount hepochs hstart hfits hword)
  · exact .inr (distributeTokens_overflow hamount hepochs hstart hword)
  · rw [distributeTokens_eq hamount hepochs hstart hfits hword] at hrun
    exact depositAll_deposits hrun
  · rw [(distributeTokens_overflow hamount hepochs hstart hword).2] at hrun
    cases hrun

/-- A hundred tokens over three epochs, in the middle of the first one. -/
theorem distribution_exact_hundred :
    _distributeTokens hourlyChronos ⟨2800, by decide⟩ EpochStorage.empty 100 3 1 =
      depositAll hourlyChronos ⟨2800, by decide⟩ EpochStorage.empty
        [⟨1, 1, 16⟩, ⟨2, 3, 66⟩, ⟨4, 4, 18⟩] := by
  have h := (distribution_exact hourlyChronos ⟨2800, by decide⟩ EpochStorage.empty 100 3
    (by decide) (by decide) (by decide) (by decide)).1
  exact h.resolve_right fun hlong => absurd hlong.1 (by decide)

end

end Dkg.KnowledgeAssetsV10
