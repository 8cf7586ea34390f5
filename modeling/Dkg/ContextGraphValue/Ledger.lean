import Dkg.ContextGraphValue.Model
import Dkg.Lib.DiffArray

/-! # One value ledger refines a plain map of values

A `ValueLedger` refines a map `V` from epochs to values when its increments sum up to `V` and its
crystallised prefix agrees with `V`. Everything the contract does with the ledger is then
determined by `V` alone: a read at `x` returns `V x`, unless `V` leaves the range of `int256` at
or before `x`, in which case the running sum panics (`Refines.valueAtEpoch_eq`); a finalisation
keeps the refinement; and the guard against a negative running value is never hit.
-/

namespace Dkg

open Function (update)
open Lib

namespace ValueLedger

variable {l l' : ValueLedger} {diff : ℕ → ℤ} {V : ℕ → ℕ}

/-- The ledger represents the map `V`. -/
structure Refines (l : ValueLedger) (V : ℕ → ℕ) : Prop where
  prefixSum_eq : ∀ x, prefixSum l.diff x = V x
  cumulative_eq : ∀ x, x ≤ l.lastFinalizedEpoch → l.cumulative x = V x
  cumulative_lt : ∀ x, x ≤ l.lastFinalizedEpoch → V x < 2 ^ 255

lemma Refines.empty : ValueLedger.empty.Refines (fun _ => 0) where
  prefixSum_eq := fun x => by simp [prefixSum, ValueLedger.empty]
  cumulative_eq := fun x _ => rfl
  cumulative_lt := fun x _ => by norm_num

/-- The map is `0` at epoch `0`, which no increment reaches. -/
lemma Refines.apply_zero (h : l.Refines V) : V 0 = 0 := by
  have h0 := h.prefixSum_eq 0
  rw [prefixSum_zero] at h0
  exact_mod_cast h0.symm

lemma Refines.startValue_eq (h : l.Refines V) : l.startValue = V l.lastFinalizedEpoch := by
  rw [startValue]
  by_cases h0 : l.lastFinalizedEpoch > 0
  · rw [if_pos h0, h.cumulative_eq _ le_rfl, intOfUint_of_lt (h.cumulative_lt _ le_rfl)]
  · have hz : l.lastFinalizedEpoch = 0 := by omega
    rw [if_neg h0, hz, h.apply_zero]
    rfl

/-! ## The loops -/

/-- One iteration leads from `V e` to `V (e + 1)`, or panics when that leaves `int256`. -/
lemma advance_eq (hV : ∀ x, prefixSum diff x = V x) (e : ℕ) :
    advance diff (e + 1) (V e)
      = if V (e + 1) < 2 ^ 255 then .ok (V (e + 1) : ℤ) else .error .panic := by
  have h1 := hV (e + 1)
  rw [prefixSum_succ, hV e] at h1
  have hlow : -(2 : ℤ) ^ (256 - 1) ≤ (V (e + 1) : ℤ) := by
    have : -(2 : ℤ) ^ (256 - 1) ≤ 0 := by norm_num
    omega
  rw [advance, addInt, h1]
  by_cases hb : V (e + 1) < 2 ^ 255
  · have hb' : (V (e + 1) : ℤ) < 2 ^ (256 - 1) := by exact_mod_cast hb
    rw [if_pos hb, if_pos ⟨hlow, hb'⟩]
    simp [bind, Except.bind, require, pure, Except.pure]
  · have hb' : ¬ (V (e + 1) : ℤ) < 2 ^ (256 - 1) := by
      intro hlt
      exact hb (by exact_mod_cast hlt)
    rw [if_neg hb, if_neg (fun hc => hb' hc.2)]
    rfl

/-- The simulation loop reads `V`, or panics at the first epoch where `V` is out of range. -/
lemma simulateLoop_eq (hV : ∀ x, prefixSum diff x = V x) (k e : ℕ) :
    simulateLoop diff k (e + 1) (V e)
      = if ∀ y, y ≤ e + k → e < y → V y < 2 ^ 255 then .ok (V (e + k) : ℤ)
        else .error .panic := by
  induction k generalizing e with
  | zero =>
    rw [if_pos (fun y h1 h2 => by omega)]
    rfl
  | succ k ih =>
    rw [simulateLoop, advance_eq hV e]
    by_cases hb : V (e + 1) < 2 ^ 255
    · rw [if_pos hb]
      show simulateLoop diff k (e + 1 + 1) (V (e + 1)) = _
      rw [ih (e + 1), show e + 1 + k = e + (k + 1) by omega]
      have hiff : (∀ y, y ≤ e + (k + 1) → e + 1 < y → V y < 2 ^ 255)
          ↔ ∀ y, y ≤ e + (k + 1) → e < y → V y < 2 ^ 255 := by
        constructor
        · intro hall y h1 h2
          by_cases hy : y = e + 1
          · rw [hy]; exact hb
          · exact hall y h1 (by omega)
        · intro hall y h1 h2
          exact hall y h1 (by omega)
      exact if_congr hiff rfl rfl
    · rw [if_neg hb, if_neg (fun hall => hb (hall (e + 1) (by omega) (by omega)))]
      rfl

/-- The finalisation loop crystallises `V` on the `k` epochs after `e`, or panics. -/
lemma finalizeLoop_eq (hV : ∀ x, prefixSum diff x = V x) (k e : ℕ) (cum : ℕ → ℕ) :
    (∃ cum', finalizeLoop diff k (e + 1) (V e) cum = .ok cum' ∧
      (∀ y, y ≤ e + k → e < y → V y < 2 ^ 255) ∧
      ∀ x, cum' x = if e < x ∧ x ≤ e + k then V x else cum x) ∨
    finalizeLoop diff k (e + 1) (V e) cum = .error .panic := by
  induction k generalizing e cum with
  | zero =>
    refine .inl ⟨cum, rfl, fun y h1 h2 => by omega, fun x => ?_⟩
    rw [if_neg (by omega)]
  | succ k ih =>
    rw [finalizeLoop, advance_eq hV e]
    by_cases hb : V (e + 1) < 2 ^ 255
    · rw [if_pos hb]
      show (∃ cum', finalizeLoop diff k (e + 1 + 1) (V (e + 1))
          (update cum (e + 1) (V (e + 1))) = .ok cum' ∧ _) ∨
        finalizeLoop diff k (e + 1 + 1) (V (e + 1)) (update cum (e + 1) (V (e + 1))) = .error .panic
      rcases ih (e + 1) (update cum (e + 1) (V (e + 1))) with
        ⟨cum', hrun, hlt, hcum'⟩ | herr
      · refine .inl ⟨cum', hrun, fun y h1 h2 => ?_, fun x => ?_⟩
        · by_cases hy : y = e + 1
          · rw [hy]; exact hb
          · exact hlt y (by omega) (by omega)
        · rw [hcum' x]
          by_cases hx : x = e + 1
          · subst hx
            rw [if_neg (by omega), Function.update_self, if_pos (by omega)]
          · rw [Function.update_of_ne hx]
            by_cases hin : e + 1 < x ∧ x ≤ e + 1 + k
            · rw [if_pos hin, if_pos (by omega)]
            · rw [if_neg hin, if_neg (by omega)]
      · exact .inr herr
    · rw [if_neg hb]
      exact .inr rfl

/-! ## The functions -/

/-- **Reads are determined by the map.** Crystallised or simulated, a read at `x` is `V x` when
`V` stays in the range of `int256` up to `x`, and an arithmetic panic otherwise. -/
lemma Refines.valueAtEpoch_eq (h : l.Refines V) (x : ℕ) :
    l.valueAtEpoch x = if ∀ y ≤ x, V y < 2 ^ 255 then .ok (V x) else .error .panic := by
  rw [valueAtEpoch]
  by_cases hx : x ≤ l.lastFinalizedEpoch
  · rw [if_pos hx, if_pos (fun y hy => h.cumulative_lt y (by omega)), h.cumulative_eq x hx]
    rfl
  · rw [if_neg hx, simulateFinalization, if_neg hx, h.startValue_eq,
      simulateLoop_eq h.prefixSum_eq,
      show l.lastFinalizedEpoch + (x - l.lastFinalizedEpoch) = x by omega]
    have hiff : (∀ y, y ≤ x → l.lastFinalizedEpoch < y → V y < 2 ^ 255)
        ↔ ∀ y ≤ x, V y < 2 ^ 255 := by
      constructor
      · intro hall y hy
        by_cases hl : y ≤ l.lastFinalizedEpoch
        · exact h.cumulative_lt y hl
        · exact hall y hy (by omega)
      · intro hall y hy _
        exact hall y hy
    by_cases hall : ∀ y ≤ x, V y < 2 ^ 255
    · rw [if_pos hall, if_pos (hiff.mpr hall)]
      rfl
    · rw [if_neg hall, if_neg (fun hc => hall (hiff.mp hc))]
      rfl

/-- A finalisation that returns keeps the represented map, and one that reverts panics. -/
lemma Refines.finalizeUpTo (h : l.Refines V) (epoch : ℕ) :
    (∃ l', l.finalizeUpTo epoch = .ok l' ∧ l'.Refines V ∧
      l'.lastFinalizedEpoch = max epoch l.lastFinalizedEpoch) ∨
    l.finalizeUpTo epoch = .error .panic := by
  rw [ValueLedger.finalizeUpTo]
  by_cases he : epoch ≤ l.lastFinalizedEpoch
  · rw [if_pos he]
    exact .inl ⟨l, rfl, h, by omega⟩
  · rw [if_neg he, h.startValue_eq]
    rcases finalizeLoop_eq h.prefixSum_eq (epoch - l.lastFinalizedEpoch) l.lastFinalizedEpoch
        l.cumulative with ⟨cum', hrun, hlt, hcum'⟩ | herr
    · refine .inl ⟨{ l with cumulative := cum', lastFinalizedEpoch := epoch }, ?_,
        ⟨h.prefixSum_eq, fun x hx => ?_, fun x hx => ?_⟩, ?_⟩
      · rw [hrun]
        rfl
      · have hx' : x ≤ epoch := hx
        show cum' x = V x
        rw [hcum' x]
        by_cases hold : x ≤ l.lastFinalizedEpoch
        · rw [if_neg (by omega), h.cumulative_eq x hold]
        · rw [if_pos (by omega)]
      · have hx' : x ≤ epoch := hx
        by_cases hold : x ≤ l.lastFinalizedEpoch
        · exact h.cumulative_lt x hold
        · exact hlt x (by omega) (by omega)
      · show epoch = max epoch l.lastFinalizedEpoch
        omega
    · rw [herr]
      exact .inr rfl

lemma Refines.addDiff (h : l.Refines V) {s n v : ℕ} (hs : l.lastFinalizedEpoch < s)
    (hn : 0 < n) (hrun : l.addDiff s n v = .ok l') :
    l'.Refines (fun x => V x + if s ≤ x ∧ x < s + n then v else 0) ∧
    l'.lastFinalizedEpoch = l.lastFinalizedEpoch := by
  simp only [ValueLedger.addDiff, bind_eq_ok, addInt_eq_ok, addUint_eq_ok, pure_eq_ok] at hrun
  obtain ⟨_, ⟨-, rfl⟩, _, ⟨-, rfl⟩, _, ⟨-, rfl⟩, rfl⟩ := hrun
  have hdiff : ∀ x, x ≤ l.lastFinalizedEpoch → ¬ (s ≤ x ∧ x < s + n) := by
    rintro x hx ⟨h1, -⟩
    omega
  refine ⟨⟨fun x => ?_, fun x hx => ?_, fun x hx => ?_⟩, rfl⟩
  · have hadd := prefixSum_addRange l.diff (v : ℤ) (by omega : 1 ≤ s) (by omega : s < s + n) x
    rw [addRange, sub_eq_add_neg] at hadd
    show prefixSum (update _ _ _) x = _
    rw [hadd, h.prefixSum_eq x]
    push_cast
    rfl
  · show l.cumulative x = _
    rw [if_neg (hdiff x hx), h.cumulative_eq x hx, Nat.add_zero]
  · show V x + _ < _
    rw [if_neg (hdiff x hx), Nat.add_zero]
    exact h.cumulative_lt x hx

lemma addDiff_eq_error {s n : ℕ} {v : ℤ} {e : Revert} (h : l.addDiff s n v = .error e) :
    e = .panic := by
  simp only [ValueLedger.addDiff, bind_eq_error, addUint_eq_error, addInt_eq_error] at h
  rcases h with h | ⟨_, _, h | ⟨_, _, h | ⟨_, _, h⟩⟩⟩
  · exact h.2
  · exact h.2
  · exact h.2
  · exact absurd h pure_ne_error

end ValueLedger

end Dkg
