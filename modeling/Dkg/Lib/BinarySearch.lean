import Mathlib.Tactic

/-! # Binary search for the end of a prefix

The half-interval search for the first index at which a predicate fails, on `[lo, hi)`. When the
predicate holds exactly below some index, the search finds that index.
-/

namespace Dkg.Lib

/-- The search loop; `fuel` bounds the number of halvings. -/
def searchEnd (p : ℕ → Bool) : ℕ → ℕ → ℕ → ℕ
  | 0, lo, _ => lo
  | fuel + 1, lo, hi =>
    if lo < hi then
      let mid := (lo + hi) / 2
      if p mid then searchEnd p fuel (mid + 1) hi else searchEnd p fuel lo mid
    else lo

/-- The search returns the end `k` of the prefix on which `p` holds, once the fuel covers the
interval and the end lies in it. -/
lemma searchEnd_eq {p : ℕ → Bool} {k n : ℕ} (hp : ∀ i < n, p i = true ↔ i < k) (fuel : ℕ) :
    ∀ lo hi, hi ≤ n → lo ≤ k → k ≤ hi → hi - lo ≤ fuel → searchEnd p fuel lo hi = k := by
  induction fuel with
  | zero =>
    intro lo hi _ hlo hhi hfuel
    rw [searchEnd]
    omega
  | succ fuel ih =>
    intro lo hi hn hlo hhi hfuel
    rw [searchEnd]
    by_cases hlt : lo < hi
    · rw [if_pos hlt]
      simp only
      have hmid := hp ((lo + hi) / 2) (by omega)
      by_cases hm : p ((lo + hi) / 2) = true
      · rw [if_pos hm]
        have := hmid.mp hm
        exact ih _ _ hn (by omega) hhi (by omega)
      · rw [if_neg hm]
        have : ¬ (lo + hi) / 2 < k := fun h => hm (hmid.mpr h)
        exact ih _ _ (by omega) hlo (by omega) (by omega)
    · rw [if_neg hlt]
      omega

end Dkg.Lib
