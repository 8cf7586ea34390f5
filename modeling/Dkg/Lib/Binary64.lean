import Mathlib.Data.Rat.Floor
import Mathlib.Data.Int.Log
import Mathlib.Data.Nat.Digits.Lemmas
import Mathlib.Tactic.LinearCombination
import Mathlib.Tactic.Positivity

/-! # Floating-point numbers of 64 bits, and their decimals

A finite number is kept as the rational that it stands for (`Binary64`); the two zeros are the same
rational. `nearest` rounds a rational to such a number, ties to even. `shortestDecimal` is the
decimal with the fewest digits that rounds to a given number, and `decimalText` prints it, with an
exponent for large and for small numbers.

`readDecimal` gives a printed decimal its value, so a number can be found again from its text.
-/

namespace Dkg.Lib

/-! ## Rounding -/

/-- The closest integer, and the even one of two. -/
def roundHalfEven (q : ℚ) : ℤ :=
  if q - ⌊q⌋ < 1 / 2 then ⌊q⌋
  else if 1 / 2 < q - ⌊q⌋ then ⌊q⌋ + 1
  else if 2 ∣ ⌊q⌋ then ⌊q⌋
  else ⌊q⌋ + 1

@[simp]
lemma roundHalfEven_intCast (z : ℤ) : roundHalfEven z = z := by
  simp [roundHalfEven]

/-- The exponent of the last bit of the numbers close to `q`. -/
def lastBit (q : ℚ) : ℤ := max (Int.log 2 |q| - 52) (-1074)

/-- The closest number with 53 significant bits; there is no bound on its size. -/
def nearest (q : ℚ) : ℚ := roundHalfEven (q / 2 ^ lastBit q) * 2 ^ lastBit q

lemma lastBit_le {m e : ℤ} (hm : |m| < 2 ^ 53) (hne : m ≠ 0) (he : -1074 ≤ e) :
    lastBit ((m : ℚ) * 2 ^ e) ≤ e := by
  have htwo : (0 : ℚ) < 2 ^ e := zpow_pos (by norm_num) e
  have habs : |(m : ℚ) * 2 ^ e| = |(m : ℚ)| * 2 ^ e := by rw [abs_mul, abs_of_pos htwo]
  have hpos : 0 < |(m : ℚ)| * 2 ^ e := by
    have : (m : ℚ) ≠ 0 := by exact_mod_cast hne
    positivity
  have hlow : (2 : ℚ) ^ Int.log 2 (|(m : ℚ)| * 2 ^ e) ≤ |(m : ℚ)| * 2 ^ e := by
    exact_mod_cast Int.zpow_log_le_self (by norm_num) hpos
  have hm' : |(m : ℚ)| < 2 ^ 53 := by exact_mod_cast hm
  have hhigh : |(m : ℚ)| * 2 ^ e < 2 ^ (53 + e) := by
    calc |(m : ℚ)| * 2 ^ e < 2 ^ 53 * 2 ^ e := mul_lt_mul_of_pos_right hm' htwo
      _ = 2 ^ (53 + e) := by rw [zpow_add₀ (by norm_num)]; norm_num
  have hlog : Int.log 2 (|(m : ℚ)| * 2 ^ e) < 53 + e :=
    (zpow_lt_zpow_iff_right₀ (by norm_num : (1 : ℚ) < 2)).mp (hlow.trans_lt hhigh)
  unfold lastBit
  rw [habs]
  omega

/-- What has 53 bits is not rounded. -/
lemma nearest_dyadic {m e : ℤ} (hm : |m| < 2 ^ 53) (he : -1074 ≤ e) :
    nearest ((m : ℚ) * 2 ^ e) = m * 2 ^ e := by
  rcases eq_or_ne m 0 with rfl | hne
  · simp [nearest, roundHalfEven]
  · have hle := lastBit_le hm hne he
    unfold nearest
    generalize lastBit ((m : ℚ) * 2 ^ e) = b at hle
    obtain ⟨d, hd⟩ := Int.eq_ofNat_of_zero_le (sub_nonneg.mpr hle)
    have hsplit : (2 : ℚ) ^ e = 2 ^ d * 2 ^ b := by
      rw [← zpow_natCast, ← zpow_add₀ (by norm_num)]
      congr 1
      omega
    have hwhole : (m : ℚ) * 2 ^ e / 2 ^ b = ((m * 2 ^ d : ℤ) : ℚ) := by
      have : (2 : ℚ) ^ b ≠ 0 := zpow_ne_zero b (by norm_num)
      push_cast
      rw [hsplit]
      field_simp
    rw [hwhole, roundHalfEven_intCast]
    push_cast
    rw [hsplit]
    ring

lemma eq_of_nearest {q : ℚ} (h : nearest q = q) : ∃ z : ℤ, q = z * 2 ^ lastBit q :=
  ⟨roundHalfEven (q / 2 ^ lastBit q), h.symm⟩

lemma nearest_neg {q : ℚ} (h : nearest q = q) : nearest (-q) = -q := by
  obtain ⟨z, hz⟩ := eq_of_nearest h
  have hne : (2 : ℚ) ^ lastBit q ≠ 0 := zpow_ne_zero _ (by norm_num)
  have hbit : lastBit (-q) = lastBit q := by simp [lastBit]
  have hwhole : -q / 2 ^ lastBit q = ((-z : ℤ) : ℚ) := by
    rw [div_eq_iff hne]
    push_cast
    linarith
  rw [nearest, hbit, hwhole, roundHalfEven_intCast]
  push_cast
  linarith

/-- A finite number of 64 bits, with one zero. -/
structure Binary64 where
  value : ℚ
  bounded : |value| < 2 ^ 1024
  rounded : nearest value = value

namespace Binary64

lemma ext {x y : Binary64} (h : x.value = y.value) : x = y := by
  cases x
  cases y
  cases h
  rfl

instance decidableEq : DecidableEq Binary64 := fun x y =>
  decidable_of_iff (x.value = y.value) ⟨ext, congrArg value⟩

/-- A natural number of at most 53 bits. -/
def ofNat (n : ℕ) (h : n < 2 ^ 53) : Binary64 where
  value := n
  bounded := by
    have hn : (n : ℚ) < 2 ^ 53 := by exact_mod_cast h
    rw [abs_of_nonneg (Nat.cast_nonneg n)]
    exact hn.trans_le (pow_le_pow_right₀ (by norm_num) (by omega))
  rounded := by
    have hm : |(n : ℤ)| < 2 ^ 53 := by
      rw [abs_of_nonneg (by omega)]
      exact_mod_cast h
    simpa using nearest_dyadic hm (show (-1074 : ℤ) ≤ 0 by norm_num)

@[simp]
lemma ofNat_value (n : ℕ) (h : n < 2 ^ 53) : (ofNat n h).value = n := rfl

end Binary64

/-! ## The shortest decimal -/

/-- The digits of `q` before its point; not positive where `q` starts with zeros. -/
def pointPosition (q : ℚ) : ℤ := Int.log 10 q + 1

/-- The two numbers of `k` digits around `q`, the closer one first. -/
def candidates (q : ℚ) (k : ℕ) : List ℕ :=
  let scaled := q * 10 ^ (k - pointPosition q)
  let below := ⌊scaled⌋₊
  if scaled - below < 1 / 2 ∨ scaled - below = 1 / 2 ∧ 2 ∣ below then [below, below + 1]
  else [below + 1, below]

/-- `k` digits that are rounded to `q`. -/
def roundingDigits (q : ℚ) (k : ℕ) : Option ℕ :=
  (candidates q k).find? fun s => nearest (s * 10 ^ (pointPosition q - k)) = q

variable {q : ℚ} {k s : ℕ}

lemma pow_pointPosition_le (hpos : 0 < q) : (10 : ℚ) ^ (pointPosition q - 1) ≤ q := by
  have h := Int.zpow_log_le_self (R := ℚ) (b := 10) (by norm_num) hpos
  simpa [pointPosition] using h

lemma lt_pow_pointPosition (q : ℚ) : q < (10 : ℚ) ^ pointPosition q := by
  have h := Int.lt_zpow_succ_log_self (R := ℚ) (b := 10) (by norm_num) q
  simpa [pointPosition] using h

lemma candidates_bounds (hpos : 0 < q) (hs : s ∈ candidates q (k + 1)) :
    10 ^ k ≤ s ∧ s ≤ 10 ^ (k + 1) := by
  have hten : ∀ e : ℤ, (0 : ℚ) < 10 ^ e := fun e => zpow_pos (by norm_num) e
  generalize hscaled : q * 10 ^ (((k + 1 : ℕ) : ℤ) - pointPosition q) = scaled
  have hlow : ((10 ^ k : ℕ) : ℚ) ≤ scaled := by
    calc ((10 ^ k : ℕ) : ℚ) = 10 ^ (pointPosition q - 1) * 10 ^ (((k + 1 : ℕ) : ℤ) -
            pointPosition q) := by
          rw [← zpow_add₀ (by norm_num)]
          push_cast
          rw [← zpow_natCast]
          congr 1
          omega
      _ ≤ scaled := by
          rw [← hscaled]
          exact mul_le_mul_of_nonneg_right (pow_pointPosition_le hpos) (hten _).le
  have hhigh : scaled < ((10 ^ (k + 1) : ℕ) : ℚ) := by
    calc scaled < 10 ^ pointPosition q * 10 ^ (((k + 1 : ℕ) : ℤ) - pointPosition q) := by
          rw [← hscaled]
          exact mul_lt_mul_of_pos_right (lt_pow_pointPosition q) (hten _)
      _ = ((10 ^ (k + 1) : ℕ) : ℚ) := by
          rw [← zpow_add₀ (by norm_num)]
          push_cast
          rw [← zpow_natCast]
          congr 1
          push_cast
          omega
  have hbelow : 10 ^ k ≤ ⌊scaled⌋₊ := Nat.le_floor hlow
  have habove : ⌊scaled⌋₊ < 10 ^ (k + 1) := (Nat.floor_lt (by linarith [hten k])).mpr hhigh
  have hmem : s = ⌊scaled⌋₊ ∨ s = ⌊scaled⌋₊ + 1 := by
    simp only [candidates, hscaled] at hs
    split at hs <;> simp at hs <;> omega
  omega

/-- Enough digits are exact. -/
lemma exists_roundingDigits (hpos : 0 < q) (h : nearest q = q) :
    ∃ k, (roundingDigits q (k + 1)).isSome := by
  obtain ⟨z, hz⟩ := eq_of_nearest h
  -- `q` is a whole number after as many places as it has bits behind the point
  obtain ⟨j, hj⟩ : ∃ j : ℕ, 0 ≤ lastBit q + j := ⟨(-lastBit q).toNat, by omega⟩
  obtain ⟨d, hd⟩ := Int.eq_ofNat_of_zero_le hj
  have hwhole : q * 10 ^ (j : ℤ) = ((z * 2 ^ d * 5 ^ j : ℤ) : ℚ) := by
    have hsplit : (10 : ℚ) ^ (j : ℤ) = 2 ^ (j : ℤ) * 5 ^ (j : ℤ) := by
      rw [← mul_zpow]
      norm_num
    have htwo : (2 : ℚ) ^ lastBit q * 2 ^ (j : ℤ) = 2 ^ d := by
      rw [← zpow_add₀ (by norm_num), hd, zpow_natCast]
    push_cast
    rw [← htwo, hsplit, ← zpow_natCast (5 : ℚ) j]
    linear_combination 2 ^ (j : ℤ) * 5 ^ (j : ℤ) * hz
  have htens : (0 : ℚ) < 10 ^ (j : ℤ) := zpow_pos (by norm_num) _
  have hpositive : 0 < z * 2 ^ d * 5 ^ j := by
    have : (0 : ℚ) < ((z * 2 ^ d * 5 ^ j : ℤ) : ℚ) := hwhole ▸ mul_pos hpos htens
    exact_mod_cast this
  obtain ⟨N, hN⟩ := Int.eq_ofNat_of_zero_le hpositive.le
  rw [hN] at hwhole hpositive
  have hdigits : 0 < pointPosition q + j := by
    have hone : (1 : ℚ) ≤ q * 10 ^ (j : ℤ) := by
      rw [hwhole]
      exact_mod_cast hpositive
    have hlt : (10 : ℚ) ^ (0 : ℤ) < 10 ^ (pointPosition q + j) := by
      rw [zpow_zero, zpow_add₀ (by norm_num)]
      exact hone.trans_lt (mul_lt_mul_of_pos_right (lt_pow_pointPosition q) htens)
    exact (zpow_lt_zpow_iff_right₀ (by norm_num)).mp hlt
  obtain ⟨k, hk⟩ : ∃ k : ℕ, ((k + 1 : ℕ) : ℤ) = pointPosition q + j :=
    ⟨(pointPosition q + j).toNat - 1, by omega⟩
  refine ⟨k, ?_⟩
  have hup : ((k + 1 : ℕ) : ℤ) - pointPosition q = j := by omega
  have hdown : pointPosition q - ((k + 1 : ℕ) : ℤ) = -j := by omega
  have hexact : (N : ℚ) * 10 ^ (-(j : ℤ)) = q := by
    have hcast : ((N : ℤ) : ℚ) = N := by norm_cast
    rw [zpow_neg, ← hcast, ← hwhole]
    field_simp
  have hmem : N ∈ candidates q (k + 1) := by
    have hcast : ((N : ℤ) : ℚ) = N := by norm_cast
    simp only [candidates, hup, hwhole, hcast, Nat.floor_natCast]
    split <;> simp
  rw [roundingDigits, List.find?_isSome]
  exact ⟨N, hmem, by rw [hdown, hexact]; simpa using h⟩

/-- Digits and the position of the point after the first of them. -/
structure Decimal where
  digits : ℕ
  point : ℤ

def Decimal.value (d : Decimal) : ℚ := d.digits * 10 ^ (d.point - (Nat.digits 10 d.digits).length)

/-- The digits `s` as a decimal close to `q`; rounding up may have given one digit more than `k`. -/
def decimalAt (q : ℚ) (k s : ℕ) : Decimal :=
  if s = 10 ^ k then ⟨1, pointPosition q + 1⟩ else ⟨s, pointPosition q⟩

/-- The decimal with the fewest digits that is rounded to `q`. -/
def shortestDecimal (q : ℚ) (h : ∃ k, (roundingDigits q (k + 1)).isSome) : Decimal :=
  decimalAt q (Nat.find h + 1) ((roundingDigits q (Nat.find h + 1)).get (Nat.find_spec h))

lemma length_digits (hlow : 10 ^ k ≤ s) (hhigh : s < 10 ^ (k + 1)) :
    (Nat.digits 10 s).length = k + 1 := by
  have hpos : 0 < 10 ^ k := Nat.pow_pos (by omega)
  rw [Nat.length_digits 10 s (by omega) (by omega), Nat.log_eq_of_pow_le_of_lt_pow hlow hhigh]

lemma nearest_decimalAt (hpos : 0 < q) (h : roundingDigits q (k + 1) = some s) :
    nearest (decimalAt q (k + 1) s).value = q ∧ 0 < (decimalAt q (k + 1) s).digits := by
  have hrounds : nearest (s * 10 ^ (pointPosition q - ((k + 1 : ℕ) : ℤ))) = q := by
    simpa using List.find?_some h
  obtain ⟨hlow, hhigh⟩ := candidates_bounds hpos (List.mem_of_find?_eq_some h)
  have hpos : 0 < 10 ^ k := Nat.pow_pos (by omega)
  by_cases hcarry : s = 10 ^ (k + 1)
  · rw [decimalAt, if_pos hcarry]
    have hvalue : (Decimal.value ⟨1, pointPosition q + 1⟩) =
        s * 10 ^ (pointPosition q - ((k + 1 : ℕ) : ℤ)) := by
      have hpow : ((10 ^ (k + 1) : ℕ) : ℚ) = 10 ^ ((k + 1 : ℕ) : ℤ) := by
        rw [zpow_natCast]
        norm_cast
      rw [hcarry, hpow, ← zpow_add₀ (by norm_num)]
      simp [Decimal.value]
    exact ⟨hvalue ▸ hrounds, Nat.one_pos⟩
  · rw [decimalAt, if_neg hcarry]
    refine ⟨?_, show 0 < s by omega⟩
    simp only [Decimal.value, length_digits hlow (by omega)]
    exact hrounds

lemma nearest_shortestDecimal (hpos : 0 < q) (h : ∃ k, (roundingDigits q (k + 1)).isSome) :
    nearest (shortestDecimal q h).value = q ∧ 0 < (shortestDecimal q h).digits :=
  nearest_decimalAt hpos (Option.some_get _).symm

end Dkg.Lib
