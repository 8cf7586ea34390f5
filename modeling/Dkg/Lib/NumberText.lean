import Dkg.Lib.Binary64

/-! # The text of a number

`decimalText` writes a decimal with at most 21 digits before the point and at most six zeros after
it, and with an exponent otherwise. `Binary64.toText` is the text of a number, by its shortest
decimal. `readNumber` finds the number again (`readNumber_toText`).
-/

namespace Dkg.Lib

open List

def digitText (n : ℕ) : List Char := (Nat.digits 10 n).reverse.map Nat.digitChar

/-- The text of a decimal with the digits `s`, the first `n` of them before the point. -/
def decimalText (s : ℕ) (n : ℤ) : List Char :=
  let ds := digitText s
  let k := ds.length
  if k ≤ n ∧ n ≤ 21 then ds ++ List.replicate (n - k).toNat '0'
  else if 0 < n ∧ n ≤ 21 then ds.take n.toNat ++ '.' :: ds.drop n.toNat
  else if -6 < n ∧ n ≤ 0 then '0' :: '.' :: (List.replicate (-n).toNat '0' ++ ds)
  else
    ds.take 1 ++ (if k = 1 then [] else '.' :: ds.drop 1) ++
      'e' :: (if 0 < n - 1 then '+' else '-') :: digitText (n - 1).natAbs

namespace Binary64

/-- Every positive number has a decimal. -/
lemma exists_digits {x : Binary64} (h : 0 < x.value) :
    ∃ k, (roundingDigits x.value (k + 1)).isSome :=
  exists_roundingDigits h x.rounded

lemma exists_digits_neg {x : Binary64} (h : x.value < 0) :
    ∃ k, (roundingDigits (-x.value) (k + 1)).isSome :=
  exists_roundingDigits (by linarith) (nearest_neg x.rounded)

/-- `Number::toString` of a finite number, in base 10. -/
def toText (x : Binary64) : List Char :=
  if hpos : 0 < x.value then
    let d := shortestDecimal x.value (exists_digits hpos)
    decimalText d.digits d.point
  else if hneg : x.value < 0 then
    let d := shortestDecimal (-x.value) (exists_digits_neg hneg)
    '-' :: decimalText d.digits d.point
  else ['0']

end Binary64

/-! ## Reading -/

def readNat (cs : List Char) : ℕ := Nat.ofDigits 10 (cs.reverse.map fun c => c.toNat - '0'.toNat)

def readExponent : List Char → ℤ
  | _ :: '-' :: ds => -readNat ds
  | _ :: _ :: ds => readNat ds
  | _ => 0

def readDecimal (cs : List Char) : ℚ :=
  let mantissa := cs.takeWhile (· != 'e')
  let exponent := readExponent (cs.dropWhile (· != 'e'))
  let fraction := (mantissa.dropWhile (· != '.')).tail
  readNat (mantissa.takeWhile (· != '.') ++ fraction) * 10 ^ (exponent - fraction.length)

def readNumber : List Char → ℚ
  | '-' :: cs => -nearest (readDecimal cs)
  | cs => nearest (readDecimal cs)

/-! ## Digits -/

lemma readNat_digitText (n : ℕ) : readNat (digitText n) = n := by
  have hdigits : ∀ d ∈ Nat.digits 10 n, (Nat.digitChar d).toNat - '0'.toNat = d := by
    intro d hd
    have hlt : d < 10 := Nat.digits_lt_base (by omega) hd
    interval_cases d <;> rfl
  have hmap : (Nat.digits 10 n).map (fun d => (Nat.digitChar d).toNat - '0'.toNat) =
      Nat.digits 10 n := by
    calc _ = (Nat.digits 10 n).map id := map_congr_left hdigits
      _ = Nat.digits 10 n := map_id _
  have hread : readNat (digitText n) = Nat.ofDigits 10 ((Nat.digits 10 n).map
      (fun d => (Nat.digitChar d).toNat - '0'.toNat)) := by
    simp [readNat, digitText, map_reverse, Function.comp_def]
  rw [hread, hmap, Nat.ofDigits_digits]

lemma length_digitText (n : ℕ) : (digitText n).length = (Nat.digits 10 n).length := by
  simp [digitText]

variable {n s : ℕ} {whole exponent : List Char}

lemma isDigit_of_mem_digitText {c : Char} (hc : c ∈ digitText n) : c.isDigit := by
  simp only [digitText, mem_map, mem_reverse] at hc
  obtain ⟨d, hd, rfl⟩ := hc
  have hlt : d < 10 := Nat.digits_lt_base (by omega) hd
  interval_cases d <;> rfl

lemma digitText_ne_nil (h : 0 < n) : digitText n ≠ [] := by
  simp only [digitText, ne_eq, map_eq_nil_iff, reverse_eq_nil_iff]
  exact Nat.digits_ne_nil_iff_ne_zero.mpr (by omega)

lemma readNat_append_zeros (cs : List Char) (z : ℕ) :
    readNat (cs ++ replicate z '0') = readNat cs * 10 ^ z := by
  have hzero : '0'.toNat - '0'.toNat = 0 := rfl
  simp [readNat, Nat.ofDigits_append, Nat.ofDigits_replicate_zero, mul_comm]

lemma readNat_zeros_append (cs : List Char) (z : ℕ) :
    readNat (replicate z '0' ++ cs) = readNat cs := by
  simp [readNat, Nat.ofDigits_append_replicate_zero]

/-! ## The parts of a printed decimal -/

lemma span_append {stop : Char} {xs ys : List Char} (hxs : ∀ c ∈ xs, c ≠ stop)
    (hys : ys = [] ∨ ys.head? = some stop) :
    (xs ++ ys).takeWhile (· != stop) = xs ∧ (xs ++ ys).dropWhile (· != stop) = ys := by
  have hpass : ∀ c ∈ xs, (c != stop) = true := fun c hc => bne_iff_ne.mpr (hxs c hc)
  rw [takeWhile_append_of_pos hpass, dropWhile_append_of_pos hpass]
  cases ys with
  | nil => simp
  | cons c rest =>
    have hc : c = stop := by simpa using hys
    simp [hc]

lemma readDecimal_whole (hwhole : ∀ c ∈ whole, c ≠ '.' ∧ c ≠ 'e')
    (hexponent : exponent = [] ∨ exponent.head? = some 'e') :
    readDecimal (whole ++ exponent) = readNat whole * 10 ^ readExponent exponent := by
  obtain ⟨hmantissa, hrest⟩ := span_append (fun c hc => (hwhole c hc).2) hexponent
  obtain ⟨htake, hdrop⟩ := span_append (fun c hc => (hwhole c hc).1) (.inl rfl)
  rw [append_nil] at htake hdrop
  rw [readDecimal, hmantissa, hrest, htake, hdrop]
  simp

lemma readDecimal_point {fraction : List Char} (hwhole : ∀ c ∈ whole, c ≠ '.' ∧ c ≠ 'e')
    (hfraction : ∀ c ∈ fraction, c ≠ 'e') (hexponent : exponent = [] ∨ exponent.head? = some 'e') :
    readDecimal (whole ++ '.' :: (fraction ++ exponent)) =
      readNat (whole ++ fraction) * 10 ^ (readExponent exponent - fraction.length) := by
  have hall : ∀ c ∈ whole ++ '.' :: fraction, c ≠ 'e' := by
    intro c hc
    rcases mem_append.mp hc with hc | hc
    · exact (hwhole c hc).2
    · rcases mem_cons.mp hc with rfl | hc
      · decide
      · exact hfraction c hc
  obtain ⟨hmantissa, hrest⟩ := span_append hall hexponent
  obtain ⟨htake, hdrop⟩ := @span_append '.' whole ('.' :: fraction) (fun c hc => (hwhole c hc).1)
    (.inr rfl)
  rw [append_assoc, cons_append] at hmantissa hrest
  rw [readDecimal, hmantissa, hrest, htake, hdrop]
  simp

lemma readExponent_text (e : ℤ) :
    readExponent ('e' :: (if 0 < e then '+' else '-') :: digitText e.natAbs) = e := by
  by_cases hpos : 0 < e
  · rw [if_pos hpos]
    show (readNat (digitText e.natAbs) : ℤ) = e
    rw [readNat_digitText]
    omega
  · rw [if_neg hpos]
    show -(readNat (digitText e.natAbs) : ℤ) = e
    rw [readNat_digitText]
    omega

/-- **The text of a decimal** has the value of the decimal. -/
lemma readDecimal_decimalText (hs : 0 < s) (n : ℤ) :
    readDecimal (decimalText s n) = Decimal.value ⟨s, n⟩ := by
  have hdigit : ∀ c ∈ digitText s, c ≠ '.' ∧ c ≠ 'e' := by
    intro c hc
    have := isDigit_of_mem_digitText hc
    constructor <;> rintro rfl <;> simp at this
  have hzero : ∀ {z : ℕ}, ∀ c ∈ replicate z '0', c ≠ '.' ∧ c ≠ 'e' := by
    intro z c hc
    rw [eq_of_mem_replicate hc]
    decide
  have hread := readNat_digitText s
  have hne := digitText_ne_nil hs
  simp only [Decimal.value, ← length_digitText, decimalText]
  generalize digitText s = ds at hdigit hread hne
  have hlen : 0 < ds.length := length_pos_iff.mpr hne
  by_cases hwhole : ds.length ≤ n ∧ n ≤ 21
  · -- the digits and zeros
    rw [if_pos hwhole]
    obtain ⟨z, hz⟩ := Int.eq_ofNat_of_zero_le (sub_nonneg.mpr hwhole.1)
    have h := readDecimal_whole (forall_mem_append.mpr ⟨hdigit, hzero (z := z)⟩) (.inl rfl)
    rw [append_nil, readNat_append_zeros, hread] at h
    rw [hz, Int.toNat_natCast, h]
    simp [readExponent]
  rw [if_neg hwhole]
  by_cases hpoint : 0 < n ∧ n ≤ 21
  · -- a point between the digits
    rw [if_pos hpoint]
    obtain ⟨m, rfl⟩ := Int.eq_ofNat_of_zero_le hpoint.1.le
    have hlength : (ds.drop m).length = (ds.length : ℤ) - m := by
      rw [length_drop]
      omega
    have h := readDecimal_point (fun c hc => hdigit c (mem_of_mem_take (i := m) hc))
      (fun c hc => (hdigit c (mem_of_mem_drop (i := m) hc)).2) (.inl rfl)
    rw [append_nil, take_append_drop, hread, hlength] at h
    rw [Int.toNat_natCast, h]
    congr 2
    simp only [readExponent]
    omega
  rw [if_neg hpoint]
  by_cases hzeros : -6 < n ∧ n ≤ 0
  · -- zeros before the digits
    rw [if_pos hzeros]
    obtain ⟨z, hz⟩ := Int.eq_ofNat_of_zero_le (show 0 ≤ -n by omega)
    have h := readDecimal_point (forall_mem_singleton.mpr (show '0' ≠ '.' ∧ '0' ≠ 'e' by decide))
      (fun c hc => (forall_mem_append.mpr ⟨hzero (z := z), hdigit⟩ c hc).2) (.inl rfl)
    rw [append_nil, singleton_append, singleton_append] at h
    have hnat := readNat_zeros_append ds (z + 1)
    rw [replicate_succ, cons_append, hread] at hnat
    rw [hz, Int.toNat_natCast, h, hnat]
    congr 2
    simp [readExponent]
    omega
  rw [if_neg hzeros]
  -- an exponent
  have hexponent := readExponent_text (n - 1)
  generalize hexp : 'e' :: (if 0 < n - 1 then '+' else '-') :: digitText (n - 1).natAbs = exponent
    at hexponent
  have hstart : exponent = [] ∨ exponent.head? = some 'e' := .inr (by rw [← hexp]; rfl)
  by_cases hone : ds.length = 1
  · rw [if_pos hone, take_of_length_le hone.le, append_nil,
      readDecimal_whole hdigit hstart, hread, hexponent, hone]
    norm_num
  · have h := readDecimal_point (fun c hc => hdigit c (mem_of_mem_take (i := 1) hc))
      (fun c hc => (hdigit c (mem_of_mem_drop (i := 1) hc)).2) hstart
    have hlength : (ds.drop 1).length = (ds.length : ℤ) - 1 := by
      rw [length_drop]
      omega
    rw [take_append_drop, hread, hlength, hexponent] at h
    rw [if_neg hone, append_assoc, cons_append, h]
    congr 2
    omega

/-! ## Numbers -/

/-- A character of a printed number. -/
def IsNumberChar (c : Char) : Prop := c.isDigit ∨ c ∈ ['.', 'e', '+', '-']

lemma decimalText_chars {n : ℤ} : ∀ c ∈ decimalText s n, IsNumberChar c := by
  have hdigit : ∀ {m : ℕ}, ∀ c ∈ digitText m, IsNumberChar c := fun c hc =>
    .inl (isDigit_of_mem_digitText hc)
  have hzero : ∀ {z : ℕ}, ∀ c ∈ replicate z '0', IsNumberChar c := by
    intro z c hc
    rw [eq_of_mem_replicate hc]
    exact .inl rfl
  have htake : ∀ {m : ℕ}, ∀ c ∈ (digitText s).take m, IsNumberChar c := fun c hc =>
    hdigit c (mem_of_mem_take hc)
  have hdrop : ∀ {m : ℕ}, ∀ c ∈ (digitText s).drop m, IsNumberChar c := fun c hc =>
    hdigit c (mem_of_mem_drop hc)
  have hother : ∀ c ∈ ['.', 'e', '+', '-'], IsNumberChar c := fun c hc => .inr hc
  unfold decimalText
  simp only
  split_ifs <;> simp only [forall_mem_append, forall_mem_cons]
  · exact ⟨hdigit, hzero⟩
  · exact ⟨htake, hother _ (by simp), hdrop⟩
  · exact ⟨hzero (z := 1) _ (by simp), hother _ (by simp), hzero, hdigit⟩
  all_goals
    refine ⟨⟨htake, ?_⟩, hother _ (by simp), hother _ (by simp), hdigit⟩
    first
    | exact forall_mem_nil _
    | exact ⟨hother '.' (by simp), hdrop⟩

lemma decimalText_head (hs : 0 < s) (n : ℤ) :
    ∃ c rest, decimalText s n = c :: rest ∧ c.isDigit := by
  have hdigit : ∀ c ∈ digitText s, c.isDigit := fun c hc => isDigit_of_mem_digitText hc
  unfold decimalText
  cases hds : digitText s with
  | nil => exact absurd hds (digitText_ne_nil hs)
  | cons d ds =>
    have hd : d.isDigit := hdigit d (by simp [hds])
    simp only
    split_ifs with hwhole hpoint
    · exact ⟨d, _, rfl, hd⟩
    · obtain ⟨m, hm⟩ : ∃ m, n.toNat = m + 1 := ⟨n.toNat - 1, by omega⟩
      rw [hm]
      exact ⟨d, _, rfl, hd⟩
    · exact ⟨'0', _, rfl, rfl⟩
    all_goals exact ⟨d, _, rfl, hd⟩

namespace Binary64

variable {x y : Binary64}

lemma toText_chars : ∀ c ∈ x.toText, IsNumberChar c := by
  unfold toText
  split_ifs
  · exact decimalText_chars
  · exact forall_mem_cons.mpr ⟨.inr (by simp), decimalText_chars⟩
  · exact forall_mem_singleton.mpr (.inl rfl)

lemma toText_ne_nil : x.toText ≠ [] := by
  unfold toText
  split_ifs with hpos hneg
  · obtain ⟨_, hdigits⟩ := nearest_shortestDecimal hpos (exists_digits hpos)
    obtain ⟨c, rest, heq, _⟩ :=
        decimalText_head hdigits (shortestDecimal x.value (exists_digits hpos)).point
    simp [heq]
  · simp
  · simp

/-- **A number is found again from its text.** -/
lemma readNumber_toText (x : Binary64) : readNumber x.toText = x.value := by
  unfold toText
  split_ifs with hpos hneg
  · obtain ⟨hnearest, hdigits⟩ := nearest_shortestDecimal hpos (exists_digits hpos)
    simp only
    generalize shortestDecimal x.value _ = d at hnearest hdigits
    have hread := readDecimal_decimalText hdigits d.point
    obtain ⟨c, rest, heq, hc⟩ := decimalText_head hdigits d.point
    rw [heq] at hread ⊢
    have hsign : c ≠ '-' := by rintro rfl; simp at hc
    unfold readNumber
    split
    next heq => simp_all
    next => rw [hread]; exact hnearest
  · obtain ⟨hnearest, hdigits⟩ := nearest_shortestDecimal (by linarith) (exists_digits_neg hneg)
    simp only [readNumber]
    generalize shortestDecimal (-x.value) _ = d at hnearest hdigits
    rw [readDecimal_decimalText hdigits d.point, hnearest, neg_neg]
  · have hzero : x.value = 0 := le_antisymm (not_lt.mp hpos) (not_lt.mp hneg)
    have hread : readDecimal ['0'] = 0 := by
      simp [readDecimal, readNat, readExponent]
    show nearest (readDecimal ['0']) = x.value
    rw [hread, ← hzero, x.rounded]

lemma toText_injective (h : x.toText = y.toText) : x = y :=
  ext (by rw [← readNumber_toText x, h, readNumber_toText])

end Binary64

end Dkg.Lib
