import Dkg.Lib.Utf16

/-! # UTF-8

Text as octets (`encode`), and back (`decode`). Octets that are no UTF-8 are read too: every longest
start of a character that breaks off becomes one replacement character. A text that is cut off
somewhere is read up to there, with at most one replacement character at its end
(`decode_take_encode`).
-/

namespace Dkg.Lib

open List

abbrev Octet := Fin 256

namespace Utf8

/-- The last `k` groups of six bits of a value, an octet for each. -/
def tails : ℕ → ℕ → List Octet
  | 0, _ => []
  | k + 1, n => Fin.ofNat _ (0x80 + n / 0x40 ^ k % 0x40) :: tails k n

def encodeChar (c : Char) : List Octet :=
  let n := c.toNat
  if n < 0x80 then [Fin.ofNat _ n]
  else if n < 0x800 then Fin.ofNat _ (0xC0 + n / 0x40) :: tails 1 n
  else if n < 0x10000 then Fin.ofNat _ (0xE0 + n / 0x1000) :: tails 2 n
  else Fin.ofNat _ (0xF0 + n / 0x40000) :: tails 3 n

def encode (cs : List Char) : List Octet := cs.flatMap encodeChar

def replacement : Char := Char.ofNat 0xFFFD

/-- A character that has begun: its value so far, the octets that it still lacks, and the bounds
for the next one. -/
structure Begun where
  (point owed low high : ℕ)

inductive Lead
  | char (c : Char)
  | begun (s : Begun)
  | bad

/-- What an octet between characters is. -/
def lead (n : ℕ) : Lead :=
  if n < 0x80 then .char (Char.ofNat n)
  else if 0xC2 ≤ n ∧ n ≤ 0xDF then .begun ⟨n - 0xC0, 1, 0x80, 0xBF⟩
  else if 0xE0 ≤ n ∧ n ≤ 0xEF then
    .begun ⟨n - 0xE0, 2, if n = 0xE0 then 0xA0 else 0x80, if n = 0xED then 0x9F else 0xBF⟩
  else if 0xF0 ≤ n ∧ n ≤ 0xF4 then
    .begun ⟨n - 0xF0, 3, if n = 0xF0 then 0x90 else 0x80, if n = 0xF4 then 0x8F else 0xBF⟩
  else .bad

def readLead (n : ℕ) : List Char × Option Begun :=
  match lead n with
  | .char c => ([c], none)
  | .begun s => ([], some s)
  | .bad => ([replacement], none)

/-- An octet that cannot go on with the character is read again as the first one of the next. -/
def read (state : Option Begun) (n : ℕ) : List Char × Option Begun :=
  match state with
  | none => readLead n
  | some s =>
    if s.low ≤ n ∧ n ≤ s.high then
      if s.owed = 1 then ([Char.ofNat (s.point * 0x40 + (n - 0x80))], none)
      else ([], some ⟨s.point * 0x40 + (n - 0x80), s.owed - 1, 0x80, 0xBF⟩)
    else (replacement :: (readLead n).1, (readLead n).2)

def flush : Option Begun → List Char
  | none => []
  | some _ => [replacement]

def decodeFrom : Option Begun → List Octet → List Char
  | state, [] => flush state
  | state, b :: bs => (read state b.val).1 ++ decodeFrom (read state b.val).2 bs

/-- The text that octets stand for. -/
def decode (bs : List Octet) : List Char := decodeFrom none bs

variable {c : Char} {rest : List Octet} {n : ℕ}

lemma length_tails (k n : ℕ) : (tails k n).length = k := by
  induction k with
  | zero => rfl
  | succ k ih => rw [tails, length_cons, ih]

lemma shift_group (k n : ℕ) :
    n / 0x40 ^ (k + 1) * 0x40 + (0x80 + n / 0x40 ^ k % 0x40 - 0x80) = n / 0x40 ^ k := by
  have hdiv : n / 0x40 ^ (k + 1) = n / 0x40 ^ k / 0x40 := by
    rw [pow_succ, Nat.div_div_eq_div_mul]
  omega

section

variable {k low high : ℕ}

variable (hlow : low ≤ 0x80 + n / 0x40 ^ k % 0x40)

include hlow

variable (hhigh : 0x80 + n / 0x40 ^ k % 0x40 ≤ high)

include hhigh

lemma read_tail : read (some ⟨n / 0x40 ^ (k + 1), k + 1, low, high⟩)
        (Fin.ofNat 256 (0x80 + n / 0x40 ^ k % 0x40)).val =
      if k = 0 then ([Char.ofNat n], none) else ([], some ⟨n / 0x40 ^ k, k, 0x80, 0xBF⟩) := by
  have hval : (Fin.ofNat 256 (0x80 + n / 0x40 ^ k % 0x40)).val = 0x80 + n / 0x40 ^ k % 0x40 :=
    Nat.mod_eq_of_lt (by omega)
  rw [hval, read, if_pos ⟨hlow, hhigh⟩, shift_group]
  cases k with
  | zero => simp
  | succ k => simp

lemma decodeFrom_tails (rest : List Octet) :
    decodeFrom (some ⟨n / 0x40 ^ (k + 1), k + 1, low, high⟩) (tails (k + 1) n ++ rest) =
      Char.ofNat n :: decode rest := by
  induction k generalizing low high with
  | zero =>
    rw [tails, cons_append, decodeFrom, read_tail hlow hhigh]
    rfl
  | succ k ih =>
    rw [tails, cons_append, decodeFrom, read_tail hlow hhigh, if_neg (Nat.succ_ne_zero k),
      nil_append]
    apply ih
    · omega
    · omega

lemma decodeFrom_take_tails {j : ℕ} (hj : j < k + 1) :
    decodeFrom (some ⟨n / 0x40 ^ (k + 1), k + 1, low, high⟩) ((tails (k + 1) n).take j) =
      [replacement] := by
  induction k generalizing low high j with
  | zero =>
    obtain rfl : j = 0 := by omega
    rfl
  | succ k ih =>
    cases j with
    | zero => rfl
    | succ j =>
      rw [tails, take_succ_cons, decodeFrom, read_tail hlow hhigh,
        if_neg (Nat.succ_ne_zero k), nil_append]
      apply ih
      · omega
      · omega
      · omega

end

lemma decode_cons {b : ℕ} (hb : b < 256) :
    decode (Fin.ofNat 256 b :: rest) = (readLead b).1 ++ decodeFrom (readLead b).2 rest := by
  have hval : (Fin.ofNat 256 b).val = b := Nat.mod_eq_of_lt hb
  rw [decode, decodeFrom, hval]
  rfl

/-- A character is one octet, or an octet that begins it and the rest of its bits. -/
lemma encodeChar_cases (c : Char) :
    (c.toNat < 0x80 ∧ encodeChar c = [Fin.ofNat _ c.toNat]) ∨
    ∃ b k low high, encodeChar c = Fin.ofNat _ b :: tails (k + 1) c.toNat ∧ b < 256 ∧
      readLead b = ([], some ⟨c.toNat / 0x40 ^ (k + 1), k + 1, low, high⟩) ∧
      low ≤ 0x80 + c.toNat / 0x40 ^ k % 0x40 ∧ 0x80 + c.toNat / 0x40 ^ k % 0x40 ≤ high := by
  have hvalid : c.toNat.isValidChar := c.valid
  simp only [Nat.isValidChar] at hvalid
  by_cases h1 : c.toNat < 0x80
  · exact .inl ⟨h1, by simp [encodeChar, h1]⟩
  refine .inr ?_
  by_cases h2 : c.toNat < 0x800
  · refine ⟨0xC0 + c.toNat / 0x40, 0, 0x80, 0xBF, ?_, by omega, ?_, by omega, by omega⟩
    · simp [encodeChar, h1, h2]
    · rw [readLead, lead, if_neg (by omega), if_pos (by omega)]
      simp
  by_cases h3 : c.toNat < 0x10000
  · refine ⟨0xE0 + c.toNat / 0x1000, 1, if 0xE0 + c.toNat / 0x1000 = 0xE0 then 0xA0 else 0x80,
      if 0xE0 + c.toNat / 0x1000 = 0xED then 0x9F else 0xBF, ?_, by omega, ?_, ?_, ?_⟩
    · simp [encodeChar, h1, h2, h3]
    · rw [readLead, lead, if_neg (by omega), if_neg (by omega), if_pos (by omega)]
      simp
    · split <;> omega
    · split <;> omega
  · refine ⟨0xF0 + c.toNat / 0x40000, 2, if 0xF0 + c.toNat / 0x40000 = 0xF0 then 0x90 else 0x80,
      if 0xF0 + c.toNat / 0x40000 = 0xF4 then 0x8F else 0xBF, ?_, by omega, ?_, ?_, ?_⟩
    · simp [encodeChar, h1, h2, h3]
    · rw [readLead, lead, if_neg (by omega), if_neg (by omega), if_neg (by omega),
        if_pos (by omega)]
      simp
    · split <;> omega
    · split <;> omega

lemma decode_encodeChar (c : Char) (rest : List Octet) :
    decode (encodeChar c ++ rest) = c :: decode rest := by
  rcases encodeChar_cases c with ⟨hsmall, heq⟩ | ⟨b, k, low, high, heq, hb, hlead, hlow, hhigh⟩
  · rw [heq, singleton_append, decode_cons (by omega), readLead, lead, if_pos hsmall]
    show Char.ofNat c.toNat :: decode rest = _
    rw [Char.ofNat_toNat]
  · rw [heq, cons_append, decode_cons hb, hlead, nil_append,
      decodeFrom_tails hlow hhigh, Char.ofNat_toNat]

lemma decode_take_encodeChar {j : ℕ} (hj : j < (encodeChar c).length) (hpos : 0 < j) :
    decode ((encodeChar c).take j) = [replacement] := by
  obtain ⟨j, rfl⟩ : ∃ i, j = i + 1 := ⟨j - 1, by omega⟩
  rcases encodeChar_cases c with ⟨hsmall, heq⟩ | ⟨b, k, low, high, heq, hb, hlead, hlow, hhigh⟩
  · rw [heq] at hj
    simp at hj
  · rw [heq, length_cons, length_tails] at hj
    rw [heq, take_succ_cons, decode_cons hb, hlead, nil_append,
      decodeFrom_take_tails hlow hhigh (by omega)]

/-- An octet below `0x80` stands for itself only. -/
lemma toNat_of_mem_encodeChar {b : Octet} (h : b ∈ encodeChar c) (hb : b.val < 0x80) :
    c.toNat = b.val := by
  have htails : ∀ k, b ∉ tails k c.toNat := by
    intro k
    induction k with
    | zero => exact not_mem_nil
    | succ k ih =>
      rw [tails, mem_cons, not_or]
      refine ⟨?_, ih⟩
      rintro rfl
      have hval : (Fin.ofNat 256 (0x80 + c.toNat / 0x40 ^ k % 0x40)).val =
          0x80 + c.toNat / 0x40 ^ k % 0x40 := Nat.mod_eq_of_lt (by omega)
      omega
  rcases encodeChar_cases c with ⟨hsmall, heq⟩ | ⟨n, k, low, high, heq, hn, hlead, _⟩
  · rw [heq, mem_singleton] at h
    rw [h]
    exact (Nat.mod_eq_of_lt (by omega)).symm
  · rw [heq, mem_cons] at h
    rcases h with rfl | h
    · have hval : (Fin.ofNat 256 n).val = n := Nat.mod_eq_of_lt hn
      rw [readLead, lead, if_pos (hval ▸ hb)] at hlead
      cases hlead
    · exact absurd h (htails _)

lemma decode_encode_append (cs : List Char) (rest : List Octet) :
    decode (encode cs ++ rest) = cs ++ decode rest := by
  induction cs with
  | nil => rfl
  | cons c cs ih =>
    show decode (encodeChar c ++ encode cs ++ rest) = _
    rw [append_assoc, decode_encodeChar, ih, cons_append]

/-- **A text that is cut off** is read up to there. -/
lemma decode_take_encode (cs : List Char) (n : ℕ) (hn : n < (encode cs).length) :
    ∃ k < cs.length, decode ((encode cs).take n) = cs.take k ∨
      decode ((encode cs).take n) = cs.take k ++ [replacement] := by
  induction cs generalizing n with
  | nil => simp [encode] at hn
  | cons c cs ih =>
    have hcons : encode (c :: cs) = encodeChar c ++ encode cs := rfl
    rw [hcons, length_append] at hn
    rw [hcons]
    rcases Nat.lt_or_ge n (encodeChar c).length with hlt | hge
    · refine ⟨0, by simp, ?_⟩
      rw [take_append_of_le_length (by omega)]
      rcases Nat.eq_zero_or_pos n with rfl | hpos
      · exact .inl rfl
      · exact .inr (decode_take_encodeChar hlt hpos)
    · obtain ⟨k, hk, hdecode⟩ := ih (n - (encodeChar c).length) (by omega)
      refine ⟨k + 1, by simpa using hk, ?_⟩
      rw [take_append, take_of_length_le hge, decode_encodeChar, take_succ_cons,
        cons_append, List.cons.injEq, List.cons.injEq]
      exact hdecode.imp (fun h => ⟨rfl, h⟩) fun h => ⟨rfl, h⟩

end Utf8

end Dkg.Lib
