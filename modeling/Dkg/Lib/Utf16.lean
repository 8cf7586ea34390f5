import Mathlib.Data.List.Lex
import Mathlib.Tactic.Linarith

/-! # Strings of UTF-16 code units

A string is a list of code units, and need not be well formed: a surrogate may stand alone.
`codePoints` reads it by pairs of surrogates, and `CodePoint.units` goes back. `utf16` writes text
as code units.
-/

namespace Dkg.Lib

open List

abbrev CodeUnit := Fin (2 ^ 16)

instance codeUnits_neZero : NeZero (2 ^ 16) := ⟨Nat.pos_iff_ne_zero.mp (Nat.two_pow_pos 16)⟩

abbrev Utf16 := List CodeUnit

def IsLeading (u : CodeUnit) : Prop := 0xD800 ≤ u.val ∧ u.val < 0xDC00
  deriving Decidable

def IsTrailing (u : CodeUnit) : Prop := 0xDC00 ≤ u.val ∧ u.val < 0xE000
  deriving Decidable

/-- A character, or a surrogate that stands alone. -/
inductive CodePoint
  | scalar (c : Char)
  | lone (u : CodeUnit)

def pointOf (u : CodeUnit) : CodePoint :=
  if IsLeading u ∨ IsTrailing u then .lone u else .scalar (Char.ofNat u.val)

/-- The character that a pair of surrogates stands for. -/
def pairOf (u v : CodeUnit) : Char :=
  Char.ofNat (0x10000 + (u.val - 0xD800) * 0x400 + (v.val - 0xDC00))

/-- `StringToCodePoints`. -/
def codePoints : Utf16 → List CodePoint
  | [] => []
  | [u] => [pointOf u]
  | u :: v :: rest =>
    if IsLeading u ∧ IsTrailing v then .scalar (pairOf u v) :: codePoints rest
    else pointOf u :: codePoints (v :: rest)

/-- The code units of a character. -/
def charUnits (c : Char) : Utf16 :=
  if c.toNat < 0x10000 then [Fin.ofNat _ c.toNat]
  else
    [Fin.ofNat _ (0xD800 + (c.toNat - 0x10000) / 0x400),
      Fin.ofNat _ (0xDC00 + (c.toNat - 0x10000) % 0x400)]

def CodePoint.units : CodePoint → Utf16
  | .scalar c => charUnits c
  | .lone u => [u]

/-- Text as code units. -/
def utf16 (cs : List Char) : Utf16 := cs.flatMap charUnits

lemma toNat_ofNat {n : ℕ} (h : n.isValidChar) : (Char.ofNat n).toNat = n := by
  rw [Char.ofNat, dif_pos h]
  rfl

lemma units_pointOf (u : CodeUnit) : (pointOf u).units = [u] := by
  unfold pointOf
  split
  next => rfl
  next h =>
    have hu := u.isLt
    have hvalid : u.val.isValidChar := by
      simp only [IsLeading, IsTrailing] at h
      simp only [Nat.isValidChar]
      omega
    have hnat : (Char.ofNat u.val).toNat = u.val := toNat_ofNat hvalid
    simp only [CodePoint.units, charUnits, hnat]
    rw [if_pos (by omega)]
    simp

lemma charUnits_pairOf {u v : CodeUnit} (hu : IsLeading u) (hv : IsTrailing v) :
    charUnits (pairOf u v) = [u, v] := by
  obtain ⟨hu, hu'⟩ := hu
  obtain ⟨hv, hv'⟩ := hv
  have hvalid : (0x10000 + (u.val - 0xD800) * 0x400 + (v.val - 0xDC00)).isValidChar := by
    simp only [Nat.isValidChar]
    omega
  have hnat : (pairOf u v).toNat = 0x10000 + (u.val - 0xD800) * 0x400 + (v.val - 0xDC00) := by
    rw [pairOf, toNat_ofNat hvalid]
  have hhigh : 0xD800 + ((pairOf u v).toNat - 0x10000) / 0x400 = u.val := by omega
  have hlow : 0xDC00 + ((pairOf u v).toNat - 0x10000) % 0x400 = v.val := by omega
  rw [charUnits, if_neg (by omega), hhigh, hlow]
  simp

/-- **A string is found again from its code points.** -/
lemma flatMap_units_codePoints (s : Utf16) : (codePoints s).flatMap CodePoint.units = s := by
  induction s using codePoints.induct with
  | case1 => rfl
  | case2 u => simp [codePoints, units_pointOf]
  | case3 u v rest hpair ih =>
    rw [codePoints, if_pos hpair, flatMap_cons, ih]
    simp [CodePoint.units, charUnits_pairOf hpair.1 hpair.2]
  | case4 u v rest hpair ih =>
    rw [codePoints, if_neg hpair, flatMap_cons, ih, units_pointOf]
    rfl

lemma codePoints_cons {u : CodeUnit} (hu : ¬ IsLeading u) (s : Utf16) :
    codePoints (u :: s) = pointOf u :: codePoints s := by
  cases s with
  | nil => simp [codePoints]
  | cons v rest => rw [codePoints, if_neg fun h => hu h.1]

lemma codePoints_charUnits (c : Char) (s : Utf16) :
    codePoints (charUnits c ++ s) = .scalar c :: codePoints s := by
  have hvalid : c.toNat.isValidChar := c.valid
  simp only [Nat.isValidChar] at hvalid
  by_cases hsmall : c.toNat < 0x10000
  · have hunit : (Fin.ofNat (2 ^ 16) c.toNat).val = c.toNat := Nat.mod_eq_of_lt hsmall
    rw [charUnits, if_pos hsmall, singleton_append, codePoints_cons, pointOf, if_neg, hunit,
      Char.ofNat_toNat]
    · simp only [IsLeading, IsTrailing, hunit]
      omega
    · simp only [IsLeading, hunit]
      omega
  · have hhigh : (Fin.ofNat (2 ^ 16) (0xD800 + (c.toNat - 0x10000) / 0x400)).val =
        0xD800 + (c.toNat - 0x10000) / 0x400 := Nat.mod_eq_of_lt (by omega)
    have hlow : (Fin.ofNat (2 ^ 16) (0xDC00 + (c.toNat - 0x10000) % 0x400)).val =
        0xDC00 + (c.toNat - 0x10000) % 0x400 := Nat.mod_eq_of_lt (by omega)
    have hpair : ∀ {u v : CodeUnit}, u.val = 0xD800 + (c.toNat - 0x10000) / 0x400 →
        v.val = 0xDC00 + (c.toNat - 0x10000) % 0x400 →
        codePoints (u :: v :: s) = .scalar c :: codePoints s := by
      intro u v hu hv
      rw [codePoints, if_pos ⟨⟨by omega, by omega⟩, ⟨by omega, by omega⟩⟩, pairOf, hu, hv]
      have : 0x10000 + (0xD800 + (c.toNat - 0x10000) / 0x400 - 0xD800) * 0x400 +
          (0xDC00 + (c.toNat - 0x10000) % 0x400 - 0xDC00) = c.toNat := by omega
      rw [this, Char.ofNat_toNat]
    rw [charUnits, if_neg hsmall]
    exact hpair hhigh hlow

lemma codePoints_utf16 (cs : List Char) : codePoints (utf16 cs) = cs.map CodePoint.scalar := by
  induction cs with
  | nil => rfl
  | cons c rest ih =>
    show codePoints (charUnits c ++ utf16 rest) = _
    rw [codePoints_charUnits, ih, map_cons]

lemma utf16_injective : Function.Injective utf16 := by
  intro cs cs' h
  have hmap : cs.map CodePoint.scalar = cs'.map CodePoint.scalar := by
    rw [← codePoints_utf16, h, codePoints_utf16]
  exact map_injective_iff.mpr (fun c c' hc => by cases hc; rfl) hmap

end Dkg.Lib
