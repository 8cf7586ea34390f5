import Mathlib.Tactic

/-! # Big-endian bytes and packed buffers

`bigEndian n v` is the last `n` bytes of the integer `v`, the most significant first; it forgets
what does not fit, and it is injective on what does. `setFields` fills a buffer field by field, at
a running offset; when the widths add up to the buffer, the result is the concatenation of the
fields.
-/

namespace Dkg.Lib

open List

/-- The last `n` bytes of `v`, in two's complement, from the most significant one. -/
def bigEndian : ℕ → ℤ → List UInt8
  | 0, _ => []
  | n + 1, v => bigEndian n (v / 256) ++ [UInt8.ofNat (v % 256).toNat]

@[simp] lemma length_bigEndian (n : ℕ) (v : ℤ) : (bigEndian n v).length = n := by
  induction n generalizing v with
  | zero => rfl
  | succ n ih => simp [bigEndian, ih]

lemma byte_inj {u v : ℤ} (h : UInt8.ofNat (u % 256).toNat = UInt8.ofNat (v % 256).toNat) :
    u % 256 = v % 256 := by
  have hnat := congrArg UInt8.toNat h
  simp only [UInt8.toNat_ofNat'] at hnat
  omega

/-- What fits is determined by its bytes. -/
lemma bigEndian_inj {n : ℕ} {u v : ℤ} (hu : 0 ≤ u ∧ u < 256 ^ n) (hv : 0 ≤ v ∧ v < 256 ^ n)
    (h : bigEndian n u = bigEndian n v) : u = v := by
  induction n generalizing u v with
  | zero =>
    rw [pow_zero] at hu hv
    omega
  | succ n ih =>
    rw [pow_succ] at hu hv
    obtain ⟨hhigh, hlow⟩ := append_inj h (by simp)
    have hlast := byte_inj (List.cons.inj hlow).1
    have hrest : u / 256 = v / 256 := by
      apply ih ⟨by omega, by omega⟩ ⟨by omega, by omega⟩ hhigh
    omega

/-! ## Filling a buffer -/

/-- Copying `bytes` into the buffer at `offset`; nothing fits behind its end. -/
def setBytes (packed bytes : List UInt8) (offset : ℕ) : Option (List UInt8) :=
  if offset + bytes.length ≤ packed.length then
    some (packed.take offset ++ bytes ++ packed.drop (offset + bytes.length))
  else none

/-- The fields one after the other, the offset advancing by the width of each. -/
def setFields (packed : List UInt8) (offset : ℕ) : List (List UInt8 × ℕ) → Option (List UInt8)
  | [] => some packed
  | (bytes, width) :: fields => do
      let packed ← setBytes packed bytes offset
      setFields packed (offset + width) fields

/-- A buffer that the fields fill exactly holds their concatenation. -/
lemma setFields_eq {packed : List UInt8} {offset : ℕ} {fields : List (List UInt8 × ℕ)}
    (hwidth : ∀ f ∈ fields, f.1.length = f.2)
    (hlen : packed.length = offset + (fields.map Prod.snd).sum) :
    setFields packed offset fields =
        some (packed.take offset ++ (fields.map Prod.fst).flatten) := by
  induction fields generalizing packed offset with
  | nil => simp_all [setFields]
  | cons f fields ih =>
    obtain ⟨bytes, width⟩ := f
    have hbytes : bytes.length = width := hwidth (bytes, width) mem_cons_self
    simp only [map_cons, sum_cons] at hlen
    have hfits : offset + bytes.length ≤ packed.length := by omega
    simp only [setFields, setBytes, if_pos hfits, Option.bind_eq_bind, Option.bind_some]
    have hhead : (packed.take offset ++ bytes).length = offset + width := by
      rw [length_append, length_take, hbytes]
      omega
    rw [ih]
    · rw [take_left' hhead]
      simp
    · intro f hf
      exact hwidth f (mem_cons_of_mem _ hf)
    · rw [length_append, hhead, length_drop, hbytes]
      omega

end Dkg.Lib
