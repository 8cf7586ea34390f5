import Mathlib.Tactic

/-! # How a computation can fail

`FailsOnly P x` says that whatever error `x` ends in meets `P`. The rules follow the shape of a
`do` block, and the rule for `>>=` knows the value of the first part when it reaches the second.
-/

namespace Dkg.Lib

variable {ε α β : Type} {P : ε → Prop}

/-- A sequence that succeeds is a success of both parts. -/
lemma exists_ok_of_bind {x : Except ε α} {f : α → Except ε β} {b : β} (h : (x >>= f) = .ok b) :
    ∃ a, x = .ok a ∧ f a = .ok b := by
  cases x with
  | error e => cases h
  | ok a => exact ⟨a, rfl, h⟩

lemma eq_ok_of_toOption {x : Except ε α} {a : α} (h : x.toOption = some a) : x = .ok a := by
  cases x with
  | error e => cases h
  | ok b =>
    cases h
    rfl

/-- Every error of `x` meets `P`. -/
def FailsOnly (P : ε → Prop) (x : Except ε α) : Prop := ∀ e, x = .error e → P e

namespace FailsOnly

lemma ok (a : α) : FailsOnly P (.ok a) := fun _ h => by cases h

lemma pure (a : α) : FailsOnly P (Pure.pure a : Except ε α) := ok a

variable {x : Except ε α} {f : α → Except ε β} {a : α}

lemma bind (hx : FailsOnly P x) (hf : ∀ a, x = .ok a → FailsOnly P (f a)) :
    FailsOnly P (x >>= f) := by
  intro e h
  cases hxe : x with
  | error e' =>
    rw [hxe] at h
    cases h
    exact hx e hxe
  | ok a =>
    rw [hxe] at h
    exact hf a hxe e h

/-- The rule for a first part that is known to succeed. -/
lemma bind_ok (hx : x = .ok a) (hf : FailsOnly P (f a)) : FailsOnly P (x >>= f) := by
  rw [hx]
  exact hf

lemma of_ok (hx : x = .ok a) : FailsOnly P x := by
  rw [hx]
  exact ok a

lemma ite {p : Prop} [Decidable p] {y : Except ε α} (hx : p → FailsOnly P x)
    (hy : ¬ p → FailsOnly P y) : FailsOnly P (if p then x else y) := by
  split
  next h => exact hx h
  next h => exact hy h

end FailsOnly

end Dkg.Lib
