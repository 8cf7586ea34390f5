import Mathlib.Tactic

/-! # Machines and their reachable states

A `Machine` has initial states and labelled steps. `Machine.Reachable` is reachability by any
finite run, and `Machine.restrict` keeps only the steps that meet a condition on the state
before the step and on its label, so "every run whose steps all meet `C`" is reachability in
`M.restrict C`. The induction rules are `Reachable.invariant` and `Reachable.invariant_of`.
-/

namespace Dkg.Lib

/-- A labelled transition system over states `σ` and labels `ι`. -/
structure Machine (σ ι : Type) where
  init : σ → Prop
  step : σ → ι → σ → Prop

namespace Machine

variable {σ ι : Type} {M : Machine σ ι}

/-- The states some finite run of `M` reaches. -/
inductive Reachable (M : Machine σ ι) : σ → Prop
  | init {s : σ} : M.init s → Reachable M s
  | step {s s' : σ} {c : ι} : Reachable M s → M.step s c s' → Reachable M s'

/-- The machine whose steps all meet `C`, a condition on the state before the step and on the
label. -/
def restrict (M : Machine σ ι) (C : σ → ι → Prop) : Machine σ ι where
  init := M.init
  step s c s' := C s c ∧ M.step s c s'

variable {P : σ → Prop} {s s' : σ} {ε : Type} {is : List ι} {C : σ → ι → Prop} {exec : σ → ι → σ}

/-- **Invariant rule.** What holds initially and is preserved by every step holds of every
reachable state. -/
lemma Reachable.invariant (hinit : ∀ s, M.init s → P s)
    (hstep : ∀ s c s', P s → M.step s c s' → P s') (h : M.Reachable s) : P s := by
  induction h with
  | init h => exact hinit _ h
  | step _ hs ih => exact hstep _ _ _ ih hs

/-- The invariant rule relative to an invariant `Q` that is already known: a step lemma may
assume `Q` before and after the step. -/
lemma Reachable.invariant_of {Q : σ → Prop} (hQ : ∀ s, M.Reachable s → Q s)
    (hinit : ∀ s, M.init s → P s) (hstep : ∀ s c s', Q s → Q s' → P s → M.step s c s' → P s')
    (h : M.Reachable s) : P s := by
  induction h with
  | init h => exact hinit _ h
  | step hr hs ih => exact hstep _ _ _ (hQ _ hr) (hQ _ (hr.step hs)) ih hs

/-- `s'` follows `s` in some finite run. -/
inductive Steps (M : Machine σ ι) (s : σ) : σ → Prop
  | refl : Steps M s s
  | tail {t u : σ} {c : ι} : Steps M s t → M.step t c u → Steps M s u

lemma Reachable.steps (h : M.Reachable s) (hs : M.Steps s s') : M.Reachable s' := by
  induction hs with
  | refl => exact h
  | tail _ hstep ih => exact ih.step hstep

/-- Run a list of labels through an executable step. -/
def runList {ε : Type} (exec : σ → ι → Except ε σ) : List ι → σ → Except ε σ
  | [], s => .ok s
  | i :: is, s => exec s i >>= runList exec is

lemma Reachable.runList {exec : σ → ι → Except ε σ}
    (hexec : ∀ s i s', exec s i = .ok s' → M.step s i s') (h : M.Reachable s)
    (hrun : Machine.runList exec is s = .ok s') : M.Reachable s' := by
  induction is generalizing s with
  | nil =>
    cases hrun
    exact h
  | cons i is ih =>
    rw [Machine.runList] at hrun
    cases hs : exec s i with
    | error e =>
      rw [hs] at hrun
      cases hrun
    | ok s₁ =>
      rw [hs] at hrun
      exact ih (h.step (hexec s i s₁ hs)) hrun

/-- A run of the restricted machine is a run of the machine. -/
lemma Reachable.of_restrict (h : (M.restrict C).Reachable s) : M.Reachable s := by
  induction h with
  | init h => exact .init h
  | step _ hs ih => exact ih.step hs.2

/-- An executable step that refuses what `C` excludes. -/
def guarded {ε : Type} (C : σ → ι → Prop) [∀ s i, Decidable (C s i)] (refused : ε)
    (exec : σ → ι → Except ε σ) (s : σ) (i : ι) : Except ε σ :=
  if C s i then exec s i else .error refused

lemma restrict_of_guarded [∀ s i, Decidable (C s i)] {refused : ε} {exec : σ → ι → Except ε σ}
    (hexec : ∀ s i s', exec s i = .ok s' → M.step s i s') (s : σ) (i : ι) (s' : σ)
    (h : guarded C refused exec s i = .ok s') : (M.restrict C).step s i s' := by
  unfold guarded at h
  split at h
  next hC => exact ⟨hC, hexec s i s' h⟩
  next => cases h

/-- Every step of a run of a total step meets `C`. -/
def Allowed (C : σ → ι → Prop) (exec : σ → ι → σ) : List ι → σ → Prop
  | [], _ => True
  | i :: is, s => C s i ∧ Allowed C exec is (exec s i)

instance Allowed.decidable (C : σ → ι → Prop) [∀ s i, Decidable (C s i)] (exec : σ → ι → σ) :
    (is : List ι) → (s : σ) → Decidable (Allowed C exec is s)
  | [], _ => isTrue trivial
  | i :: is, s =>
    have := Allowed.decidable C exec is (exec s i)
    inferInstanceAs (Decidable (C s i ∧ Allowed C exec is (exec s i)))

lemma allowed_concat {i : ι} :
    Allowed C exec (is ++ [i]) s ↔ Allowed C exec is s ∧ C (is.foldl exec s) i := by
  induction is generalizing s with
  | nil => simp [Allowed]
  | cons j is ih => simp [Allowed, ih, and_assoc]

/-- What a condition implies where an invariant holds that it keeps. -/
lemma Allowed.imp {C' : σ → ι → Prop} {I : σ → Prop}
    (hI : ∀ s i, I s → C s i → C' s i ∧ I (exec s i)) (hs : I s) (h : Allowed C exec is s) :
    Allowed C' exec is s ∧ I (is.foldl exec s) := by
  induction is generalizing s with
  | nil => exact ⟨trivial, hs⟩
  | cons i is ih =>
    obtain ⟨hi, hnext⟩ := hI s i hs h.1
    obtain ⟨hrest, hend⟩ := ih hnext h.2
    exact ⟨⟨hi, hrest⟩, hend⟩

/-- A run of a total step that the machine allows is a run of the machine. -/
lemma Reachable.foldl (hexec : ∀ s i, C s i → M.step s i (exec s i)) (h : M.Reachable s)
    (hall : Allowed C exec is s) : M.Reachable (is.foldl exec s) := by
  induction is generalizing s with
  | nil => exact h
  | cons i is ih => exact ih (h.step (hexec s i hall.1)) hall.2

/-- A run of a total step that the machine allows leads on from where it begins. -/
lemma Steps.foldl (hexec : ∀ s i, C s i → M.step s i (exec s i)) {t : σ} (h : M.Steps s t)
    (hall : Allowed C exec is t) : M.Steps s (is.foldl exec t) := by
  induction is generalizing t with
  | nil => exact h
  | cons i is ih => exact ih (h.tail (hexec t i hall.1)) hall.2

lemma Reachable.restrict_mono {D : σ → ι → Prop} (hCD : ∀ s c, C s c → D s c)
    (h : (M.restrict C).Reachable s) : (M.restrict D).Reachable s := by
  induction h with
  | init h => exact .init h
  | step _ hs ih => exact ih.step ⟨hCD _ _ hs.1, hs.2⟩

end Machine

end Dkg.Lib
