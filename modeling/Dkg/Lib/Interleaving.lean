import Dkg.Lib.Machine

/-! # Interleaved tasks

Tasks `ι` work on one shared state of type `σ`; each has a place of type `π` in its own code.
`advance i` runs the stretch of task `i` up to its next suspension, and a run of the machine
interleaves the stretches of all tasks in any order.
-/

namespace Dkg.Lib

/-- The shared state and the place of every task. -/
structure Pool (ι σ π : Type) where
  shared : σ
  place : ι → π

namespace Pool

variable {ι σ π : Type} [DecidableEq ι] {advance : ι → σ → π → σ × π} {init : Pool ι σ π → Prop}
  {s : Pool ι σ π} {i j : ι}

/-- Task `i` comes to the place `b.2`, and the shared state is now `b.1`. -/
def settle (s : Pool ι σ π) (i : ι) (b : σ × π) : Pool ι σ π where
  shared := b.1
  place := Function.update s.place i b.2

/-- Task `i` runs to its next suspension. -/
def step (advance : ι → σ → π → σ × π) (s : Pool ι σ π) (i : ι) : Pool ι σ π :=
  s.settle i (advance i s.shared (s.place i))

def machine (advance : ι → σ → π → σ × π) (init : Pool ι σ π → Prop) : Machine (Pool ι σ π) ι where
  init := init
  step s i s' := s' = s.step advance i

variable {b : σ × π}

@[simp]
lemma settle_shared : (s.settle i b).shared = b.1 := rfl

@[simp]
lemma settle_place_self : (s.settle i b).place i = b.2 := Function.update_self ..

lemma settle_place_of_ne (h : j ≠ i) : (s.settle i b).place j = s.place j :=
  Function.update_of_ne h ..

@[simp]
lemma settle_self : s.settle i (s.shared, s.place i) = s := by
  simp [settle]

@[simp]
lemma settle_settle {b' : σ × π} : (s.settle i b).settle i b' = s.settle i b' := by
  simp [settle]

/-- Some run of task `i` alone. -/
def Alone (advance : ι → σ → π → σ × π) (i : ι) : σ × π → σ × π → Prop :=
  Relation.ReflTransGen fun a b => b = advance i a.1 a.2

/-- A run of one task alone, while the others wait, is a run of the machine. `P` is what the task
keeps of the shared state, and `C` the condition on the steps. -/
lemma reachable_of_alone {C : Pool ι σ π → ι → Prop} {P : σ → Prop}
    (hkeep : ∀ x p, P x → P (advance i x p).1)
    (hC : ∀ s', P s'.shared → (∀ j, j ≠ i → s'.place j = s.place j) → C s' i)
    (hs : ((machine advance init).restrict C).Reachable s) (hP : P s.shared)
    (h : Alone advance i (s.shared, s.place i) b) :
    ((machine advance init).restrict C).Reachable (s.settle i b) ∧ P b.1 := by
  induction h with
  | refl => exact ⟨by rwa [settle_self], hP⟩
  | @tail a b _ hlast ih =>
    obtain ⟨hr, ha⟩ := ih
    have hallowed : C (s.settle i a) i := hC _ ha fun j hj => settle_place_of_ne hj
    have hstep := hr.step (c := i) ⟨hallowed, rfl⟩
    subst hlast
    refine ⟨?_, hkeep _ _ ha⟩
    simpa [step] using hstep

end Pool

end Dkg.Lib
