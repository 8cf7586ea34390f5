import Dkg.Lib.KeyLocks
import Dkg.Lib.Machine
import Dkg.Lib.Utf16

/-! # Write locks

`withWriteLocks`, which the publisher and the gossip handler have word for word, over the map of
gates that they share. A call reads the gates of its keys and puts its own one in their place before
it awaits anything; it goes on when the gates it found are open, and opens its own one when its
critical section is over, whether that returned or threw.

The calls are numbered as they come, so that the number of a call is its gate.
-/

namespace Dkg

open Lib Function

namespace SharedMemory

/-- `[...new Set(keys)].sort()`. -/
def uniqueKeys (keys : List (List Char)) : List (List Char) :=
  keys.dedup.insertionSort fun a b => utf16 a ≤ utf16 b

lemma mem_uniqueKeys {keys : List (List Char)} {k : List Char} :
    k ∈ uniqueKeys keys ↔ k ∈ keys := by
  rw [uniqueKeys, List.mem_insertionSort, List.mem_dedup]

/-- The map of gates, and where each call is. -/
structure LockState where
  next : ℕ
  writeLocks : KeyLocks (List Char) ℕ
  phase : ℕ → KeyLocks.Phase ℕ

def LockState.start : LockState := ⟨0, KeyLocks.empty, fun _ => .outside⟩

/-- How a critical section ends. -/
inductive Outcome
  | returned
  | threw
  deriving DecidableEq

/-- A step of a write: its call, its entry or its end. -/
inductive LockEvent
  | call
  | enter (i : ℕ)
  | leave (i : ℕ) (outcome : Outcome)
  deriving DecidableEq

-- the keys of each call
variable (keys : ℕ → List (List Char))

/-- The start of `withWriteLocks`, up to its first `await`. -/
def LockState.callNext (s : LockState) : LockState :=
  let i := s.next
  let lockKeys := uniqueKeys (keys i)
  { next := i + 1
    writeLocks := s.writeLocks.take i lockKeys
    phase := update s.phase i (.waiting (s.writeLocks.predecessors lockKeys)) }

/-- The critical section begins. -/
def LockState.enter (s : LockState) (i : ℕ) : LockState :=
  { s with phase := update s.phase i .holding }

/-- The `finally` of `withWriteLocks`. -/
def LockState.leave (s : LockState) (i : ℕ) : LockState :=
  { s with
    writeLocks := s.writeLocks.release i (uniqueKeys (keys i))
    phase := update s.phase i .left }

/-- What may happen next. -/
inductive LockStep : LockState → LockEvent → LockState → Prop
  | call (s : LockState) : LockStep s .call (s.callNext keys)
  | enter (s : LockState) (i : ℕ) (ps : List ℕ) (hwaits : s.phase i = .waiting ps)
      (hready : s.writeLocks.Ready ps) : LockStep s (.enter i) (s.enter i)
  | leave (s : LockState) (i : ℕ) (outcome : Outcome) (hholds : s.phase i = .holding) :
      LockStep s (.leave i outcome) (s.leave keys i)

def lockMachine : Machine LockState LockEvent where
  init s := s = .start
  step := LockStep keys

/-! ## Invariant -/

/-- The keys of a call, once each. -/
def lockKeys (i : ℕ) : List (List Char) := uniqueKeys (keys i)

/-- The calls have come in the order of their numbers. -/
structure LockState.Inv (s : LockState) : Prop where
  ordered : KeyLocks.Ordered s.writeLocks (lockKeys keys) s.phase id s.next
  linked : KeyLocks.Linked s.writeLocks (lockKeys keys) s.phase id
  entered : ∀ i, (s.phase i).Entered ↔ i < s.next

variable {keys} {s s' : LockState}

lemma LockState.inv_start : LockState.start.Inv keys where
  ordered := KeyLocks.ordered_empty _ _ fun _ => rfl
  linked := KeyLocks.linked_empty _ _ fun _ => rfl
  entered := fun i => iff_of_false id (Nat.not_lt_zero i)

lemma LockState.Inv.callNext (h : s.Inv keys) : (s.callNext keys).Inv keys := by
  have hout : s.phase s.next = .outside :=
    KeyLocks.Phase.eq_outside fun hentered => lt_irrefl _ ((h.entered s.next).mp hentered)
  have hself : (s.callNext keys).phase s.next =
      .waiting (s.writeLocks.predecessors (lockKeys keys s.next)) := update_self ..
  have hother : ∀ j, j ≠ s.next → (s.callNext keys).phase j = s.phase j :=
    fun j hj => update_of_ne hj ..
  have hrank : update (id : ℕ → ℕ) s.next s.next = id :=
    update_eq_self (β := fun _ => ℕ) s.next id
  constructor
  · have htaken := h.ordered.take hother hout hself
    rw [hrank] at htaken
    exact htaken
  · exact h.linked.take hother hout hself h.ordered.below
  · intro i
    show _ ↔ i < s.next + 1
    by_cases hi : i = s.next
    · subst hi
      rw [hself]
      exact iff_of_true trivial (Nat.lt_succ_self _)
    · rw [hother i hi, h.entered i]
      omega

lemma LockState.Inv.enter (h : s.Inv keys) {i : ℕ} {ps : List ℕ}
    (hwaits : s.phase i = .waiting ps) (hready : s.writeLocks.Ready ps) : (s.enter i).Inv keys := by
  have hself : (s.enter i).phase i = .holding := update_self ..
  have hother : ∀ j, j ≠ i → (s.enter i).phase j = s.phase j :=
    fun j hj => update_of_ne hj ..
  constructor
  · exact h.ordered.hold hother hwaits hready hself
  · exact h.linked.hold hother hwaits hself
  · intro j
    show _ ↔ j < s.next
    rw [← h.entered j]
    by_cases hj : j = i
    · subst hj
      rw [hself, hwaits]
      exact Iff.rfl
    · rw [hother j hj]

lemma LockState.Inv.leave (h : s.Inv keys) {i : ℕ} (hholds : s.phase i = .holding) :
    (s.leave keys i).Inv keys := by
  have hself : (s.leave keys i).phase i = .left := update_self ..
  have hother : ∀ j, j ≠ i → (s.leave keys i).phase j = s.phase j :=
    fun j hj => update_of_ne hj ..
  constructor
  · exact h.ordered.release hother hholds hself
  · exact h.linked.release hother hholds hself
  · intro j
    show _ ↔ j < s.next
    rw [← h.entered j]
    by_cases hj : j = i
    · subst hj
      rw [hself, hholds]
      exact Iff.rfl
    · rw [hother j hj]

lemma LockState.inv (hr : (lockMachine keys).Reachable s) : s.Inv keys := by
  apply hr.invariant (P := fun s => s.Inv keys)
  · rintro s rfl
    exact LockState.inv_start
  · intro s e s' h hstep
    cases hstep with
    | call => exact h.callNext
    | enter i ps hwaits hready => exact h.enter hwaits hready
    | leave i outcome hholds => exact h.leave hholds

/-! ## The discipline -/

/-- The critical section of the call has begun. -/
def LockState.Began (s : LockState) (i : ℕ) : Prop := s.phase i = .holding ∨ s.phase i = .left

/-- The call has been made and has not ended. -/
def LockState.Outstanding (s : LockState) (i : ℕ) : Prop := i < s.next ∧ s.phase i ≠ .left

/-- The call awaits the gate of the other one. -/
def LockState.WaitsFor (s : LockState) (i j : ℕ) : Prop := s.writeLocks.WaitsFor s.phase i j

lemma LockState.Inv.outstanding_iff (h : s.Inv keys) (i : ℕ) :
    (s.phase i).Outstanding ↔ s.Outstanding i :=
  and_congr_left fun _ => h.entered i

/-- **Write-lock discipline.** For all keys of the calls, in every order of what may happen and
however the critical sections end: two sections with a key in common never overlap; of two calls
with a key in common the earlier one's section is over when the later one's begins; nobody waits in
a circle, and while a call is outstanding some call can go on or is in its section; and when no call
is outstanding the map is empty. -/
theorem writeLocks_discipline (keys : ℕ → List (List Char)) {s : LockState}
    (hr : (lockMachine keys).Reachable s) :
    (∀ i j k, k ∈ keys i → k ∈ keys j → s.phase i = .holding → s.phase j = .holding → i = j) ∧
    (∀ i j k, k ∈ keys i → k ∈ keys j → i < j → s.Began j → s.phase i = .left) ∧
    (∀ i, ¬ Relation.TransGen s.WaitsFor i i) ∧
    (∀ i, s.Outstanding i → ∃ j, s.phase j = .holding ∨ ∃ s', LockStep keys s (.enter j) s') ∧
    ((∀ i, ¬ s.Outstanding i) → ∀ k, s.writeLocks.gate k = none) := by
  have h := LockState.inv hr
  have hmem : ∀ {i k}, k ∈ keys i → k ∈ lockKeys keys i := fun hk => mem_uniqueKeys.mpr hk
  refine ⟨?_, ?_, ?_, ?_, ?_⟩
  · intro i j k hki hkj hi hj
    exact KeyLocks.Sound.exclusive ⟨_, _, h.ordered⟩ hi hj (hmem hki) (hmem hkj)
  · intro i j k hki hkj hlt hj
    have hentered : (s.phase j).Entered := by
      rcases hj with hj | hj <;> rw [hj] <;> trivial
    have hcalled : i < s.next := lt_trans hlt ((h.entered j).mp hentered)
    exact h.ordered.left_of_lt (hmem hki) (hmem hkj) ((h.entered i).mpr hcalled) hj hlt
  · exact h.linked.acyclic
  · intro i hi
    obtain ⟨j, hj⟩ := h.linked.progress h.ordered.opened ((h.outstanding_iff i).mpr hi)
    rcases hj with hholds | ⟨ps, hwaits, hready⟩
    · exact ⟨j, .inl hholds⟩
    · exact ⟨j, .inr ⟨_, .enter s j ps hwaits hready⟩⟩
  · intro hall
    exact h.linked.gate_eq_none fun i hi => hall i ((h.outstanding_iff i).mp hi)

/-- Two calls with a key in common. -/
def overlappingKeys (i : ℕ) : List (List Char) := if i = 0 then [['b'], ['a'], ['b']] else [['a']]

/-- The second call, after the first one's section has thrown. -/
theorem writeLocks_discipline_overlap :
    ∃ s, (lockMachine overlappingKeys).Reachable s ∧ s.phase 1 = .holding ∧
      s.writeLocks.gate ['b'] = none ∧ s.writeLocks.gate ['a'] = some 1 ∧ s.phase 0 = .left ∧
      ¬ Relation.TransGen s.WaitsFor 1 1 := by
  let s₁ := LockState.start.callNext overlappingKeys
  let s₂ := s₁.callNext overlappingKeys
  let s₃ := s₂.enter 0
  let s₄ := s₃.leave overlappingKeys 0
  have h₁ : (lockMachine overlappingKeys).Reachable s₁ :=
    Machine.Reachable.step (.init rfl) (LockStep.call _)
  have h₂ := h₁.step (LockStep.call s₁)
  have h₃ := h₂.step (LockStep.enter s₂ 0 _ rfl (by decide +kernel))
  have h₄ := h₃.step (LockStep.leave s₃ 0 .threw rfl)
  have h₅ := h₄.step (LockStep.enter s₄ 1 _ rfl (by decide +kernel))
  have hall := writeLocks_discipline overlappingKeys h₅
  exact ⟨s₄.enter 1, h₅, rfl, by decide +kernel, by decide +kernel,
    hall.2.1 0 1 ['a'] (by decide) (by decide) (by decide) (.inl rfl), hall.2.2.1 1⟩

end SharedMemory

end Dkg
