import Mathlib.Tactic

/-! # Locks over keys

A task takes the locks of all its keys at once. The gate of a key is the task that took it last; a
task waits until the gates that it found are open, and opens its own gate when it is done. The map
of gates forgets a gate that was opened, unless another task has come after.

Two tasks with a key in common never hold their locks at the same time (`Sound.exclusive`), and the
earlier one is first (`Ordered.left_of_lt`). The invariant is an order of arrival (`Ordered`):
behind an earlier task that has not left, a later one waits for some task that is not earlier than
the first. A task waits for earlier ones only (`Linked`), so that some task can always go on.
-/

namespace Dkg.Lib

open Function

/-- The gate of each key, and which gates are open. -/
structure KeyLocks (κ ι : Type) where
  gate : κ → Option ι
  opened : ι → Bool

namespace KeyLocks

variable {κ ι : Type}

def empty : KeyLocks κ ι where
  gate := fun _ => none
  opened := fun _ => false

/-- The gates that a task with these keys waits for. -/
def predecessors (locks : KeyLocks κ ι) (keys : List κ) : List ι := keys.filterMap locks.gate

def Ready (locks : KeyLocks κ ι) (ps : List ι) : Prop := ∀ p ∈ ps, locks.opened p = true
  deriving Decidable

def take [DecidableEq κ] (locks : KeyLocks κ ι) (i : ι) (keys : List κ) : KeyLocks κ ι where
  gate := fun k => if k ∈ keys then some i else locks.gate k
  opened := locks.opened

def release [DecidableEq κ] [DecidableEq ι] (locks : KeyLocks κ ι) (i : ι) (keys : List κ) :
    KeyLocks κ ι where
  gate := fun k => if k ∈ keys ∧ locks.gate k = some i then none else locks.gate k
  opened := update locks.opened i true

/-- Where a task is with its locks. -/
inductive Phase (ι : Type)
  | outside
  | waiting (ps : List ι)
  | holding
  | left

/-- The task has taken its locks at some time. -/
def Phase.Entered : Phase ι → Prop
  | .outside => False
  | _ => True

lemma Phase.eq_outside {p : Phase ι} (h : ¬ p.Entered) : p = .outside := by
  cases p with
  | outside => rfl
  | waiting ps | holding | left => exact absurd trivial h

/-- The order of arrival `rank` is kept. -/
structure Ordered (locks : KeyLocks κ ι) (keys : ι → List κ) (phase : ι → Phase ι)
    (rank : ι → ℕ) (bound : ℕ) : Prop where
  opened : ∀ i, locks.opened i = true ↔ phase i = .left
  below : ∀ i, (phase i).Entered → rank i < bound
  distinct : ∀ i j, (phase i).Entered → (phase j).Entered → rank i = rank j → i = j
  queued : ∀ i j k, k ∈ keys i → k ∈ keys j → (phase i).Entered → (phase j).Entered →
    rank i < rank j → phase i = .left ∨ ∃ ps, phase j = .waiting ps ∧
      ∃ p ∈ ps, k ∈ keys p ∧ (phase p).Entered ∧ (p = i ∨ rank i < rank p)
  gates : ∀ i k, k ∈ keys i → (phase i).Entered → phase i = .left ∨
    ∃ g, locks.gate k = some g ∧ k ∈ keys g ∧ (phase g).Entered ∧ (g = i ∨ rank i < rank g)

/-- Some order of arrival is kept. -/
def Sound (locks : KeyLocks κ ι) (keys : ι → List κ) (phase : ι → Phase ι) : Prop :=
  ∃ rank bound, Ordered locks keys phase rank bound

variable {locks : KeyLocks κ ι} {keys : ι → List κ} {phase phase' : ι → Phase ι} {i j : ι} {k : κ}

lemma ordered_empty (keys : ι → List κ) (rank : ι → ℕ) (h : ∀ i, phase i = .outside) :
    Ordered (empty : KeyLocks κ ι) keys phase rank 0 := by
  have hout : ∀ i, ¬ (phase i).Entered := fun i => by rw [h i]; exact id
  constructor
  · intro i
    rw [h i]
    simp [empty]
  · exact fun i hi => absurd hi (hout i)
  · exact fun i _ hi => absurd hi (hout i)
  · exact fun i _ _ _ _ hi => absurd hi (hout i)
  · exact fun i _ _ hi => absurd hi (hout i)

lemma sound_empty (keys : ι → List κ) (h : ∀ i, phase i = .outside) :
    Sound (empty : KeyLocks κ ι) keys phase := ⟨fun _ => 0, 0, ordered_empty keys _ h⟩

/-- **Mutual exclusion.** -/
lemma Sound.exclusive (h : Sound locks keys phase) (hi : phase i = .holding)
    (hj : phase j = .holding) (hki : k ∈ keys i) (hkj : k ∈ keys j) : i = j := by
  obtain ⟨rank, bound, h⟩ := h
  have entered : ∀ {i}, phase i = .holding → (phase i).Entered := fun h => by rw [h]; trivial
  have never : ∀ {i j}, phase i = .holding → phase j = .holding → k ∈ keys i → k ∈ keys j →
      ¬ rank i < rank j := by
    intro i j hi hj hki hkj hlt
    rcases h.queued i j k hki hkj (entered hi) (entered hj) hlt with hleft | ⟨ps, hwaits, _⟩
    · rw [hi] at hleft
      cases hleft
    · rw [hj] at hwaits
      cases hwaits
  have heq : rank i = rank j := by
    have h₁ := never hi hj hki hkj
    have h₂ := never hj hi hkj hki
    omega
  exact h.distinct i j (entered hi) (entered hj) heq

variable {rank : ι → ℕ} {bound : ℕ}

section

variable (hother : ∀ j, j ≠ i → phase' j = phase j)

include hother

/-- When a task goes from one phase to another after it has taken its locks. -/
lemma entered_iff (hi : (phase i).Entered) (hi' : (phase' i).Entered) (j : ι) :
    (phase' j).Entered ↔ (phase j).Entered := by
  by_cases hj : j = i
  · rw [hj]
    exact iff_of_true hi' hi
  · rw [hother j hj]

section

variable (h : Ordered locks keys phase rank bound)

include h

/-- A task takes its locks, and is the last one to have come. -/
lemma Ordered.take [DecidableEq κ] [DecidableEq ι]
    (hi : phase i = .outside) (hi' : phase' i = .waiting (locks.predecessors (keys i))) :
    Ordered (locks.take i (keys i)) keys phase' (update rank i bound) (bound + 1) := by
  have hne : ∀ {j}, (phase j).Entered → j ≠ i := by
    rintro j hj rfl
    rw [hi] at hj
    exact hj
  have hentered : ∀ {j}, j ≠ i → (phase' j).Entered → (phase j).Entered :=
    fun hj h => hother _ hj ▸ h
  have hentered' : ∀ {j}, (phase j).Entered → (phase' j).Entered :=
    fun h => (hother _ (hne h)).symm ▸ h
  have hnew : (phase' i).Entered := by
    rw [hi']
    trivial
  have hleft : ∀ {j}, phase j = .left → phase' j = .left := by
    intro j hj
    have hentered : (phase j).Entered := by
      rw [hj]
      trivial
    rw [hother j (hne hentered), hj]
  have hlast : ∀ {j}, j ≠ i → update rank i bound j = rank j :=
    fun hj => update_of_ne hj ..
  refine ⟨?_, ?_, ?_, ?_, ?_⟩
  · intro j
    by_cases hj : j = i
    · subst hj
      have hclosed := h.opened j
      rw [hi] at hclosed
      rw [hi']
      simpa [KeyLocks.take] using hclosed
    · rw [hother j hj]
      exact h.opened j
  · intro j hj
    by_cases hji : j = i
    · subst hji
      rw [update_self]
      omega
    · rw [hlast hji]
      have := h.below j (hentered hji hj)
      omega
  · intro j j' hj hj' heq
    by_cases hji : j = i
    · by_cases hji' : j' = i
      · rw [hji, hji']
      · rw [hji, update_self, hlast hji'] at heq
        have := h.below j' (hentered hji' hj')
        omega
    · by_cases hji' : j' = i
      · rw [hji', update_self, hlast hji] at heq
        have := h.below j (hentered hji hj)
        omega
      · rw [hlast hji, hlast hji'] at heq
        exact h.distinct j j' (hentered hji hj) (hentered hji' hj') heq
  · intro j j' k hk hk' hj hj' hlt
    by_cases hji : j = i
    · -- nothing is later than the new task
      rw [hji, update_self] at hlt
      by_cases hji' : j' = i
      · rw [hji', update_self] at hlt
        omega
      · rw [hlast hji'] at hlt
        have := h.below j' (hentered hji' hj')
        omega
    · have hold := hentered hji hj
      by_cases hji' : j' = i
      · subst hji'
        rcases h.gates j k hk hold with hgone | ⟨g, hg, hkg, hgentered, hrank⟩
        · exact .inl (hleft hgone)
        · refine .inr ⟨_, hi', g, List.mem_filterMap.mpr ⟨k, hk', hg⟩, hkg,
            hentered' hgentered, ?_⟩
          rw [hlast hji, hlast (hne hgentered)]
          exact hrank
      · rw [hlast hji, hlast hji'] at hlt
        rcases h.queued j j' k hk hk' hold (hentered hji' hj') hlt with
          hgone | ⟨ps, hwaits, p, hp, hkp, hpentered, hrank⟩
        · exact .inl (hleft hgone)
        · refine .inr ⟨ps, (hother j' hji').trans hwaits, p, hp, hkp, hentered' hpentered, ?_⟩
          rw [hlast hji, hlast (hne hpentered)]
          exact hrank
  · intro j k hk hj
    by_cases hkey : k ∈ keys i
    · refine .inr ⟨i, if_pos hkey, hkey, hnew, ?_⟩
      by_cases hji : j = i
      · exact .inl hji.symm
      · rw [hlast hji, update_self]
        exact .inr (h.below j (hentered hji hj))
    · have hji : j ≠ i := fun heq => hkey (heq ▸ hk)
      rcases h.gates j k hk (hentered hji hj) with hgone | ⟨g, hg, hkg, hgentered, hrank⟩
      · exact .inl (hleft hgone)
      · refine .inr ⟨g, (if_neg hkey).trans hg, hkg, hentered' hgentered, ?_⟩
        rw [hlast hji, hlast (hne hgentered)]
        exact hrank

/-- A task whose predecessors are done goes on. -/
lemma Ordered.hold {ps : List ι}
    (hi : phase i = .waiting ps) (hready : locks.Ready ps) (hi' : phase' i = .holding) :
    Ordered locks keys phase' rank bound := by
  have hholds : (phase i).Entered := by
    rw [hi]
    trivial
  have hentered := entered_iff hother hholds (by rw [hi']; trivial)
  have hleft : ∀ j, phase' j = .left ↔ phase j = .left := by
    intro j
    by_cases hj : j = i
    · rw [hj, hi, hi']
      simp
    · rw [hother j hj]
  refine ⟨?_, ?_, ?_, ?_, ?_⟩
  · exact fun j => (h.opened j).trans (hleft j).symm
  · exact fun j hj => h.below j ((hentered j).mp hj)
  · exact fun j j' hj hj' => h.distinct j j' ((hentered j).mp hj) ((hentered j').mp hj')
  · intro j j' k hk hk' hj hj' hlt
    have hold := (hentered j).mp hj
    rcases h.queued j j' k hk hk' hold ((hentered j').mp hj') hlt with
      hgone | ⟨qs, hwaits, p, hp, hkp, hpentered, hrank⟩
    · exact .inl ((hleft j).mpr hgone)
    · by_cases hji : j' = i
      · -- its predecessors have left, and so has every task before them
        subst hji
        rw [hi] at hwaits
        cases hwaits
        have hpleft := (h.opened p).mp (hready p hp)
        refine .inl ((hleft j).mpr ?_)
        rcases hrank with heq | hlt
        · exact heq ▸ hpleft
        · rcases h.queued j p k hk hkp hold hpentered hlt with hgone | ⟨rs, hwaits, _⟩
          · exact hgone
          · rw [hpleft] at hwaits
            cases hwaits
      · exact .inr ⟨qs, (hother j' hji).trans hwaits, p, hp, hkp, (hentered p).mpr hpentered, hrank⟩
  · intro j k hk hj
    rcases h.gates j k hk ((hentered j).mp hj) with hgone | ⟨g, hg, hkg, hgentered, hrank⟩
    · exact .inl ((hleft j).mpr hgone)
    · exact .inr ⟨g, hg, hkg, (hentered g).mpr hgentered, hrank⟩

lemma Ordered.release [DecidableEq κ] [DecidableEq ι]
    (hi : phase i = .holding) (hi' : phase' i = .left) :
    Ordered (locks.release i (keys i)) keys phase' rank bound := by
  have hholds : (phase i).Entered := by
    rw [hi]
    trivial
  have hentered := entered_iff hother hholds (by rw [hi']; trivial)
  have hleft : ∀ {j}, phase j = .left → phase' j = .left := by
    intro j hj
    by_cases hji : j = i
    · exact hji ▸ hi'
    · exact (hother j hji).trans hj
  refine ⟨?_, ?_, ?_, ?_, ?_⟩
  · intro j
    by_cases hj : j = i
    · subst hj
      simp [KeyLocks.release, hi']
    · rw [hother j hj]
      simpa [KeyLocks.release, update_of_ne hj] using h.opened j
  · exact fun j hj => h.below j ((hentered j).mp hj)
  · exact fun j j' hj hj' => h.distinct j j' ((hentered j).mp hj) ((hentered j').mp hj')
  · intro j j' k hk hk' hj hj' hlt
    rcases h.queued j j' k hk hk' ((hentered j).mp hj) ((hentered j').mp hj') hlt with
      hgone | ⟨ps, hwaits, p, hp, hkp, hpentered, hrank⟩
    · exact .inl (hleft hgone)
    · have hji : j' ≠ i := by
        rintro rfl
        rw [hi] at hwaits
        cases hwaits
      exact .inr ⟨ps, (hother j' hji).trans hwaits, p, hp, hkp, (hentered p).mpr hpentered, hrank⟩
  · intro j k hk hj
    rcases h.gates j k hk ((hentered j).mp hj) with hgone | ⟨g, hg, hkg, hgentered, hrank⟩
    · exact .inl (hleft hgone)
    · by_cases hgi : g = i
      · -- the gate is forgotten, and every task with the key has left
        subst hgi
        refine .inl ?_
        rcases hrank with heq | hlt
        · exact heq ▸ hi'
        · rcases h.queued j g k hk hkg ((hentered j).mp hj) hholds hlt with hgone | ⟨ps, hwaits, _⟩
          · exact hleft hgone
          · rw [hi] at hwaits
            cases hwaits
      · refine .inr ⟨g, (if_neg ?_).trans hg, hkg, (hentered g).mpr hgentered, hrank⟩
        rw [hg, Option.some.injEq]
        exact fun hmine => hgi hmine.2

end

lemma Sound.take [DecidableEq κ] [DecidableEq ι] (h : Sound locks keys phase)
    (hi : phase i = .outside) (hi' : phase' i = .waiting (locks.predecessors (keys i))) :
    Sound (locks.take i (keys i)) keys phase' := by
  obtain ⟨rank, bound, h⟩ := h
  exact ⟨_, _, h.take hother hi hi'⟩

lemma Sound.hold {ps : List ι} (h : Sound locks keys phase) (hi : phase i = .waiting ps)
    (hready : locks.Ready ps) (hi' : phase' i = .holding) : Sound locks keys phase' := by
  obtain ⟨rank, bound, h⟩ := h
  exact ⟨_, _, h.hold hother hi hready hi'⟩

lemma Sound.release [DecidableEq κ] [DecidableEq ι] (h : Sound locks keys phase)
    (hi : phase i = .holding) (hi' : phase' i = .left) :
    Sound (locks.release i (keys i)) keys phase' := by
  obtain ⟨rank, bound, h⟩ := h
  exact ⟨_, _, h.release hother hi hi'⟩

end

/-- **Order of arrival.** Of two tasks with a key in common, the later one does not hold its locks
before the earlier one has left. -/
lemma Ordered.left_of_lt (h : Ordered locks keys phase rank bound) (hki : k ∈ keys i)
    (hkj : k ∈ keys j) (hi : (phase i).Entered) (hj : phase j = .holding ∨ phase j = .left)
    (hlt : rank i < rank j) : phase i = .left := by
  have hentered : (phase j).Entered := by
    rcases hj with hj | hj <;> rw [hj] <;> trivial
  rcases h.queued i j k hki hkj hi hentered hlt with hleft | ⟨ps, hwaits, _⟩
  · exact hleft
  · rcases hj with hj | hj <;> rw [hj] at hwaits <;> cases hwaits

/-! ## Waiting -/

/-- A task waits only for tasks that came before it, and the gate of a key is that of a task which
has not left. -/
structure Linked (locks : KeyLocks κ ι) (keys : ι → List κ) (phase : ι → Phase ι)
    (rank : ι → ℕ) : Prop where
  earlier : ∀ j ps, phase j = .waiting ps → ∀ p ∈ ps, (phase p).Entered ∧ rank p < rank j
  current : ∀ k g, locks.gate k = some g → k ∈ keys g ∧ (phase g).Entered ∧ phase g ≠ .left

/-- The task waits for the gate of the other one. -/
def WaitsFor (locks : KeyLocks κ ι) (phase : ι → Phase ι) (i j : ι) : Prop :=
  ∃ ps, phase i = .waiting ps ∧ j ∈ ps ∧ locks.opened j = false

/-- The task has taken its locks and has not left. -/
def Phase.Outstanding (p : Phase ι) : Prop := p.Entered ∧ p ≠ .left

lemma linked_empty (keys : ι → List κ) (rank : ι → ℕ) (h : ∀ i, phase i = .outside) :
    Linked (empty : KeyLocks κ ι) keys phase rank where
  earlier := by
    intro j ps hj
    rw [h j] at hj
    cases hj
  current := by
    intro k g hg
    cases hg

variable (h : Linked locks keys phase rank)

include h

section

variable (hother : ∀ j, j ≠ i → phase' j = phase j)

include hother

lemma Linked.take [DecidableEq κ] (hi : phase i = .outside)
    (hi' : phase' i = .waiting (locks.predecessors (keys i)))
    (hlast : ∀ j, (phase j).Entered → rank j < rank i) :
    Linked (locks.take i (keys i)) keys phase' rank where
  earlier := by
    have hkept : ∀ {p}, (phase p).Entered → (phase' p).Entered := by
      intro p hp
      rw [hother p (by rintro rfl; rw [hi] at hp; exact hp)]
      exact hp
    intro j ps hj p hp
    by_cases hji : j = i
    · subst hji
      rw [hi'] at hj
      cases hj
      obtain ⟨k, _, hgate⟩ := List.mem_filterMap.mp hp
      have hentered := (h.current k p hgate).2.1
      exact ⟨hkept hentered, hlast p hentered⟩
    · rw [hother j hji] at hj
      have hbefore := h.earlier j ps hj p hp
      exact ⟨hkept hbefore.1, hbefore.2⟩
  current := by
    intro k g hg
    by_cases hk : k ∈ keys i
    · have hgi : i = g := by simpa [KeyLocks.take, hk] using hg
      subst hgi
      rw [hi']
      exact ⟨hk, trivial, nofun⟩
    · have hold : locks.gate k = some g := by simpa [KeyLocks.take, hk] using hg
      have hcurrent := h.current k g hold
      have hne : g ≠ i := by
        rintro rfl
        exact hk hcurrent.1
      rw [hother g hne]
      exact hcurrent

/-- A task that goes on waits for nobody. -/
lemma Linked.earlier_of (hi : (phase i).Entered) (hi' : (phase' i).Entered)
    (hready : ∀ ps, phase' i ≠ .waiting ps) (j : ι) (ps : List ι)
    (hj : phase' j = .waiting ps) : ∀ p ∈ ps, (phase' p).Entered ∧ rank p < rank j := by
  intro p hp
  by_cases hji : j = i
  · exact absurd (hji ▸ hj) (hready ps)
  · have hbefore := h.earlier j ps ((hother j hji).symm.trans hj) p hp
    exact ⟨(entered_iff hother hi hi' p).mpr hbefore.1, hbefore.2⟩

lemma Linked.hold {ps : List ι} (hi : phase i = .waiting ps) (hi' : phase' i = .holding) :
    Linked locks keys phase' rank where
  earlier := h.earlier_of hother (by rw [hi]; trivial) (by rw [hi']; trivial) (by rw [hi']; nofun)
  current := by
    intro k g hg
    have hcurrent := h.current k g hg
    by_cases hgi : g = i
    · subst hgi
      rw [hi']
      exact ⟨hcurrent.1, trivial, nofun⟩
    · rw [hother g hgi]
      exact hcurrent

lemma Linked.release [DecidableEq κ] [DecidableEq ι]
    (hi : phase i = .holding) (hi' : phase' i = .left) :
    Linked (locks.release i (keys i)) keys phase' rank where
  earlier := h.earlier_of hother (by rw [hi]; trivial) (by rw [hi']; trivial) (by rw [hi']; nofun)
  current := by
    intro k g hg
    by_cases hmine : k ∈ keys i ∧ locks.gate k = some i
    · simp [KeyLocks.release, hmine] at hg
    · have hold : locks.gate k = some g := by simpa [KeyLocks.release, hmine] using hg
      have hcurrent := h.current k g hold
      have hgi : g ≠ i := by
        rintro rfl
        exact hmine ⟨hcurrent.1, hold⟩
      rw [hother g hgi]
      exact hcurrent

end

/-- **No deadlock.** Whom a task waits for, directly or through others, has come before it. -/
lemma Linked.rank_lt (hwaits : Relation.TransGen (WaitsFor locks phase) i j) : rank j < rank i := by
  induction hwaits with
  | single hstep =>
    obtain ⟨ps, hwaiting, hmem, _⟩ := hstep
    exact (h.earlier _ ps hwaiting _ hmem).2
  | tail _ hstep ih =>
    obtain ⟨ps, hwaiting, hmem, _⟩ := hstep
    exact lt_trans (h.earlier _ ps hwaiting _ hmem).2 ih

lemma Linked.acyclic (i : ι) : ¬ Relation.TransGen (WaitsFor locks phase) i i :=
  fun hwaits => lt_irrefl _ (h.rank_lt hwaits)

/-- While a task is outstanding, some task holds its locks or may go on. -/
lemma Linked.progress
    (hopened : ∀ i, locks.opened i = true ↔ phase i = .left) (hi : (phase i).Outstanding) :
    ∃ j, phase j = .holding ∨ ∃ ps, phase j = .waiting ps ∧ locks.Ready ps := by
  -- by induction on the rank: a task that may not go on waits for an earlier one
  induction hrank : rank i using Nat.strong_induction_on generalizing i with
  | _ n ih =>
    cases hphase : phase i with
    | outside => exact absurd hi.1 (by rw [hphase]; exact id)
    | left => exact absurd hphase hi.2
    | holding => exact ⟨i, .inl hphase⟩
    | waiting ps =>
      by_cases hready : locks.Ready ps
      · exact ⟨i, .inr ⟨ps, hphase, hready⟩⟩
      · unfold Ready at hready
        push Not at hready
        obtain ⟨p, hp, hclosed⟩ := hready
        obtain ⟨hentered, hlt⟩ := h.earlier i ps hphase p hp
        have hp' : (phase p).Outstanding :=
          ⟨hentered, fun hleft => hclosed ((hopened p).mpr hleft)⟩
        exact ih (rank p) (hrank ▸ hlt) hp' rfl

/-- When no task is outstanding, no gate is left. -/
lemma Linked.gate_eq_none (hall : ∀ i, ¬ (phase i).Outstanding) (k : κ) : locks.gate k = none := by
  cases hgate : locks.gate k with
  | none => rfl
  | some g => exact absurd (h.current k g hgate).2 (hall g)

end KeyLocks

end Dkg.Lib
