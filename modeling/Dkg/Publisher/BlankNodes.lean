import Dkg.Publisher.Terms

/-! # The root entities of blank nodes

`blankToRoot` gives each blank node the root entity that refers to it, or the one of a blank node
that does. It is the loop of the source, run until a pass changes nothing (`propagate_done`).
`Reaches quads R b` says that some chain of quads leads from `R` to `b`: every root entity that is
given reaches the node, and a node that is reached is given one.
-/

namespace Dkg.Publisher

open List Function

/-- What makes a subject the root entity of a knowledge asset. -/
def IsRootEntity (subject : Term) : Prop := ¬ IsBlankNode subject ∧ ¬ IsSkolemizedUri subject
  deriving Decidable

def rootEntities (quads : List Quad) : List Term :=
  quads.foldl (fun roots q =>
    if IsRootEntity q.subject ∧ q.subject ∉ roots then roots ++ [q.subject] else roots) []

/-- The map `blankToRoot` under construction. -/
abbrev Owners := Term → Option Term

def directQuad (roots : List Term) (owners : Owners) (q : Quad) : Owners :=
  if q.subject ∈ roots ∧ IsBlankNode q.object then
    update owners q.object (some q.subject)
  else owners

/-- Blank nodes that are objects of a root entity; the last one counts. -/
def directRoots (roots : List Term) (quads : List Quad) : Owners :=
  quads.foldl (directQuad roots) fun _ => none

/-- One quad of a pass, with the flag `changed`. -/
def propagateQuad (state : Bool × Owners) (q : Quad) : Bool × Owners :=
  match state.2 q.subject with
  | some root =>
    if IsBlankNode q.subject ∧ IsBlankNode q.object ∧ state.2 q.object = none then
      (true, update state.2 q.object (some root))
    else state
  | none => state

def propagatePass (quads : List Quad) (owners : Owners) : Bool × Owners :=
  quads.foldl propagateQuad (false, owners)

/-- `while (changed)`, with a bound on the passes. -/
def propagate (quads : List Quad) : ℕ → Owners → Owners
  | 0, owners => owners
  | n + 1, owners =>
    if (propagatePass quads owners).1 then propagate quads n (propagatePass quads owners).2
    else (propagatePass quads owners).2

def blankToRoot (quads : List Quad) : Owners :=
  propagate quads (quads.length + 1) (directRoots (rootEntities quads) quads)

variable {quads : List Quad} {owners : Owners} {root bn : Term}

lemma mem_rootEntities :
    root ∈ rootEntities quads ↔ IsRootEntity root ∧ ∃ q ∈ quads, q.subject = root := by
  have key : ∀ (qs : List Quad) (roots : List Term),
      root ∈ qs.foldl (fun roots q =>
        if IsRootEntity q.subject ∧ q.subject ∉ roots then roots ++ [q.subject] else roots) roots ↔
      root ∈ roots ∨ (IsRootEntity root ∧ ∃ q ∈ qs, q.subject = root) := by
    intro qs
    induction qs with
    | nil => simp
    | cons q qs ih =>
      intro roots
      rw [foldl_cons, ih]
      by_cases hq : q.subject = root
      · subst hq
        by_cases hroot : IsRootEntity q.subject
        · by_cases hmem : q.subject ∈ roots
          · simp [hmem]
          · simp [hroot, hmem]
        · simp [hroot]
      · have hadd : (root ∈ if IsRootEntity q.subject ∧ q.subject ∉ roots then
            roots ++ [q.subject] else roots) ↔ root ∈ roots := by
          split
          next => simp [Ne.symm hq]
          next => exact Iff.rfl
        simp [hadd, hq]
  simpa [rootEntities] using key quads []

lemma rootEntities_nodup (quads : List Quad) : (rootEntities quads).Nodup := by
  unfold rootEntities
  refine foldlRecOn quads _ nodup_nil fun roots hroots q _ => ?_
  split
  next h => exact concat_eq_append ▸ hroots.concat h.2
  next => exact hroots

/-! ## Chains of quads -/

/-- A blank node that hangs from a root entity. -/
inductive Reaches (quads : List Quad) (root : Term) : Term → Prop
  | direct {q : Quad} (hq : q ∈ quads) (hroot : IsRootEntity q.subject)
      (hsubject : q.subject = root) (hblank : IsBlankNode q.object) : Reaches quads root q.object
  | through {q : Quad} (hq : q ∈ quads) (h : Reaches quads root q.subject)
      (hblank : IsBlankNode q.object) : Reaches quads root q.object

lemma Reaches.isBlankNode (h : Reaches quads root bn) : IsBlankNode bn := by
  cases h with
  | direct _ _ _ hblank => exact hblank
  | through _ _ hblank => exact hblank

lemma Reaches.mem_rootEntities (h : Reaches quads root bn) : root ∈ rootEntities quads := by
  induction h with
  | direct hq hroot hsubject _ =>
    exact Publisher.mem_rootEntities.mpr ⟨hsubject ▸ hroot, _, hq, hsubject⟩
  | through _ _ _ ih => exact ih

/-- Every owner reaches its node, and some quad of the owner's group has the node as its object. -/
structure Owned (quads : List Quad) (owners : Owners) : Prop where
  reaches : ∀ {bn root}, owners bn = some root → Reaches quads root bn
  origin : ∀ {bn root}, owners bn = some root → ∃ q ∈ quads, q.object = bn ∧
    ((IsRootEntity q.subject ∧ q.subject = root) ∨
      (IsBlankNode q.subject ∧ owners q.subject = some root))

lemma directRoots_owned : Owned quads (directRoots (rootEntities quads) quads) := by
  have key : ∀ {bn root}, directRoots (rootEntities quads) quads bn = some root →
      ∃ q ∈ quads, q.object = bn ∧ IsBlankNode bn ∧ IsRootEntity q.subject ∧ q.subject = root := by
    refine foldlRecOn (motive := fun owners : Owners => ∀ {bn root}, owners bn = some root →
      ∃ q ∈ quads, q.object = bn ∧ IsBlankNode bn ∧ IsRootEntity q.subject ∧ q.subject = root)
      quads (directQuad (rootEntities quads)) (fun h => by cases h) fun owners ih q hq bn root h =>
          ?_
    unfold directQuad at h
    split at h
    next hcond =>
      by_cases hbn : bn = q.object
      · subst hbn
        rw [update_self] at h
        exact ⟨q, hq, rfl, hcond.2, (mem_rootEntities.mp hcond.1).1, Option.some.inj h⟩
      · rw [update_of_ne hbn] at h
        exact ih h
    next => exact ih h
  constructor
  · intro bn root h
    obtain ⟨q, hq, rfl, hblank, hroot, hsubject⟩ := key h
    exact .direct hq hroot hsubject hblank
  · intro bn root h
    obtain ⟨q, hq, hobject, _, hroot⟩ := key h
    exact ⟨q, hq, hobject, .inl hroot⟩

/-! ## One pass -/

lemma propagateQuad_cases (state : Bool × Owners) (q : Quad) :
    (propagateQuad state q = state ∧ (IsBlankNode q.subject → IsBlankNode q.object →
      (state.2 q.subject).isSome → (state.2 q.object).isSome)) ∨
    ∃ root, state.2 q.subject = some root ∧ IsBlankNode q.subject ∧ IsBlankNode q.object ∧
      state.2 q.object = none ∧
      propagateQuad state q = (true, update state.2 q.object (some root)) := by
  unfold propagateQuad
  split
  next root hroot =>
    split
    next hcond => exact .inr ⟨root, hroot, hcond.1, hcond.2.1, hcond.2.2, rfl⟩
    next hcond =>
      refine .inl ⟨rfl, fun hs ho _ => ?_⟩
      rw [Option.isSome_iff_ne_none]
      exact fun hnone => hcond ⟨hs, ho, hnone⟩
  next hnone => exact .inl ⟨rfl, fun _ _ h => by simp [hnone] at h⟩

lemma propagateQuad_mono (state : Bool × Owners) (q : Quad) (h : state.2 bn = some root) :
    (propagateQuad state q).2 bn = some root := by
  rcases propagateQuad_cases state q with ⟨heq, _⟩ | ⟨root', _, _, _, hnone, heq⟩
  · rw [heq]
    exact h
  · have hne : bn ≠ q.object := by
      rintro rfl
      rw [hnone] at h
      cases h
    rw [heq]
    simp only [update_of_ne hne]
    exact h

lemma propagateQuad_owned {state : Bool × Owners} {q : Quad} (hq : q ∈ quads)
    (h : Owned quads state.2) : Owned quads (propagateQuad state q).2 := by
  have hmono : ∀ {bn root}, state.2 bn = some root → (propagateQuad state q).2 bn = some root :=
    propagateQuad_mono state q
  rcases propagateQuad_cases state q with ⟨heq, _⟩ | ⟨root, hroot, hs, ho, hnone, heq⟩
  · rw [heq]
    exact h
  · have hnew : ∀ {bn root'}, (propagateQuad state q).2 bn = some root' →
        (bn = q.object ∧ root' = root) ∨ state.2 bn = some root' := by
      intro bn root' hbn
      rw [heq] at hbn
      by_cases hobject : bn = q.object
      · subst hobject
        simp only [update_self] at hbn
        exact .inl ⟨rfl, (Option.some.inj hbn).symm⟩
      · simp only [update_of_ne hobject] at hbn
        exact .inr hbn
    constructor
    · intro bn root' hbn
      rcases hnew hbn with ⟨rfl, rfl⟩ | hold
      · exact .through hq (h.reaches hroot) ho
      · exact h.reaches hold
    · intro bn root' hbn
      rcases hnew hbn with ⟨rfl, rfl⟩ | hold
      · exact ⟨q, hq, rfl, .inr ⟨hs, hmono hroot⟩⟩
      · obtain ⟨p, hp, hobject, horigin⟩ := h.origin hold
        exact ⟨p, hp, hobject, horigin.imp_right fun hb => ⟨hb.1, hmono hb.2⟩⟩

lemma propagatePass_owned (h : Owned quads owners) : Owned quads (propagatePass quads owners).2 :=
  foldlRecOn (motive := fun state => Owned quads state.2) quads propagateQuad h
    fun _ hstate _ hq => propagateQuad_owned hq hstate

lemma propagatePass_mono (h : owners bn = some root) :
    (propagatePass quads owners).2 bn = some root :=
  foldlRecOn (motive := fun state => state.2 bn = some root) quads propagateQuad h
    fun state hstate q _ => propagateQuad_mono state q hstate

/-- A pass that raises no flag has left the map alone, and found nothing to do. -/
lemma propagatePass_unchanged (h : (propagatePass quads owners).1 = false) :
    (propagatePass quads owners).2 = owners ∧ ∀ q ∈ quads, IsBlankNode q.subject →
      IsBlankNode q.object → (owners q.subject).isSome → (owners q.object).isSome := by
  have key : ∀ (qs : List Quad) (state : Bool × Owners), (qs.foldl propagateQuad state).1 = false →
      qs.foldl propagateQuad state = state ∧ ∀ q ∈ qs, IsBlankNode q.subject →
        IsBlankNode q.object → (state.2 q.subject).isSome → (state.2 q.object).isSome := by
    intro qs
    induction qs with
    | nil => simp
    | cons q qs ih =>
      intro state hflag
      rw [foldl_cons] at hflag ⊢
      obtain ⟨hrest, hdone⟩ := ih _ hflag
      rw [hrest] at hflag ⊢
      rcases propagateQuad_cases state q with ⟨heq, hq⟩ | ⟨root, _, _, _, _, heq⟩
      · rw [heq] at hdone ⊢
        exact ⟨rfl, forall_mem_cons.mpr ⟨hq, hdone⟩⟩
      · rw [heq] at hflag
        cases hflag
  obtain ⟨hsame, hdone⟩ := key quads (false, owners) h
  exact ⟨by rw [propagatePass, hsame], hdone⟩

/-! ## The loop ends -/

/-- The quads whose object has no owner. -/
def unowned (quads : List Quad) (owners : Owners) : List Quad :=
  quads.filter fun q => owners q.object = none

/-- A pass that raises the flag leaves fewer objects without an owner. -/
lemma propagatePass_changed (h : (propagatePass quads owners).1 = true) :
    (unowned quads (propagatePass quads owners).2).length < (unowned quads owners).length := by
  have hless : ∀ {owners owners' : Owners} {q : Quad}, q ∈ quads → owners q.object = none →
      (owners' q.object).isSome → (∀ bn root, owners bn = some root → owners' bn = some root) →
      (unowned quads owners').length < (unowned quads owners).length := by
    intro owners owners' q hq hnone hsome hmono
    have hfilter : unowned quads owners' =
        (unowned quads owners).filter fun q => owners' q.object = none := by
      unfold unowned
      rw [filter_filter]
      refine filter_congr fun p _ => ?_
      cases hp : owners p.object with
      | none => simp
      | some root => simp [hmono _ _ hp]
    rw [hfilter, length_filter_lt_length_iff_exists]
    exact ⟨q, mem_filter.mpr ⟨hq, by simpa using hnone⟩, by
      simpa [Option.isSome_iff_ne_none] using hsome⟩
  have key : (propagatePass quads owners).1 = true →
      ∃ q ∈ quads, owners q.object = none ∧ ((propagatePass quads owners).2 q.object).isSome := by
    unfold propagatePass
    refine (foldlRecOn (motive := fun state : Bool × Owners =>
      (∀ bn root, owners bn = some root → state.2 bn = some root) ∧ (state.1 = true →
        ∃ q ∈ quads, owners q.object = none ∧ (state.2 q.object).isSome)) quads propagateQuad
      ⟨fun _ _ h => h, fun h => by cases h⟩ fun state hstate q hq => ?_).2
    have hmono : ∀ bn root, owners bn = some root → (propagateQuad state q).2 bn = some root :=
      fun bn root hold => propagateQuad_mono state q (hstate.1 bn root hold)
    refine ⟨hmono, fun hflag => ?_⟩
    rcases propagateQuad_cases state q with ⟨heq, _⟩ | ⟨root, _, _, _, hnone, heq⟩
    · rw [heq] at hflag
      obtain ⟨p, hp, hbefore, hafter⟩ := hstate.2 hflag
      exact ⟨p, hp, hbefore, by rw [heq]; exact hafter⟩
    · refine ⟨q, hq, ?_, by rw [heq]; simp⟩
      cases hold : owners q.object with
      | none => rfl
      | some root' =>
        rw [hstate.1 _ _ hold] at hnone
        cases hnone
  obtain ⟨q, hq, hnone, hsome⟩ := key h
  exact hless hq hnone hsome fun bn root => propagatePass_mono

/-- With one pass more than there are objects without an owner, the loop ends by its own
condition. -/
lemma propagate_done {n : ℕ} (hn : (unowned quads owners).length < n) :
    (propagatePass quads (propagate quads n owners)).1 = false := by
  induction n generalizing owners with
  | zero => omega
  | succ n ih =>
    unfold propagate
    split
    next hchanged =>
      have hless := propagatePass_changed hchanged
      exact ih (by omega)
    next hchanged =>
      have hflag : (propagatePass quads owners).1 = false := by simpa using hchanged
      rw [(propagatePass_unchanged hflag).1]
      exact hflag

lemma propagate_owned (n : ℕ) (h : Owned quads owners) :
    Owned quads (propagate quads n owners) := by
  induction n generalizing owners with
  | zero => exact h
  | succ n ih =>
    unfold propagate
    split
    next => exact ih (propagatePass_owned h)
    next => exact propagatePass_owned h

lemma propagate_mono (n : ℕ) (h : owners bn = some root) :
    propagate quads n owners bn = some root := by
  induction n generalizing owners with
  | zero => exact h
  | succ n ih =>
    unfold propagate
    split
    next => exact ih (propagatePass_mono h)
    next => exact propagatePass_mono h

/-! ## The map -/

lemma blankToRoot_owned (quads : List Quad) : Owned quads (blankToRoot quads) :=
  propagate_owned _ directRoots_owned

lemma blankToRoot_closed {q : Quad} (hq : q ∈ quads) (hs : IsBlankNode q.subject)
    (ho : IsBlankNode q.object) (h : (blankToRoot quads q.subject).isSome) :
    (blankToRoot quads q.object).isSome := by
  have hfuel : (unowned quads (directRoots (rootEntities quads) quads)).length < quads.length + 1 :=
    Nat.lt_succ_of_le (length_filter_le _ _)
  exact (propagatePass_unchanged (propagate_done hfuel)).2 q hq hs ho h

lemma directRoots_isSome {q : Quad} (hq : q ∈ quads) (hroot : IsRootEntity q.subject)
    (ho : IsBlankNode q.object) : (directRoots (rootEntities quads) quads q.object).isSome := by
  have hmem : q.subject ∈ rootEntities quads := mem_rootEntities.mpr ⟨hroot, q, hq, rfl⟩
  have key : ∀ (qs : List Quad) (owners : Owners), q ∈ qs ∨ (owners q.object).isSome →
      (qs.foldl (directQuad (rootEntities quads)) owners q.object).isSome := by
    intro qs
    induction qs with
    | nil => simp
    | cons p qs ih =>
      intro owners h
      rw [foldl_cons]
      refine ih _ ?_
      unfold directQuad
      by_cases hobject : q.object = p.object
      · by_cases hp : p.subject ∈ rootEntities quads
        · exact .inr (by simp [hp, ← hobject, ho])
        · rcases h with h | h
          · rcases mem_cons.mp h with rfl | h
            · exact absurd hmem hp
            · exact .inl h
          · exact .inr (by simp [hp, h])
      · rcases h with h | h
        · rcases mem_cons.mp h with rfl | h
          · exact absurd rfl hobject
          · exact .inl h
        · refine .inr ?_
          split
          next => rwa [update_of_ne hobject]
          next => exact h
  exact key quads _ (.inl hq)

lemma Reaches.isSome (h : Reaches quads root bn) : (blankToRoot quads bn).isSome := by
  induction h with
  | direct hq hroot _ hblank =>
    obtain ⟨r, hr⟩ := Option.isSome_iff_exists.mp (directRoots_isSome hq hroot hblank)
    rw [blankToRoot, propagate_mono _ hr]
    rfl
  | through hq h hblank ih => exact blankToRoot_closed hq h.isBlankNode hblank ih

end Dkg.Publisher
