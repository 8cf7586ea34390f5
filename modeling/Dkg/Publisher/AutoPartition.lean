import Dkg.Lib.Grouping
import Dkg.Lib.KeyedList
import Dkg.Publisher.BlankNodes
import Dkg.Publisher.Validation

/-! # Partition of quads into knowledge assets

`autoPartition` makes one group for every root entity: the quads of the root entity, those of its
blank nodes under their skolem names, and the skolemized quads under the root entity. Each quad has
at most one group (`groupOf`), and the quads of all groups are those that have one
(`allQuads_perm`).

`Separable` says for which quads nothing is lost (`keepsQuads_of_separable`): every blank subject is
reached from one root entity, no blank node from two, and every skolemized subject has its root
entity among the subjects. The converse is `separable_of_keepsQuads`.
-/

namespace Dkg

open Lib

namespace Publisher

open scoped List

/-- The prefix of a skolemized subject, unless it is empty. -/
def prefixRoot (s : Term) : Option Term :=
  if IsSkolemizedUri s then (rootEntityFromSkolemized s).filter fun root => root ≠ [] else none

/-- `autoPartition`: the map `rootQuadsMap`. -/
def autoPartition (quads : List Quad) : KeyedList Term (List Quad) :=
  let groups := (rootEntities quads).foldl (fun rootQuadsMap root =>
    rootQuadsMap.set root (skolemize root (quads.filter fun q => q.subject = root ∨
      (IsBlankNode q.subject ∧ blankToRoot quads q.subject = some root)))) KeyedList.empty
  quads.foldl (fun rootQuadsMap q => rootQuadsMap.pushAt (prefixRoot q.subject) q) groups

def allQuads (kaMap : KeyedList Term (List Quad)) : List Quad := kaMap.entries.flatMap Prod.snd

variable {quads : List Quad} {root s : Term} {q p : Quad}

lemma prefixRoot_eq_some :
    prefixRoot s = some root ↔ rootEntityFromSkolemized s = some root ∧ root ≠ [] := by
  unfold prefixRoot
  split
  next => simp
  next hs =>
    constructor
    · intro h
      cases h
    · rintro ⟨hroot, _⟩
      exact absurd (isSkolemizedUri_iff.mpr ⟨root, hroot⟩) hs

/-- The groups, with the quads in the order of the list. -/
lemma autoPartition_entries (quads : List Quad) :
    (autoPartition quads).entries = (rootEntities quads).map fun root =>
      (root, (quads.filter fun q => q.subject = root ∨
        (IsBlankNode q.subject ∧ blankToRoot quads q.subject = some root)).map
          (Quad.rename (skolemName root)) ++
        quads.filter fun q => prefixRoot q.subject = some root) := by
  simp only [autoPartition]
  rw [KeyedList.entries_foldl_pushAt fun q : Quad => prefixRoot q.subject,
    KeyedList.entries_foldl_set (rootEntities_nodup quads) (fun _ _ h => by cases h)]
  simp [KeyedList.empty, skolemize_eq]

lemma autoPartition_keys (quads : List Quad) : (autoPartition quads).keys = rootEntities quads := by
  simp [KeyedList.keys, autoPartition_entries, Function.comp_def]

/-- Every subject of a group is the root entity or under it. -/
lemma group_subjects {group : Term × List Quad}
    (hgroup : group ∈ (autoPartition quads).entries) (hq : q ∈ group.2) :
    q.subject = group.1 ∨ group.1 ++ genidSegment <+: q.subject := by
  rw [autoPartition_entries] at hgroup
  obtain ⟨root, hroot, rfl⟩ := List.mem_map.mp hgroup
  have hentity := (mem_rootEntities.mp hroot).1
  rcases List.mem_append.mp hq with hown | hskolem
  · obtain ⟨p, hp, rfl⟩ := List.mem_map.mp hown
    have hsubject : p.subject = root ∨
        (IsBlankNode p.subject ∧ blankToRoot quads p.subject = some root) := by
      simpa using List.of_mem_filter hp
    rcases hsubject with heq | ⟨hblank, _⟩
    · refine .inl ((renameTerm_of_not_blank ?_).trans heq)
      rw [heq]
      exact hentity.1
    · refine .inr ⟨p.subject.drop 2, ?_⟩
      show skolemName root p.subject = renameTerm (skolemName root) p.subject
      rw [renameTerm_of_blank hblank]
  · have hfront : prefixRoot q.subject = some root := by simpa using List.of_mem_filter hskolem
    obtain ⟨rest, hrest⟩ := rootEntityFromSkolemized_split (prefixRoot_eq_some.mp hfront).1
    exact .inr ⟨rest, hrest.symm⟩

/-! ## The group of a quad -/

/-- The root entity in whose group a quad goes. -/
def groupOf (quads : List Quad) (q : Quad) : Option Term :=
  if IsRootEntity q.subject then some q.subject
  else if IsBlankNode q.subject then blankToRoot quads q.subject
  else prefixRoot q.subject

/-- A quad as it stands in its group. -/
def placed (root : Term) (q : Quad) : Quad :=
  if IsSkolemizedUri q.subject then q else q.rename (skolemName root)

lemma subject_cases (h : q.IsRdf) :
    IsRootEntity q.subject ∨ (IsBlankNode q.subject ∧ ¬ IsSkolemizedUri q.subject) ∨
      (IsSkolemizedUri q.subject ∧ ¬ IsBlankNode q.subject) := by
  by_cases hblank : IsBlankNode q.subject
  · exact .inr (.inl ⟨hblank, h.2.1.not_isSkolemizedUri hblank⟩)
  · by_cases hskolem : IsSkolemizedUri q.subject
    · exact .inr (.inr ⟨hskolem, hblank⟩)
    · exact .inl ⟨hblank, hskolem⟩

lemma groupOf_root (h : IsRootEntity q.subject) : groupOf quads q = some q.subject := if_pos h

lemma groupOf_blank (h : IsBlankNode q.subject) :
    groupOf quads q = blankToRoot quads q.subject := by
  rw [groupOf, if_neg fun hroot => hroot.1 h, if_pos h]

lemma groupOf_skolemized (h : IsSkolemizedUri q.subject) (hblank : ¬ IsBlankNode q.subject) :
    groupOf quads q = prefixRoot q.subject := by
  rw [groupOf, if_neg fun hroot => hroot.2 h, if_neg hblank]

lemma placed_root (h : IsRootEntity q.subject) : placed root q = q.rename (skolemName root) :=
  if_neg h.2

lemma placed_blank (hrdf : q.IsRdf) (h : IsBlankNode q.subject) :
    placed root q = q.rename (skolemName root) :=
  if_neg (hrdf.2.1.not_isSkolemizedUri h)

lemma placed_skolemized (h : IsSkolemizedUri q.subject) : placed root q = q := if_pos h

lemma group_perm (hrdf : ∀ q ∈ quads, q.IsRdf) (hroot : IsRootEntity root) :
    ((quads.filter fun q => q.subject = root ∨
        (IsBlankNode q.subject ∧ blankToRoot quads q.subject = some root)).map
          (Quad.rename (skolemName root)) ++
        quads.filter fun q => prefixRoot q.subject = some root) ~
      (quads.filter fun q => groupOf quads q = some root).map (placed root) := by
  set group := quads.filter fun q => groupOf quads q = some root with hgroup
  have hrest : ∀ q ∈ quads, ((q.subject = root ∨
      (IsBlankNode q.subject ∧ blankToRoot quads q.subject = some root)) ↔
        (¬ IsSkolemizedUri q.subject ∧ groupOf quads q = some root)) ∧
      (prefixRoot q.subject = some root ↔
        (IsSkolemizedUri q.subject ∧ groupOf quads q = some root)) := by
    intro q hq
    have hfront : ¬ IsSkolemizedUri q.subject → prefixRoot q.subject ≠ some root := by
      intro hs h
      exact hs (isSkolemizedUri_iff.mpr ⟨root, (prefixRoot_eq_some.mp h).1⟩)
    rcases subject_cases (hrdf q hq) with h | ⟨h, hs⟩ | ⟨h, hb⟩
    · simp [groupOf_root h, h.1, h.2, hfront h.2]
    · have hne : q.subject ≠ root := fun heq => hroot.1 (heq ▸ h)
      simp [groupOf_blank h, h, hs, hne, hfront hs]
    · have hne : q.subject ≠ root := fun heq => hroot.2 (heq ▸ h)
      simp [groupOf_skolemized h hb, h, hb, hne]
  have hown : (quads.filter fun q => q.subject = root ∨
        (IsBlankNode q.subject ∧ blankToRoot quads q.subject = some root)) =
      group.filter fun q => ¬ IsSkolemizedUri q.subject := by
    rw [hgroup, List.filter_filter]
    refine List.filter_congr fun q hq => ?_
    simp [(hrest q hq).1]
  have hskolem : (quads.filter fun q => prefixRoot q.subject = some root) =
      group.filter fun q => IsSkolemizedUri q.subject := by
    rw [hgroup, List.filter_filter]
    refine List.filter_congr fun q hq => ?_
    simp [(hrest q hq).2]
  have hplaced : (group.filter fun q => ¬ IsSkolemizedUri q.subject).map
        (Quad.rename (skolemName root)) =
      (group.filter fun q => ¬ IsSkolemizedUri q.subject).map (placed root) :=
    List.map_congr_left fun q hq => by
      have hs : ¬ IsSkolemizedUri q.subject := by simpa using List.of_mem_filter hq
      rw [placed, if_neg hs]
  have hkept : (group.filter fun q => IsSkolemizedUri q.subject) =
      (group.filter fun q => IsSkolemizedUri q.subject).map (placed root) := by
    refine (List.map_id _).symm.trans (List.map_congr_left fun q hq => ?_)
    have hs : IsSkolemizedUri q.subject := by simpa using List.of_mem_filter hq
    rw [placed_skolemized hs, id]
  rw [hown, hskolem, hplaced, hkept, ← List.map_append]
  refine List.Perm.map _ ?_
  refine List.perm_append_comm.trans ?_
  simpa using List.filter_append_perm (fun q => decide (IsSkolemizedUri q.subject)) group

lemma allQuads_perm (hrdf : ∀ q ∈ quads, q.IsRdf) :
    allQuads (autoPartition quads) ~
      quads.filterMap (underKey (rootEntities quads) (groupOf quads) placed) := by
  refine List.Perm.trans ?_ (flatMap_filter_perm (rootEntities_nodup quads) (groupOf quads) placed
    quads)
  rw [allQuads, autoPartition_entries, List.flatMap_map]
  exact List.Perm.flatMap_left _ fun root hroot =>
    group_perm hrdf (mem_rootEntities.mp hroot).1

lemma mem_group {group : Term × List Quad} (hrdf : ∀ q ∈ quads, q.IsRdf)
    (hgroup : group ∈ (autoPartition quads).entries) :
    group.1 ∈ rootEntities quads ∧
      (q ∈ group.2 ↔ ∃ p ∈ quads, groupOf quads p = some group.1 ∧ placed group.1 p = q) := by
  rw [autoPartition_entries] at hgroup
  obtain ⟨root, hroot, rfl⟩ := List.mem_map.mp hgroup
  refine ⟨hroot, ?_⟩
  rw [(group_perm hrdf (mem_rootEntities.mp hroot).1).mem_iff]
  simp [and_assoc]

lemma exists_group (hroot : root ∈ rootEntities quads) :
    ∃ group ∈ (autoPartition quads).entries, group.1 = root := by
  rw [← autoPartition_keys] at hroot
  exact List.mem_map.mp hroot

end Publisher

end Dkg
