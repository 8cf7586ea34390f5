import Dkg.Publisher.AutoPartition

/-! # Which quads the partition keeps

`KeepsQuads` is what the groups of `autoPartition` are for: up to one renaming of the blank nodes
they hold the quads that came in, each in one group, and pass the rules of the partition. They do
exactly when the quads are `Separable`.

The converse counts names. All quads have a group, since none is lost. The renaming gives as many
names to blank objects as there are blank objects, and the groups give each blank object one name
for every group it is in, so each is in one group only.
-/

namespace Dkg

open Lib Quad Option

namespace Publisher

open scoped List

/-- A root entity among the subjects. -/
def IsRootOf (quads : List Quad) (root : Term) : Prop :=
  IsRootEntity root ∧ ∃ q ∈ quads, q.subject = root

/-- Nothing is lost, and blank nodes stay what they are. -/
structure KeepsQuads (quads : List Quad) : Prop where
  renamed : ∃ name : Term → Term, (∀ bn ∈ blankNodes quads, IsIri (name bn)) ∧
    (∀ bn ∈ blankNodes quads, ∀ bn' ∈ blankNodes quads, name bn = name bn' → bn = bn') ∧
    allQuads (autoPartition quads) ~ quads.map (rename name)
  one_group : ∀ q ∈ allQuads (autoPartition quads),
    ∃! group, group ∈ (autoPartition quads).entries ∧ q ∈ group.2
  subjects : ∀ group ∈ (autoPartition quads).entries, ∀ q ∈ group.2,
    q.subject = group.1 ∨ group.1 ++ genidSegment <+: q.subject
  rules : ∀ (privateTripleCount : Term → Option ℕ) (contextGraphId : Term)
    (existingEntities : List Term) (options : ValidationOptions),
    ∀ e ∈ validatePublishRequest (allQuads (autoPartition quads))
      ((autoPartition quads).keys.map fun root => ⟨root, privateTripleCount root⟩)
      contextGraphId existingEntities options, ¬ e.IsPartition

/-- Every quad belongs to one root entity. -/
structure Separable (quads : List Quad) : Prop where
  reached : ∀ q ∈ quads, IsBlankNode q.subject → ∃ root, Reaches quads root q.subject
  unique : ∀ {bn root root'}, Reaches quads root bn → Reaches quads root' bn → root = root'
  skolemized : ∀ q ∈ quads, IsSkolemizedUri q.subject → ¬ IsBlankNode q.object ∧
    ∃ root, IsRootOf quads root ∧ root ≠ [] ∧ rootEntityFromSkolemized q.subject = some root
  -- fails for a root entity that ends in `/.well-known/genid`, unless its own prefix is one
  named : ∀ q ∈ quads, ∀ root, Reaches quads root q.subject →
    ∃ root', IsRootOf quads root' ∧ root' ≠ [] ∧
      rootEntityFromSkolemized (skolemName root q.subject) = some root'
  apart : ∀ q ∈ quads, ∀ root, Reaches quads root q.subject → ∀ p ∈ quads,
    IsSkolemizedUri p.subject → q.rename (skolemName root) = p →
      rootEntityFromSkolemized p.subject = some root

variable {quads : List Quad} {root root' bn : Term} {q p : Quad}

/-! ## The quads of the groups -/

lemma mem_allQuads (hrdf : ∀ q ∈ quads, q.IsRdf) : q ∈ allQuads (autoPartition quads) ↔
    ∃ root ∈ rootEntities quads, ∃ p ∈ quads, groupOf quads p = some root ∧ placed root p = q := by
  constructor
  · intro hq
    obtain ⟨group, hgroup, hmem⟩ := List.mem_flatMap.mp hq
    obtain ⟨hroot, hiff⟩ := mem_group hrdf hgroup
    exact ⟨group.1, hroot, hiff.mp hmem⟩
  · rintro ⟨root, hroot, hp⟩
    obtain ⟨group, hgroup, rfl⟩ := exists_group hroot
    exact List.mem_flatMap.mpr ⟨group, hgroup, (mem_group hrdf hgroup).2.mpr hp⟩

lemma placed_not_blank (hrdf : q.IsRdf) (hroot : IsRootEntity root) :
    ¬ IsBlankNode (placed root q).subject := by
  rcases subject_cases hrdf with h | ⟨h, _⟩ | ⟨h, hb⟩
  · rw [placed_root h]
    simp [rename, h.1]
  · rw [placed_blank hrdf h]
    have hname : ¬ IsBlankNode (skolemName root q.subject) :=
      fun hb => hroot.1 ((isBlankNode_append_iff root _).mp hb)
    simpa [rename, h] using hname
  · rw [placed_skolemized h]
    exact hb

lemma root_hasTriples (hrdf : ∀ q ∈ quads, q.IsRdf) (hroot : root ∈ rootEntities quads) :
    HasTriples (allQuads (autoPartition quads)) root := by
  obtain ⟨hentity, q, hq, rfl⟩ := mem_rootEntities.mp hroot
  refine ⟨placed q.subject q, (mem_allQuads hrdf).mpr ⟨_, hroot, q, hq, groupOf_root hentity, rfl⟩,
    .inl ?_⟩
  rw [placed_root hentity]
  simp [rename, hentity.1]

lemma partition_rules_iff (hrdf : ∀ q ∈ quads, q.IsRdf) (privateTripleCount : Term → Option ℕ)
    (contextGraphId : Term) (existingEntities : List Term) (options : ValidationOptions) :
    (∀ e ∈ validatePublishRequest (allQuads (autoPartition quads))
      ((autoPartition quads).keys.map fun root => ⟨root, privateTripleCount root⟩)
      contextGraphId existingEntities options, ¬ e.IsPartition) ↔
    ∀ q ∈ allQuads (autoPartition quads), q.subject ∈ rootEntities quads ∨
      (skolemizedRoot (rootEntities quads) q.subject).isSome := by
  have hmanifest : ((autoPartition quads).keys.map fun root =>
      (⟨root, privateTripleCount root⟩ : KAManifestEntry)).map KAManifestEntry.rootEntity =
        rootEntities quads := by
    rw [autoPartition_keys, List.map_map]
    exact List.map_id _
  rw [no_partition_errors_iff, hmanifest]
  refine ⟨fun h => h.1, fun h => ⟨h, fun m hm => .inl ?_, fun q hq => ?_⟩⟩
  · have hmem := List.mem_map_of_mem (f := KAManifestEntry.rootEntity) hm
    rw [hmanifest] at hmem
    exact root_hasTriples hrdf hmem
  · obtain ⟨root, hroot, p, hp, _, rfl⟩ := (mem_allQuads hrdf).mp hq
    exact placed_not_blank (hrdf p hp) (mem_rootEntities.mp hroot).1

/-! ## Separable quads are kept -/

lemma Separable.owner (h : Separable quads) (hreach : Reaches quads root bn) :
    blankToRoot quads bn = some root := by
  obtain ⟨root', hroot'⟩ := isSome_iff_exists.mp hreach.isSome
  rw [hroot', h.unique ((blankToRoot_owned quads).reaches hroot') hreach]

lemma Separable.exists_groupOf (h : Separable quads) (hrdf : ∀ q ∈ quads, q.IsRdf)
    (hq : q ∈ quads) : ∃ root ∈ rootEntities quads, groupOf quads q = some root := by
  rcases subject_cases (hrdf q hq) with hs | ⟨hs, _⟩ | ⟨hs, hb⟩
  · exact ⟨q.subject, mem_rootEntities.mpr ⟨hs, q, hq, rfl⟩, groupOf_root hs⟩
  · obtain ⟨root, hroot⟩ := h.reached q hq hs
    exact ⟨root, hroot.mem_rootEntities, by rw [groupOf_blank hs, h.owner hroot]⟩
  · obtain ⟨_, root, hroot, hne, hfront⟩ := h.skolemized q hq hs
    refine ⟨root, mem_rootEntities.mpr hroot, ?_⟩
    rw [groupOf_skolemized hs hb, prefixRoot_eq_some]
    exact ⟨hfront, hne⟩

lemma Separable.reaches (h : Separable quads) (hrdf : ∀ q ∈ quads, q.IsRdf)
    (hbn : bn ∈ blankNodes quads) : ∃ root, Reaches quads root bn := by
  obtain ⟨hblank, q, hq, rfl | rfl⟩ := mem_blankNodes.mp hbn
  · exact h.reached q hq hblank
  · rcases subject_cases (hrdf q hq) with hs | ⟨hs, _⟩ | ⟨hs, _⟩
    · exact ⟨q.subject, .direct hq hs rfl hblank⟩
    · obtain ⟨root, hroot⟩ := h.reached q hq hs
      exact ⟨root, .through hq hroot hblank⟩
    · exact absurd hblank (h.skolemized q hq hs).1

/-- The name of a blank node under its owner. -/
def ownName (quads : List Quad) (bn : Term) : Term :=
  skolemName ((blankToRoot quads bn).getD []) bn

section

variable (h : Separable quads) (hrdf : ∀ q ∈ quads, q.IsRdf)

include h hrdf

/-- Each quad stands in its group under the names of its blank nodes. -/
lemma Separable.placed_eq (hq : q ∈ quads)
    (hroot : groupOf quads q = some root) : placed root q = q.rename (ownName quads) := by
  have hname : ∀ {bn}, Reaches quads root bn → skolemName root bn = ownName quads bn := by
    intro bn hreach
    rw [ownName, h.owner hreach, getD_some]
  rcases subject_cases (hrdf q hq) with hs | ⟨hs, _⟩ | ⟨hs, hb⟩
  · rw [groupOf_root hs] at hroot
    rw [placed_root hs]
    exact rename_congr (fun hb => absurd hb hs.1)
      fun hb => hname (.direct hq hs (some.inj hroot) hb)
  · rw [groupOf_blank hs] at hroot
    have hreach := (blankToRoot_owned quads).reaches hroot
    rw [placed_blank (hrdf q hq) hs]
    exact rename_congr (fun _ => hname hreach) fun hb => hname (.through hq hreach hb)
  · rw [placed_skolemized hs, rename_eq_self hb (h.skolemized q hq hs).1]

lemma Separable.allQuads_perm :
    allQuads (autoPartition quads) ~ quads.map (rename (ownName quads)) := by
  refine (Publisher.allQuads_perm hrdf).trans (List.Perm.of_eq ?_)
  rw [← List.filterMap_eq_map]
  refine List.filterMap_congr fun q hq => ?_
  obtain ⟨root, hroot, hgroup⟩ := h.exists_groupOf hrdf hq
  have hkey : underKey (rootEntities quads) (groupOf quads) placed q = some (placed root q) := by
    simp [underKey, hgroup, hroot, Option.filter]
  rw [hkey, h.placed_eq hrdf hq hgroup]
  rfl

lemma Separable.groupOf_inj (hq : q ∈ quads)
    (hp : p ∈ quads) (hroot : groupOf quads q = some root) (hroot' : groupOf quads p = some root')
    (heq : placed root q = placed root' p) : root = root' := by
  have hsubject := congrArg subject heq
  rcases subject_cases (hrdf q hq) with hs | ⟨hs, hns⟩ | ⟨hs, hb⟩
  · rcases subject_cases (hrdf p hp) with hs' | ⟨hs', _⟩ | ⟨hs', hb'⟩
    · rw [groupOf_root hs] at hroot
      rw [groupOf_root hs'] at hroot'
      rw [placed_root hs, placed_root hs'] at hsubject
      simp only [rename, renameTerm_of_not_blank hs.1, renameTerm_of_not_blank hs'.1] at hsubject
      rw [← some.inj hroot, ← some.inj hroot', hsubject]
    · rw [placed_root hs, placed_blank (hrdf p hp) hs'] at hsubject
      simp only [rename, renameTerm_of_not_blank hs.1, renameTerm_of_blank hs'] at hsubject
      exact absurd (hsubject ▸ isSkolemizedUri_skolemName _ _) hs.2
    · rw [placed_root hs, placed_skolemized hs'] at hsubject
      simp only [rename, renameTerm_of_not_blank hs.1] at hsubject
      exact absurd (hsubject ▸ hs') hs.2
  · have hreach := (blankToRoot_owned quads).reaches (groupOf_blank hs ▸ hroot)
    rcases subject_cases (hrdf p hp) with hs' | ⟨hs', _⟩ | ⟨hs', hb'⟩
    · rw [placed_root hs', placed_blank (hrdf q hq) hs] at hsubject
      simp only [rename, renameTerm_of_not_blank hs'.1, renameTerm_of_blank hs] at hsubject
      exact absurd (hsubject ▸ isSkolemizedUri_skolemName _ _) hs'.2
    · rw [placed_blank (hrdf q hq) hs, placed_blank (hrdf p hp) hs'] at hsubject
      simp only [rename, renameTerm_of_blank hs, renameTerm_of_blank hs'] at hsubject
      exact (skolemName_injective (hrdf q hq).2.1 (hrdf p hp).2.1 hs hs' hsubject).1
    · rw [placed_blank (hrdf q hq) hs, placed_skolemized hs'] at heq
      have hfront := h.apart q hq root hreach p hp hs' heq
      rw [groupOf_skolemized hs' hb', prefixRoot_eq_some, hfront] at hroot'
      exact some.inj hroot'.1
  · rcases subject_cases (hrdf p hp) with hs' | ⟨hs', _⟩ | ⟨hs', hb'⟩
    · rw [placed_root hs', placed_skolemized hs] at hsubject
      simp only [rename, renameTerm_of_not_blank hs'.1] at hsubject
      exact absurd (hsubject ▸ hs) hs'.2
    · have hreach := (blankToRoot_owned quads).reaches (groupOf_blank hs' ▸ hroot')
      rw [placed_skolemized hs, placed_blank (hrdf p hp) hs'] at heq
      have hfront := h.apart p hp root' hreach q hq hs heq.symm
      rw [groupOf_skolemized hs hb, prefixRoot_eq_some, hfront] at hroot
      exact (some.inj hroot.1).symm
    · rw [placed_skolemized hs, placed_skolemized hs'] at hsubject
      rw [groupOf_skolemized hs hb, prefixRoot_eq_some, hsubject] at hroot
      rw [groupOf_skolemized hs' hb', prefixRoot_eq_some] at hroot'
      exact some.inj (hroot.1.symm.trans hroot'.1)

lemma Separable.subject_known
    (hq : q ∈ allQuads (autoPartition quads)) : q.subject ∈ rootEntities quads ∨
      (skolemizedRoot (rootEntities quads) q.subject).isSome := by
  obtain ⟨root, hroot, p, hp, hgroup, rfl⟩ := (mem_allQuads hrdf).mp hq
  rcases subject_cases (hrdf p hp) with hs | ⟨hs, _⟩ | ⟨hs, _⟩
  · rw [placed_root hs]
    exact .inl (by simpa [rename, hs.1] using mem_rootEntities.mpr ⟨hs, p, hp, rfl⟩)
  · have hreach := (blankToRoot_owned quads).reaches (groupOf_blank hs ▸ hgroup)
    obtain ⟨root', hroot', hne, hfront⟩ := h.named p hp root hreach
    rw [placed_blank (hrdf p hp) hs]
    refine .inr (isSome_iff_exists.mpr ⟨root', skolemizedRoot_eq_some.mpr ⟨?_, hne, ?_⟩⟩)
    · simpa [rename, hs] using hfront
    · exact mem_rootEntities.mpr hroot'
  · obtain ⟨_, root', hroot', hne, hfront⟩ := h.skolemized p hp hs
    rw [placed_skolemized hs]
    exact .inr (isSome_iff_exists.mpr
      ⟨root', skolemizedRoot_eq_some.mpr ⟨hfront, hne, mem_rootEntities.mpr hroot'⟩⟩)

end

lemma keepsQuads_of_separable (hrdf : ∀ q ∈ quads, q.IsRdf) (h : Separable quads) :
    KeepsQuads quads where
  renamed := by
    refine ⟨ownName quads, fun bn hbn => ?_, fun bn hbn bn' hbn' heq => ?_, h.allQuads_perm hrdf⟩
    · obtain ⟨root, hroot⟩ := h.reaches hrdf hbn
      obtain ⟨hentity, q, hq, rfl⟩ := mem_rootEntities.mp hroot.mem_rootEntities
      have hiri : IsIri q.subject := (hrdf q hq).1.resolve_right hentity.1
      rw [ownName, h.owner hroot, getD_some]
      exact isIri_append hiri _
    · have hterm : ∀ {bn}, bn ∈ blankNodes quads → IsBlankNode bn ∧ IsTerm bn := by
        intro bn hbn
        obtain ⟨hblank, q, hq, rfl | rfl⟩ := mem_blankNodes.mp hbn
        · exact ⟨hblank, (hrdf q hq).2.1⟩
        · exact ⟨hblank, (hrdf q hq).2.2⟩
      exact (skolemName_injective (hterm hbn).2 (hterm hbn').2 (hterm hbn).1 (hterm hbn').1 heq).2
  one_group := by
    intro q hq
    obtain ⟨group, hgroup, hmem⟩ := List.mem_flatMap.mp hq
    refine ⟨group, ⟨hgroup, hmem⟩, fun group' ⟨hgroup', hmem'⟩ => ?_⟩
    obtain ⟨p, hp, hroot, heq⟩ := (mem_group hrdf hgroup).2.mp hmem
    obtain ⟨p', hp', hroot', heq'⟩ := (mem_group hrdf hgroup').2.mp hmem'
    have hkey := h.groupOf_inj hrdf hp hp' hroot hroot' (heq.trans heq'.symm)
    exact List.inj_on_of_nodup_map (autoPartition quads).nodup hgroup' hgroup hkey.symm
  subjects := fun _ hgroup _ hq => group_subjects hgroup hq
  rules := fun privateTripleCount contextGraphId existingEntities options =>
    (partition_rules_iff hrdf privateTripleCount contextGraphId existingEntities options).mpr
      fun _ hq => h.subject_known hrdf hq

/-! ## Quads that are kept are separable -/

def groupKey (quads : List Quad) (q : Quad) : Term := (groupOf quads q).getD []

section

variable (h : KeepsQuads quads) (hrdf : ∀ q ∈ quads, q.IsRdf)

include h hrdf

lemma KeepsQuads.exists_groupOf
    (hq : q ∈ quads) : ∃ root ∈ rootEntities quads, groupOf quads q = some root := by
  obtain ⟨name, _, _, hperm⟩ := h.renamed
  have hlength : (quads.filterMap
      (underKey (rootEntities quads) (groupOf quads) placed)).length = quads.length := by
    rw [← (allQuads_perm hrdf).length_eq, hperm.length_eq, List.length_map]
  have hsome := List.filterMap_length_eq_length.mp hlength q hq
  obtain ⟨placedQuad, hkey⟩ := isSome_iff_exists.mp hsome
  obtain ⟨root, hroot, _⟩ := map_eq_some_iff.mp hkey
  rw [filter_eq_some_iff] at hroot
  exact ⟨root, by simpa using hroot.2, hroot.1⟩

lemma KeepsQuads.map_placed_perm :
    allQuads (autoPartition quads) ~ quads.map fun q => placed (groupKey quads q) q := by
  refine (allQuads_perm hrdf).trans (List.Perm.of_eq ?_)
  rw [← List.filterMap_eq_map]
  refine List.filterMap_congr fun q hq => ?_
  obtain ⟨root, hroot, hgroup⟩ := h.exists_groupOf hrdf hq
  simp [underKey, groupKey, hgroup, hroot, Option.filter]

/-- Skolemized subjects have no blank objects: these would be left as they are. -/
lemma KeepsQuads.object_not_blank
    (hq : q ∈ quads) (hs : IsSkolemizedUri q.subject) : ¬ IsBlankNode q.object := by
  obtain ⟨name, hiri, _, hperm⟩ := h.renamed
  have hmem : q ∈ quads.map (rename name) := by
    rw [← hperm.mem_iff, (h.map_placed_perm hrdf).mem_iff]
    exact List.mem_map.mpr ⟨q, hq, placed_skolemized hs⟩
  obtain ⟨p, hp, rfl⟩ := List.mem_map.mp hmem
  show ¬ IsBlankNode (renameTerm name p.object)
  by_cases hb : IsBlankNode p.object
  · rw [renameTerm_of_blank hb]
    exact (hiri _ (mem_blankNodes.mpr ⟨hb, p, hp, .inr rfl⟩)).1
  · rwa [renameTerm_of_not_blank hb]

omit h hrdf in
lemma placed_object_blank (hs : ¬ IsSkolemizedUri q.subject) (hb : IsBlankNode q.object) :
    (placed root q).object = skolemName root q.object := by
  rw [placed, if_neg hs]
  exact renameTerm_of_blank hb

omit h hrdf in
lemma placed_object_not_blank (hb : ¬ IsBlankNode q.object) :
    (placed root q).object = q.object := by
  unfold placed
  split
  next => rfl
  next => exact renameTerm_of_not_blank hb

lemma KeepsQuads.groupOf_eq
    (hq : q ∈ quads) (hp : p ∈ quads) (hblank : IsBlankNode q.object)
    (hobject : q.object = p.object)
    (hroot : groupOf quads q = some root) (hroot' : groupOf quads p = some root') :
    root = root' := by
  obtain ⟨name, _, hinj, hperm⟩ := h.renamed
  let blank := quads.filter fun q => IsBlankNode q.object
  have hmem : ∀ {q}, q ∈ blank → q ∈ quads ∧ IsBlankNode q.object ∧
      ¬ IsSkolemizedUri q.subject := by
    intro q hq
    obtain ⟨hq, hb⟩ := List.mem_filter.mp hq
    have hb : IsBlankNode q.object := by simpa using hb
    exact ⟨hq, hb, fun hs => h.object_not_blank hrdf hq hs hb⟩
  have hobjects : (quads.map fun q => (placed (groupKey quads q) q).object) ~
      quads.map fun q => (q.rename name).object := by
    have := ((h.map_placed_perm hrdf).symm.trans hperm).map object
    simpa [Function.comp_def] using this
  have hnames : (blank.map fun q => (placed (groupKey quads q) q).object) ~
      blank.map fun q => name q.object := by
    refine (perm_filter_of_perm hobjects fun q _ hb => ?_).trans (List.Perm.of_eq ?_)
    · rw [placed_object_not_blank hb]
      exact (renameTerm_of_not_blank hb).symm
    · exact List.map_congr_left fun q hq => renameTerm_of_blank (hmem hq).2.1
  have hterm : ∀ {q}, q ∈ blank → IsTerm q.object := fun hq => (hrdf _ (hmem hq).1).2.2
  have hbq : q ∈ blank := List.mem_filter.mpr ⟨hq, by simpa using hblank⟩
  have hbp : p ∈ blank := List.mem_filter.mpr ⟨hp, by simpa [← hobject] using hblank⟩
  have hagree := names_agree hnames
    (fun x hx y hy hxy => hinj _ (mem_blankNodes.mpr ⟨(hmem hx).2.1, x, (hmem hx).1, .inr rfl⟩)
      _ (mem_blankNodes.mpr ⟨(hmem hy).2.1, y, (hmem hy).1, .inr rfl⟩) hxy)
    (fun x hx y hy hxy => by
      rw [placed_object_blank (hmem hx).2.2 (hmem hx).2.1,
        placed_object_blank (hmem hy).2.2 (hmem hy).2.1] at hxy
      exact (skolemName_injective (hterm hx) (hterm hy) (hmem hx).2.1 (hmem hy).2.1 hxy).2)
    hbq hbp hobject
  rw [placed_object_blank (hmem hbq).2.2 (hmem hbq).2.1,
    placed_object_blank (hmem hbp).2.2 (hmem hbp).2.1] at hagree
  have hkeys := (skolemName_injective (hterm hbq) (hterm hbp) (hmem hbq).2.1 (hmem hbp).2.1
      hagree).1
  simpa [groupKey, hroot, hroot'] using hkeys

lemma KeepsQuads.owner (hreach : Reaches quads root bn) : blankToRoot quads bn = some root := by
  have key : ∀ {q}, q ∈ quads → IsBlankNode q.object → groupOf quads q = some root →
      (blankToRoot quads q.object).isSome → blankToRoot quads q.object = some root := by
    intro q hq hb hgroup hsome
    obtain ⟨root', hroot'⟩ := isSome_iff_exists.mp hsome
    obtain ⟨p, hp, hobject, horigin⟩ := (blankToRoot_owned quads).origin hroot'
    have hgroup' : groupOf quads p = some root' := by
      rcases horigin with ⟨hs, hroot⟩ | ⟨hs, hroot⟩
      · rw [groupOf_root hs, hroot]
      · rw [groupOf_blank hs, hroot]
    rw [hroot', h.groupOf_eq hrdf hq hp hb hobject.symm hgroup hgroup']
  induction hreach with
  | direct hq hs hsubject hb =>
    exact key hq hb (by rw [groupOf_root hs, hsubject]) (Reaches.direct hq hs rfl hb).isSome
  | through hq hreach hb ih =>
    exact key hq hb (by rw [groupOf_blank hreach.isBlankNode, ih])
      (Reaches.through hq hreach hb).isSome

end

lemma separable_of_keepsQuads (hrdf : ∀ q ∈ quads, q.IsRdf) (h : KeepsQuads quads) :
    Separable quads where
  reached := by
    intro q hq hb
    obtain ⟨root, _, hgroup⟩ := h.exists_groupOf hrdf hq
    exact ⟨root, (blankToRoot_owned quads).reaches (groupOf_blank hb ▸ hgroup)⟩
  unique := fun hreach hreach' =>
    some.inj ((h.owner hrdf hreach).symm.trans (h.owner hrdf hreach'))
  skolemized := by
    intro q hq hs
    refine ⟨h.object_not_blank hrdf hq hs, ?_⟩
    obtain ⟨root, hroot, hgroup⟩ := h.exists_groupOf hrdf hq
    have hb : ¬ IsBlankNode q.subject := fun hb => (hrdf q hq).2.1.not_isSkolemizedUri hb hs
    rw [groupOf_skolemized hs hb, prefixRoot_eq_some] at hgroup
    exact ⟨root, mem_rootEntities.mp hroot, hgroup.2, hgroup.1⟩
  named := by
    intro q hq root hreach
    have hs := hreach.isBlankNode
    have hplaced : placed root q ∈ allQuads (autoPartition quads) := (mem_allQuads hrdf).mpr
      ⟨root, hreach.mem_rootEntities, q, hq, by rw [groupOf_blank hs, h.owner hrdf hreach], rfl⟩
    have hsubject : (placed root q).subject = skolemName root q.subject := by
      rw [placed_blank (hrdf q hq) hs]
      exact renameTerm_of_blank hs
    have hrules := (partition_rules_iff hrdf (fun _ => none) [] [] ⟨false, [], none⟩).mp
      (h.rules _ _ _ _) _ hplaced
    rw [hsubject] at hrules
    rcases hrules with hmem | hsome
    · exact absurd (isSkolemizedUri_skolemName _ _) (mem_rootEntities.mp hmem).1.2
    · obtain ⟨root', hroot'⟩ := isSome_iff_exists.mp hsome
      obtain ⟨hfront, hne, hmem⟩ := skolemizedRoot_eq_some.mp hroot'
      exact ⟨root', mem_rootEntities.mp hmem, hne, hfront⟩
  apart := by
    intro q hq root hreach p hp hs heq
    obtain ⟨root', hroot', hgroup'⟩ := h.exists_groupOf hrdf hp
    have hb : ¬ IsBlankNode p.subject := fun hb => (hrdf p hp).2.1.not_isSkolemizedUri hb hs
    -- the quad is in both groups
    obtain ⟨group, hmem, hkey⟩ := exists_group hreach.mem_rootEntities
    obtain ⟨group', hmem', hkey'⟩ := exists_group hroot'
    have hin : p ∈ group.2 := (mem_group hrdf hmem).2.mpr ⟨q, hq, by
      rw [groupOf_blank hreach.isBlankNode, h.owner hrdf hreach, hkey],
      by rw [placed_blank (hrdf q hq) hreach.isBlankNode, hkey, heq]⟩
    have hin' : p ∈ group'.2 := (mem_group hrdf hmem').2.mpr
      ⟨p, hp, by rw [hgroup', hkey'], placed_skolemized hs⟩
    have hsame := (h.one_group p (List.mem_flatMap.mpr ⟨group, hmem, hin⟩)).unique
      ⟨hmem, hin⟩ ⟨hmem', hin'⟩
    rw [groupOf_skolemized hs hb, prefixRoot_eq_some] at hgroup'
    rw [hgroup'.1, ← hkey', ← hsame, hkey]

/-! ## The partition -/

/-- **What `autoPartition` keeps.** -/
theorem keepsQuads_iff_separable (hrdf : ∀ q ∈ quads, q.IsRdf) :
    KeepsQuads quads ↔ Separable quads :=
  ⟨separable_of_keepsQuads hrdf, keepsQuads_of_separable hrdf⟩

def quad (subject object : String) : Quad :=
  ⟨subject.toList, "p".toList, object.toList, "g".toList⟩

/-- A root entity with a blank node, which is a chain of its own. -/
def chainQuads : List Quad := [quad "r" "_:a", quad "_:a" "_:b", quad "_:b" "_:a"]

/-- The chain of blank nodes stays in the group of its root entity. -/
theorem keepsQuads_chainQuads : KeepsQuads chainQuads := by
  have hroots : rootEntities chainQuads = ["r".toList] := by decide
  have hroot : ∀ {root bn}, Reaches chainQuads root bn → root = "r".toList := by
    intro root bn h
    simpa [hroots] using h.mem_rootEntities
  have ha : Reaches chainQuads "r".toList "_:a".toList :=
    .direct (q := quad "r" "_:a") (by decide) (by decide) rfl (by decide)
  have hb : Reaches chainQuads "r".toList "_:b".toList :=
    .through (q := quad "_:a" "_:b") (by decide) ha (by decide)
  have hskolem : ∀ q ∈ chainQuads, ¬ IsSkolemizedUri q.subject := by decide
  refine (keepsQuads_iff_separable (by decide)).mpr ⟨fun q hq hblank => ?_,
    fun h h' => (hroot h).trans (hroot h').symm, fun q hq hs => absurd hs (hskolem q hq),
    fun q hq root h => ?_, fun _ _ _ _ p hp hs => absurd hs (hskolem p hp)⟩
  · have hsubject : ∀ q ∈ chainQuads, IsBlankNode q.subject →
        q.subject = "_:a".toList ∨ q.subject = "_:b".toList := by decide
    rcases hsubject q hq hblank with heq | heq
    · exact ⟨_, heq ▸ ha⟩
    · exact ⟨_, heq ▸ hb⟩
  · have hnamed : ∀ q ∈ chainQuads,
        rootEntityFromSkolemized (skolemName "r".toList q.subject) = some "r".toList := by decide
    rw [hroot h]
    exact ⟨"r".toList, mem_rootEntities.mp (by decide), by decide, hnamed q hq⟩

/-- A blank node without a root entity is dropped, one with two gets two names, and a skolemized
subject without its root entity is dropped. -/
theorem quads_lost :
    ¬ KeepsQuads [quad "_:a" "o"] ∧ ¬ KeepsQuads [quad "r" "_:a", quad "s" "_:a"] ∧
      ¬ KeepsQuads [quad "r/.well-known/genid/a" "o"] := by
  refine ⟨fun h => ?_, fun h => ?_, fun h => ?_⟩
  · obtain ⟨root, hroot⟩ := (separable_of_keepsQuads (by decide) h).reached (quad "_:a" "o")
      (by decide) (by decide)
    have hmem := hroot.mem_rootEntities
    have hroots : rootEntities [quad "_:a" "o"] = [] := by decide
    rw [hroots] at hmem
    cases hmem
  · have hr : Reaches [quad "r" "_:a", quad "s" "_:a"] "r".toList "_:a".toList :=
      .direct (q := quad "r" "_:a") (by decide) (by decide) rfl (by decide)
    have hs : Reaches [quad "r" "_:a", quad "s" "_:a"] "s".toList "_:a".toList :=
      .direct (q := quad "s" "_:a") (by decide) (by decide) rfl (by decide)
    have heq := (separable_of_keepsQuads (by decide) h).unique hr hs
    exact absurd heq (by decide)
  · obtain ⟨_, root, hroot, _⟩ := (separable_of_keepsQuads (by decide) h).skolemized
      (quad "r/.well-known/genid/a" "o") (by decide) (by decide)
    have hmem := mem_rootEntities.mpr hroot
    have hroots : rootEntities [quad "r/.well-known/genid/a" "o"] = [] := by decide
    rw [hroots] at hmem
    cases hmem

end Publisher

end Dkg
