import Dkg.Assertions.Operations
import Dkg.Publisher.Partition

/-! # Which quads a promotion moves whole

A promotion takes the quads of the root entities that are not skipped out of an assertion, and puts
in what the groups of `autoPartition` have for them. The first are chosen by the subjects they have,
the second by the subjects they get (`partedQuads`). `MovesWhole` says when the second are the first
under one renaming of their blank nodes.

As for `Separable`, the converse counts names: of the blank subjects and of the blank objects alike.
-/

namespace Dkg.Assertions

open Lib List Publisher

open scoped List

variable (quads : List Quad) (skipped : List Term)

/-- The quads that leave the assertion. -/
def chosenQuads : List Quad := quads.filter (NotSkipped skipped ·)

/-- The quads that go to the shared memory. -/
def partedQuads : List Quad := (allQuads (autoPartition quads)).filter (NotSkipped skipped ·)

def IsTermOf (quads : List Quad) (term : Term) : Prop :=
  ∃ q ∈ quads, term = q.subject ∨ term = q.object

/-- New names for the blank nodes of some quads: different IRIs, which the quads do not have. -/
structure IsRenaming (name : Term → Term) (quads : List Quad) : Prop where
  iri : ∀ bn, IsTermOf quads bn → IsBlankNode bn → IsIri (name bn)
  apart : Set.InjOn (renameTerm name) {term | IsTermOf quads term}

/-- As many quads go as leave, and one renaming takes these to those. -/
structure IsRenamed : Prop where
  renamed : ∃ name, IsRenaming name (chosenQuads quads skipped) ∧
    ∀ q ∈ chosenQuads quads skipped, q.rename name ∈ partedQuads quads skipped
  length : (partedQuads quads skipped).length = (chosenQuads quads skipped).length

/-- Every quad that leaves has a root entity that is not skipped, quads with a common blank node
have the same one, skolemized subjects have no blank objects, and skolem names are new. -/
structure MovesWhole : Prop where
  rooted : ∀ q ∈ chosenQuads quads skipped, ∃ root ∈ rootEntities quads,
    groupOf quads q = some root ∧ NotSkipped skipped (placed root q)
  named : ∀ q ∈ chosenQuads quads skipped, IsSkolemizedUri q.subject → ¬ IsBlankNode q.object
  one_root : ∀ q ∈ chosenQuads quads skipped, ∀ p ∈ chosenQuads quads skipped,
    IsBlankNode q.object → q.object = p.subject ∨ q.object = p.object →
      groupOf quads q = groupOf quads p
  fresh : ∀ q ∈ chosenQuads quads skipped, ∀ root, groupOf quads q = some root →
    ∀ bn, IsBlankNode bn → bn = q.subject ∨ bn = q.object →
      ¬ IsTermOf (chosenQuads quads skipped) (skolemName root bn)

variable {quads} {skipped} {q p : Quad} {root bn : Term} {name : Term → Term}

lemma mem_chosenQuads : q ∈ chosenQuads quads skipped ↔ q ∈ quads ∧ NotSkipped skipped q := by
  rw [chosenQuads, mem_filter, decide_eq_true_iff]

lemma notSkipped_congr (h : q.subject = p.subject) :
    NotSkipped skipped q ↔ NotSkipped skipped p := by
  unfold NotSkipped
  rw [h]

/-- What is not skipped in its group was not skipped before: a blank subject never is. -/
lemma notSkipped_of_placed (hrdf : q.IsRdf) (hskipped : ∀ root ∈ skipped, IsRootEntity root)
    (h : NotSkipped skipped (placed root q)) : NotSkipped skipped q := by
  rcases subject_cases hrdf with hs | ⟨hs, hno⟩ | ⟨hs, _⟩
  · apply (notSkipped_congr _).mp h
    rw [placed_root hs]
    exact renameTerm_of_not_blank hs.1
  · have hnone : rootEntityFromSkolemized q.subject = none := by
      apply Option.eq_none_iff_forall_ne_some.mpr
      intro root heq
      exact hno (isSkolemizedUri_iff.mpr ⟨root, heq⟩)
    have hsubject : q.subject ∉ skipped := fun hmem => (hskipped _ hmem).1 hs
    refine ⟨hsubject, ?_⟩
    rw [hnone]
    exact hsubject
  · rwa [placed_skolemized hs] at h

/-- The quad in its group, unless it has none or is skipped there. -/
def partedQuad (quads : List Quad) (skipped : List Term) (q : Quad) : Option Quad :=
  (underKey (rootEntities quads) (groupOf quads) placed q).filter (NotSkipped skipped ·)

lemma partedQuad_eq_some : partedQuad quads skipped q = some p ↔ ∃ root ∈ rootEntities quads,
    groupOf quads q = some root ∧ placed root q = p ∧ NotSkipped skipped p := by
  unfold partedQuad underKey
  simp only [Option.filter_eq_some_iff, Option.map_eq_some_iff, decide_eq_true_eq]
  constructor
  · rintro ⟨⟨root, ⟨hroot, hmem⟩, hplaced⟩, hskipped⟩
    exact ⟨root, hmem, hroot, hplaced, hskipped⟩
  · rintro ⟨root, hmem, hroot, hplaced, hskipped⟩
    exact ⟨⟨root, ⟨hroot, hmem⟩, hplaced⟩, hskipped⟩

lemma partedQuads_perm (hrdf : ∀ q ∈ quads, q.IsRdf)
    (hskipped : ∀ root ∈ skipped, IsRootEntity root) :
    partedQuads quads skipped ~
      (chosenQuads quads skipped).filterMap (partedQuad quads skipped) := by
  have hchosen : (chosenQuads quads skipped).filterMap (partedQuad quads skipped) =
      quads.filterMap (partedQuad quads skipped) := by
    unfold chosenQuads
    rw [filterMap_filter]
    apply filterMap_congr
    intro q hq
    by_cases h : NotSkipped skipped q
    · rw [if_pos (decide_eq_true h)]
    · rw [if_neg (by simpa using h), eq_comm, Option.eq_none_iff_forall_ne_some]
      intro p hp
      rcases partedQuad_eq_some.mp hp with ⟨root, _, _, rfl, hparted⟩
      exact h (notSkipped_of_placed (hrdf q hq) hskipped hparted)
  rw [hchosen]
  have hperm := (allQuads_perm hrdf).filter fun q => decide (NotSkipped skipped q)
  rw [filter_filterMap] at hperm
  exact hperm

/-! ## Quads that move whole -/

namespace MovesWhole

/-- Quads with a common blank node have the same root entity. -/
lemma groupOf_eq (h : MovesWhole quads skipped) (hq : q ∈ chosenQuads quads skipped)
    (hp : p ∈ chosenQuads quads skipped) (hblank : IsBlankNode bn)
    (hbq : bn = q.subject ∨ bn = q.object) (hbp : bn = p.subject ∨ bn = p.object) :
    groupOf quads q = groupOf quads p := by
  rcases hbq with rfl | rfl
  · rcases hbp with hsubject | hobject
    · rw [groupOf_blank hblank, groupOf_blank (hsubject ▸ hblank), hsubject]
    · exact (h.one_root p hp q hq (hobject ▸ hblank) (.inl hobject.symm)).symm
  · exact h.one_root q hq p hp hblank hbp

/-- The skolem name of a blank node under the root entity of a quad that has it. -/
def newName (quads : List Quad) (skipped : List Term) (bn : Term) : Term :=
  skolemName ((((chosenQuads quads skipped).find? fun q => bn = q.subject ∨ bn = q.object).bind
    (groupOf quads)).getD []) bn

variable (h : MovesWhole quads skipped)

include h

lemma newName_eq (hq : q ∈ chosenQuads quads skipped)
    (hblank : IsBlankNode bn) (hbq : bn = q.subject ∨ bn = q.object)
    (hroot : groupOf quads q = some root) : newName quads skipped bn = skolemName root bn := by
  unfold newName
  cases hfind : (chosenQuads quads skipped).find? fun q => bn = q.subject ∨ bn = q.object with
  | none => exact absurd (decide_eq_true hbq) (find?_eq_none.mp hfind q hq)
  | some p =>
    have hbp : bn = p.subject ∨ bn = p.object := of_decide_eq_true (find?_some hfind :)
    have hsame := h.groupOf_eq (mem_of_find?_eq_some hfind) hq hblank hbp hbq
    rw [Option.bind_some, hsame, hroot, Option.getD_some]

lemma placed_eq (hrdf : ∀ q ∈ quads, q.IsRdf)
    (hq : q ∈ chosenQuads quads skipped) (hroot : groupOf quads q = some root) :
    placed root q = q.rename (newName quads skipped) := by
  have hrename : q.rename (skolemName root) = q.rename (newName quads skipped) :=
    Quad.rename_congr (fun hb => (h.newName_eq hq hb (.inl rfl) hroot).symm)
      fun hb => (h.newName_eq hq hb (.inr rfl) hroot).symm
  rcases subject_cases (hrdf q (mem_chosenQuads.mp hq).1) with hs | ⟨hs, _⟩ | ⟨hs, hb⟩
  · rw [placed_root hs, hrename]
  · rw [placed_blank (hrdf q (mem_chosenQuads.mp hq).1) hs, hrename]
  · rw [placed_skolemized hs, Quad.rename_eq_self hb (h.named q hq hs)]

lemma isRenaming (hrdf : ∀ q ∈ quads, q.IsRdf) :
    IsRenaming (newName quads skipped) (chosenQuads quads skipped) := by
  have hterm : ∀ {bn}, IsTermOf (chosenQuads quads skipped) bn → IsBlankNode bn →
      IsTerm bn ∧ ∃ q ∈ chosenQuads quads skipped, (bn = q.subject ∨ bn = q.object) ∧
        ∃ root ∈ rootEntities quads, groupOf quads q = some root ∧
          newName quads skipped bn = skolemName root bn := by
    rintro bn ⟨q, hq, hbq⟩ hblank
    have hrdf' := hrdf q (mem_chosenQuads.mp hq).1
    rcases h.rooted q hq with ⟨root, hmem, hroot, _⟩
    refine ⟨?_, q, hq, hbq, root, hmem, hroot, h.newName_eq hq hblank hbq hroot⟩
    rcases hbq with rfl | rfl
    · exact hrdf'.2.1
    · exact hrdf'.2.2
  have hfresh : ∀ {bn}, IsTermOf (chosenQuads quads skipped) bn → IsBlankNode bn →
      ¬ IsTermOf (chosenQuads quads skipped) (newName quads skipped bn) := by
    intro bn hbn hblank
    rcases hterm hbn hblank with ⟨_, q, hq, hbq, root, _, hroot, hname⟩
    rw [hname]
    exact h.fresh q hq root hroot bn hblank hbq
  constructor
  · intro bn hbn hblank
    rcases hterm hbn hblank with ⟨_, _, _, _, root, hmem, _, hname⟩
    rcases mem_rootEntities.mp hmem with ⟨hentity, p, hp, rfl⟩
    rw [hname]
    exact isIri_append ((hrdf p hp).1.resolve_right hentity.1) _
  · intro t ht t' ht' heq
    by_cases hb : IsBlankNode t
    · rw [renameTerm_of_blank hb] at heq
      by_cases hb' : IsBlankNode t'
      · rw [renameTerm_of_blank hb'] at heq
        rcases hterm ht hb with ⟨hlabel, _, _, _, root, _, _, hname⟩
        rcases hterm ht' hb' with ⟨hlabel', _, _, _, root', _, _, hname'⟩
        rw [hname, hname'] at heq
        exact (skolemName_injective hlabel hlabel' hb hb' heq).2
      · rw [renameTerm_of_not_blank hb'] at heq
        exact absurd (heq ▸ ht') (hfresh ht hb)
    · rw [renameTerm_of_not_blank hb] at heq
      by_cases hb' : IsBlankNode t'
      · rw [renameTerm_of_blank hb'] at heq
        exact absurd (heq ▸ ht) (hfresh ht' hb')
      · rwa [renameTerm_of_not_blank hb'] at heq

lemma isRenamed (hrdf : ∀ q ∈ quads, q.IsRdf)
    (hskipped : ∀ root ∈ skipped, IsRootEntity root) : IsRenamed quads skipped := by
  have hparted : ∀ q ∈ chosenQuads quads skipped,
      partedQuad quads skipped q = some (q.rename (newName quads skipped)) := by
    intro q hq
    rcases h.rooted q hq with ⟨root, hmem, hroot, hplaced⟩
    rw [← h.placed_eq hrdf hq hroot]
    exact partedQuad_eq_some.mpr ⟨root, hmem, hroot, rfl, hplaced⟩
  have hperm : partedQuads quads skipped ~
      (chosenQuads quads skipped).map (Quad.rename (newName quads skipped)) := by
    apply (partedQuads_perm hrdf hskipped).trans
    rw [← filterMap_eq_map, filterMap_congr hparted]
    rfl
  refine ⟨⟨_, h.isRenaming hrdf, fun q hq => ?_⟩, ?_⟩
  · exact hperm.mem_iff.mpr (mem_map_of_mem hq)
  · rw [hperm.length_eq, length_map]

end MovesWhole

/-! ## Quads that are renamed -/

lemma IsRenaming.rename_inj (h : IsRenaming name quads) (hq : q ∈ quads) (hp : p ∈ quads)
    (heq : q.rename name = p.rename name) : q = p := by
  have hsubject : q.subject = p.subject := h.apart ⟨q, hq, .inl rfl⟩ ⟨p, hp, .inl rfl⟩
    (congrArg Quad.subject heq)
  have hobject : q.object = p.object := h.apart ⟨q, hq, .inr rfl⟩ ⟨p, hp, .inr rfl⟩
    (congrArg Quad.object heq)
  rw [Quad.rename, Quad.rename, Quad.mk.injEq] at heq
  show Quad.mk q.subject q.predicate q.object q.graph = _
  rw [hsubject, heq.2.1, hobject, heq.2.2.2]

/-- The new quads are those of the groups, if the old ones are different. -/
lemma IsRenamed.exists_perm (h : IsRenamed quads skipped) (hnodup : quads.Nodup) :
    ∃ name, IsRenaming name (chosenQuads quads skipped) ∧
      (chosenQuads quads skipped).map (Quad.rename name) ~ partedQuads quads skipped := by
  rcases h.renamed with ⟨name, hname, hmem⟩
  refine ⟨name, hname, ?_⟩
  have hnew : ((chosenQuads quads skipped).map (Quad.rename name)).Nodup := by
    apply Nodup.map_on _ (hnodup.filter _)
    intro q hq p hp heq
    exact hname.rename_inj hq hp heq
  have hsub : (chosenQuads quads skipped).map (Quad.rename name) ⊆ partedQuads quads skipped := by
    intro q hq
    rcases mem_map.mp hq with ⟨p, hp, rfl⟩
    exact hmem p hp
  apply (subperm_of_subset hnew hsub).perm_of_length_le
  rw [h.length, length_map]

/-- A root entity of a quad with one of its blank nodes. -/
def blankPairs (quads : List Quad) (skipped : List Term) : List (Term × Term) :=
  ((chosenQuads quads skipped).filter fun q => IsBlankNode q.subject).map
      (fun q => (groupKey quads q, q.subject)) ++
    ((chosenQuads quads skipped).filter fun q => IsBlankNode q.object).map
      (fun q => (groupKey quads q, q.object))

lemma mem_blankPairs : (root, bn) ∈ blankPairs quads skipped ↔ IsBlankNode bn ∧
    ∃ q ∈ chosenQuads quads skipped,
      groupKey quads q = root ∧ (bn = q.subject ∨ bn = q.object) := by
  unfold blankPairs
  simp only [mem_append, mem_map, mem_filter, decide_eq_true_eq, Prod.mk.injEq]
  constructor
  · rintro (⟨q, ⟨hq, hb⟩, rfl, rfl⟩ | ⟨q, ⟨hq, hb⟩, rfl, rfl⟩)
    · exact ⟨hb, q, hq, rfl, .inl rfl⟩
    · exact ⟨hb, q, hq, rfl, .inr rfl⟩
  · rintro ⟨hb, q, hq, rfl, rfl | rfl⟩
    · exact .inl ⟨q, ⟨hq, hb⟩, rfl, rfl⟩
    · exact .inr ⟨q, ⟨hq, hb⟩, rfl, rfl⟩

namespace IsRenamed

section

variable (h : IsRenamed quads skipped) (hrdf : ∀ q ∈ quads, q.IsRdf)
    (hskipped : ∀ root ∈ skipped, IsRootEntity root)

include h hrdf hskipped

lemma partedQuad_eq (hq : q ∈ chosenQuads quads skipped) :
    ∃ root ∈ rootEntities quads, groupOf quads q = some root ∧
      NotSkipped skipped (placed root q) ∧
        partedQuad quads skipped q = some (placed (groupKey quads q) q) := by
  have hlength : ((chosenQuads quads skipped).filterMap (partedQuad quads skipped)).length =
      (chosenQuads quads skipped).length := by
    rw [← (partedQuads_perm hrdf hskipped).length_eq, h.length]
  have hsome := filterMap_length_eq_length.mp hlength q hq
  rcases Option.isSome_iff_exists.mp hsome with ⟨p, hp⟩
  rcases partedQuad_eq_some.mp hp with ⟨root, hmem, hroot, rfl, hparted⟩
  refine ⟨root, hmem, hroot, hparted, ?_⟩
  rw [hp, groupKey, hroot, Option.getD_some]

lemma map_placed_perm : partedQuads quads skipped ~
      (chosenQuads quads skipped).map fun q => placed (groupKey quads q) q := by
  apply (partedQuads_perm hrdf hskipped).trans
  apply Perm.of_eq
  rw [← filterMap_eq_map]
  apply filterMap_congr
  intro q hq
  rcases h.partedQuad_eq hrdf hskipped hq with ⟨_, _, _, _, heq⟩
  exact heq

end

lemma object_not_blank (hperm : (chosenQuads quads skipped).map (Quad.rename name) ~
      (chosenQuads quads skipped).map fun q => placed (groupKey quads q) q)
    (hname : IsRenaming name (chosenQuads quads skipped)) (hq : q ∈ chosenQuads quads skipped)
    (hs : IsSkolemizedUri q.subject) : ¬ IsBlankNode q.object := by
  have hmem : q ∈ (chosenQuads quads skipped).map (Quad.rename name) := by
    rw [hperm.mem_iff]
    exact mem_map.mpr ⟨q, hq, placed_skolemized hs⟩
  rcases mem_map.mp hmem with ⟨p, hp, rfl⟩
  show ¬ IsBlankNode (renameTerm name p.object)
  by_cases hb : IsBlankNode p.object
  · rw [renameTerm_of_blank hb]
    exact (hname.iri _ ⟨p, hp, .inr rfl⟩ hb).1
  · rwa [renameTerm_of_not_blank hb]

/-- The names in the groups are those of the renaming, counted with the quads that have them. -/
lemma names_perm (hrdf : ∀ q ∈ quads, q.IsRdf)
    (hperm : (chosenQuads quads skipped).map (Quad.rename name) ~
      (chosenQuads quads skipped).map fun q => placed (groupKey quads q) q)
    (hname : IsRenaming name (chosenQuads quads skipped)) :
    (blankPairs quads skipped).map (fun pair => skolemName pair.1 pair.2) ~
      (blankPairs quads skipped).map fun pair => name pair.2 := by
  have hsubjects : ((chosenQuads quads skipped).filter fun q => IsBlankNode q.subject).map
      (fun q => skolemName (groupKey quads q) q.subject) ~
        ((chosenQuads quads skipped).filter fun q => IsBlankNode q.subject).map
          fun q => name q.subject := by
    have hall := hperm.symm.map Quad.subject
    rw [map_map, map_map] at hall
    have hblank := perm_filter_of_perm (p := fun q => IsBlankNode q.subject) hall ?_
    · refine (Perm.of_eq ?_).trans (hblank.trans (Perm.of_eq ?_))
      · apply map_congr_left
        intro q hq
        have hb : IsBlankNode q.subject := of_decide_eq_true (mem_filter.mp hq).2
        have hmem := (mem_chosenQuads.mp (mem_filter.mp hq).1).1
        show _ = (placed (groupKey quads q) q).subject
        rw [placed_blank (hrdf q hmem) hb]
        exact (renameTerm_of_blank hb).symm
      · apply map_congr_left
        intro q hq
        exact renameTerm_of_blank (of_decide_eq_true (mem_filter.mp hq).2)
    · intro q hq hb
      have hsame : (placed (groupKey quads q) q).subject = q.subject := by
        unfold placed
        split
        · rfl
        · exact renameTerm_of_not_blank hb
      exact hsame.trans (renameTerm_of_not_blank hb).symm
  have hobjects : ((chosenQuads quads skipped).filter fun q => IsBlankNode q.object).map
      (fun q => skolemName (groupKey quads q) q.object) ~
        ((chosenQuads quads skipped).filter fun q => IsBlankNode q.object).map
          fun q => name q.object := by
    have hall := hperm.symm.map Quad.object
    rw [map_map, map_map] at hall
    have hblank := perm_filter_of_perm (p := fun q => IsBlankNode q.object) hall ?_
    · refine (Perm.of_eq ?_).trans (hblank.trans (Perm.of_eq ?_))
      · apply map_congr_left
        intro q hq
        have hb : IsBlankNode q.object := of_decide_eq_true (mem_filter.mp hq).2
        have hs : ¬ IsSkolemizedUri q.subject := fun hs =>
          object_not_blank hperm hname (mem_filter.mp hq).1 hs hb
        exact (placed_object_blank hs hb).symm
      · apply map_congr_left
        intro q hq
        exact renameTerm_of_blank (of_decide_eq_true (mem_filter.mp hq).2)
    · intro q hq hb
      exact (placed_object_not_blank hb).trans (renameTerm_of_not_blank hb).symm
  unfold blankPairs
  simp only [map_append, map_map]
  exact hsubjects.append hobjects

lemma movesWhole (h : IsRenamed quads skipped) (hrdf : ∀ q ∈ quads, q.IsRdf)
    (hnodup : quads.Nodup) (hskipped : ∀ root ∈ skipped, IsRootEntity root) :
    MovesWhole quads skipped := by
  rcases h.exists_perm hnodup with ⟨name, hname, hnew⟩
  have hperm := hnew.trans (h.map_placed_perm hrdf hskipped)
  have hnames := names_perm hrdf hperm hname
  have hpair : ∀ {q root bn}, q ∈ chosenQuads quads skipped → groupOf quads q = some root →
      IsBlankNode bn → bn = q.subject ∨ bn = q.object → (root, bn) ∈ blankPairs quads skipped := by
    intro q root bn hq hroot hb hbq
    refine mem_blankPairs.mpr ⟨hb, q, hq, ?_, hbq⟩
    rw [groupKey, hroot, Option.getD_some]
  have hterm : ∀ {pair}, pair ∈ blankPairs quads skipped → IsBlankNode pair.2 ∧ IsTerm pair.2 ∧
      IsTermOf (chosenQuads quads skipped) pair.2 := by
    rintro ⟨root, bn⟩ hmem
    rcases mem_blankPairs.mp hmem with ⟨hb, q, hq, _, hbq⟩
    have hrdf' := hrdf q (mem_chosenQuads.mp hq).1
    refine ⟨hb, ?_, q, hq, hbq⟩
    rcases hbq with rfl | rfl
    · exact hrdf'.2.1
    · exact hrdf'.2.2
  constructor
  · intro q hq
    rcases h.partedQuad_eq hrdf hskipped hq with ⟨root, hmem, hroot, hparted, _⟩
    exact ⟨root, hmem, hroot, hparted⟩
  · exact fun q hq hs => object_not_blank hperm hname hq hs
  · intro q hq p hp hb hbp
    rcases h.partedQuad_eq hrdf hskipped hq with ⟨root, _, hroot, _⟩
    rcases h.partedQuad_eq hrdf hskipped hp with ⟨root', _, hroot', _⟩
    have hx := hpair hq hroot hb (.inr rfl)
    have hy := hpair hp hroot' hb hbp
    have hagree := names_agree hnames
      (fun x hx y hy heq => by
        apply hname.apart (hterm hx).2.2 (hterm hy).2.2
        rwa [renameTerm_of_blank (hterm hx).1, renameTerm_of_blank (hterm hy).1])
      (fun x hx y hy heq => (skolemName_injective (hterm hx).2.1 (hterm hy).2.1 (hterm hx).1
        (hterm hy).1 heq).2) hx hy rfl
    have hsame : root = root' := (skolemName_injective (hterm hx).2.1 (hterm hx).2.1 hb hb hagree).1
    rw [hroot, hroot', hsame]
  · intro q hq root hroot bn hb hbq hold
    -- the name in the group is the new name of some blank node
    have hmem : skolemName root bn ∈ (blankPairs quads skipped).map fun pair => name pair.2 :=
      hnames.mem_iff.mp (mem_map.mpr ⟨_, hpair hq hroot hb hbq, rfl⟩)
    rcases mem_map.mp hmem with ⟨pair, hpair', heq⟩
    have hiri := hname.iri _ (hterm hpair').2.2 (hterm hpair').1
    have hsame : pair.2 = skolemName root bn := by
      apply hname.apart (hterm hpair').2.2 hold
      rw [renameTerm_of_blank (hterm hpair').1, ← heq, renameTerm_of_not_blank hiri.1]
    apply hiri.1
    rw [heq.trans hsame.symm]
    exact (hterm hpair').1

end IsRenamed

end Dkg.Assertions
