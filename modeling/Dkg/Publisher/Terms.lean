import Dkg.Lib.Separator
import Mathlib.Tactic

/-! # Quads and skolemized terms

The terms of a quad are strings: a blank node starts with `_:`, a literal with a quotation mark, and
any other term is an IRI. Skolemizing under a root entity `R` writes the blank node `_:label` as
`R/.well-known/genid/label` (`skolemName`). Labels of blank nodes have no slash, so the name
determines the root entity and the label (`skolemName_injective`).
-/

namespace Dkg

open Lib List

abbrev Term := List Char

instance decidableMemTerms (term : Term) (terms : List Term) : Decidable (term ∈ terms) :=
  List.instDecidableMemOfLawfulBEq term terms

structure Quad where
  (subject predicate object graph : Term)
  deriving DecidableEq

def genidSegment : Term := "/.well-known/genid/".toList

def IsBlankNode (term : Term) : Prop := "_:".toList <+: term
  deriving Decidable

def IsLiteral (term : Term) : Prop := ['\x22'] <+: term
  deriving Decidable

/-- `isSkolemizedUri`. -/
def IsSkolemizedUri (uri : Term) : Prop := genidSegment <:+: uri
  deriving Decidable

/-- The part before the segment, as in `did:dkg:agent:QmBot/.well-known/genid/o1`. -/
def rootEntityFromSkolemized (uri : Term) : Option Term := (indexOf genidSegment uri).map uri.take

def IsIri (term : Term) : Prop := ¬ IsBlankNode term ∧ ¬ IsLiteral term
  deriving Decidable

/-- What a term of RDF may be as a string: the label of a blank node has no slash. -/
def IsTerm (term : Term) : Prop := IsBlankNode term → '/' ∉ term
  deriving Decidable

/-- A quad with an IRI or a blank node as its subject and any object. -/
def Quad.IsRdf (q : Quad) : Prop :=
  (IsIri q.subject ∨ IsBlankNode q.subject) ∧ IsTerm q.subject ∧ IsTerm q.object
  deriving Decidable

/-! ## Names -/

/-- `{rootEntity}/.well-known/genid/{label}`. -/
def skolemName (rootEntity bn : Term) : Term := rootEntity ++ genidSegment ++ bn.drop 2

variable {uri root bn : Term}

lemma isSkolemizedUri_iff :
    IsSkolemizedUri uri ↔ ∃ root, rootEntityFromSkolemized uri = some root := by
  rw [IsSkolemizedUri, ← indexOf_isSome, Option.isSome_iff_exists]
  simp [rootEntityFromSkolemized]

lemma rootEntityFromSkolemized_split (h : rootEntityFromSkolemized uri = some root) :
    ∃ rest, uri = root ++ genidSegment ++ rest := by
  obtain ⟨i, hi, rfl⟩ := Option.map_eq_some_iff.mp h
  exact indexOf_split hi

@[simp]
lemma isSkolemizedUri_append (root rest : Term) :
    IsSkolemizedUri (root ++ genidSegment ++ rest) := ⟨root, rest, rfl⟩

@[simp]
lemma isSkolemizedUri_skolemName (root bn : Term) : IsSkolemizedUri (skolemName root bn) :=
  isSkolemizedUri_append root _

/-- The first characters of a term with the segment in it are those of the part before. -/
lemma isBlankNode_append_iff (root rest : Term) :
    IsBlankNode (root ++ genidSegment ++ rest) ↔ IsBlankNode root := by
  have hfront : "_:".toList = ['_', ':'] := by decide
  have hsegment : ∃ tail, genidSegment = '/' :: '.' :: tail := ⟨genidSegment.drop 2, by decide⟩
  obtain ⟨tail, htail⟩ := hsegment
  unfold IsBlankNode
  rw [hfront, htail]
  match root with
  | [] => simp
  | [a] => simp
  | a :: b :: rest' => simp

lemma isLiteral_append_iff (root rest : Term) :
    IsLiteral (root ++ genidSegment ++ rest) ↔ IsLiteral root := by
  have hsegment : ∃ tail, genidSegment = '/' :: tail := ⟨genidSegment.drop 1, by decide⟩
  obtain ⟨tail, htail⟩ := hsegment
  unfold IsLiteral
  rw [htail]
  cases root with
  | nil => simp
  | cons a root => simp

lemma isIri_append (h : IsIri root) (rest : Term) : IsIri (root ++ genidSegment ++ rest) :=
  ⟨fun hb => h.1 ((isBlankNode_append_iff root rest).mp hb),
    fun hl => h.2 ((isLiteral_append_iff root rest).mp hl)⟩

lemma IsTerm.not_isSkolemizedUri {term : Term} (h : IsTerm term) (hblank : IsBlankNode term) :
    ¬ IsSkolemizedUri term := by
  rintro ⟨front, back, rfl⟩
  refine h hblank ?_
  have hslash : '/' ∈ genidSegment := by decide
  simp [hslash]

lemma IsBlankNode.eq_append (h : IsBlankNode bn) : bn = "_:".toList ++ bn.drop 2 := by
  obtain ⟨label, rfl⟩ := h
  rfl

/-- A name under a root entity determines both. -/
lemma skolemName_injective {root' bn' : Term} (hbn : IsTerm bn) (hbn' : IsTerm bn')
    (hblank : IsBlankNode bn) (hblank' : IsBlankNode bn')
    (h : skolemName root bn = skolemName root' bn') : root = root' ∧ bn = bn' := by
  have hsegment : genidSegment = "/.well-known/genid".toList ++ ['/'] := by decide
  have hlabel : ∀ {b : Term}, IsTerm b → IsBlankNode b → '/' ∉ b.drop 2 :=
    fun ht hb hmem => ht hb (mem_of_mem_drop hmem)
  unfold skolemName at h
  rw [hsegment] at h
  obtain ⟨hroot, hdrop⟩ := append_separator_injective (hlabel hbn hblank) (hlabel hbn' hblank') h
  refine ⟨hroot, ?_⟩
  rw [hblank.eq_append, hblank'.eq_append, hdrop]

/-! ## Replacing blank nodes -/

/-- A term with another name for it when it is a blank node. -/
def renameTerm (name : Term → Term) (term : Term) : Term :=
  if IsBlankNode term then name term else term

/-- A quad with other names for its blank nodes. -/
def Quad.rename (name : Term → Term) (q : Quad) : Quad where
  subject := renameTerm name q.subject
  predicate := q.predicate
  object := renameTerm name q.object
  graph := q.graph

variable {name name' : Term → Term} {q : Quad} {term : Term}

@[simp]
lemma renameTerm_of_blank (h : IsBlankNode term) : renameTerm name term = name term := if_pos h

@[simp]
lemma renameTerm_of_not_blank (h : ¬ IsBlankNode term) : renameTerm name term = term := if_neg h

lemma Quad.rename_congr (hsubject : IsBlankNode q.subject → name q.subject = name' q.subject)
    (hobject : IsBlankNode q.object → name q.object = name' q.object) :
    q.rename name = q.rename name' := by
  have hterm : ∀ {t : Term}, (IsBlankNode t → name t = name' t) →
      renameTerm name t = renameTerm name' t := by
    intro t h
    by_cases hb : IsBlankNode t
    · simp [hb, h hb]
    · simp [hb]
  simp [Quad.rename, hterm hsubject, hterm hobject]

lemma Quad.rename_eq_self (hsubject : ¬ IsBlankNode q.subject) (hobject : ¬ IsBlankNode q.object) :
    q.rename name = q := by
  simp [Quad.rename, hsubject, hobject]

def blankNodes (quads : List Quad) : List Term :=
  (quads.flatMap fun q => [q.subject, q.object]).filter (IsBlankNode ·)

lemma mem_blankNodes {quads : List Quad} :
    bn ∈ blankNodes quads ↔ IsBlankNode bn ∧ ∃ q ∈ quads, bn = q.subject ∨ bn = q.object := by
  simp [blankNodes, and_comm]

/-- `skolemize`: the blank nodes of the quads, each mapped to its name under the root entity. -/
def skolemize (rootEntity : Term) (quads : List Quad) : List Quad :=
  if blankNodes quads = [] then quads
  else
    let mapping := (blankNodes quads).map fun bn => (bn, skolemName rootEntity bn)
    quads.map fun q => {
      subject := (mapping.lookup q.subject).getD q.subject
      predicate := q.predicate
      object := (mapping.lookup q.object).getD q.object
      graph := q.graph }

lemma lookup_map_pair {names : List Term} {f : Term → Term} :
    (names.map fun n => (n, f n)).lookup term = if term ∈ names then some (f term) else none := by
  induction names with
  | nil => simp
  | cons n names ih =>
    by_cases h : term = n
    · subst h
      simp
    · have hb : (term == n) = false := beq_eq_false_iff_ne.mpr h
      simp [lookup_cons, hb, ih, h]

lemma skolemize_eq (rootEntity : Term) (quads : List Quad) :
    skolemize rootEntity quads = quads.map (Quad.rename (skolemName rootEntity)) := by
  have hterm : ∀ t : Term, (∃ q ∈ quads, t = q.subject ∨ t = q.object) →
      ((((blankNodes quads).map fun bn => (bn, skolemName rootEntity bn)).lookup t).getD t) =
        renameTerm (skolemName rootEntity) t := by
    intro t ht
    rw [lookup_map_pair]
    by_cases hb : IsBlankNode t
    · rw [if_pos (mem_blankNodes.mpr ⟨hb, ht⟩)]
      simp [hb]
    · rw [if_neg fun hmem => hb (mem_blankNodes.mp hmem).1]
      simp [hb]
  unfold skolemize
  split
  next hnone =>
    have hnot : ∀ t : Term, (∃ q ∈ quads, t = q.subject ∨ t = q.object) → ¬ IsBlankNode t := by
      intro t ht hb
      have := mem_blankNodes.mpr ⟨hb, ht⟩
      rw [hnone] at this
      cases this
    refine (map_id quads).symm.trans (map_congr_left fun q hq => ?_)
    exact (Quad.rename_eq_self (hnot _ ⟨q, hq, .inl rfl⟩) (hnot _ ⟨q, hq, .inr rfl⟩)).symm
  next =>
    refine map_congr_left fun q hq => ?_
    simp only [Quad.rename, hterm _ ⟨q, hq, .inl rfl⟩, hterm _ ⟨q, hq, .inr rfl⟩]

end Dkg
