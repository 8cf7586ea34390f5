import Dkg.Publisher.NQuads

/-! # The text of a leaf

`formatNTriple` writes a triple as the text that is hashed into its leaf. The subject and the
predicate have no space, so the first two spaces end them, whatever is in the object.
-/

namespace Dkg

open Lib List

/-- An IRI as a quad holds it, without angle brackets. -/
def IsBareIri (term : Term) : Prop :=
  IsIri term ∧ '<' ∉ term ∧ '>' ∉ term ∧ '\x22' ∉ term ∧ ' ' ∉ term
  deriving Decidable

/-- An IRI, or a blank node, in which there is no space either. -/
def IsNode (term : Term) : Prop := IsBareIri term ∨ IsBlankNode term ∧ ' ' ∉ term
  deriving Decidable

/-- Any text after a quotation mark may be a literal. -/
def IsObject (term : Term) : Prop := IsBareIri term ∨ IsBlankNode term ∨ IsLiteral term
  deriving Decidable

def Quad.IsTriple (q : Quad) : Prop := IsNode q.subject ∧ IsNode q.predicate ∧ IsObject q.object
  deriving Decidable

def Quad.triple (q : Quad) : Term × Term × Term := (q.subject, q.predicate, q.object)

variable {term term' s p o s' p' o' : Term}

lemma formatTerm_bare (h : IsBareIri term) : formatTerm term = '<' :: (term ++ ['>']) := by
  refine if_neg ?_
  rintro (hliteral | hblank | ⟨rest, rfl⟩)
  · exact h.1.2 hliteral
  · exact h.1.1 hblank
  · exact h.2.1 (by simp)

lemma formatTerm_other (h : IsBlankNode term ∨ IsLiteral term) : formatTerm term = term :=
  if_pos (h.elim (.inr ∘ .inl) .inl)

lemma IsNode.isObject (h : IsNode term) : IsObject term := h.imp id fun h => .inl h.1

/-- No other term begins with an angle bracket. -/
lemma formatTerm_bare_ne (h : IsBareIri term) (h' : IsBlankNode term' ∨ IsLiteral term') :
    formatTerm term ≠ formatTerm term' := by
  rw [formatTerm_bare h, formatTerm_other h']
  rintro rfl
  rcases h' with ⟨_, h'⟩ | ⟨_, h'⟩
  · cases h'
  · cases h'

lemma formatTerm_injective (h : IsObject term) (h' : IsObject term')
    (heq : formatTerm term = formatTerm term') : term = term' := by
  rcases h with hbare | hother <;> rcases h' with hbare' | hother'
  · rw [formatTerm_bare hbare, formatTerm_bare hbare'] at heq
    exact append_cancel_right (List.cons.inj heq).2
  · exact absurd heq (formatTerm_bare_ne hbare hother')
  · exact absurd heq.symm (formatTerm_bare_ne hbare' hother)
  · rwa [formatTerm_other hother, formatTerm_other hother'] at heq

lemma IsNode.no_space (h : IsNode term) : ' ' ∉ formatTerm term := by
  rcases h with hbare | ⟨hblank, hspace⟩
  · rw [formatTerm_bare hbare]
    simpa using hbare.2.2.2.2
  · rwa [formatTerm_other (.inl hblank)]

/-- **The text tells the triple.** -/
lemma formatNTriple_injective (hs : IsNode s) (hp : IsNode p) (ho : IsObject o) (hs' : IsNode s')
    (hp' : IsNode p') (ho' : IsObject o') (h : formatNTriple s p o = formatNTriple s' p' o') :
    s = s' ∧ p = p' ∧ o = o' := by
  simp only [formatNTriple, append_assoc] at h
  obtain ⟨hsubject, h⟩ := append_injective_of_apart (c := ' ') (by simp) (by simp)
    (apart_of_notMem hs'.no_space) (apart_of_notMem hs.no_space) h
  obtain ⟨hpredicate, h⟩ := append_injective_of_apart (c := ' ') (by simp) (by simp)
    (apart_of_notMem hp'.no_space) (apart_of_notMem hp.no_space) (append_cancel_left h)
  exact ⟨formatTerm_injective hs.isObject hs'.isObject hsubject,
    formatTerm_injective hp.isObject hp'.isObject hpredicate,
    formatTerm_injective ho ho' (append_cancel_right (append_cancel_left h))⟩

variable {B : Type} {keccak256 : Term → B}

lemma hashTripleV10_eq_iff (hhash : Function.Injective keccak256) {q q' : Quad}
    (hq : q.IsTriple) (hq' : q'.IsTriple) :
    hashTripleV10 keccak256 q = hashTripleV10 keccak256 q' ↔ q.triple = q'.triple := by
  constructor
  · intro h
    obtain ⟨hs, hp, ho⟩ := formatNTriple_injective hq.1 hq.2.1 hq.2.2 hq'.1 hq'.2.1 hq'.2.2
        (hhash h)
    rw [Quad.triple, Quad.triple, hs, hp, ho]
  · intro h
    simp only [Quad.triple, Prod.mk.injEq] at h
    rw [hashTripleV10, hashTripleV10, h.1, h.2.1, h.2.2]

variable {quads quads' : List Quad} {roots roots' : List B}

section

variable (hhash : Function.Injective keccak256) (hall : ∀ q ∈ quads, q.IsTriple)
    (hall' : ∀ q ∈ quads', q.IsTriple)

include hhash hall hall'

lemma mem_triples_or_roots
    (h : flatLeaves keccak256 quads roots ⊆ flatLeaves keccak256 quads' roots') {q : Quad}
    (hq : q ∈ quads) : q.triple ∈ quads'.map Quad.triple ∨ hashTripleV10 keccak256 q ∈ roots' := by
  have hleaf := h (mem_append_left roots (mem_map_of_mem hq))
  refine (mem_append.mp hleaf).imp (fun hmem => ?_) id
  obtain ⟨q', hq', heq⟩ := mem_map.mp hmem
  exact mem_map.mpr ⟨q', hq', (hashTripleV10_eq_iff hhash (hall' q' hq') (hall q hq)).mp heq⟩

lemma triples_subset_iff : flatLeaves keccak256 quads [] ⊆ flatLeaves keccak256 quads' [] ↔
      quads.map Quad.triple ⊆ quads'.map Quad.triple := by
  constructor
  · intro h t ht
    obtain ⟨q, hq, rfl⟩ := mem_map.mp ht
    exact (mem_triples_or_roots hhash hall hall' h hq).resolve_right not_mem_nil
  · intro h leaf hleaf
    rw [flatLeaves, append_nil] at hleaf ⊢
    obtain ⟨q, hq, rfl⟩ := mem_map.mp hleaf
    obtain ⟨q', hq', heq⟩ := mem_map.mp (h (mem_map_of_mem hq))
    exact mem_map.mpr ⟨q', hq', (hashTripleV10_eq_iff hhash (hall' q' hq') (hall q hq)).mpr heq⟩

end

/-- **The leaf encoding is injective.** Equal leaves are leaves of equal triples. So the leaves of a
collection determine its triples; where there are private roots too, up to those triples whose leaf
is such a root. -/
theorem leaf_encoding_injective (hhash : Function.Injective keccak256) :
    (∀ q q' : Quad, q.IsTriple → q'.IsTriple →
      (hashTripleV10 keccak256 q = hashTripleV10 keccak256 q' ↔ q.triple = q'.triple)) ∧
    ∀ quads quads' : List Quad, (∀ q ∈ quads, q.IsTriple) → (∀ q ∈ quads', q.IsTriple) →
      (flatLeaves keccak256 quads [] ⊆ flatLeaves keccak256 quads' [] ↔
        quads.map Quad.triple ⊆ quads'.map Quad.triple) ∧
      ∀ roots roots' : List B,
        flatLeaves keccak256 quads roots ⊆ flatLeaves keccak256 quads' roots' →
          ∀ q ∈ quads, q.triple ∈ quads'.map Quad.triple ∨ hashTripleV10 keccak256 q ∈ roots' :=
  ⟨fun _ _ hq hq' => hashTripleV10_eq_iff hhash hq hq', fun _ _ hall hall' =>
    ⟨triples_subset_iff hhash hall hall', fun _ _ h _ hq =>
      mem_triples_or_roots hhash hall hall' h hq⟩⟩

/-- A literal with the end of a triple in it. -/
theorem leaf_encoding_injective_literal :
    hashTripleV10 id ⟨['s'], ['p'], "\x22o\x22 .".toList, []⟩ ≠
      hashTripleV10 id ⟨['s'], ['p'], "\x22o\x22".toList, []⟩ := fun h =>
  absurd (((leaf_encoding_injective Function.injective_id).1 _ _ (by decide) (by decide)).mp h)
    (by decide)

end Dkg
