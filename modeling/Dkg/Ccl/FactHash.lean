import Dkg.AkaEncodings.Messages
import Dkg.Lib.StableSort

/-! # The hash of facts

`hashCclFacts`, and `hashFacts` of the fact resolution, which is the same: the facts are sorted by
their texts, and the text of the sorted list is hashed. The texts are compared by `localeCompare`,
which finds no difference between canonically equivalent strings, so facts with such texts stay in
the order in which they were given.
-/

namespace Dkg.Ccl

open Lib Aka.Encoding

/-- A predicate and any values. -/
structure CclFactTuple where
  pred : Utf16
  args : List Json

namespace CclFactTuple

def toJson (fact : CclFactTuple) : Json := .array (.string fact.pred :: fact.args)

def tupleKey (fact : CclFactTuple) : List Char := fact.toJson.render

lemma toJson_injective : Function.Injective toJson := by
  intro f g h
  simp only [toJson, Json.array.injEq, List.cons.injEq, Json.string.injEq] at h
  cases f
  cases g
  simp only at h
  rw [h.1, h.2]

variable (localeCompare : List Char → List Char → Ordering)

/-- `left` is not after `right`. -/
def CompareTuples (left right : CclFactTuple) : Prop :=
  localeCompare left.tupleKey right.tupleKey ≠ .gt

instance decidableCompareTuples : DecidableRel (CompareTuples localeCompare) :=
  fun _ _ => instDecidableNot

variable {localeCompare}

instance total_compareTuples [Std.OrientedCmp localeCompare] :
    Std.Total (CompareTuples localeCompare) := by
  constructor
  intro f g
  by_cases h : localeCompare f.tupleKey g.tupleKey = .gt
  · have hswap : localeCompare g.tupleKey f.tupleKey = (Ordering.gt).swap :=
      h ▸ Std.OrientedCmp.eq_swap
    exact .inr (by simp [CompareTuples, hswap])
  · exact .inl h

instance isTrans_compareTuples [Std.TransCmp localeCompare] :
    IsTrans CclFactTuple (CompareTuples localeCompare) := by
  constructor
  intro f g h hfg hgh
  have hle : (localeCompare f.tupleKey h.tupleKey).isLE :=
    Std.TransCmp.isLE_trans (Ordering.isLE_iff_ne_gt.mpr hfg) (Ordering.isLE_iff_ne_gt.mpr hgh)
  exact Ordering.isLE_iff_ne_gt.mp hle

end CclFactTuple

section

variable (localeCompare : List Char → List Char → Ordering) (sha256 : Sha256)

def hashCclFacts (facts : List CclFactTuple) : Utf16 :=
  let normalized := facts.insertionSort (CclFactTuple.CompareTuples localeCompare)
  utf16 "sha256:".toList ++
    sha256String sha256 (utf16 (Json.array (normalized.map CclFactTuple.toJson)).render)

/-- The facts that `localeCompare` does not tell from `fact`, in the order of the list. -/
def indistinguishable (fact : CclFactTuple) (facts : List CclFactTuple) : List CclFactTuple :=
  tiedWith (CclFactTuple.CompareTuples localeCompare) fact facts

variable {localeCompare} {sha256} {xs ys : List CclFactTuple}

lemma hashCclFacts_eq_iff (hsha256 : Function.Injective sha256) :
    hashCclFacts localeCompare sha256 xs = hashCclFacts localeCompare sha256 ys ↔
      xs.insertionSort (CclFactTuple.CompareTuples localeCompare) =
        ys.insertionSort (CclFactTuple.CompareTuples localeCompare) := by
  constructor
  · intro h
    have hdigest := sha256Hex_eq_iff.mp (List.append_cancel_left h)
    have htext := Json.render_injective (encodeText_utf16 (hsha256 hdigest))
    rw [Json.array.injEq] at htext
    exact CclFactTuple.toJson_injective.list_map htext
  · intro h
    rw [hashCclFacts, h, hashCclFacts]

variable [Std.TransCmp localeCompare]

/-- Two facts that are not told apart are hashed in the order in which they stand. -/
lemma hashCclFacts_swap (hsha256 : Function.Injective sha256) {f g : CclFactTuple} (hne : f ≠ g)
    (htied : localeCompare f.tupleKey g.tupleKey = .eq) :
    hashCclFacts localeCompare sha256 [f, g] ≠ hashCclFacts localeCompare sha256 [g, f] := by
  have hswap : localeCompare g.tupleKey f.tupleKey = (Ordering.eq).swap :=
    htied ▸ Std.OrientedCmp.eq_swap
  have hfg : CclFactTuple.CompareTuples localeCompare f g := by
    simp [CclFactTuple.CompareTuples, htied]
  have hgf : CclFactTuple.CompareTuples localeCompare g f := by
    simp [CclFactTuple.CompareTuples, hswap]
  rw [ne_eq, hashCclFacts_eq_iff hsha256, List.Pairwise.insertionSort_eq (by simpa using hfg),
    List.Pairwise.insertionSort_eq (by simpa using hgf), List.cons.injEq]
  exact fun h => hne h.1

end

/-- **Hash of facts.** For SHA-256 without collisions and any total preorder of texts, two lists of
facts get equal hashes exactly if one is a permutation of the other, if and only if the second one
is no permutation of the first, or has the facts that are not told apart in the same order. -/
theorem hashCclFacts_iff_perm (localeCompare : List Char → List Char → Ordering)
    [Std.TransCmp localeCompare] {sha256 : Sha256} (hsha256 : Function.Injective sha256)
    (xs ys : List CclFactTuple) :
    ((hashCclFacts localeCompare sha256 xs = hashCclFacts localeCompare sha256 ys ↔ xs.Perm ys) ↔
      ¬ xs.Perm ys ∨
        ∀ fact,
          indistinguishable localeCompare fact xs = indistinguishable localeCompare fact ys) := by
  have hclasses : xs.insertionSort (CclFactTuple.CompareTuples localeCompare) =
      ys.insertionSort (CclFactTuple.CompareTuples localeCompare) ↔
      ∀ fact, indistinguishable localeCompare fact xs = indistinguishable localeCompare fact ys :=
    insertionSort_eq_iff
  rw [hashCclFacts_eq_iff hsha256]
  constructor
  · intro h
    by_cases hperm : xs.Perm ys
    · exact .inr (hclasses.mp (h.mpr hperm))
    · exact .inl hperm
  · rintro (hnot | hsame)
    · exact iff_of_false (fun h => hnot (perm_of_insertionSort_eq h)) hnot
    · have hsorted := hclasses.mpr hsame
      exact iff_of_true hsorted (perm_of_insertionSort_eq hsorted)

/-! ### Two texts of one letter -/

/-- The decomposition of U+00E9. -/
def decomposed (c : Char) : List Char := if c = '\u00e9' then ['e', '\u0301'] else [c]

/-- Texts are compared in their decompositions. -/
def canonicalCompare : List Char → List Char → Ordering :=
  compareOn fun text => String.ofList (text.flatMap decomposed)

instance transCmp_canonicalCompare : Std.TransCmp canonicalCompare :=
  inferInstanceAs (Std.TransCmp
    (compareOn fun text : List Char => String.ofList (text.flatMap decomposed)))

/-- A fact about a name that ends in one code point. -/
def composedFact : CclFactTuple := ⟨utf16 "member".toList, [.string (utf16 ['c', '\u00e9'])]⟩

/-- The same name, ending in two code points. -/
def decomposedFact : CclFactTuple := ⟨utf16 "member".toList, [.string (utf16 ['c', 'e', '\u0301'])]⟩

lemma canonicalCompare_composedFact :
    canonicalCompare composedFact.tupleKey decomposedFact.tupleKey = .eq := by
  have hsame : composedFact.tupleKey.flatMap decomposed =
      decomposedFact.tupleKey.flatMap decomposed := by decide +kernel
  rw [canonicalCompare, compareOn, hsame]
  exact Std.ReflCmp.compare_self

/-- The two facts in both orders. -/
theorem hashCclFacts_composed :
    composedFact ≠ decomposedFact ∧
      [composedFact, decomposedFact].Perm [decomposedFact, composedFact] ∧
      hashCclFacts canonicalCompare id [composedFact, decomposedFact] ≠
        hashCclFacts canonicalCompare id [decomposedFact, composedFact] := by
  have hne : composedFact ≠ decomposedFact := by
    intro h
    have hkey : composedFact.tupleKey = decomposedFact.tupleKey := congrArg _ h
    revert hkey
    decide +kernel
  exact ⟨hne, List.Perm.swap .., hashCclFacts_swap Function.injective_id hne
    canonicalCompare_composedFact⟩

/-- Another name. -/
def plainFact : CclFactTuple := ⟨utf16 "member".toList, [.string (utf16 ['d'])]⟩

/-- Two facts that are told apart, in both orders. -/
theorem hashCclFacts_iff_perm_plain :
    hashCclFacts canonicalCompare id [composedFact, plainFact] =
        hashCclFacts canonicalCompare id [plainFact, composedFact] ↔
      [composedFact, plainFact].Perm [plainFact, composedFact] := by
  have hapart : [composedFact, plainFact].Pairwise fun f g =>
      ¬ (CclFactTuple.CompareTuples canonicalCompare f g ∧
        CclFactTuple.CompareTuples canonicalCompare g f) := by decide +kernel
  exact (hashCclFacts_iff_perm canonicalCompare Function.injective_id _ _).mpr
    (.inr (tiedWith_eq_of_perm (List.Perm.swap ..) hapart))

end Dkg.Ccl
