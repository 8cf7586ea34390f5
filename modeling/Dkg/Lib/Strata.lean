import Mathlib.Data.Set.Card

/-! # Strata

Things depend on others, and some of these dependencies are strict. Where no strict dependency is
part of a cycle and finitely many things are depended on strictly, what lies strictly below a thing
can be settled before it (`wellFounded_below`).
-/

namespace Dkg.Lib.Strata

open Relation

variable {α : Type} {dependsOn strict : α → α → Prop} {a b c : α}

/-- No strict dependency is part of a cycle. -/
def Acyclic (dependsOn strict : α → α → Prop) : Prop :=
  ∀ a b, strict a b → ¬ ReflTransGen dependsOn b a

/-- `a` depends on `b` with a strict dependency as the last one. -/
def Below (dependsOn strict : α → α → Prop) (b a : α) : Prop :=
  ∃ c, ReflTransGen dependsOn a c ∧ strict c b

lemma Below.trans (hstrict : ∀ a b, strict a b → dependsOn a b)
    (h : Below dependsOn strict c b) (h' : Below dependsOn strict b a) :
    Below dependsOn strict c a := by
  obtain ⟨d, hbd, hdc⟩ := h
  obtain ⟨e, hae, heb⟩ := h'
  exact ⟨d, (hae.tail (hstrict e b heb)).trans hbd, hdc⟩

lemma not_below_self (hacyclic : Acyclic dependsOn strict) : ¬ Below dependsOn strict a a := by
  rintro ⟨c, hac, hca⟩
  exact hacyclic c a hca hac

lemma wellFounded_below (hstrict : ∀ a b, strict a b → dependsOn a b)
    (hacyclic : Acyclic dependsOn strict) (hfinite : {b | ∃ a, strict a b}.Finite) :
    WellFounded (Below dependsOn strict) := by
  -- the number of things below decreases
  refine Subrelation.wf (fun {b a} (h : Below dependsOn strict b a) => ?_)
    (measure fun a => {c | Below dependsOn strict c a}.ncard).wf
  have hsub : {c | Below dependsOn strict c a}.Finite := by
    refine hfinite.subset ?_
    rintro c ⟨d, _, hdc⟩
    exact ⟨d, hdc⟩
  refine Set.ncard_lt_ncard ⟨fun c hc => Below.trans hstrict hc h, ?_⟩ hsub
  intro hle
  exact not_below_self hacyclic (hle h)

end Dkg.Lib.Strata
