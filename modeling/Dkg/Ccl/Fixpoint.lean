import Dkg.Ccl.Semantics
import Dkg.Lib.Rounds

/-! # The rounds of the evaluator

The relations hold each tuple under its text (`Keyed`), and where the variables of every head are
bound, a rule adds its consequences to the facts (`interp_applyRule`), so that the rounds of the
evaluator are rounds of closure (`deriveRounds_cases`). The same holds of any rules as long as they
derive tuples of scalars.
-/

namespace Dkg.Ccl

open Lib KeyedList List

def Relation.Keyed (relation : Relation) : Prop := ∀ e ∈ relation.entries, e.1 = tupleKey e.2

/-- Every relation is keyed, and no tuple has an undefined part. -/
structure Relations.WellFormed (relations : Relations) : Prop where
  keyed : ∀ pred, (getRelation relations pred).Keyed
  defined : (interp relations).Defined

/-- The variables of the head are bound by atoms at the top level of the body. -/
def CclEntry.HeadBound (entry : CclEntry) : Prop :=
  ∀ x ∈ entry.params, normalizeVarName x ∈ topVars entry.all

/-- The tuples that a body leads to. -/
def answers (I N : Interpretation) (entry : CclEntry) : Set Tuple :=
  {tuple | ∃ found, Solves I N entry.all .empty found ∧ tuple = found.project entry.params}

/-- The facts that a rule derives in one step. -/
def consequences (N : Interpretation) (rule : CclEntry) (I : Interpretation) : Interpretation :=
  {fact | fact.1 = rule.name ∧ fact.2 ∈ answers I N rule}

/-- What the rules derive, rule by rule, with their negative part as it is when they are applied. -/
def operators (rules : List CclEntry) : List (Interpretation → Interpretation) :=
  rules.map fun rule I => consequences I rule I

variable {localeCompare : List Char → List Char → Ordering} {relations : Relations}
  {relation : Relation} {tuple : Tuple} {tuples : List Tuple} {entry rule : CclEntry}
  {rules : List CclEntry} {S : Set Tuple} {pred : Utf16} {I N : Interpretation} {n : ℕ}

/-! ## Maps of tuples -/

section

variable (h : relation.Keyed)

include h

lemma mem_values_iff : tuple ∈ relation.values ↔ relation.get (tupleKey tuple) = some tuple := by
  constructor
  · intro hmem
    obtain ⟨e, he, rfl⟩ := mem_map.mp hmem
    have hkey := h e he
    exact get_of_mem (hkey ▸ he)
  · intro hget
    exact mem_map_of_mem (mem_of_get hget)

lemma Relation.Keyed.set (tuple : Tuple) :
    Relation.Keyed (set relation (tupleKey tuple) tuple) := by
  rintro ⟨k, t⟩ hmem
  rcases mem_set hmem with ⟨rfl, rfl⟩ | ⟨_, hold⟩
  · rfl
  · exact h (k, t) hold

lemma mem_values_set (hS : Set.InjOn tupleKey S)
    (hvalues : ∀ t ∈ relation.values, t ∈ S) (htuple : tuple ∈ S) {t : Tuple} :
    t ∈ Relation.values (set relation (tupleKey tuple) tuple) ↔
      t ∈ relation.values ∨ t = tuple := by
  rw [mem_values_iff (h.set tuple), mem_values_iff h]
  by_cases hkey : tupleKey t = tupleKey tuple
  · rw [hkey, get_set_self]
    constructor
    · rintro heq
      exact .inr (Option.some.inj heq).symm
    · rintro (hold | rfl)
      · have hmem : t ∈ relation.values := (mem_values_iff h).mpr (hkey ▸ hold)
        rw [hS (hvalues t hmem) htuple hkey]
      · rfl
  · rw [get_set_of_ne hkey]
    constructor
    · exact .inl
    · rintro (hold | rfl)
      · exact hold
      · exact absurd rfl hkey

/-- **Setting tuples** adds them, where texts determine tuples. -/
lemma setTuples_spec (hS : Set.InjOn tupleKey S)
    (hvalues : ∀ t ∈ relation.values, t ∈ S) (htuples : ∀ t ∈ tuples, t ∈ S) :
    (setTuples relation tuples).Keyed ∧
      ∀ t, t ∈ (setTuples relation tuples).values ↔ t ∈ relation.values ∨ t ∈ tuples := by
  induction tuples generalizing relation with
  | nil => exact ⟨h, fun t => by simp [setTuples]⟩
  | cons s rest ih =>
    have hs := htuples s mem_cons_self
    have hmem := fun t => mem_values_set h hS hvalues hs (t := t)
    have hvalues' : ∀ t ∈ Relation.values (set relation (tupleKey s) s), t ∈ S := by
      intro t ht
      rcases (hmem t).mp ht with hold | rfl
      · exact hvalues t hold
      · exact hs
    obtain ⟨hkeyed, hspec⟩ := ih (h.set s) hvalues' fun t ht =>
      htuples t (mem_cons_of_mem s ht)
    refine ⟨hkeyed, fun t => ?_⟩
    show t ∈ (setTuples (set relation (tupleKey s) s) rest).values ↔ _
    rw [hspec t, hmem t, mem_cons, or_assoc]

lemma values_nodup : relation.values.Nodup := by
  have hkeys : relation.entries.map Prod.fst = relation.values.map tupleKey := by
    rw [Relation.values, map_map]
    exact map_congr_left h
  exact List.Nodup.of_map tupleKey (hkeys ▸ relation.nodup)

/-- A map grows in size exactly when it gets a tuple that it lacks. -/
lemma size_ne_iff {relation' : Relation} (h' : relation'.Keyed)
    (hmore : ∀ t ∈ relation.values, t ∈ relation'.values) :
    relation'.size ≠ relation.size ↔ ∃ t ∈ relation'.values, t ∉ relation.values := by
  have hsize : ∀ {r : Relation}, r.Keyed → r.size = r.values.toFinset.card := by
    intro r hr
    rw [toFinset_card_of_nodup (values_nodup hr), Relation.values, length_map]
    rfl
  have hsub : relation.values.toFinset ⊆ relation'.values.toFinset := by
    intro t ht
    exact mem_toFinset.mpr (hmore t (mem_toFinset.mp ht))
  rw [hsize h, hsize h']
  constructor
  · intro hne
    by_contra hcon
    push Not at hcon
    have heq : relation'.values.toFinset = relation.values.toFinset := by
      refine Finset.Subset.antisymm (fun t ht => ?_) hsub
      exact mem_toFinset.mpr (hcon t (mem_toFinset.mp ht))
    exact hne (by rw [heq])
  · rintro ⟨t, ht, hnew⟩ heq
    have hset := Finset.eq_of_subset_of_card_le hsub heq.le
    exact hnew (mem_toFinset.mp (hset ▸ mem_toFinset.mpr ht))

/-! ## Rules -/

end

lemma binding_empty_defined : Binding.empty.Defined := fun _ h => by cases h

lemma keyed_empty : Relation.Keyed empty := fun _ h => by cases h

/-- **A body is evaluated to its answers.** -/
lemma mem_evaluateEntry (h : relations.WellFormed) :
    tuple ∈ evaluateEntry localeCompare relations entry ↔
      tuple ∈ answers (interp relations) (interp relations) entry := by
  have hlist : ∀ found, found ∈ evaluateConditions localeCompare relations entry.all [.empty] ↔
      Solves (interp relations) (interp relations) entry.all .empty found := fun found =>
    mem_evaluateConditions h.defined binding_empty_defined
  have hinj : Set.InjOn tupleKey {t | t ∈ (evaluateConditions localeCompare relations entry.all
      [.empty]).map fun binding => binding.project entry.params} := by
    intro s hs t ht hkey
    obtain ⟨β, hβ, rfl⟩ := mem_map.mp hs
    obtain ⟨γ, hγ, rfl⟩ := mem_map.mp ht
    rw [hlist] at hβ hγ
    refine project_eq_of_key (hβ.defined h.defined binding_empty_defined)
      (hγ.defined h.defined binding_empty_defined) (fun x => ?_) entry.params hkey
    rw [hβ.isSome_iff, hγ.isSome_iff]
  have hspec := setTuples_spec keyed_empty hinj (fun t ht => by cases ht) (fun t ht => ht)
  rw [evaluateEntry, (perm_insertionSort _ _).mem_iff, hspec.2]
  simp only [answers, mem_map, hlist, Set.mem_ofPred_eq, eq_comm]
  constructor
  · rintro (hnil | hmem)
    · cases hnil
    · exact hmem
  · exact .inr

/-- The answers of a rule with a bound head have no undefined value. -/
lemma answers_defined (hI : I.Defined) (hhead : entry.HeadBound) (h : tuple ∈ answers I N entry) :
    Tuple.Defined tuple := by
  obtain ⟨found, hsolves, rfl⟩ := h
  intro hmem
  simp only [Binding.project, map_map, mem_map, Function.comp_apply] at hmem
  obtain ⟨x, hx, hlookup⟩ := hmem
  have hsome := (hsolves.isSome_iff (normalizeVarName x)).mpr (.inr (hhead x hx))
  obtain ⟨v, hv⟩ := Option.isSome_iff_exists.mp hsome
  rw [Binding.lookup, hv, Option.getD_some] at hlookup
  exact hsolves.defined hI binding_empty_defined _ (hlookup ▸ hv)

lemma getRelation_set (relations : Relations) (name : Utf16) (relation : Relation) :
    getRelation (relations.set name relation) pred =
      if pred = name then relation else getRelation relations pred := by
  unfold getRelation
  split
  next h => rw [h, get_set_self, Option.getD_some]
  next h => rw [get_set_of_ne h]

/-- The facts whose arguments are scalars. -/
def scalarFacts : Interpretation := {fact | Tuple.Defined fact.2}

variable (localeCompare)

/-- **A rule in a round** adds its consequences, and the flag says whether some are new. -/
lemma applyRule_spec (h : relations.WellFormed)
    (hscalar : consequences (interp relations) rule (interp relations) ⊆ scalarFacts)
    (changed : Bool) :
    (applyRule localeCompare (relations, changed) rule).1.WellFormed ∧
      interp (applyRule localeCompare (relations, changed) rule).1 =
        interp relations ∪ consequences (interp relations) rule (interp relations) ∧
      ((applyRule localeCompare (relations, changed) rule).2 = true ↔ changed = true ∨
        ¬ consequences (interp relations) rule (interp relations) ⊆ interp relations) := by
  have hvalues : ∀ t ∈ (getRelation relations rule.name).values, t ∈ {t | Tuple.Defined t} :=
    fun t ht => h.defined (rule.name, t) ht
  have htuples : ∀ t ∈ evaluateRule localeCompare relations rule, t ∈ {t | Tuple.Defined t} :=
    fun t ht => hscalar (show (rule.name, t) ∈ _ from ⟨rfl, (mem_evaluateEntry h).mp ht⟩)
  obtain ⟨hkeyed, hmem⟩ := setTuples_spec (h.keyed rule.name) tupleKey_injOn hvalues htuples
  have hinterp : interp (applyRule localeCompare (relations, changed) rule).1 =
      interp relations ∪ consequences (interp relations) rule (interp relations) := by
    ext ⟨p, t⟩
    rw [Set.mem_union, mem_interp, mem_interp, applyRule, getRelation_set]
    by_cases hp : p = rule.name
    · subst hp
      rw [if_pos rfl, hmem, evaluateRule, mem_evaluateEntry h]
      simp [consequences]
    · rw [if_neg hp]
      simp [consequences, hp]
  refine ⟨⟨fun p => ?_, ?_⟩, hinterp, ?_⟩
  · rw [applyRule, getRelation_set]
    split
    next => exact hkeyed
    next => exact h.keyed p
  · rw [hinterp]
    rintro fact (hold | hnew)
    · exact h.defined fact hold
    · exact hscalar hnew
  · have hsize := size_ne_iff (h.keyed rule.name) hkeyed fun t ht => (hmem t).mpr (.inl ht)
    rw [applyRule, Bool.or_eq_true, decide_eq_true_iff, hsize]
    refine or_congr Iff.rfl ?_
    rw [Set.not_subset]
    constructor
    · rintro ⟨t, ht, hnew⟩
      have ht' := ((hmem t).mp ht).resolve_left hnew
      exact ⟨(rule.name, t), ⟨rfl, (mem_evaluateEntry h).mp ht'⟩, hnew⟩
    · rintro ⟨⟨p, t⟩, ⟨rfl, ht⟩, hnew⟩
      exact ⟨t, (hmem t).mpr (.inr ((mem_evaluateEntry h).mpr ht)), hnew⟩

/-! ## Rounds -/

/-- A round adds something when its first operator does or the rest of it does. -/
lemma round_cons_ne_iff {f : Interpretation → Interpretation}
    {fs : List (Interpretation → Interpretation)} :
    Rounds.round (f :: fs) I ≠ I ↔ ¬ f I ⊆ I ∨ Rounds.round fs (I ∪ f I) ≠ I ∪ f I := by
  by_cases hf : f I ⊆ I
  · rw [Rounds.round_cons, Set.union_eq_self_of_subset_right hf]
    simp [hf]
  · refine iff_of_true (fun heq => hf ?_) (.inl hf)
    exact (Rounds.round_eq_iff.mp heq) f mem_cons_self

lemma foldl_applyRule_spec (h : relations.WellFormed)
    (hscalar : Rounds.Within scalarFacts (operators rules) (interp relations)) (changed : Bool) :
    (rules.foldl (applyRule localeCompare) (relations, changed)).1.WellFormed ∧
      interp (rules.foldl (applyRule localeCompare) (relations, changed)).1 =
        Rounds.round (operators rules) (interp relations) ∧
      ((rules.foldl (applyRule localeCompare) (relations, changed)).2 = true ↔ changed = true ∨
        Rounds.round (operators rules) (interp relations) ≠ interp relations) := by
  induction rules generalizing relations changed with
  | nil => exact ⟨h, rfl, by simp [operators, Rounds.round]⟩
  | cons rule rest ih =>
    obtain ⟨hwf, hinterp, hflag⟩ := applyRule_spec localeCompare h hscalar.1 changed
    have hrest : Rounds.Within scalarFacts (operators rest)
        (interp (applyRule localeCompare (relations, changed) rule).1) := hinterp ▸ hscalar.2
    obtain ⟨hwf', hinterp', hflag'⟩ := ih hwf hrest
      (applyRule localeCompare (relations, changed) rule).2
    have hcons : operators (rule :: rest) =
        (fun I => consequences I rule I) :: operators rest := rfl
    rw [foldl_cons, hcons, round_cons_ne_iff, Rounds.round_cons, ← hinterp]
    refine ⟨hwf', hinterp', ?_⟩
    rw [hflag', hflag, or_assoc]

/-- **A round** is a round of closure. -/
lemma round_spec (h : relations.WellFormed)
    (hscalar : Rounds.Within scalarFacts (operators rules) (interp relations)) :
    (round localeCompare rules relations).1.WellFormed ∧
      interp (round localeCompare rules relations).1 =
        Rounds.round (operators rules) (interp relations) ∧
      ((round localeCompare rules relations).2 = true ↔
        Rounds.round (operators rules) (interp relations) ≠ interp relations) := by
  obtain ⟨hwf, hinterp, hflag⟩ := foldl_applyRule_spec localeCompare h hscalar false
  refine ⟨hwf, hinterp, hflag.trans ?_⟩
  simp

/-- The first of `n` rounds that adds nothing, if any, ends the evaluation. -/
lemma deriveRounds_cases (h : relations.WellFormed) (n : ℕ)
    (hscalar : ∀ k < n, Rounds.Within scalarFacts
      (operators rules) ((Rounds.round (operators rules))^[k] (interp relations))) :
    (∃ k < n, ∃ result, deriveRounds localeCompare rules n relations = .ok result ∧
        result.WellFormed ∧
        interp result = (Rounds.round (operators rules))^[k] (interp relations) ∧
        Rounds.round (operators rules) (interp result) = interp result) ∨
      (deriveRounds localeCompare rules n relations = .error notConverged ∧
        ∀ k < n, Rounds.round (operators rules)
          ((Rounds.round (operators rules))^[k] (interp relations)) ≠
            (Rounds.round (operators rules))^[k] (interp relations)) := by
  induction n generalizing relations with
  | zero => exact .inr ⟨rfl, fun k hk => absurd hk (Nat.not_lt_zero k)⟩
  | succ n ih =>
    obtain ⟨hwf, hinterp, hflag⟩ := round_spec localeCompare h (hscalar 0 (Nat.succ_pos n))
    rw [deriveRounds]
    by_cases hchanged : (round localeCompare rules relations).2 = true
    · rw [if_pos hchanged]
      have hiter : ∀ k, (Rounds.round (operators rules))^[k]
          (interp (round localeCompare rules relations).1) =
            (Rounds.round (operators rules))^[k + 1] (interp relations) := by
        intro k
        rw [hinterp, Function.iterate_succ_apply]
      have hnext : ∀ k < n, Rounds.Within scalarFacts (operators rules)
          ((Rounds.round (operators rules))^[k]
            (interp (round localeCompare rules relations).1)) := by
        intro k hk
        rw [hiter]
        exact hscalar (k + 1) (by omega)
      rcases ih hwf hnext with ⟨k, hk, result, hok, hresult, heq, hfixed⟩ | ⟨herror, hne⟩
      · exact .inl ⟨k + 1, by omega, result, hok, hresult, by rw [heq, hiter], hfixed⟩
      · refine .inr ⟨herror, fun k hk => ?_⟩
        cases k with
        | zero => exact hflag.mp hchanged
        | succ k =>
          have hstep := hne k (by omega)
          rwa [hiter] at hstep
    · rw [if_neg hchanged]
      have hfixed := not_not.mp (mt hflag.mpr hchanged)
      refine .inl ⟨0, by omega, _, rfl, hwf, hinterp.trans hfixed, ?_⟩
      rw [hinterp, hfixed, hfixed]

/-! ## The facts -/

def factSet (facts : List CclFact) : Interpretation := {fact | ⟨fact.1, fact.2⟩ ∈ facts}

/-- The arguments of a fact are scalars. -/
def CclFact.IsScalar (fact : CclFact) : Prop := Tuple.Defined fact.args

variable {facts : List CclFact} {policy : CclCanonicalPolicy}

lemma foldl_facts_spec (hfacts : ∀ fact ∈ facts, fact.IsScalar) (h : relations.WellFormed) :
    (facts.foldl (fun relations fact => relations.set fact.pred
        ((getRelation relations fact.pred).set (tupleKey fact.args) fact.args))
          relations).WellFormed ∧
      interp (facts.foldl (fun relations fact => relations.set fact.pred
        ((getRelation relations fact.pred).set (tupleKey fact.args) fact.args)) relations) =
        interp relations ∪ factSet facts := by
  induction facts generalizing relations with
  | nil => exact ⟨h, by simp [factSet]⟩
  | cons fact rest ih =>
    have hscalar := hfacts fact mem_cons_self
    have hvalues : ∀ t ∈ (getRelation relations fact.pred).values, t ∈ {t | Tuple.Defined t} :=
      fun t ht => h.defined (fact.pred, t) ht
    have hmem := fun t => mem_values_set (h.keyed fact.pred) tupleKey_injOn hvalues hscalar (t := t)
    have hinterp : interp (relations.set fact.pred
        ((getRelation relations fact.pred).set (tupleKey fact.args) fact.args)) =
          interp relations ∪ {(fact.pred, fact.args)} := by
      ext ⟨p, t⟩
      rw [Set.mem_union, mem_interp, mem_interp, getRelation_set]
      by_cases hp : p = fact.pred
      · subst hp
        rw [if_pos rfl, hmem]
        simp
      · rw [if_neg hp]
        simp [hp]
    have hwf : Relations.WellFormed (relations.set fact.pred
        ((getRelation relations fact.pred).set (tupleKey fact.args) fact.args)) := by
      refine ⟨fun p => ?_, ?_⟩
      · rw [getRelation_set]
        split
        next => exact (h.keyed fact.pred).set fact.args
        next => exact h.keyed p
      · rw [hinterp]
        rintro ⟨p, t⟩ (hold | hnew)
        · exact h.defined (p, t) hold
        · cases hnew
          exact hscalar
    obtain ⟨hwf', hinterp'⟩ := ih (fun f hf => hfacts f (mem_cons_of_mem fact hf)) hwf
    refine ⟨hwf', ?_⟩
    rw [foldl_cons, hinterp', hinterp, Set.union_assoc]
    congr 1
    ext ⟨p, t⟩
    simp only [factSet, Set.mem_union, Set.mem_singleton_iff, Set.mem_ofPred_eq, mem_cons]
    refine or_congr ?_ Iff.rfl
    cases fact
    simp

lemma factRelations_spec (hfacts : ∀ fact ∈ facts, fact.IsScalar) :
    (factRelations facts).WellFormed ∧ interp (factRelations facts) = factSet facts := by
  have hnone : ∀ pred, getRelation empty pred = empty := fun _ => rfl
  have hempty : interp empty = ∅ := by
    ext ⟨p, t⟩
    rw [mem_interp, hnone]
    simp [Relation.values, empty]
  have hwf : Relations.WellFormed empty := by
    refine ⟨fun pred => ?_, ?_⟩
    · rw [hnone]
      exact keyed_empty
    · rw [hempty]
      exact fun fact h => absurd h (Set.notMem_empty fact)
  obtain ⟨h, hinterp⟩ := foldl_facts_spec hfacts hwf
  refine ⟨h, hinterp.trans ?_⟩
  rw [hempty, Set.empty_union]

/-! ## Results -/

/-- The entry whose tuples stand under a name: the last one of that name. -/
def lastNamed (entries : List CclEntry) (name : Utf16) : Option CclEntry :=
  entries.reverse.find? fun entry => entry.name = name

/-- The result has the relations of the rules and the answers of the decisions in `M`. -/
structure CclEvaluationResult.Reads (policy : CclCanonicalPolicy) (M : Interpretation)
    (result : CclEvaluationResult) : Prop where
  derived : ∀ rule ∈ policy.rules, ∃ tuples, result.derived.get rule.name = some tuples ∧
    ∀ tuple, tuple ∈ tuples ↔ (rule.name, tuple) ∈ M
  decisions : ∀ name decision, lastNamed policy.decisions name = some decision →
    ∃ tuples, result.decisions.get name = some tuples ∧
      ∀ tuple, tuple ∈ tuples ↔ tuple ∈ answers M M decision

/-- The rounds that the rules begin with the facts. -/
def rounds (policy : CclCanonicalPolicy) (facts : List CclFact) (n : ℕ) : Interpretation :=
  (Rounds.round (operators policy.rules))^[n] (factSet facts)

/-- The round after `n` rounds adds nothing. -/
def FixedAfter (policy : CclCanonicalPolicy) (facts : List CclFact) (n : ℕ) : Prop :=
  Rounds.round (operators policy.rules) (rounds policy facts n) = rounds policy facts n

/-- **The evaluation** reads the facts after the first round that adds nothing, if it is among
64. -/
lemma run_cases_of_scalar (hfacts : ∀ fact ∈ facts, fact.IsScalar)
    (hscalar : ∀ n < 64, Rounds.Within scalarFacts (operators policy.rules)
      (rounds policy facts n)) :
    (∃ n < 64, FixedAfter policy facts n ∧ ∃ result, run localeCompare policy facts = .ok result ∧
        result.Reads policy (rounds policy facts n)) ∨
      (run localeCompare policy facts = .error notConverged ∧
        ∀ n < 64, ¬ FixedAfter policy facts n) := by
  obtain ⟨hwf, hinterp⟩ := factRelations_spec hfacts
  have hrounds : ∀ k < 64, Rounds.Within scalarFacts (operators policy.rules)
      ((Rounds.round (operators policy.rules))^[k] (interp (factRelations facts))) := by
    rw [hinterp]
    exact hscalar
  have hcases := deriveRounds_cases localeCompare hwf 64 hrounds
  rw [hinterp] at hcases
  rcases hcases with ⟨n, hn, relations, hok, hresult, heq, hfixed⟩ | ⟨herror, hne⟩
  · have hrounds : interp relations = rounds policy facts n := heq
    rw [hrounds] at hfixed
    refine .inl ⟨n, hn, hfixed, ?_⟩
    have hrun : run localeCompare policy facts = .ok {
        derived := policy.rules.foldl (fun derived rule => derived.set rule.name
          (sortedTuples localeCompare (getRelation relations rule.name))) .empty
        decisions := evaluateDecisions localeCompare relations policy.decisions } := by
      rw [run, deriveFixpoint, hok]
      rfl
    refine ⟨_, hrun, ?_, ?_⟩
    · intro rule hrule
      refine ⟨sortedTuples localeCompare (getRelation relations rule.name), ?_, fun tuple => ?_⟩
      · have hsome : (policy.rules.reverse.find? fun r => r.name = rule.name).isSome := by
          rw [find?_isSome]
          exact ⟨rule, mem_reverse.mpr hrule, by simp⟩
        obtain ⟨r, hr⟩ := Option.isSome_iff_exists.mp hsome
        have hname : r.name = rule.name := by simpa using find?_some hr
        rw [get_foldl_set, hr, Option.map_some, Option.some_or, hname]
      · rw [mem_sortedTuples, ← mem_interp, hrounds]
    · intro name decision hlast
      refine ⟨evaluateEntry localeCompare relations decision, ?_, fun tuple => ?_⟩
      · rw [lastNamed] at hlast
        rw [evaluateDecisions, get_foldl_set, hlast, Option.map_some, Option.some_or]
      · rw [mem_evaluateEntry hresult, hrounds]
  · refine .inr ⟨?_, hne⟩
    rw [run, deriveFixpoint, herror]
    rfl

lemma within_scalarFacts (hhead : ∀ rule ∈ rules, rule.HeadBound) (hI : I ⊆ scalarFacts) :
    Rounds.Within scalarFacts (operators rules) I := by
  induction rules generalizing I with
  | nil => trivial
  | cons rule rest ih =>
    have hrule : consequences I rule I ⊆ scalarFacts := by
      rintro fact ⟨_, hanswer⟩
      exact answers_defined hI (hhead rule mem_cons_self) hanswer
    exact ⟨hrule, ih (fun r hr => hhead r (mem_cons_of_mem rule hr)) (Set.union_subset hI hrule)⟩

lemma factSet_subset_scalarFacts (hfacts : ∀ fact ∈ facts, fact.IsScalar) :
    factSet facts ⊆ scalarFacts := fun fact hfact => hfacts ⟨fact.1, fact.2⟩ hfact

lemma rounds_subset_scalarFacts (hhead : ∀ rule ∈ policy.rules, rule.HeadBound)
    (hfacts : ∀ fact ∈ facts, fact.IsScalar) (n : ℕ) : rounds policy facts n ⊆ scalarFacts := by
  induction n with
  | zero => exact factSet_subset_scalarFacts hfacts
  | succ n ih =>
    rw [rounds, Function.iterate_succ_apply']
    exact Rounds.round_subset (within_scalarFacts hhead ih) ih

lemma run_cases (hhead : ∀ rule ∈ policy.rules, rule.HeadBound)
    (hfacts : ∀ fact ∈ facts, fact.IsScalar) :
    (∃ n < 64, FixedAfter policy facts n ∧ ∃ result, run localeCompare policy facts = .ok result ∧
        result.Reads policy (rounds policy facts n)) ∨
      (run localeCompare policy facts = .error notConverged ∧
        ∀ n < 64, ¬ FixedAfter policy facts n) := by
  exact run_cases_of_scalar localeCompare hfacts fun n _ =>
    within_scalarFacts hhead (rounds_subset_scalarFacts hhead hfacts n)

end Dkg.Ccl
