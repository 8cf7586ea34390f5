import Dkg.Ccl.Evaluator
import Mathlib.Data.Set.Card
import Mathlib.Data.List.Sort

/-! # What conditions mean

An interpretation is a set of facts. `Solves I N` says which bindings a list of conditions leads to:
atoms are looked up in `I`, and what stands under `not_exists` or under a `count_distinct` that is
not monotone is looked up in `N`, so that a body can be read with its negative part fixed.

The evaluator computes this relation (`mem_evaluateConditions`), with `count_distinct` over tuples
and not over their texts: where no tuple of a fact has an undefined value, the text of a tuple
determines it (`tupleKey_injOn`), and the bindings of one list of conditions have the same variables
(`Solves.isSome_iff`).
-/

namespace Dkg.Ccl

open Lib List Function

abbrev Fact := Utf16 × Tuple

abbrev Interpretation := Set Fact

/-- A binding with the values of an atom's variables, and nothing else, added. -/
structure Matches (args : List Arg) (tuple : Tuple) (binding result : Binding) : Prop where
  length : args.length = tuple.length
  keeps : ∀ x v, binding x = some v → result x = some v
  agrees : ∀ pair ∈ args.zip tuple,
    (∀ x, pair.1.var = some x → result x = some pair.2) ∧
      (pair.1.var = none → pair.1 = .scalar pair.2)
  only : ∀ x, (result x).isSome → (binding x).isSome ∨ ∃ arg ∈ args, arg.var = some x

/-- What is true of a count stays true of a greater one. -/
def CompareOp.IsMonotone (op : CompareOp) : Prop := op = .atLeast ∨ op = .greater
  deriving Decidable

/-- The comparison of a count that may be infinite. -/
def CompareOp.Holds (op : CompareOp) (count : ℕ∞) (value : ℚ) : Prop :=
  match count with
  | ⊤ => op.IsMonotone
  | some n => compareInts n op value = true

mutual

def Solves (I N : Interpretation) : List CclCondition → Binding → Binding → Prop
  | [], binding, result => result = binding
  | condition :: rest, binding, result =>
    ∃ next, SolvesOne I N condition binding next ∧ Solves I N rest next result

def SolvesOne (I N : Interpretation) : CclCondition → Binding → Binding → Prop
  | .atom pred args, binding, result =>
    ∃ tuple, (pred, tuple) ∈ I ∧ Matches args tuple binding result
  | .exists_ conditions, binding, result =>
    result = binding ∧ ∃ found, Solves I N conditions binding found
  | .notExists conditions, binding, result =>
    result = binding ∧ ¬ ∃ found, Solves N N conditions binding found
  | .countDistinct vars conditions op value, binding, result =>
    result = binding ∧
      op.Holds {tuple | ∃ found, Solves (if op.IsMonotone then I else N) N conditions binding
          found ∧
        tuple = found.project vars}.encard value.value

end

lemma CompareOp.holds_natCast {op : CompareOp} {n : ℕ} {value : ℚ} :
    op.Holds n value ↔ compareInts n op value = true := Iff.rfl

/-! ## Matching an atom -/

variable {args : List Arg} {arg : Arg} {tuple : Tuple} {value : Value}
    {binding result next : Binding}

lemma matches_nil : Matches [] [] binding result ↔ result = binding := by
  constructor
  · intro h
    funext x
    cases hx : binding x with
    | some v => exact h.keeps x v hx
    | none =>
      cases hr : result x with
      | none => rfl
      | some v =>
        have honly := h.only x (by simp [hr])
        simp [hx] at honly
  · rintro rfl
    exact ⟨rfl, fun _ _ h => h, by simp, fun _ h => .inl h⟩

lemma matchTerm_eq_some : matchTerm arg value binding = some next ↔
    (∃ x, arg.var = some x ∧ ((binding x = some value ∧ next = binding) ∨
      (binding x = none ∧ next = update binding x (some value)))) ∨
    (arg.var = none ∧ arg = .scalar value ∧ next = binding) := by
  unfold matchTerm
  cases harg : arg.var with
  | some x =>
    cases hx : binding x with
    | none => simp [hx, eq_comm]
    | some v =>
      by_cases hv : v = value
      · simp [hx, hv, eq_comm]
      · simp [hx, hv]
  | none =>
    cases arg with
    | other => simp
    | scalar v =>
      by_cases hv : v = value
      · simp [hv, eq_comm]
      · simp [hv]

lemma matches_cons {args : List Arg} {values : Tuple} :
    Matches (arg :: args) (value :: values) binding result ↔
      ∃ next, matchTerm arg value binding = some next ∧ Matches args values next result := by
  constructor
  · intro h
    have hagrees := h.agrees (arg, value) mem_cons_self
    have hrest : ∀ pair ∈ args.zip values, _ := fun pair hpair =>
      h.agrees pair (mem_cons_of_mem _ hpair)
    have hlength : args.length = values.length := Nat.succ.inj h.length
    have hsame : (∀ x, arg.var = some x → (binding x).isSome) →
        Matches args values binding result := by
      intro hbound
      refine ⟨hlength, h.keeps, hrest, fun x hx => ?_⟩
      rcases h.only x hx with hb | ⟨a, ha, hvar⟩
      · exact .inl hb
      · rcases mem_cons.mp ha with rfl | ha
        · exact .inl (hbound x hvar)
        · exact .inr ⟨a, ha, hvar⟩
    cases harg : arg.var with
    | none =>
      refine ⟨binding, ?_, hsame fun x hx => by rw [harg] at hx; cases hx⟩
      rw [matchTerm_eq_some]
      exact .inr ⟨harg, hagrees.2 harg, rfl⟩
    | some x =>
      have hx := hagrees.1 x harg
      cases hb : binding x with
      | some v =>
        have hv : v = value := Option.some.inj ((h.keeps x v hb).symm.trans hx)
        refine ⟨binding, ?_, hsame fun y hy => ?_⟩
        · rw [matchTerm_eq_some]
          exact .inl ⟨x, harg, .inl ⟨hv ▸ hb, rfl⟩⟩
        · rw [harg] at hy
          cases hy
          simp [hb]
      | none =>
        refine ⟨update binding x (some value), ?_, hlength, ?_, hrest, ?_⟩
        · rw [matchTerm_eq_some]
          exact .inl ⟨x, harg, .inr ⟨hb, rfl⟩⟩
        · intro y v hy
          by_cases hyx : y = x
          · subst hyx
            rw [update_self] at hy
            rw [hx, hy]
          · rw [update_of_ne hyx] at hy
            exact h.keeps y v hy
        · intro y hy
          by_cases hyx : y = x
          · subst hyx
            exact .inl (by simp)
          · rw [update_of_ne hyx]
            rcases h.only y hy with hb | ⟨a, ha, hvar⟩
            · exact .inl hb
            · rcases mem_cons.mp ha with rfl | ha
              · exact absurd (Option.some.inj (hvar.symm.trans harg)) hyx
              · exact .inr ⟨a, ha, hvar⟩
  · rintro ⟨next, hterm, h⟩
    rw [matchTerm_eq_some] at hterm
    have hlength : (arg :: args).length = (value :: values).length := congrArg Nat.succ h.length
    rcases hterm with ⟨x, harg, ⟨hx, rfl⟩ | ⟨hx, rfl⟩⟩ | ⟨harg, hscalar, rfl⟩
    · refine ⟨hlength, h.keeps, ?_, ?_⟩
      · rintro pair hpair
        rcases mem_cons.mp hpair with rfl | hpair
        · refine ⟨fun y hy => ?_, fun hnone => ?_⟩
          · cases harg.symm.trans hy
            exact h.keeps x value hx
          · cases harg.symm.trans hnone
        · exact h.agrees pair hpair
      · intro y hy
        rcases h.only y hy with hb | ⟨a, ha, hvar⟩
        · exact .inl hb
        · exact .inr ⟨a, mem_cons_of_mem _ ha, hvar⟩
    · refine ⟨hlength, ?_, ?_, ?_⟩
      · intro y v hy
        have hyx : y ≠ x := by
          rintro rfl
          cases hx.symm.trans hy
        exact h.keeps y v ((update_of_ne hyx ..).trans hy)
      · rintro pair hpair
        rcases mem_cons.mp hpair with rfl | hpair
        · refine ⟨fun y hy => ?_, fun hnone => ?_⟩
          · cases harg.symm.trans hy
            exact h.keeps x value (update_self ..)
          · cases harg.symm.trans hnone
        · exact h.agrees pair hpair
      · intro y hy
        rcases h.only y hy with hb | ⟨a, ha, hvar⟩
        · by_cases hyx : y = x
          · exact .inr ⟨arg, mem_cons_self, hyx ▸ harg⟩
          · rw [update_of_ne hyx] at hb
            exact .inl hb
        · exact .inr ⟨a, mem_cons_of_mem _ ha, hvar⟩
    · refine ⟨hlength, h.keeps, ?_, ?_⟩
      · rintro pair hpair
        rcases mem_cons.mp hpair with rfl | hpair
        · refine ⟨fun y hy => ?_, fun _ => hscalar⟩
          cases harg.symm.trans hy
        · exact h.agrees pair hpair
      · intro y hy
        rcases h.only y hy with hb | ⟨a, ha, hvar⟩
        · exact .inl hb
        · exact .inr ⟨a, mem_cons_of_mem _ ha, hvar⟩

/-- **An atom** leads to the bindings that match it. -/
lemma matchTerms_eq_some (args : List Arg) (tuple : Tuple) (binding result : Binding) :
    matchTerms args tuple binding = some result ↔ Matches args tuple binding result := by
  induction args generalizing tuple binding with
  | nil =>
    cases tuple with
    | nil => rw [matches_nil, matchTerms, Option.some.injEq, eq_comm]
    | cons v values =>
      refine ⟨fun h => (by cases h), fun h => ?_⟩
      cases h.length
  | cons a args ih =>
    cases tuple with
    | nil =>
      refine ⟨fun h => (by cases h), fun h => ?_⟩
      cases h.length
    | cons v values =>
      rw [matches_cons, matchTerms, Option.bind_eq_some_iff]
      simp only [ih]

/-! ## Variables and values of a binding -/

lemma CclCondition.nested {P : CclCondition → Prop} (atom : ∀ pred args, P (.atom pred args))
    (exists_ : ∀ conditions, (∀ c ∈ conditions, P c) → P (.exists_ conditions))
    (notExists : ∀ conditions, (∀ c ∈ conditions, P c) → P (.notExists conditions))
    (countDistinct : ∀ vars conditions op value, (∀ c ∈ conditions, P c) →
      P (.countDistinct vars conditions op value)) : ∀ c, P c
  | .atom pred args => atom pred args
  | .exists_ conditions => exists_ conditions fun c hc =>
    have := sizeOf_lt_of_mem hc
    CclCondition.nested atom exists_ notExists countDistinct c
  | .notExists conditions => notExists conditions fun c hc =>
    have := sizeOf_lt_of_mem hc
    CclCondition.nested atom exists_ notExists countDistinct c
  | .countDistinct vars conditions op value => countDistinct vars conditions op value fun c hc =>
    have := sizeOf_lt_of_mem hc
    CclCondition.nested atom exists_ notExists countDistinct c
termination_by c => sizeOf c

def CclCondition.binds : CclCondition → List Utf16
  | .atom _ args => args.filterMap Arg.var
  | _ => []

/-- The variables of the atoms of a body that stand at its top level. -/
def topVars (conditions : List CclCondition) : List Utf16 :=
  conditions.flatMap CclCondition.binds

def Tuple.Defined (tuple : Tuple) : Prop := Value.undefined ∉ tuple

def Binding.Defined (binding : Binding) : Prop := ∀ x, binding x ≠ some .undefined

def Interpretation.Defined (I : Interpretation) : Prop := ∀ fact ∈ I, Tuple.Defined fact.2

variable {I N : Interpretation} {condition : CclCondition} {conditions : List CclCondition}

/-- A variable of the atom is bound to a part of the tuple. -/
lemma Matches.exists_value (h : Matches args tuple binding result) {arg : Arg} {x : Utf16}
    (harg : arg ∈ args) (hvar : arg.var = some x) : ∃ v ∈ tuple, result x = some v := by
  obtain ⟨i, hi, rfl⟩ := mem_iff_getElem.mp harg
  have hlt : i < tuple.length := h.length ▸ hi
  have hmem : (args[i], tuple[i]) ∈ args.zip tuple := by
    rw [mem_iff_getElem]
    exact ⟨i, by simpa using ⟨hi, hlt⟩, by simp⟩
  exact ⟨_, getElem_mem hlt, (h.agrees _ hmem).1 x hvar⟩

lemma Matches.isSome_iff (h : Matches args tuple binding result) (x : Utf16) :
    (result x).isSome ↔ (binding x).isSome ∨ x ∈ args.filterMap Arg.var := by
  rw [mem_filterMap]
  refine ⟨h.only x, ?_⟩
  rintro (hb | ⟨arg, harg, hvar⟩)
  · obtain ⟨v, hv⟩ := Option.isSome_iff_exists.mp hb
    simp [h.keeps x v hv]
  · obtain ⟨v, -, hv⟩ := h.exists_value harg hvar
    simp [hv]

lemma Matches.defined (h : Matches args tuple binding result) (htuple : Tuple.Defined tuple)
    (hbinding : binding.Defined) : result.Defined := by
  intro x hx
  have hsome := (h.only x (by simp [hx]))
  rcases hsome with hb | ⟨arg, harg, hvar⟩
  · obtain ⟨v, hv⟩ := Option.isSome_iff_exists.mp hb
    rw [h.keeps x v hv] at hx
    exact hbinding x (hv.trans hx)
  · obtain ⟨v, hv, hvalue⟩ := h.exists_value harg hvar
    rw [hx] at hvalue
    exact htuple (Option.some.inj hvalue ▸ hv)

lemma SolvesOne.isSome_iff (h : SolvesOne I N condition binding result) (x : Utf16) :
    (result x).isSome ↔ (binding x).isSome ∨ x ∈ condition.binds := by
  cases condition with
  | atom pred args =>
    obtain ⟨tuple, _, hmatches⟩ := h
    exact hmatches.isSome_iff x
  | exists_ conditions | notExists conditions | countDistinct vars conditions op value =>
    simp [h.1, CclCondition.binds]

/-- **Bindings of one body** have the same variables. -/
lemma Solves.isSome_iff (h : Solves I N conditions binding result) (x : Utf16) :
    (result x).isSome ↔ (binding x).isSome ∨ x ∈ topVars conditions := by
  induction conditions generalizing binding with
  | nil =>
    cases h
    simp [topVars]
  | cons c rest ih =>
    obtain ⟨next, hone, hrest⟩ := h
    rw [ih hrest, hone.isSome_iff, or_assoc]
    simp [topVars]

lemma SolvesOne.defined (hI : I.Defined) (h : SolvesOne I N condition binding result)
    (hbinding : binding.Defined) : result.Defined := by
  cases condition with
  | atom pred args =>
    obtain ⟨tuple, hfact, hmatches⟩ := h
    exact hmatches.defined (hI _ hfact) hbinding
  | exists_ conditions | notExists conditions | countDistinct vars conditions op value =>
    exact h.1 ▸ hbinding

lemma Solves.defined (hI : I.Defined) (h : Solves I N conditions binding result)
    (hbinding : binding.Defined) : result.Defined := by
  induction conditions generalizing binding with
  | nil => exact h ▸ hbinding
  | cons c rest ih =>
    obtain ⟨next, hone, hrest⟩ := h
    exact ih hrest (hone.defined hI hbinding)

/-! ## Texts of tuples -/

lemma toJson_inj {v w : Value} (hv : v ≠ .undefined) (hw : w ≠ .undefined)
    (h : v.toJson = w.toJson) : v = w := by
  cases v <;> cases w <;> simp_all [Value.toJson]

lemma tupleKey_eq_iff {s t : Tuple} :
    tupleKey s = tupleKey t ↔ s.map Value.toJson = t.map Value.toJson := by
  rw [tupleKey, tupleKey, Json.render_injective.eq_iff, Json.array.injEq]

/-- **The text of a tuple** determines it, where no value is undefined. -/
lemma tupleKey_injOn : Set.InjOn tupleKey {tuple | Tuple.Defined tuple} := by
  intro s hs t ht h
  rw [tupleKey_eq_iff] at h
  induction s generalizing t with
  | nil => simpa [eq_comm] using h
  | cons v s ih =>
    cases t with
    | nil => simp at h
    | cons w t =>
      simp only [Set.mem_ofPred_eq, Tuple.Defined, mem_cons, not_or] at hs ht
      rw [map_cons, map_cons, List.cons.injEq] at h
      rw [toJson_inj (Ne.symm hs.1) (Ne.symm ht.1) h.1, ih hs.2 ht.2 h.2]

/-- The projections of bindings with the same variables differ in their texts. -/
lemma project_eq_of_key {β γ : Binding} (hβ : β.Defined) (hγ : γ.Defined)
    (hsame : ∀ x, (β x).isSome ↔ (γ x).isSome) (vars : List Utf16)
    (h : tupleKey (β.project vars) = tupleKey (γ.project vars)) :
    β.project vars = γ.project vars := by
  rw [tupleKey_eq_iff] at h
  simp only [Binding.project, map_map] at h ⊢
  refine map_congr_left fun x hx => ?_
  have hvalue := map_inj_left.mp h x hx
  simp only [comp_apply, Binding.lookup] at hvalue ⊢
  cases hβx : β (normalizeVarName x) with
  | none =>
    have hnone : γ (normalizeVarName x) = none := by
      have := (hsame (normalizeVarName x)).not.mp (by simp [hβx])
      simpa using this
    rw [hnone]
  | some v =>
    obtain ⟨w, hγx⟩ := Option.isSome_iff_exists.mp ((hsame (normalizeVarName x)).mp (by simp [hβx]))
    rw [hβx, hγx] at hvalue
    rw [hγx, Option.getD_some, Option.getD_some]
    refine toJson_inj ?_ ?_ hvalue
    · rintro rfl
      exact hβ _ hβx
    · rintro rfl
      exact hγ _ hγx

/-- A count of texts is a count of tuples. -/
lemma encard_of_keys {tuples : List Tuple}
    (hinj : ∀ s ∈ tuples, ∀ t ∈ tuples, tupleKey s = tupleKey t → s = t) :
    {tuple | tuple ∈ tuples}.encard = ((tuples.map tupleKey).dedup.length : ℕ) := by
  classical
  have hset : {tuple | tuple ∈ tuples} = (tuples.toFinset : Set Tuple) := by
    ext tuple
    simp
  have hinjOn : Set.InjOn tupleKey (tuples.toFinset : Set Tuple) := by
    intro s hs t ht h
    exact hinj s (by simpa using hs) t (by simpa using ht) h
  calc {tuple | tuple ∈ tuples}.encard = (tuples.toFinset.card : ℕ∞) := by
        rw [hset, Set.encard_coe_eq_coe_finsetCard]
    _ = ((tuples.toFinset.image tupleKey).card : ℕ∞) := by
        rw [Finset.card_image_of_injOn hinjOn]
    _ = ((tuples.map tupleKey).dedup.length : ℕ) := by
        have himage : tuples.toFinset.image tupleKey = (tuples.map tupleKey).toFinset := by
          ext key
          simp
        rw [← card_toFinset, himage]

/-! ## The evaluator computes the meaning -/

/-- The facts in the relations. -/
def interp (relations : Relations) : Interpretation :=
  {fact | fact.2 ∈ (getRelation relations fact.1).values}

lemma mem_interp {relations : Relations} {pred : Utf16} :
    (pred, tuple) ∈ interp relations ↔ tuple ∈ (getRelation relations pred).values := Iff.rfl

section

variable {localeCompare : List Char → List Char → Ordering} {relations : Relations}

lemma mem_sortedTuples {relation : Relation} :
    tuple ∈ sortedTuples localeCompare relation ↔ tuple ∈ relation.values :=
  (perm_insertionSort _ _).mem_iff

variable (hI : (interp relations).Defined)

include hI

section

variable (hone : ∀ c ∈ conditions, ∀ binding result : Binding, binding.Defined →
    (result ∈ evaluateCondition localeCompare relations c binding ↔
      SolvesOne (interp relations) (interp relations) c binding result))

include hone

lemma mem_evaluateConditions_of
    {bindings : List Binding} (hbindings : ∀ binding ∈ bindings, binding.Defined) :
    result ∈ evaluateConditions localeCompare relations conditions bindings ↔
      ∃ binding ∈ bindings,
        Solves (interp relations) (interp relations) conditions binding result := by
  induction conditions generalizing bindings with
  | nil =>
    simp only [evaluateConditions, Solves]
    constructor
    · intro h
      exact ⟨result, h, rfl⟩
    · rintro ⟨binding, hbinding, rfl⟩
      exact hbinding
  | cons c rest ih =>
    have hhead := hone c mem_cons_self
    have hnext : ∀ next ∈ bindings.flatMap (evaluateCondition localeCompare relations c),
        next.Defined := by
      intro next hmem
      obtain ⟨binding, hbinding, hnext⟩ := mem_flatMap.mp hmem
      have hdefined := hbindings binding hbinding
      exact ((hhead binding next hdefined).mp hnext).defined hI hdefined
    rw [evaluateConditions, ih (fun d hd => hone d (mem_cons_of_mem c hd)) hnext]
    constructor
    · rintro ⟨next, hmem, hrest⟩
      obtain ⟨binding, hbinding, hnext⟩ := mem_flatMap.mp hmem
      exact ⟨binding, hbinding, next, (hhead _ _ (hbindings binding hbinding)).mp hnext, hrest⟩
    · rintro ⟨binding, hbinding, next, hnext, hrest⟩
      refine ⟨next, mem_flatMap.mpr ⟨binding, hbinding, ?_⟩, hrest⟩
      exact (hhead _ _ (hbindings binding hbinding)).mpr hnext

lemma mem_evaluateConditions_from (hbinding : binding.Defined) (found : Binding) :
    found ∈ evaluateConditions localeCompare relations conditions [binding] ↔
      Solves (interp relations) (interp relations) conditions binding found := by
  rw [mem_evaluateConditions_of hI hone]
  · simp
  · simpa using hbinding

end

/-- The number of texts that `count_distinct` counts. -/
lemma encard_projections (hbinding : binding.Defined)
    (hlist : ∀ found, found ∈ evaluateConditions localeCompare relations conditions [binding] ↔
      Solves (interp relations) (interp relations) conditions binding found) (vars : List Utf16) :
    {tuple | ∃ found, Solves (interp relations) (interp relations) conditions binding found ∧
      tuple = found.project vars}.encard =
      (((evaluateConditions localeCompare relations conditions [binding]).map fun found =>
        tupleKey (found.project vars)).dedup.length : ℕ) := by
  have hset : {tuple | ∃ found, Solves (interp relations) (interp relations) conditions binding
      found ∧ tuple = found.project vars} =
      {tuple | tuple ∈ (evaluateConditions localeCompare relations conditions [binding]).map
        fun found => found.project vars} := by
    ext tuple
    simp only [Set.mem_ofPred_eq, mem_map, hlist, eq_comm]
  have hmap : (evaluateConditions localeCompare relations conditions [binding]).map
      (fun found => tupleKey (found.project vars)) =
      ((evaluateConditions localeCompare relations conditions [binding]).map
        fun found => found.project vars).map tupleKey := by
    rw [map_map]
    rfl
  rw [hset, hmap]
  apply encard_of_keys
  intro s hs t ht hkey
  obtain ⟨β, hβ, rfl⟩ := mem_map.mp hs
  obtain ⟨γ, hγ, rfl⟩ := mem_map.mp ht
  rw [hlist] at hβ hγ
  refine project_eq_of_key (hβ.defined hI hbinding) (hγ.defined hI hbinding) (fun x => ?_) vars hkey
  rw [hβ.isSome_iff, hγ.isSome_iff]

lemma mem_evaluateCondition (condition : CclCondition)
    (binding result : Binding) (hbinding : binding.Defined) :
    result ∈ evaluateCondition localeCompare relations condition binding ↔
      SolvesOne (interp relations) (interp relations) condition binding result := by
  induction condition using CclCondition.nested generalizing binding result with
  | atom pred args =>
    simp only [evaluateCondition, matchAtom, SolvesOne, mem_filterMap, mem_sortedTuples,
      matchTerms_eq_some, mem_interp]
  | exists_ conditions ih =>
    have hlist := mem_evaluateConditions_from hI ih hbinding
    simp only [evaluateCondition, SolvesOne, ← hlist, ← length_pos_iff_exists_mem]
    split
    next h => simp [h]
    next h => simp [h]
  | notExists conditions ih =>
    have hlist := mem_evaluateConditions_from hI ih hbinding
    simp only [evaluateCondition, SolvesOne, ← hlist, ← length_pos_iff_exists_mem]
    split
    next h => simp [h]
    next h => simp [Nat.pos_of_ne_zero h]
  | countDistinct vars conditions op value ih =>
    have hlist := mem_evaluateConditions_from hI ih hbinding
    simp only [evaluateCondition, SolvesOne, ite_self]
    rw [encard_projections hI hbinding hlist, CompareOp.holds_natCast]
    split
    next hcompare => simp [hcompare]
    next hcompare => simp [hcompare]

/-- **Conditions are evaluated to their meaning.** -/
lemma mem_evaluateConditions (hbinding : binding.Defined) :
    result ∈ evaluateConditions localeCompare relations conditions [binding] ↔
      Solves (interp relations) (interp relations) conditions binding result := by
  exact mem_evaluateConditions_from hI (fun c _ => mem_evaluateCondition hI c) hbinding result

end

end Dkg.Ccl
