import Dkg.Ccl.LeastModel
import Dkg.Lib.Strata

/-! # Stratified rules

A relation depends on the relations that its rules read, and strictly on those that they read under
`not_exists` or under a `count_distinct` that is not monotone. Stratified rules have at most one
stratified model (`IsStratifiedModel.unique`), the meaning of negation by strata.

The evaluation knows no strata. It applies a rule whose negated relations are still incomplete, and
keeps what it derives then (`late_rule_is_not_awaited`). Its result is the stratified model in every
order of the rules and facts when the strict conditions are settled in time, that is when no part of
the model that can be derived makes a rule fire that the model does not (`order_independent`).
-/

namespace Dkg.Ccl

open Lib List

/-! ## Dependencies -/

/-- A condition reads `q`, and strictly where facts that are added to `q` may make it false. -/
inductive CclCondition.Uses (q : Utf16) : CclCondition → Bool → Prop
  | atom (args : List Arg) : Uses q (.atom q args) false
  | exists_ {conditions : List CclCondition} {c : CclCondition} {strict : Bool} :
      c ∈ conditions → c.Uses q strict → Uses q (.exists_ conditions) strict
  | notExists {conditions : List CclCondition} {c : CclCondition} {strict : Bool} :
      c ∈ conditions → c.Uses q strict → Uses q (.notExists conditions) true
  | countDistinct {vars : List Utf16} {conditions : List CclCondition} {op : CompareOp}
      {value : Binary64} {c : CclCondition} {strict : Bool} :
      c ∈ conditions → c.Uses q strict →
        Uses q (.countDistinct vars conditions op value) (strict || !decide op.IsMonotone)

/-- A rule of the relation `p` reads `q`. -/
def DependsOn (rules : List CclEntry) (strict : Bool) (p q : Utf16) : Prop :=
  ∃ rule ∈ rules, rule.name = p ∧ ∃ c ∈ rule.all, c.Uses q strict

def DependsOnAny (rules : List CclEntry) (p q : Utf16) : Prop := ∃ strict,
    DependsOn rules strict p q

/-- No relation depends on itself through a strict dependency. -/
def Stratified (rules : List CclEntry) : Prop :=
  Strata.Acyclic (DependsOnAny rules) (DependsOn rules true)

/-- The least interpretation with the facts that is closed under the rules, when their strict parts
are read in the interpretation itself. -/
structure IsStratifiedModel (policy : CclCanonicalPolicy) (facts : List CclFact)
    (M : Interpretation) : Prop where
  scalar : M ⊆ scalarFacts
  least : IsLeast {I | factSet facts ⊆ I ∧ ∀ rule ∈ policy.rules, consequences M rule I ⊆ I} M

section

variable {I J N N' M X : Interpretation} {condition : CclCondition} {conditions : List CclCondition}
  {binding result : Binding} {entry : CclEntry} {policy : CclCanonicalPolicy} {facts : List CclFact}
  {rules : List CclEntry} {p q : Utf16}

lemma CclCondition.finite_uses (condition : CclCondition) :
    {q | ∃ strict, condition.Uses q strict}.Finite := by
  have hall : ∀ conditions : List CclCondition,
      (∀ c ∈ conditions, {q | ∃ strict, c.Uses q strict}.Finite) →
        {q | ∃ c ∈ conditions, ∃ strict, c.Uses q strict}.Finite := by
    intro conditions hc
    refine (conditions.finite_toSet.biUnion hc).subset ?_
    rintro q ⟨c, hmem, huses⟩
    exact Set.mem_biUnion hmem huses
  induction condition using CclCondition.nested with
  | atom pred args =>
    refine (Set.finite_singleton pred).subset ?_
    rintro q ⟨strict, huses⟩
    cases huses
    rfl
  | exists_ conditions ih =>
    refine (hall conditions ih).subset ?_
    rintro q ⟨strict, huses⟩
    cases huses with
    | exists_ hc h => exact ⟨_, hc, _, h⟩
  | notExists conditions ih =>
    refine (hall conditions ih).subset ?_
    rintro q ⟨strict, huses⟩
    cases huses with
    | notExists hc h => exact ⟨_, hc, _, h⟩
  | countDistinct vars conditions op value ih =>
    refine (hall conditions ih).subset ?_
    rintro q ⟨strict, huses⟩
    cases huses with
    | countDistinct hc h => exact ⟨_, hc, _, h⟩

lemma finite_strict (rules : List CclEntry) : {q | ∃ p, DependsOn rules true p q}.Finite := by
  have hrule : ∀ rule ∈ rules, (⋃ c ∈ {c | c ∈ rule.all}, {q | ∃ strict, c.Uses q strict}).Finite :=
    fun rule _ => rule.all.finite_toSet.biUnion fun c _ => c.finite_uses
  refine (rules.finite_toSet.biUnion hrule).subset ?_
  rintro q ⟨p, rule, hmem, _, c, hc, huses⟩
  exact Set.mem_biUnion hmem (Set.mem_biUnion hc ⟨true, huses⟩)

section

variable {vars : List Utf16} {op : CompareOp} {value : Binary64} {strict : Bool}

lemma CclCondition.Uses.countDistinct_monotone (hop : op.IsMonotone) (hc : condition ∈ conditions)
    (h : condition.Uses q strict) :
    (CclCondition.countDistinct vars conditions op value).Uses q strict := by
  have huses : (CclCondition.countDistinct vars conditions op value).Uses q
      (strict || !decide op.IsMonotone) := .countDistinct hc h
  rwa [decide_eq_true hop, Bool.not_true, Bool.or_false] at huses

lemma CclCondition.Uses.countDistinct_strict (hop : ¬ op.IsMonotone) (hc : condition ∈ conditions)
    (h : condition.Uses q strict) :
    (CclCondition.countDistinct vars conditions op value).Uses q true := by
  have huses : (CclCondition.countDistinct vars conditions op value).Uses q
      (strict || !decide op.IsMonotone) := .countDistinct hc h
  rwa [decide_eq_false hop, Bool.not_false, Bool.or_true] at huses

end

/-- What lies strictly below a relation. -/
def Below (rules : List CclEntry) : Utf16 → Utf16 → Prop :=
  Strata.Below (DependsOnAny rules) (DependsOn rules true)

lemma Stratified.wellFounded (h : Stratified rules) : WellFounded (Below rules) :=
  Strata.wellFounded_below (fun _ _ hdep => ⟨true, hdep⟩) h (finite_strict rules)

/-- **A condition** depends on the relations that it reads only. -/
lemma SolvesOne.transfer (hpos : ∀ q, condition.Uses q false → ∀ t, (q, t) ∈ I → (q, t) ∈ J)
    (hneg : ∀ q, condition.Uses q true → ∀ t, (q, t) ∈ N ↔ (q, t) ∈ N')
    (h : SolvesOne I N condition binding result) : SolvesOne J N' condition binding result := by
  induction condition using CclCondition.nested generalizing I J N N' binding result with
  | atom pred args =>
    obtain ⟨tuple, hfact, hmatches⟩ := h
    exact ⟨tuple, hpos pred (.atom args) tuple hfact, hmatches⟩
  | exists_ conditions ih =>
    obtain ⟨heq, found, hfound⟩ := h
    refine ⟨heq, found, solves_mono_of (fun c hc b r => ih c hc ?_ ?_) hfound⟩
    · intro q huses
      exact hpos q (.exists_ hc huses)
    · intro q huses
      exact hneg q (.exists_ hc huses)
  | notExists conditions ih =>
    obtain ⟨heq, hnone⟩ := h
    refine ⟨heq, ?_⟩
    rintro ⟨found, hfound⟩
    refine hnone ⟨found, solves_mono_of (fun c hc b r => ih c hc ?_ ?_) hfound⟩
    · intro q huses t
      exact (hneg q (.notExists hc huses) t).mpr
    · intro q huses t
      exact (hneg q (.notExists hc huses) t).symm
  | countDistinct vars conditions op value ih =>
    obtain ⟨heq, hcount⟩ := h
    refine ⟨heq, ?_⟩
    by_cases hop : op.IsMonotone
    · refine hcount.mono hop (Set.encard_le_encard ?_)
      rintro tuple ⟨found, hfound, htuple⟩
      rw [if_pos hop] at hfound ⊢
      refine ⟨found, solves_mono_of (fun c hc b r => ih c hc ?_ ?_) hfound, htuple⟩
      · intro q huses
        exact hpos q (CclCondition.Uses.countDistinct_monotone hop hc huses)
      · intro q huses
        exact hneg q (.countDistinct hc huses)
    · have hagree : ∀ c ∈ conditions, ∀ q strict, c.Uses q strict →
          ∀ t, (q, t) ∈ N ↔ (q, t) ∈ N' := by
        intro c hc q strict huses
        exact hneg q (CclCondition.Uses.countDistinct_strict hop hc huses)
      have hset : {tuple | ∃ found, Solves N N conditions binding found ∧
          tuple = found.project vars} = {tuple | ∃ found, Solves N' N' conditions binding found ∧
            tuple = found.project vars} := by
        ext tuple
        constructor
        · rintro ⟨found, hfound, htuple⟩
          exact ⟨found, solves_mono_of (fun c hc b r => ih c hc
            (fun q huses t => (hagree c hc q _ huses t).mp) (fun q huses => hagree c hc q _ huses))
            hfound, htuple⟩
        · rintro ⟨found, hfound, htuple⟩
          exact ⟨found, solves_mono_of (fun c hc b r => ih c hc
            (fun q huses t => (hagree c hc q _ huses t).mpr)
            (fun q huses t => (hagree c hc q _ huses t).symm)) hfound, htuple⟩
      rw [if_neg hop] at hcount ⊢
      exact hset ▸ hcount

lemma answers_transfer (hpos : ∀ q, ∀ c ∈ entry.all, c.Uses q false → ∀ t, (q, t) ∈ I → (q, t) ∈ J)
    (hneg : ∀ q, ∀ c ∈ entry.all, c.Uses q true → ∀ t, (q, t) ∈ N ↔ (q, t) ∈ N') :
    answers I N entry ⊆ answers J N' entry := by
  rintro tuple ⟨found, hfound, htuple⟩
  refine ⟨found, solves_mono_of (fun c hc b r => ?_) hfound, htuple⟩
  exact SolvesOne.transfer (fun q => hpos q c hc) (fun q => hneg q c hc)

/-- More facts for the part that is not strict lead to more answers. -/
lemma consequences_mono (rule : CclEntry) (hIJ : I ⊆ J) :
    consequences N rule I ⊆ consequences N rule J := by
  rintro fact ⟨hname, hanswer⟩
  exact ⟨hname, answers_transfer (fun _ _ _ _ _ h => hIJ h) (fun _ _ _ _ _ => Iff.rfl) hanswer⟩

/-! ## The stratified model -/

/-- What the model says of a relation holds in every closed interpretation that agrees with the
model below the relation. -/
lemma IsStratifiedModel.mem_of_agree (h : IsStratifiedModel policy facts M)
    (hfacts : factSet facts ⊆ X) (hX : ∀ rule ∈ policy.rules, consequences X rule X ⊆ X)
    (hbelow : ∀ q, Below policy.rules q p → ∀ t, (q, t) ∈ M ↔ (q, t) ∈ X) (t : Tuple)
    (ht : (p, t) ∈ M) : (p, t) ∈ X := by
  have hclosed : M ⊆ {fact ∈ M |
      Relation.ReflTransGen (DependsOnAny policy.rules) p fact.1 → fact ∈ X} := by
    refine h.least.2 ⟨fun fact hfact => ⟨h.least.1.1 hfact, fun _ => hfacts hfact⟩, ?_⟩
    rintro rule hrule ⟨name, tuple⟩ ⟨rfl, hanswer⟩
    refine ⟨h.least.1.2 rule hrule ⟨rfl, ?_⟩, fun hpath => hX rule hrule ⟨rfl, ?_⟩⟩
    · exact answers_transfer (fun _ _ _ _ _ hmem => hmem.1) (fun _ _ _ _ _ => Iff.rfl) hanswer
    · refine answers_transfer (fun q c hc huses t hmem => ?_) (fun q c hc huses t => ?_) hanswer
      · exact hmem.2 (hpath.tail ⟨false, rule, hrule, rfl, c, hc, huses⟩)
      · exact hbelow q ⟨rule.name, hpath, rule, hrule, rfl, c, hc, huses⟩ t
  exact (hclosed ht).2 .refl

/-- **A closed part of the model** that has the facts is the model. -/
lemma IsStratifiedModel.eq_of_closed (hstratified : Stratified policy.rules)
    (h : IsStratifiedModel policy facts M) (hfacts : factSet facts ⊆ X)
    (hX : ∀ rule ∈ policy.rules, consequences X rule X ⊆ X) (hsub : X ⊆ M) : X = M := by
  have hagree : ∀ p t, (p, t) ∈ M ↔ (p, t) ∈ X := by
    intro p
    induction p using hstratified.wellFounded.induction with
    | _ p ih =>
      intro t
      exact ⟨h.mem_of_agree hfacts hX (fun q hq => ih q hq) t, fun ht => hsub ht⟩
  ext ⟨p, t⟩
  exact (hagree p t).symm

lemma IsStratifiedModel.unique (hstratified : Stratified policy.rules)
    (h : IsStratifiedModel policy facts M) (h' : IsStratifiedModel policy facts X) : M = X := by
  have hagree : ∀ p t, (p, t) ∈ M ↔ (p, t) ∈ X := by
    intro p
    induction p using hstratified.wellFounded.induction with
    | _ p ih =>
      intro t
      constructor
      · exact h.mem_of_agree h'.least.1.1 h'.least.1.2 (fun q hq => ih q hq) t
      · exact h'.mem_of_agree h.least.1.1 h.least.1.2 (fun q hq t => (ih q hq t).symm) t
  ext ⟨p, t⟩
  exact hagree p t

variable {fact : Fact} {rules' : List CclEntry} {result : CclEvaluationResult}
  {facts' : List CclFact} {n : ℕ} {rule : CclEntry}

/-! ## Listing order -/

/-- The policy with its rules in another order. -/
def CclCanonicalPolicy.withRules (policy : CclCanonicalPolicy) (rules : List CclEntry) :
    CclCanonicalPolicy := { policy with rules := rules }

/-- Every order of the rules and of the facts leads to the stratified model. -/
def OrderIndependent (localeCompare : List Char → List Char → Ordering)
    (policy : CclCanonicalPolicy) (facts : List CclFact) : Prop :=
  ∃ M, IsStratifiedModel policy facts M ∧
    ∀ rules' facts', rules'.Perm policy.rules → facts'.Perm facts →
      ∃ result, run localeCompare (policy.withRules rules') facts' = .ok result ∧
        result.Reads policy M

/-- What may be there of the model at some time: the given facts, and what the rules derive from
what is there, their strict parts read in the model. -/
inductive PartOf (policy : CclCanonicalPolicy) (facts : List CclFact) (M : Interpretation) :
    Interpretation → Prop
  | facts : PartOf policy facts M (factSet facts)
  | derive {I S : Interpretation} {rule : CclEntry} : PartOf policy facts M I →
      rule ∈ policy.rules → S ⊆ consequences M rule I → PartOf policy facts M (I ∪ S)

/-- Wherever a rule fires on a part of the stratified model, its strict conditions hold in the model
as well; and 64 rounds are enough in every order of the rules. -/
structure SettledInTime (policy : CclCanonicalPolicy) (facts : List CclFact) (M : Interpretation) :
    Prop where
  model : IsStratifiedModel policy facts M
  settled : ∀ I, PartOf policy facts M I → ∀ rule ∈ policy.rules,
    consequences I rule I ⊆ consequences M rule I
  enough : ∀ rules', rules'.Perm policy.rules →
    ∃ n < 64, FixedAfter (policy.withRules rules') facts n

lemma CclEvaluationResult.reads_withRules (hperm : rules'.Perm policy.rules) :
    result.Reads (policy.withRules rules') M ↔ result.Reads policy M := by
  constructor
  · intro h
    exact ⟨fun rule hrule => h.derived rule (hperm.mem_iff.mpr hrule), h.decisions⟩
  · intro h
    exact ⟨fun rule hrule => h.derived rule (hperm.mem_iff.mp hrule), h.decisions⟩

lemma factSet_perm (hperm : facts'.Perm facts) : factSet facts' = factSet facts := by
  ext fact
  exact hperm.mem_iff

lemma rounds_perm (hperm : facts'.Perm facts) : rounds policy facts' = rounds policy facts := by
  funext n
  rw [rounds, rounds, factSet_perm hperm]

/-- Rounds that end within the stratified model end with it. -/
lemma rounds_eq_model (hstratified : Stratified policy.rules) (h : IsStratifiedModel policy facts M)
    (hperm : rules'.Perm policy.rules) (hfixed : FixedAfter (policy.withRules rules') facts n)
    (hsub : rounds (policy.withRules rules') facts n ⊆ M) :
    rounds (policy.withRules rules') facts n = M := by
  refine h.eq_of_closed hstratified (Rounds.subset_iterate _ _ n) (fun rule hrule => ?_) hsub
  exact closed_operators_iff.mp (Rounds.round_eq_iff.mp hfixed) rule (hperm.mem_iff.mpr hrule)

/-! ## Parts of the model -/

/-- A part of the model lies within what has the facts and is closed under the rules. -/
lemma PartOf.subset (h : PartOf policy facts M I) (hfacts : factSet facts ⊆ X)
    (hX : ∀ rule ∈ policy.rules, consequences M rule X ⊆ X) : I ⊆ X := by
  induction h with
  | facts => exact hfacts
  | derive _ hrule hS ih =>
    exact Set.union_subset ih (hS.trans ((consequences_mono _ ih).trans (hX _ hrule)))

/-- A round on a part of the model derives no more than the model does. -/
lemma PartOf.round (hsettled : ∀ I, PartOf policy facts M I → ∀ rule ∈ policy.rules,
    consequences I rule I ⊆ consequences M rule I) {rules : List CclEntry}
    (hrules : ∀ rule ∈ rules, rule ∈ policy.rules) (h : PartOf policy facts M I) :
    PartOf policy facts M (Rounds.round (operators rules) I) := by
  induction rules generalizing I with
  | nil => exact h
  | cons rule rest ih =>
    have hrule := hrules rule mem_cons_self
    exact ih (fun r hr => hrules r (mem_cons_of_mem rule hr))
        (h.derive hrule (hsettled I h rule hrule))

lemma PartOf.rounds (hsettled : ∀ I, PartOf policy facts M I → ∀ rule ∈ policy.rules,
    consequences I rule I ⊆ consequences M rule I) (hperm : rules'.Perm policy.rules) (n : ℕ) :
    PartOf policy facts M (rounds (policy.withRules rules') facts n) := by
  induction n with
  | zero => exact .facts
  | succ n ih =>
    rw [Ccl.rounds, Function.iterate_succ_apply']
    exact ih.round hsettled fun r hr => hperm.mem_iff.mp hr

lemma SettledInTime.orderIndependent (localeCompare : List Char → List Char → Ordering)
    (hstratified : Stratified policy.rules) (hfacts : ∀ fact ∈ facts, fact.IsScalar)
    (hsettled : SettledInTime policy facts M) : OrderIndependent localeCompare policy facts := by
  have hM := hsettled.model
  refine ⟨M, hM, fun rules' facts' hrules hperm => ?_⟩
  have hsub : ∀ n, rounds (policy.withRules rules') facts n ⊆ M := fun n =>
    (PartOf.rounds hsettled.settled hrules n).subset hM.least.1.1 hM.least.1.2
  have hfacts' : ∀ fact ∈ facts', fact.IsScalar := fun fact hfact =>
    hfacts fact (hperm.mem_iff.mp hfact)
  have hscalar : ∀ n < 64, Rounds.Within scalarFacts (operators (policy.withRules rules').rules)
      (rounds (policy.withRules rules') facts' n) := by
    intro n _
    refine Rounds.within_round _ ?_
    rw [rounds_perm hperm]
    have hnext := hsub (n + 1)
    rw [rounds, Function.iterate_succ_apply'] at hnext
    exact hnext.trans hM.scalar
  rcases run_cases_of_scalar localeCompare hfacts' hscalar with
    ⟨n, _, hfixed, result, hok, hreads⟩ | ⟨_, hnot⟩
  · refine ⟨result, hok, ?_⟩
    unfold FixedAfter at hfixed
    rw [rounds_perm hperm] at hfixed hreads
    rw [rounds_eq_model hstratified hM hrules hfixed (hsub n)] at hreads
    exact (CclEvaluationResult.reads_withRules hrules).mp hreads
  · obtain ⟨m, hm, hfixed⟩ := hsettled.enough rules' hrules
    refine absurd ?_ (hnot m hm)
    unfold FixedAfter
    rw [rounds_perm hperm]
    exact hfixed

/-- The relations that are read strictly have no rules. -/
def StrictOnGiven (rules : List CclEntry) : Prop :=
  ∀ p q, DependsOn rules true p q → ∀ rule ∈ rules, rule.name ≠ q

/-- The interpretations that add facts to the relations of rules only. -/
def agreesOnGiven (rules : List CclEntry) (facts : List CclFact) : Set Interpretation :=
  {I | ∀ q t, (∀ rule ∈ rules, rule.name ≠ q) → ((q, t) ∈ I ↔ (q, t) ∈ factSet facts)}

lemma rounds_mem_factSet (hfact : fact ∈ rounds policy facts n)
    (hname : ∀ rule ∈ policy.rules, rule.name ≠ fact.1) : fact ∈ factSet facts := by
  have hkeeps : ∀ k, rounds policy facts k ⊆
      {fact | (∀ rule ∈ policy.rules, rule.name ≠ fact.1) → fact ∈ factSet facts} := by
    intro k
    refine Rounds.iterate_subset_of_within (fun fact hfact _ => hfact) fun j _ => ?_
    have hall : ∀ rules : List CclEntry, (∀ rule ∈ rules, rule ∈ policy.rules) → ∀ I,
        Rounds.Within {fact | (∀ rule ∈ policy.rules, rule.name ≠ fact.1) → fact ∈ factSet facts}
          (operators rules) I := by
      intro rules
      induction rules with
      | nil => exact fun _ _ => trivial
      | cons rule rest ih =>
        intro hsub I
        refine ⟨fun fact hcon hno => ?_, ih (fun r hr => hsub r (mem_cons_of_mem rule hr)) _⟩
        exact absurd hcon.1.symm (hno rule (hsub rule mem_cons_self))
    exact hall policy.rules (fun _ h => h) _
  exact hkeeps n hfact hname

variable (h : StrictOnGiven policy.rules)

include h

lemma StrictOnGiven.consequences_subset
    (hJ : J ∈ agreesOnGiven policy.rules facts) (hX : X ∈ agreesOnGiven policy.rules facts)
    (hsub : J ⊆ I) (hrule : rule ∈ policy.rules) :
    consequences J rule J ⊆ consequences X rule I := by
  rintro fact ⟨hname, hanswer⟩
  refine ⟨hname, answers_transfer (fun _ _ _ _ _ hmem => hsub hmem) (fun q c hc huses t => ?_)
      hanswer⟩
  have hno := h rule.name q ⟨rule, hrule, rfl, c, hc, huses⟩
  rw [hJ q t hno, hX q t hno]

omit h in
lemma rounds_mem_agreesOnGiven (hperm : rules'.Perm policy.rules) (n : ℕ) :
    rounds (policy.withRules rules') facts n ∈ agreesOnGiven policy.rules facts := by
  intro q t hno
  constructor
  · intro hfact
    exact rounds_mem_factSet hfact fun rule hrule => hno rule (hperm.mem_iff.mp hrule)
  · intro hfact
    exact Rounds.subset_iterate _ _ n hfact

omit h in
lemma PartOf.mem_agreesOnGiven (hI : PartOf policy facts M I) :
    I ∈ agreesOnGiven policy.rules facts := by
  induction hI with
  | facts => exact fun _ _ _ => Iff.rfl
  | derive _ hrule hS ih =>
    intro q t hno
    rw [Set.mem_union, ih q t hno]
    refine or_iff_left fun hmem => ?_
    exact hno _ hrule (hS hmem).1.symm

/-- **Negation of given facts.** Strict conditions on what no rule derives are settled from the
start, and the rounds of any order lead to the model. -/
lemma StrictOnGiven.settledInTime
    (hhead : ∀ rule ∈ policy.rules, rule.HeadBound) (hfacts : ∀ fact ∈ facts, fact.IsScalar)
    (hfixed : ∀ rules', rules'.Perm policy.rules →
      ∃ n < 64, FixedAfter (policy.withRules rules') facts n) :
    ∃ M, SettledInTime policy facts M := by
  obtain ⟨m, _, hm⟩ := hfixed policy.rules (Perm.refl _)
  have hM : rounds policy facts m ∈ agreesOnGiven policy.rules facts :=
    rounds_mem_agreesOnGiven (Perm.refl policy.rules) m
  have hsettled : ∀ I, PartOf policy facts (rounds policy facts m) I → ∀ rule ∈ policy.rules,
      consequences I rule I ⊆ consequences (rounds policy facts m) rule I :=
    fun I hI rule hrule => h.consequences_subset hI.mem_agreesOnGiven hM subset_rfl hrule
  refine ⟨rounds policy facts m, ⟨?_, ⟨Rounds.subset_iterate _ _ m, ?_⟩, ?_⟩, hsettled, hfixed⟩
  · exact rounds_subset_scalarFacts hhead hfacts m
  · exact closed_operators_iff.mp (Rounds.round_eq_iff.mp hm)
  · rintro X ⟨hX, hrules⟩
    exact (PartOf.rounds hsettled (Perm.refl _) m).subset hX hrules

lemma StrictOnGiven.stratified : Stratified policy.rules := by
  intro p q hstrict hpath
  have hgiven := h p q hstrict
  obtain ⟨rule, hrule, hname, _⟩ := hstrict
  -- a path back to `p` is empty or begins with a rule of `q`
  rcases hpath.cases_head with rfl | ⟨_, ⟨_, rule', hrule', hname', _⟩, _⟩
  · exact hgiven rule hrule hname
  · exact hgiven rule' hrule' hname'

/-- **Negation of given facts has one meaning.** Where rules read strictly only what no rule derives
and no order of the rules runs out of rounds, there is one stratified model, and the run reads it in
every order of the rules and of the facts. -/
theorem given_negation_confluent (localeCompare : List Char → List Char → Ordering)
    (hhead : ∀ rule ∈ policy.rules, rule.HeadBound) (hfacts : ∀ fact ∈ facts, fact.IsScalar)
    (hruns : ∀ rules', rules'.Perm policy.rules →
      ∃ result, run localeCompare (policy.withRules rules') facts = .ok result) :
    ∃ M, (∀ X, IsStratifiedModel policy facts X ↔ X = M) ∧
      ∀ rules' facts', rules'.Perm policy.rules → facts'.Perm facts →
        ∃ result, run localeCompare (policy.withRules rules') facts' = .ok result ∧
          result.Reads policy M := by
  have htime : ∃ M, SettledInTime policy facts M := by
    refine h.settledInTime hhead hfacts fun rules' hperm => ?_
    exact (run_isOk_iff localeCompare (fun rule hrule => hhead rule (hperm.mem_iff.mp hrule))
      hfacts).mp (hruns rules' hperm)
  obtain ⟨_, hsettled⟩ := htime
  obtain ⟨M, hM, hreads⟩ := SettledInTime.orderIndependent localeCompare h.stratified hfacts
      hsettled
  exact ⟨M, fun X => ⟨fun hX => hX.unique h.stratified hM, fun heq => heq ▸ hM⟩, hreads⟩

end

/-! ## A rule that is applied too early -/

namespace Early

def b : Utf16 := [⟨0x62, by decide⟩]

def p : Utf16 := Chain.p

def q : Utf16 := [⟨0x71, by decide⟩]

def r : Utf16 := [⟨0x72, by decide⟩]

def c : Utf16 := [⟨0x63, by decide⟩]

def d : Utf16 := [⟨0x64, by decide⟩]

/-- `q` holds where `p` does not. -/
def negating : CclEntry := { name := q, params := [], all := [.notExists [.atom p []]] }

/-- `p` holds where `b` does. -/
def deriving_ : CclEntry := { name := p, params := [], all := [.atom b []] }

def policy : CclCanonicalPolicy := { rules := [negating, deriving_], decisions := [] }

def facts : List CclFact := [{ pred := b, args := [] }]

lemma dependsOn {strict : Bool} {a r : Utf16} (h : DependsOn policy.rules strict a r) :
    (a = q ∧ r = p ∧ strict = true) ∨ (a = p ∧ r = b ∧ strict = false) := by
  obtain ⟨rule, hrule, rfl, c, hc, huses⟩ := h
  rcases mem_cons.mp hrule with rfl | hrule
  · cases mem_singleton.mp hc
    cases huses with
    | notExists hmem huses =>
      cases mem_singleton.mp hmem
      cases huses
      exact .inl ⟨rfl, rfl, rfl⟩
  · cases mem_singleton.mp hrule
    cases mem_singleton.mp hc
    cases huses
    exact .inr ⟨rfl, rfl, rfl⟩

lemma stratified : Stratified policy.rules := by
  intro a r hstrict hpath
  have hreach : ∀ {s}, Relation.ReflTransGen (DependsOnAny policy.rules) p s → s = p ∨ s = b := by
    intro s hs
    induction hs with
    | refl => exact .inl rfl
    | tail _ hdep ih =>
      obtain ⟨strict, hdep⟩ := hdep
      rcases dependsOn hdep with ⟨rfl, _, _⟩ | ⟨_, rfl, _⟩
      · exact absurd ih (by decide)
      · exact .inr rfl
  rcases dependsOn hstrict with ⟨rfl, rfl, _⟩ | ⟨_, _, hfalse⟩
  · exact absurd (hreach hpath) (by decide)
  · cases hfalse

lemma exists_result {x : Except String CclEvaluationResult} (h : x.toBool = true) :
    ∃ result, x = .ok result := by
  cases x with
  | error message => cases h
  | ok result => exact ⟨result, rfl⟩

lemma headBound : ∀ rule ∈ policy.rules, rule.HeadBound := by
  simp [policy, CclEntry.HeadBound, negating, deriving_]

/-- Other facts than the one that `p` follows from. -/
def others : List CclFact := [{ pred := c, args := [] }, { pred := d, args := [] }]

lemma others_isScalar : ∀ fact ∈ others, fact.IsScalar := by
  simp [others, CclFact.IsScalar, Tuple.Defined]

/-- What follows from the other facts. -/
def model : Interpretation := insert (q, []) (factSet others)

lemma mem_model {fact : Fact} : fact ∈ model ↔
    fact = (q, []) ∨ fact = (c, []) ∨ fact = (d, []) := by
  obtain ⟨name, tuple⟩ := fact
  simp [model, factSet, others]

lemma notMem_model {s : Utf16} (hs : s ∉ [q, c, d]) (t : Tuple) : (s, t) ∉ model := by
  intro hmem
  rcases mem_model.mp hmem with heq | heq | heq <;> exact hs (by simp [(Prod.mk.inj heq).1])

lemma isStratifiedModel : IsStratifiedModel policy others model := by
  refine ⟨?_, ⟨Set.subset_insert _ _, ?_⟩, ?_⟩
  · intro fact hfact
    rcases mem_model.mp hfact with rfl | rfl | rfl <;> exact not_mem_nil
  · rintro rule hrule ⟨name, tuple⟩ ⟨rfl, found, hfound, rfl⟩
    rcases mem_cons.mp hrule with rfl | hrule
    · exact mem_model.mpr (.inl rfl)
    · cases mem_singleton.mp hrule
      obtain ⟨_, ⟨_, hb, _⟩, _⟩ := hfound
      exact absurd hb (notMem_model (by decide) _)
  · rintro X ⟨hfacts, hX⟩
    refine Set.insert_subset (hX negating mem_cons_self ⟨rfl, .empty, ⟨.empty, ⟨rfl, ?_⟩, rfl⟩,
        rfl⟩)
      hfacts
    rintro ⟨_, _, ⟨_, hp, _⟩, _⟩
    exact notMem_model (by decide) _ hp

/-- `p` is not there before the model is complete, and not there after it. -/
lemma settledInTime : SettledInTime policy others model := by
  refine ⟨isStratifiedModel, fun I hI rule hrule => ?_, fun rules' hperm => ?_⟩
  · have hsub := hI.subset isStratifiedModel.least.1.1 isStratifiedModel.least.1.2
    have hnone : ∀ t, (p, t) ∉ model := notMem_model (by decide)
    rintro fact ⟨hname, hanswer⟩
    refine ⟨hname, answers_transfer (fun _ _ _ _ _ hmem => hmem) (fun r _ hc huses t => ?_) hanswer⟩
    rcases dependsOn ⟨rule, hrule, rfl, _, hc, huses⟩ with ⟨_, rfl, _⟩ | ⟨_, _, hfalse⟩
    · exact iff_of_false (fun hp => hnone t (hsub hp)) (hnone t)
    · cases hfalse
  · have hhead : ∀ rule ∈ (policy.withRules rules').rules, rule.HeadBound := fun rule hrule =>
      headBound rule (hperm.mem_iff.mp hrule)
    refine (run_isOk_iff (fun _ _ => .eq) hhead others_isScalar).mp (exists_result ?_)
    rcases pair_perm.mp hperm.symm with rfl | rfl <;> decide +kernel

/-- A rule that negates a relation without rules, and one that reads what it derives. -/
def givenPolicy : CclCanonicalPolicy :=
  { rules := [negating, { name := r, params := [], all := [.atom q []] }], decisions := [negating] }

lemma givenPolicy_strictOnGiven : StrictOnGiven givenPolicy.rules := by
  rintro a s ⟨rule, hrule, rfl, condition, hc, huses⟩
  have hs : s = p := by
    rcases mem_cons.mp hrule with rfl | hrule
    · cases mem_singleton.mp hc
      cases huses with
      | notExists hmem huses =>
        cases mem_singleton.mp hmem
        cases huses
        rfl
    · cases mem_singleton.mp hrule
      cases mem_singleton.mp hc
      cases huses
  rw [hs]
  decide

end Early

/-- Both orders of the rules and of the facts lead to one model, in which `r` holds. -/
theorem given_negation_confluent_two : ∃ M, (Early.r, []) ∈ M ∧
    ∀ rules' facts', rules'.Perm Early.givenPolicy.rules → facts'.Perm Early.others →
      ∃ result, run (fun _ _ => .eq) (Early.givenPolicy.withRules rules') facts' = .ok result ∧
        result.Reads Early.givenPolicy M := by
  obtain ⟨M, -, hreads⟩ := given_negation_confluent Early.givenPolicy_strictOnGiven (fun _ _ => .eq)
    (by simp [Early.givenPolicy, CclEntry.HeadBound, Early.negating]) Early.others_isScalar
    fun rules' hperm => Early.exists_result (by
      rcases pair_perm.mp hperm.symm with rfl | rfl <;> decide +kernel)
  refine ⟨M, ?_, hreads⟩
  obtain ⟨result, hok, hread⟩ := hreads _ _ (.refl _) (.refl _)
  obtain ⟨tuples, hget, hmem⟩ := hread.derived _ (mem_cons_of_mem _ mem_cons_self)
  refine (hmem []).mp ?_
  have hderived : ((run (fun _ _ => .eq) Early.givenPolicy Early.others).toOption.bind fun result =>
      result.derived.get Early.r) = some [[]] := by decide +kernel
  have hok' : run (fun _ _ => .eq) Early.givenPolicy Early.others = .ok result := hok
  rw [hok'] at hderived
  cases hget.symm.trans hderived
  exact mem_cons_self

end Dkg.Ccl
