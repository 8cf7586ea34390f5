import Dkg.Ccl.Fixpoint

/-! # Monotone rules

Rules whose conditions are atoms, `exists` and `count_distinct` with `>=` or `>` have a least model
over the facts. The evaluation reads it whenever it returns (`run_reads_least_model`); it returns
when one of the first 64 rounds adds nothing, in particular when the least model has at most 63
facts that are not given, and gives up otherwise. A chain of 64 steps is too long
(`chain_does_not_converge`).
-/

namespace Dkg

open Function (update)
open Lib List

namespace Ccl

/-- A condition that stays true when facts are added. -/
inductive CclCondition.Positive : CclCondition → Prop
  | atom (pred : Utf16) (args : List Arg) : Positive (.atom pred args)
  | exists_ {conditions : List CclCondition} : (∀ c ∈ conditions, c.Positive) →
      Positive (.exists_ conditions)
  | countDistinct {vars : List Utf16} {conditions : List CclCondition} {op : CompareOp}
      {value : Binary64} : op.IsMonotone → (∀ c ∈ conditions, c.Positive) →
      Positive (.countDistinct vars conditions op value)

def CclEntry.Positive (entry : CclEntry) : Prop := ∀ c ∈ entry.all, c.Positive

/-- The interpretations that have the facts and are closed under the rules. -/
def models (policy : CclCanonicalPolicy) (facts : List CclFact) : Set Interpretation :=
  {M | factSet facts ⊆ M ∧ ∀ rule ∈ policy.rules, consequences M rule M ⊆ M}

section

variable {I J N N' : Interpretation} {condition : CclCondition} {conditions : List CclCondition}
  {binding result : Binding} {entry : CclEntry} {policy : CclCanonicalPolicy} {facts : List CclFact}

lemma CompareOp.Holds.mono {op : CompareOp} (hop : op.IsMonotone) {m n : ℕ∞} {value : ℚ}
    (h : op.Holds m value) (hle : m ≤ n) : op.Holds n value := by
  cases n with
  | top => exact hop
  | coe n =>
    obtain ⟨m, rfl⟩ := ENat.ne_top_iff_exists.mp (ne_top_of_le_ne_top (ENat.natCast_ne_top n) hle)
    have hmn : (m : ℚ) ≤ n := by exact_mod_cast hle
    rw [CompareOp.holds_natCast] at h ⊢
    rcases hop with rfl | rfl
    · simp only [compareInts, decide_eq_true_eq] at h ⊢
      exact h.trans hmn
    · simp only [compareInts, decide_eq_true_eq] at h ⊢
      exact h.trans_le hmn

lemma solves_mono_of (hone : ∀ c ∈ conditions, ∀ binding result : Binding,
      SolvesOne I N c binding result → SolvesOne J N' c binding result)
    (h : Solves I N conditions binding result) : Solves J N' conditions binding result := by
  induction conditions generalizing binding with
  | nil => exact h
  | cons c rest ih =>
    obtain ⟨next, hnext, hrest⟩ := h
    exact ⟨next, hone c mem_cons_self binding next hnext,
      ih (fun d hd => hone d (mem_cons_of_mem c hd)) hrest⟩

/-- **A positive condition** stays true when facts are added, whatever the negative part is. -/
lemma CclCondition.Positive.mono (h : condition.Positive) (hIJ : I ⊆ J)
    (binding result : Binding) (hsolves : SolvesOne I N condition binding result) :
    SolvesOne J N' condition binding result := by
  induction h generalizing binding result with
  | atom pred args =>
    obtain ⟨tuple, hfact, hmatches⟩ := hsolves
    exact ⟨tuple, hIJ hfact, hmatches⟩
  | exists_ _ ih =>
    obtain ⟨heq, found, hfound⟩ := hsolves
    exact ⟨heq, found, solves_mono_of ih hfound⟩
  | countDistinct hop _ ih =>
    obtain ⟨heq, hcount⟩ := hsolves
    refine ⟨heq, hcount.mono hop (Set.encard_le_encard ?_)⟩
    rintro tuple ⟨found, hfound, htuple⟩
    rw [if_pos hop] at hfound ⊢
    exact ⟨found, solves_mono_of ih hfound, htuple⟩

lemma answers_mono (h : entry.Positive) (hIJ : I ⊆ J) : answers I N entry ⊆ answers J N' entry := by
  rintro tuple ⟨found, hfound, htuple⟩
  exact ⟨found, solves_mono_of (fun c hc => (h c hc).mono hIJ) hfound, htuple⟩

lemma operators_mono (h : ∀ rule ∈ policy.rules, rule.Positive) :
    ∀ f ∈ operators policy.rules, Monotone f := by
  intro f hf I J hIJ
  obtain ⟨rule, hrule, rfl⟩ := mem_map.mp hf
  rintro fact ⟨hname, hanswer⟩
  exact ⟨hname, answers_mono (h rule hrule) hIJ hanswer⟩

lemma closed_operators_iff {M : Interpretation} :
    Rounds.Closed (operators policy.rules) M ↔
      ∀ rule ∈ policy.rules, consequences M rule M ⊆ M := by
  simp [Rounds.Closed, operators]

lemma isLeast_rounds (h : ∀ rule ∈ policy.rules, rule.Positive) {n : ℕ}
    (hfixed : FixedAfter policy facts n) :
    IsLeast (models policy facts) (rounds policy facts n) := by
  have hleast := Rounds.isLeast_iterate (operators_mono h) hfixed
  have hmodels : models policy facts =
      {M | factSet facts ⊆ M ∧ Rounds.Closed (operators policy.rules) M} := by
    ext M
    simp only [models, Set.mem_ofPred_eq, closed_operators_iff]
  rw [hmodels]
  exact hleast

/-- Facts that are more lead to least models that are more. -/
lemma isLeast_mono {facts' : List CclFact} {M M' : Interpretation}
    (hfacts : factSet facts ⊆ factSet facts') (hM : IsLeast (models policy facts) M)
    (hM' : IsLeast (models policy facts') M') : M ⊆ M' :=
  hM.2 ⟨hfacts.trans hM'.1.1, hM'.1.2⟩

/-- A result with the tuples of another one, for the rules and for the decisions that are
positive. -/
structure CclEvaluationResult.Grows (policy : CclCanonicalPolicy)
    (result result' : CclEvaluationResult) : Prop where
  derived : ∀ rule ∈ policy.rules, ∀ tuples tuples', result.derived.get rule.name = some tuples →
    result'.derived.get rule.name = some tuples' → tuples ⊆ tuples'
  decisions : ∀ name decision, lastNamed policy.decisions name = some decision →
    decision.Positive → ∀ tuples tuples', result.decisions.get name = some tuples →
      result'.decisions.get name = some tuples' → tuples ⊆ tuples'

lemma CclEvaluationResult.Reads.grows {M M' : Interpretation}
    {result result' : CclEvaluationResult} (h : result.Reads policy M)
    (h' : result'.Reads policy M') (hM : M ⊆ M') : result.Grows policy result' := by
  constructor
  · intro rule hrule tuples tuples' hget hget' tuple htuple
    obtain ⟨_, heq, hmem⟩ := h.derived rule hrule
    obtain ⟨_, heq', hmem'⟩ := h'.derived rule hrule
    cases hget.symm.trans heq
    cases hget'.symm.trans heq'
    exact (hmem' tuple).mpr (hM ((hmem tuple).mp htuple))
  · intro name decision hlast hpositive tuples tuples' hget hget' tuple htuple
    obtain ⟨_, heq, hmem⟩ := h.decisions name decision hlast
    obtain ⟨_, heq', hmem'⟩ := h'.decisions name decision hlast
    cases hget.symm.trans heq
    cases hget'.symm.trans heq'
    exact (hmem' tuple).mpr (answers_mono hpositive hM ((hmem tuple).mp htuple))

section

variable (localeCompare : List Char → List Char → Ordering)
  (hhead : ∀ rule ∈ policy.rules, rule.HeadBound) (hfacts : ∀ fact ∈ facts, fact.IsScalar)

include hhead hfacts

/-- The evaluation returns when one of the first 64 rounds adds nothing. -/
lemma run_isOk_iff :
    (∃ result, run localeCompare policy facts = .ok result) ↔ ∃ n < 64,
      FixedAfter policy facts n := by
  rcases run_cases localeCompare hhead hfacts with ⟨n, hn, hfixed, result, hok, _⟩ | ⟨herror, hnot⟩
  · exact iff_of_true ⟨result, hok⟩ ⟨n, hn, hfixed⟩
  · refine iff_of_false ?_ ?_
    · rintro ⟨result, hok⟩
      cases herror.symm.trans hok
    · rintro ⟨n, hn, hfixed⟩
      exact hnot n hn hfixed

lemma run_eq_error (hnot : ∀ n < 64, ¬ FixedAfter policy facts n) :
    run localeCompare policy facts = .error notConverged := by
  rcases run_cases localeCompare hhead hfacts with ⟨n, hn, hfixed, _⟩ | ⟨herror, _⟩
  · exact absurd hfixed (hnot n hn)
  · exact herror

lemma reads_of_run (hpositive : ∀ rule ∈ policy.rules, rule.Positive)
    {result : CclEvaluationResult} (h : run localeCompare policy facts = .ok result) :
    ∃ M, IsLeast (models policy facts) M ∧ result.Reads policy M := by
  rcases run_cases localeCompare hhead hfacts with ⟨n, _, hfixed, _, hok, hreads⟩ | ⟨herror, _⟩
  · cases hok.symm.trans h
    exact ⟨_, isLeast_rounds hpositive hfixed, hreads⟩
  · cases herror.symm.trans h

end

/-- Fewer than 64 facts to derive are derived in time. -/
lemma fixedAfter_of_encard (hpositive : ∀ rule ∈ policy.rules, rule.Positive) {M : Interpretation}
    (hM : IsLeast (models policy facts) M) (hcard : (M \ factSet facts).encard ≤ 63) :
    ∃ n < 64, FixedAfter policy facts n := by
  have hlt : (M \ factSet facts).encard < (64 : ℕ) := by
    calc (M \ factSet facts).encard ≤ 63 := hcard
      _ < (64 : ℕ) := by norm_num
  exact Rounds.exists_fixed_of_encard_lt (operators_mono hpositive)
    (closed_operators_iff.mpr hM.1.2) hM.1.1 hlt

/-- **The least model.** The evaluation of monotone rules returns exactly when one of the first 64
rounds adds nothing, in particular when at most 63 facts are to be derived, and gives up otherwise.
What it returns is read off the least model, so that more facts lead to more tuples. -/
theorem run_reads_least_model (localeCompare : List Char → List Char → Ordering)
    (policy : CclCanonicalPolicy) (facts : List CclFact)
    (hpositive : ∀ rule ∈ policy.rules, rule.Positive)
    (hhead : ∀ rule ∈ policy.rules, rule.HeadBound) (hfacts : ∀ fact ∈ facts, fact.IsScalar) :
    ((∃ result, run localeCompare policy facts = .ok result) ↔
      ∃ n < 64, FixedAfter policy facts n) ∧
    (∀ M, IsLeast (models policy facts) M → (M \ factSet facts).encard ≤ 63 →
      ∃ result, run localeCompare policy facts = .ok result) ∧
    (∀ message, run localeCompare policy facts = .error message → message = notConverged) ∧
    (∀ result, run localeCompare policy facts = .ok result →
      ∃ M, IsLeast (models policy facts) M ∧ result.Reads policy M) ∧
    ∀ facts', (∀ fact ∈ facts', fact.IsScalar) → facts ⊆ facts' → ∀ result result',
      run localeCompare policy facts = .ok result → run localeCompare policy facts' = .ok result' →
        result.Grows policy result' := by
  have hiff := run_isOk_iff localeCompare hhead hfacts
  refine ⟨hiff, ?_, ?_, ?_, ?_⟩
  · intro M hM hcard
    exact hiff.mpr (fixedAfter_of_encard hpositive hM hcard)
  · intro message hmessage
    rcases run_cases localeCompare hhead hfacts with ⟨_, _, _, _, hok, _⟩ | ⟨herror, _⟩
    · cases hok.symm.trans hmessage
    · cases herror.symm.trans hmessage
      rfl
  · intro result hresult
    exact reads_of_run localeCompare hhead hfacts hpositive hresult
  · intro facts' hfacts' hsub result result' hresult hresult'
    obtain ⟨M, hM, hreads⟩ := reads_of_run localeCompare hhead hfacts hpositive hresult
    obtain ⟨M', hM', hreads'⟩ := reads_of_run localeCompare hhead hfacts' hpositive hresult'
    exact hreads.grows hreads' (isLeast_mono (fun fact hfact => hsub hfact) hM hM')

end

/-! ## A chain -/

namespace Chain

variable {I N : Interpretation}

def p : Utf16 := [⟨0x70, by decide⟩]

def edge : Utf16 := [⟨0x65, by decide⟩]

def x : Utf16 := [dollar, ⟨0x78, by decide⟩]

def y : Utf16 := [dollar, ⟨0x79, by decide⟩]

/-- `p($y)` follows from `p($x)` and `edge($x, $y)`. -/
def rule : CclEntry where
  name := p
  params := [y]
  all := [.atom p [.scalar (.string x)], .atom edge [.scalar (.string x), .scalar (.string y)]]

def policy : CclCanonicalPolicy := { rules := [rule], decisions := [rule] }

def node (j : ℕ) : Value := .string (List.replicate j dollar)

/-- A chain of `n` edges. -/
def facts (n : ℕ) : List CclFact :=
  { pred := p, args := [node 0] } ::
    (List.range n).map fun j => { pred := edge, args := [node j, node (j + 1)] }

lemma node_inj {i j : ℕ} (h : node i = node j) : i = j := by
  have hlength : (replicate i dollar).length = (replicate j dollar).length :=
    congrArg length (Value.string.inj h)
  simpa using hlength

lemma rule_positive : ∀ r ∈ policy.rules, r.Positive := by
  intro r hr c hc
  cases mem_singleton.mp hr
  rcases mem_cons.mp hc with rfl | hc
  · exact .atom _ _
  · cases mem_singleton.mp hc
    exact .atom _ _

lemma rule_headBound : ∀ r ∈ policy.rules, r.HeadBound := by
  intro r hr
  cases mem_singleton.mp hr
  unfold CclEntry.HeadBound
  decide

lemma facts_isScalar (n : ℕ) : ∀ fact ∈ facts n, fact.IsScalar := by
  intro fact hfact
  rcases mem_cons.mp hfact with rfl | hfact
  · simp [CclFact.IsScalar, Tuple.Defined, node]
  · obtain ⟨j, _, rfl⟩ := mem_map.mp hfact
    simp [CclFact.IsScalar, Tuple.Defined, node]

lemma mem_consequences {fact : Fact} : fact ∈ consequences N rule I ↔
    fact.1 = p ∧ ∃ v w, (p, [v]) ∈ I ∧ (edge, [v, w]) ∈ I ∧ fact.2 = [w] := by
  refine and_congr Iff.rfl ?_
  constructor
  · rintro ⟨found, ⟨first, ⟨t, ht, hfirst⟩, second, ⟨s, hs, hsecond⟩, hfound⟩, hfact⟩
    rw [hfact, hfound]
    obtain ⟨v, rfl⟩ := length_eq_one_iff.mp hfirst.length.symm
    obtain ⟨v', w, rfl⟩ := length_eq_two.mp hsecond.length.symm
    have hx : first x = some v := (hfirst.agrees (.scalar (.string x), v) (by simp)).1 x rfl
    have hx' : second x = some v' := (hsecond.agrees (.scalar (.string x), v') (by simp)).1 x rfl
    have hy : second y = some w := (hsecond.agrees (.scalar (.string y), w) (by simp)).1 y rfl
    have hsame : v = v' := Option.some.inj ((hsecond.keeps x v hx).symm.trans hx')
    refine ⟨v, w, ht, hsame ▸ hs, ?_⟩
    show [second.lookup y] = [w]
    rw [Binding.lookup, hy, Option.getD_some]
  · rintro ⟨v, w, hv, hw, hfact⟩
    have hxy : y ≠ x := by decide
    refine ⟨_, ⟨_, ⟨[v], hv, (matchTerms_eq_some _ _ _ (update Binding.empty x (some v))).mp ?_⟩, _,
      ⟨[v, w], hw, (matchTerms_eq_some _ _ _
        (update (update Binding.empty x (some v)) y (some w))).mp ?_⟩, rfl⟩, ?_⟩
    · rfl
    · have hvar : Arg.var (.scalar (.string x)) = some x := rfl
      have hvar' : Arg.var (.scalar (.string y)) = some y := rfl
      simp [matchTerms, matchTerm, hvar, hvar', hxy, Binding.empty]
    · rw [hfact]
      show [w] = [Binding.lookup (update _ y (some w)) y]
      rw [Binding.lookup, Function.update_self, Option.getD_some]

/-- After `k` rounds the chain is followed for `k` edges. -/
lemma rounds_eq {n k : ℕ} (hk : k ≤ n) : rounds policy (facts n) k =
    factSet (facts n) ∪ {fact | ∃ j ≤ k, fact = (p, [node j])} := by
  induction k with
  | zero =>
    refine (Set.union_eq_self_of_subset_right ?_).symm
    rintro fact ⟨j, hj, rfl⟩
    cases Nat.le_zero.mp hj
    exact mem_cons_self
  | succ k ih =>
    have hedge : ∀ v w, (edge, [v, w]) ∈ rounds policy (facts n) k ↔
        ∃ j < n, v = node j ∧ w = node (j + 1) := by
      intro v w
      have hpe : edge ≠ p := by decide
      rw [ih (by omega)]
      simp [factSet, facts, hpe, hpe.symm, eq_comm]
    have hp : ∀ v, (p, [v]) ∈ rounds policy (facts n) k ↔ ∃ j ≤ k, v = node j := by
      intro v
      have hpe : edge ≠ p := by decide
      rw [ih (by omega)]
      simp only [factSet, facts, Set.mem_union, Set.mem_ofPred_eq, mem_cons, mem_map,
        CclFact.mk.injEq, hpe, false_and, and_false, exists_false, or_false, true_and,
        Prod.mk.injEq, cons.injEq, and_true]
      constructor
      · rintro (rfl | h)
        · exact ⟨0, Nat.zero_le k, rfl⟩
        · exact h
      · exact .inr
    have hstep : rounds policy (facts n) (k + 1) = rounds policy (facts n) k ∪
        consequences (rounds policy (facts n) k) rule (rounds policy (facts n) k) := by
      rw [rounds, Function.iterate_succ_apply']
      rfl
    ext fact
    rw [hstep, Set.mem_union, mem_consequences]
    simp only [hedge, hp]
    rw [ih (by omega)]
    constructor
    · rintro ((hfact | ⟨j, hj, rfl⟩) | ⟨hname, v, w, ⟨i, hi, rfl⟩, ⟨j, hj, hij, rfl⟩, hw⟩)
      · exact .inl hfact
      · exact .inr ⟨j, by omega, rfl⟩
      · refine .inr ⟨j + 1, ?_, Prod.ext hname hw⟩
        have := node_inj hij
        omega
    · rintro (hfact | ⟨j, hj, rfl⟩)
      · exact .inl (.inl hfact)
      · by_cases hlast : j = k + 1
        · subst hlast
          exact .inr ⟨rfl, node k, node (k + 1), ⟨k, le_rfl, rfl⟩, ⟨k, by omega, rfl, rfl⟩, rfl⟩
        · exact .inl (.inr ⟨j, by omega, rfl⟩)

/-- Every round adds a node as long as there is an edge to follow. -/
lemma not_fixedAfter {n k : ℕ} (hk : k < n) : ¬ FixedAfter policy (facts n) k := by
  intro hfixed
  have hsucc : rounds policy (facts n) (k + 1) = rounds policy (facts n) k := by
    rw [rounds, Function.iterate_succ_apply']
    exact hfixed
  have hmem : (p, [node (k + 1)]) ∈ rounds policy (facts n) k := by
    rw [← hsucc, rounds_eq hk]
    exact .inr ⟨k + 1, le_rfl, rfl⟩
  rw [rounds_eq (by omega)] at hmem
  rcases hmem with hfact | ⟨j, hj, heq⟩
  · rcases mem_cons.mp hfact with hfirst | hrest
    · have hnode : node (k + 1) = node 0 := by
        simpa using congrArg CclFact.args hfirst
      cases node_inj hnode
    · obtain ⟨i, _, hi⟩ := mem_map.mp hrest
      have hpred : edge = p := congrArg CclFact.pred hi
      exact absurd hpred (by decide)
  · have hnode : node (k + 1) = node j := by simpa using heq
    have := node_inj hnode
    omega

end Chain

/-- A chain of two edges is followed. -/
theorem chain_reads_least_model : ∃ result,
    run (fun _ _ => .eq) Chain.policy (Chain.facts 2) = .ok result ∧
      ∃ M, IsLeast (models Chain.policy (Chain.facts 2)) M ∧ result.Reads Chain.policy M := by
  have hok : (run (fun _ _ => .eq) Chain.policy (Chain.facts 2)).toBool = true := by decide +kernel
  cases h : run (fun _ _ => .eq) Chain.policy (Chain.facts 2) with
  | error message => rw [h] at hok; cases hok
  | ok result =>
    exact ⟨result, rfl, (run_reads_least_model _ Chain.policy (Chain.facts 2) Chain.rule_positive
      Chain.rule_headBound (Chain.facts_isScalar 2)).2.2.2.1 result h⟩

/-- A chain of 64 edges is too long. -/
theorem chain_does_not_converge :
    (∀ rule ∈ Chain.policy.rules, rule.Positive) ∧ (∀ rule ∈ Chain.policy.rules, rule.HeadBound) ∧
      (∀ fact ∈ Chain.facts 64, fact.IsScalar) ∧
      run (fun _ _ => .eq) Chain.policy (Chain.facts 64) = .error notConverged := by
  refine ⟨Chain.rule_positive, Chain.rule_headBound, Chain.facts_isScalar 64, ?_⟩
  exact run_eq_error _ Chain.rule_headBound (Chain.facts_isScalar 64) fun k hk =>
    Chain.not_fixedAfter hk

/-- Decides whether there is no edge. -/
def Chain.noEdge : CclCanonicalPolicy :=
  { policy with decisions :=
      [{ name := edge, params := [], all := [.notExists [.atom edge [.scalar (.string x),
          .scalar (.string y)]]] }] }

/-- A decision that negates loses its tuple when a fact is added, whatever the rules are. -/
theorem negated_decision_not_monotone :
    (∀ rule ∈ Chain.noEdge.rules, rule.Positive) ∧ Chain.facts 0 ⊆ Chain.facts 1 ∧
      ((run (fun _ _ => .eq) Chain.noEdge (Chain.facts 0)).toOption.bind fun result =>
        result.decisions.get Chain.edge) = some [[]] ∧
      ((run (fun _ _ => .eq) Chain.noEdge (Chain.facts 1)).toOption.bind fun result =>
        result.decisions.get Chain.edge) = some [] :=
  ⟨Chain.rule_positive, fun _ h => mem_cons.mpr (.inl (mem_singleton.mp h)), by decide +kernel,
    by decide +kernel⟩

end Ccl

end Dkg
