import Dkg.Query.Sparql

/-! # Queries without the excluded graphs

A query of no context graph runs over the whole store, and the rows of its answer that show the URI
of an excluded graph are dropped afterwards. What an answer still tells of the excluded graphs is
what the store's own answer changes by when they are taken out (`Discloses`): the truth value of an
`ASK`, the triples of a `CONSTRUCT`, and each row that shows no such URI.
-/

namespace Dkg.Query

variable {prefixes : List Term} {s t : TripleStore} {q : Quad}

/-! ## Stores that differ in excluded graphs -/

/-- The default graph has no URI, and so it is never excluded. -/
def IsHidden (prefixes : List Term) (q : Quad) : Prop :=
  q.graph ≠ [] ∧ IsExcluded prefixes q.graph
  deriving Decidable

/-- The stores differ only in named graphs whose URI starts with an excluded prefix. -/
def SameOutside (prefixes : List Term) (s t : TripleStore) : Prop :=
  ∀ q, ¬ IsHidden prefixes q → (q ∈ s ↔ q ∈ t)

def withoutExcluded (prefixes : List Term) (s : TripleStore) : TripleStore :=
  s.filter fun q => ¬ IsHidden prefixes q

@[simp]
lemma mem_withoutExcluded : q ∈ withoutExcluded prefixes s ↔ q ∈ s ∧ ¬ IsHidden prefixes q := by
  simp [withoutExcluded]

lemma sameOutside_withoutExcluded (prefixes : List Term) (s : TripleStore) :
    SameOutside prefixes s (withoutExcluded prefixes s) := by
  intro q hq
  simp [hq]

lemma sameOutside_iff :
    SameOutside prefixes s t ↔ withoutExcluded prefixes s = withoutExcluded prefixes t := by
  constructor
  · intro h
    ext q
    rw [mem_withoutExcluded, mem_withoutExcluded]
    exact and_congr_left (h q)
  · intro h q hq
    have hmem : q ∈ withoutExcluded prefixes s ↔ q ∈ withoutExcluded prefixes t := by rw [h]
    simpa [hq] using hmem

/-- What is the same on stores that differ in excluded graphs is what does not change when these
graphs are taken out. -/
lemma factorsThrough_withoutExcluded {α : Type} {f : TripleStore → α} :
    f.FactorsThrough (withoutExcluded prefixes) ↔ ∀ s, f s = f (withoutExcluded prefixes s) := by
  constructor
  · intro h s
    exact h (sameOutside_iff.mp (sameOutside_withoutExcluded prefixes s))
  · intro h s t hst
    calc f s = f (withoutExcluded prefixes s) := h s
      _ = f (withoutExcluded prefixes t) := by rw [hst]
      _ = f t := (h t).symm

/-! ## What an answer shows -/

def shownRows (prefixes : List Term) (rows : List Row) : List Row :=
  rows.filter (Shows prefixes ·)

/-- The answers are told apart by nothing but rows that show the URI of an excluded graph. -/
def AgreeOnShown (prefixes : List Term) : StoreResult → StoreResult → Prop
  | .boolean a, .boolean b =>
    a = b ∨ ∀ value, ¬ Shows prefixes (booleanRow value)
  | .quads a, .quads b => a = b
  | .bindings a, .bindings b => shownRows prefixes a = shownRows prefixes b
  | .boolean a, .bindings rows => shownRows prefixes [booleanRow a] = shownRows prefixes rows
  | .bindings rows, .boolean a => shownRows prefixes rows = shownRows prefixes [booleanRow a]
  | .quads _, _ => False
  | _, .quads _ => False

/-- A store may refuse a query, as it does a text that is not well formed. -/
def AgreeOrFail (prefixes : List Term) : Except Term StoreResult → Except Term StoreResult → Prop
  | .ok a, .ok b => AgreeOnShown prefixes a b
  | .error a, .error b => a = b
  | _, _ => False

lemma booleanRow_injective : Function.Injective booleanRow := by
  intro a b h
  cases a <;> cases b <;> first | rfl | exact absurd h (by decide)

lemma shownRows_boolean {a b : Bool} :
    shownRows prefixes [booleanRow a] = shownRows prefixes [booleanRow b] ↔
      a = b ∨ ∀ value, ¬ Shows prefixes (booleanRow value) := by
  have hall : (∀ value, ¬ Shows prefixes (booleanRow value)) ↔
      ¬ Shows prefixes (booleanRow true) ∧ ¬ Shows prefixes (booleanRow false) := by
    rw [Bool.forall_bool]
    exact and_comm
  have hne : booleanRow true ≠ booleanRow false := fun h => by
    cases booleanRow_injective h
  rw [hall]
  by_cases ht : Shows prefixes (booleanRow true) <;>
    by_cases hf : Shows prefixes (booleanRow false) <;>
      cases a <;> cases b <;> simp [shownRows, ht, hf, hne, hne.symm]

/-! ## What the engine returns -/

/-- A query that names no context graph and leaves out the graphs of some prefixes. -/
def unscoped (prefixes : List Term) : QueryOptions := { excludeGraphPrefixes := prefixes }

def returned (prefixes : List Term) (answer : StoreResult) : QueryResult :=
  ⟨shownRows prefixes (normalize answer).bindings, (normalize answer).quads⟩

lemma shownRows_nil (rows : List Row) : shownRows [] rows = rows := by
  apply List.filter_eq_self.mpr
  intro row _
  exact decide_eq_true fun binding _ ⟨front, hfront, _⟩ => absurd hfront List.not_mem_nil

lemma query_unscoped {store : Backend} {sparql : Term}
    (hsafe : validateReadOnlySparql sparql = none) :
    query store sparql (unscoped prefixes) = (store.query sparql).map (returned prefixes) := by
  have hquery : query store sparql (unscoped prefixes) =
      legacyQuery store sparql (unscoped prefixes) := by
    unfold query
    rw [hsafe]
    rfl
  rw [hquery]
  show (execAndNormalize store sparql).map _ = _
  unfold execAndNormalize
  cases store.query sparql with
  | error message => rfl
  | ok answer =>
    show Except.ok (if prefixes = [] ∨ (normalize answer).bindings = [] then _ else _) =
      Except.ok (returned prefixes answer)
    congr 1
    split
    · rename_i hnone
      rcases hnone with rfl | hrows
      · rw [returned, shownRows_nil]
      · have hnone : shownRows prefixes (normalize answer).bindings =
            (normalize answer).bindings := by
          rw [hrows]
          rfl
        rw [returned, hnone]
    · rfl

lemma returned_eq_iff {a b : StoreResult} :
    returned prefixes a = returned prefixes b ↔ AgreeOnShown prefixes a b := by
  cases a with
  | boolean a =>
    cases b with
    | boolean b => simpa [returned, normalize, AgreeOnShown] using shownRows_boolean
    | quads b | bindings b => simp [returned, normalize, AgreeOnShown]
  | quads a => cases b <;> simp [returned, normalize, AgreeOnShown, shownRows]
  | bindings a => cases b <;> simp [returned, normalize, AgreeOnShown]

lemma map_returned_eq_iff {a b : Except Term StoreResult} :
    a.map (returned prefixes) = b.map (returned prefixes) ↔ AgreeOrFail prefixes a b := by
  cases a with
  | error a => cases b <;> simp [Except.map, AgreeOrFail]
  | ok a =>
    cases b with
    | error b => simp [Except.map, AgreeOrFail]
    | ok b => simpa [Except.map, AgreeOrFail] using returned_eq_iff

/-! ## Disclosure -/

/-- The engine over a store. -/
def backend (evaluate : Evaluator) (graphs : TripleStore → List Term) (s : TripleStore) : Backend :=
  ⟨evaluate s, graphs s⟩

/-- **Excluded graphs leak exactly through what the rows do not name**: on stores that differ in
excluded graphs a query that passes the guard returns the same if and only if the store's own answer
changes by no truth value, no triple and no row that shows none of their URIs. -/
theorem excluded_graphs_hidden_iff (evaluate : Evaluator) (graphs : TripleStore → List Term)
    (prefixes : List Term) (sparql : Term) :
    (∀ s t, SameOutside prefixes s t →
      query (backend evaluate graphs s) sparql (unscoped prefixes) =
        query (backend evaluate graphs t) sparql (unscoped prefixes)) ↔
    validateReadOnlySparql sparql ≠ none ∨
      ∀ s, AgreeOrFail prefixes (evaluate s sparql)
        (evaluate (withoutExcluded prefixes s) sparql) := by
  have hfactors : (∀ s t, SameOutside prefixes s t →
      query (backend evaluate graphs s) sparql (unscoped prefixes) =
        query (backend evaluate graphs t) sparql (unscoped prefixes)) ↔
      ∀ s, query (backend evaluate graphs s) sparql (unscoped prefixes) =
        query (backend evaluate graphs (withoutExcluded prefixes s)) sparql
            (unscoped prefixes) := by
    simp only [sameOutside_iff]
    exact factorsThrough_withoutExcluded
  rw [hfactors]
  cases hguard : validateReadOnlySparql sparql with
  | some reason => simp [query, hguard]
  | none =>
    simp only [query_unscoped hguard, map_returned_eq_iff]
    simp [backend]

/-- A query that names no graph reads the default graph, and so it tells nothing of excluded
ones. -/
lemma excluded_graphs_hidden_of_namesNoGraph {evaluate : Evaluator} {sparql code : Term}
    (hreads : ReadsDefaultGraph evaluate) (hcode : lex .code sparql = some code)
    (hnames : NamesNoGraph code) (graphs : TripleStore → List Term) (prefixes : List Term) :
    ∀ s t, SameOutside prefixes s t →
      query (backend evaluate graphs s) sparql (unscoped prefixes) =
        query (backend evaluate graphs t) sparql (unscoped prefixes) := by
  apply (excluded_graphs_hidden_iff evaluate graphs prefixes sparql).mpr
  refine .inr fun s => ?_
  have hsame : evaluate s sparql = evaluate (withoutExcluded prefixes s) sparql := by
    apply hreads sparql code hcode hnames
    intro q hq
    exact sameOutside_withoutExcluded prefixes s q fun hhidden => hhidden.1 hq
  rw [← hsame, ← map_returned_eq_iff]

/-! ## What leaks -/

def clinic : Term := contextGraphDataUri "clinic".toList

def diagnosis : Quad :=
  ⟨"urn:patient:1".toList, "urn:diagnosis".toList, "\x22flu\x22".toList, clinic⟩

/-- The group that reads every named graph. -/
def everyGraph : Term := " \x7b GRAPH ?g \x7b ?s ?p ?o \x7d \x7d".toList

def askText : Term := "ASK".toList ++ everyGraph

def countText : Term := "SELECT (COUNT(*) AS ?n) WHERE".toList ++ everyGraph

def objectText : Term := "SELECT ?o WHERE".toList ++ everyGraph

def constructText : Term := "CONSTRUCT \x7b ?s ?p ?o \x7d WHERE".toList ++ everyGraph

/-- The answers to these queries over stores of quads that are listed. -/
def answerOver (listed : List Quad) : Evaluator := fun s sparql =>
  let solutions := listed.filter fun q => q ∈ s ∧ q.graph ≠ []
  if sparql = askText then .ok (.boolean (solutions ≠ []))
  else if sparql = countText then
    .ok (.bindings [[("n".toList, '\x22' :: (Nat.toDigits 10 solutions.length ++
      "\x22^^<http://www.w3.org/2001/XMLSchema#integer>".toList))]])
  else if sparql = objectText then
    .ok (.bindings (solutions.map fun q => [("o".toList, q.object)]))
  else if sparql = constructText then
    .ok (.quads (solutions.map fun q => { q with graph := [] }))
  else .error "not evaluated".toList

/-- The query is let through and tells a store that holds the diagnosis from the empty one. -/
def TellsDiagnosis (sparql : Term) : Prop :=
  let run (s : TripleStore) :=
    (query (backend (answerOver [diagnosis]) (fun _ => []) s) sparql (unscoped [clinic])).toOption
  validateReadOnlySparql sparql = none ∧ run {diagnosis} ≠ run ∅
  deriving Decidable

/-- The stores differ in an excluded graph only, and every form of query tells them apart. -/
theorem excluded_graphs_leak :
    SameOutside [clinic] {diagnosis} ∅ ∧
      TellsDiagnosis askText ∧ TellsDiagnosis countText ∧ TellsDiagnosis objectText ∧
        TellsDiagnosis constructText := by
  refine ⟨?_, by decide +kernel, by decide +kernel, by decide +kernel, by decide +kernel⟩
  intro q hq
  have hhidden : IsHidden [clinic] diagnosis := by decide +kernel
  have hne : q ≠ diagnosis := fun h => hq (h ▸ hhidden)
  simp [hne]

end Dkg.Query
