import Dkg.Lib.Json
import Dkg.Lib.KeyedList

/-! # The evaluator of policies

A policy has rules, which derive tuples of relations from facts, and decisions, which are read off
at the end. `deriveFixpoint` evaluates the rules one after the other, round by round, into the
relations themselves, until a round adds nothing; it gives up after 64 rounds. Relations are maps
from the text of a tuple to the tuple.

`localeCompare` is a parameter: it sets the order of tuples only.
-/

namespace Dkg.Ccl

open Lib

/-! ## Policies -/

/-- An argument of a fact, or what an unbound variable gives. -/
inductive Value
  | undefined
  | null
  | boolean (b : Bool)
  | number (x : Binary64)
  | string (s : Utf16)
  deriving DecidableEq

abbrev Tuple := List Value

/-- An argument of an atom: a scalar, or what no argument of a fact is equal to. -/
inductive Arg
  | scalar (v : Value)
  | other

inductive CompareOp
  | atLeast
  | greater
  | equal
  | atMost
  | less
  deriving DecidableEq

/-- A condition of a rule. -/
inductive CclCondition
  | atom (pred : Utf16) (args : List Arg)
  | exists_ (conditions : List CclCondition)
  | notExists (conditions : List CclCondition)
  | countDistinct (vars : List Utf16) (conditions : List CclCondition) (op : CompareOp)
      (value : Binary64)

/-- A rule or a decision. -/
structure CclEntry where
  name : Utf16
  params : List Utf16
  all : List CclCondition

structure CclCanonicalPolicy where
  (rules decisions : List CclEntry)

structure CclFact where
  pred : Utf16
  args : Tuple

structure CclEvaluationResult where
  (derived decisions : KeyedList Utf16 (List Tuple))

/-! ## Terms and tuples -/

def dollar : CodeUnit := ⟨0x24, by decide⟩

/-- `isVar`, with the name of the variable. -/
def Arg.var : Arg → Option Utf16
  | .scalar (.string s) => if s.head? = some dollar then some s else none
  | _ => none

def normalizeVarName (value : Utf16) : Utf16 :=
  if value.head? = some dollar then value else dollar :: value

def Value.toJson : Value → Json
  | .undefined => .null
  | .null => .null
  | .boolean b => .boolean b
  | .number x => .number x
  | .string s => .string s

def tupleKey (tuple : Tuple) : List Char := (Json.array (tuple.map Value.toJson)).render

/-- The value of a variable, where there is one. -/
abbrev Binding := Utf16 → Option Value

def Binding.empty : Binding := fun _ => none

/-- `binding[name]`. -/
def Binding.lookup (binding : Binding) (name : Utf16) : Value := (binding name).getD .undefined

def Binding.project (binding : Binding) (vars : List Utf16) : Tuple :=
  (vars.map normalizeVarName).map binding.lookup

abbrev Relation := KeyedList (List Char) Tuple

abbrev Relations := KeyedList Utf16 Relation

def Relation.values (relation : Relation) : List Tuple := relation.entries.map Prod.snd

def getRelation (relations : Relations) (pred : Utf16) : Relation :=
  (relations.get pred).getD .empty

/-- The map that has each tuple under its text. -/
def setTuples (relation : Relation) (tuples : List Tuple) : Relation :=
  tuples.foldl (fun relation tuple => relation.set (tupleKey tuple) tuple) relation

section

variable (localeCompare : List Char → List Char → Ordering)

/-- `left` is not after `right`. -/
def CompareTuples (left right : Tuple) : Prop :=
  localeCompare (tupleKey left) (tupleKey right) ≠ .gt

instance decidableCompareTuples : DecidableRel (CompareTuples localeCompare) :=
  fun _ _ => instDecidableNot

def sortedTuples (relation : Relation) : List Tuple :=
  relation.values.insertionSort (CompareTuples localeCompare)

/-! ## Conditions -/

def matchTerm (term : Arg) (value : Value) (candidate : Binding) : Option Binding :=
  match term.var with
  | some x =>
    match candidate x with
    | some v => if v = value then some candidate else none
    | none => some (Function.update candidate x (some value))
  | none =>
    match term with
    | .scalar v => if v = value then some candidate else none
    | .other => none

def matchTerms : List Arg → Tuple → Binding → Option Binding
  | [], [], candidate => some candidate
  | term :: terms, value :: values, candidate =>
    (matchTerm term value candidate).bind (matchTerms terms values)
  | _, _, _ => none

def matchAtom (relations : Relations) (pred : Utf16) (args : List Arg) (binding : Binding) :
    List Binding :=
  (sortedTuples localeCompare (getRelation relations pred)).filterMap fun tuple =>
    matchTerms args tuple binding

def compareInts (left : ℕ) (op : CompareOp) (right : ℚ) : Bool :=
  match op with
  | .atLeast => decide (right ≤ left)
  | .greater => decide (right < left)
  | .equal => decide ((left : ℚ) = right)
  | .atMost => decide ((left : ℚ) ≤ right)
  | .less => decide ((left : ℚ) < right)

mutual

def evaluateConditions (relations : Relations) : List CclCondition → List Binding → List Binding
  | [], bindings => bindings
  | condition :: rest, bindings =>
    evaluateConditions relations rest (bindings.flatMap (evaluateCondition relations condition))

def evaluateCondition (relations : Relations) : CclCondition → Binding → List Binding
  | .atom pred args, binding => matchAtom localeCompare relations pred args binding
  | .exists_ conditions, binding =>
    if (evaluateConditions relations conditions [binding]).length > 0 then [binding] else []
  | .notExists conditions, binding =>
    if (evaluateConditions relations conditions [binding]).length = 0 then [binding] else []
  | .countDistinct vars conditions op value, binding =>
    let projection := ((evaluateConditions relations conditions [binding]).map fun found =>
      tupleKey (found.project vars)).dedup
    if compareInts projection.length op value.value then [binding] else []

end

/-! ## Rules and decisions -/

/-- The tuples of a rule or a decision. -/
def evaluateEntry (relations : Relations) (entry : CclEntry) : List Tuple :=
  let heads := (evaluateConditions localeCompare relations entry.all [.empty]).map fun binding =>
    binding.project entry.params
  (setTuples .empty heads).values.insertionSort (CompareTuples localeCompare)

def evaluateRule (relations : Relations) (rule : CclEntry) : List Tuple :=
  evaluateEntry localeCompare relations rule

/-- A rule in a round, and whether its relation has grown. -/
def applyRule (state : Relations × Bool) (rule : CclEntry) : Relations × Bool :=
  let relation := getRelation state.1 rule.name
  let relation' := setTuples relation (evaluateRule localeCompare state.1 rule)
  (state.1.set rule.name relation', state.2 || decide (relation'.size ≠ relation.size))

def round (rules : List CclEntry) (relations : Relations) : Relations × Bool :=
  rules.foldl (applyRule localeCompare) (relations, false)

def notConverged : String := "CCL fixpoint did not converge"

/-- The rounds that are left. -/
def deriveRounds (rules : List CclEntry) : ℕ → Relations → Except String Relations
  | 0, _ => .error notConverged
  | n + 1, relations =>
    if (round localeCompare rules relations).2 then
      deriveRounds rules n (round localeCompare rules relations).1
    else .ok (round localeCompare rules relations).1

def deriveFixpoint (rules : List CclEntry) (relations : Relations) : Except String Relations :=
  deriveRounds localeCompare rules 64 relations

def evaluateDecisions (relations : Relations) (decisions : List CclEntry) :
    KeyedList Utf16 (List Tuple) :=
  decisions.foldl (fun results decision =>
    results.set decision.name (evaluateEntry localeCompare relations decision)) .empty

/-- The relations that the constructor begins with. -/
def factRelations (facts : List CclFact) : Relations :=
  facts.foldl (fun relations fact =>
    relations.set fact.pred ((getRelation relations fact.pred).set (tupleKey fact.args) fact.args))
    .empty

def run (policy : CclCanonicalPolicy) (facts : List CclFact) :
    Except String CclEvaluationResult := do
  let relations ← deriveFixpoint localeCompare policy.rules (factRelations facts)
  return {
    derived := policy.rules.foldl (fun derived rule =>
      derived.set rule.name (sortedTuples localeCompare (getRelation relations rule.name))) .empty
    decisions := evaluateDecisions localeCompare relations policy.decisions }

end

end Dkg.Ccl
