import Dkg.Query.Engine

/-! # Texts as SPARQL reads them

The code finds words and groups in a text without parsing it. Here is how SPARQL reads the text:
which parts of it are strings, IRIs and comments (`lex`), where a keyword may stand (`keywordIn`),
and when the pattern of a query is all in one group (`Parts.IsGroup`). What is assumed of the
store's evaluation is stated with these (`ReadsGraph`, `ReadsDefaultGraph`).
-/

namespace Dkg.Query

/-! ## Strings, IRIs and comments -/

/-- A character of an IRI between its angle brackets. -/
def isIriChar (c : Char) : Bool :=
  ' ' < c && c ∉ ['<', '>', '\x22', '\x7b', '\x7d', '|', '^', '\x60', '\\']

/-- What may follow a backslash in a string. -/
def escapable : List Char := ['t', 'b', 'n', 'r', 'f', '\\', '\x22', '\'']

def lexCode (c : Char) (rest : List Char) : Option (Char × Scan) :=
  if c = '\x22' ∨ c = '\'' then
    some (' ', if [c, c] <+: rest then .skip 2 (.longString c) else .string c)
  else if c = '<' ∧ (rest.dropWhile (isIriChar ·)).head? = some '>' then some (' ', .iri)
  else if c = '#' then some (' ', .comment)
  else if c = '\\' then none
  else some (c, .code)

/-- A backslash in a string. -/
def lexEscape (rest : List Char) (scan : Scan) : Option (Char × Scan) :=
  if rest.head?.any (· ∈ escapable) then some (' ', .skip 1 scan) else none

/-- One character, as `scanStep` has it. -/
def lexStep (c : Char) (rest : List Char) : Scan → Option (Char × Scan)
  | .code => lexCode c rest
  | .longString quote =>
    if c = '\\' then lexEscape rest (.longString quote)
    else if c = quote ∧ [quote, quote] <+: rest then some (' ', .skip 2 .code)
    else some (' ', .longString quote)
  | .string quote =>
    if c = '\\' then lexEscape rest (.string quote)
    else if c = '\n' ∨ c = '\r' then none
    else some (' ', if c = quote then .code else .string quote)
  | .iri => some (' ', if c = '>' then .code else .iri)
  | .comment => some (if c = '\n' ∨ c = '\r' then (c, .code) else (' ', .comment))
  | .skip count next => some (' ', if count ≤ 1 then next else .skip (count - 1) next)

/-- The code of a text that ends outside of strings, IRIs and comments, which are blanked out. A
text with a codepoint escape is not read. -/
def lex : Scan → List Char → Option (List Char)
  | .code, [] => some []
  | _, [] => none
  | scan, c :: rest =>
    (lexStep c rest scan).bind fun read => (lex read.2 rest).map (read.1 :: ·)

/-! ## Keywords -/

/-- A variable or a local name goes on with such a character. -/
def isNameChar (c : Char) : Bool := isWordChar c || c = '-' || 0x80 ≤ c.toNat

/-- Whether the character after this one is inside of a variable or a local name. -/
def namedAfter (named : Bool) (c : Char) : Bool :=
  if isNameChar c then named else c ∈ ['?', '$', ':']

/-- The letters stand somewhere in the code, outside of variables and local names. They need not be
a word of their own: `GRAPHex:g` may be read as a clause. -/
def keywordIn (word : String) : Bool → List Char → Bool
  | _, [] => false
  | named, c :: rest =>
    (!named && (dropWord word (c :: rest)).isSome) || keywordIn word (namedAfter named c) rest

/-! ## The group of a query -/

/-- A text before, inside and after a group. -/
structure Parts where
  (before inner after : Term)
  deriving DecidableEq

namespace Parts

def text (p : Parts) : Term := p.before ++ p.inner ++ p.after

/-- The code of each part. -/
def code (p : Parts) : Option Parts := do
  return ⟨← lex .code p.before, ← lex .code p.inner, ← lex .code p.after⟩

/-- The group, with its pattern in a clause of its own. -/
def within (p : Parts) (graph : Term) : Term :=
  p.before ++ [' '] ++ ("GRAPH <".toList ++ graph ++ ['>']) ++ " \x7b ".toList ++ p.inner ++
    " \x7d ".toList ++ p.after

def braces (cs : List Char) : List Char := cs.filter (· ∈ ['\x7b', '\x7d'])

/-- The code is that of a query, and all its pattern is inside: the brace before it is the first
one, or the one after the template of a `CONSTRUCT`, and the one after it belongs to that. -/
structure IsGroup (code : Parts) : Prop where
  opens : braces code.before = ['\x7b'] ∨ braces code.before = ['\x7b', '\x7d', '\x7b'] ∧
    keywordIn "SELECT" false code.before = false ∧ keywordIn "ASK" false code.before = false
  closes : cutBeforeClose 0 (code.inner ++ ['\x7d']) = some (code.inner, ['\x7d'])
  no_exists : keywordIn "EXISTS" false (code.before ++ code.after) = false

end Parts

/-- The words that make a query read other graphs. -/
def graphWords : List String := ["GRAPH", "FROM", "SERVICE", "DESCRIBE"]

def NamesNoGraph (code : List Char) : Prop := ∀ word ∈ graphWords, keywordIn word false code = false

/-! ## What is assumed of the evaluation -/

/-- How a store answers texts. -/
abbrev Evaluator := TripleStore → Term → Except Term StoreResult

/-- An IRI that a text may hold between angle brackets and that no base changes. -/
def IsPlainIri (iri : Term) : Prop := iri.all (isIriChar ·) ∧ ¬ "/.".toList <:+: iri
  deriving Decidable

/-- A query that names no graph is answered from the default graph. -/
def ReadsDefaultGraph (evaluate : Evaluator) : Prop :=
  ∀ sparql code, lex .code sparql = some code → NamesNoGraph code →
    ∀ s t : TripleStore, (∀ q, q.graph = [] → (q ∈ s ↔ q ∈ t)) →
        evaluate s sparql = evaluate t sparql

end Dkg.Query
