import Dkg.Publisher.NQuads

/-! # The read-only guard of queries

A query reaches the store only when its text, with literals, IRIs and comments blanked out
(`stripLiteralsAndComments`), begins with the keyword of a query form after its prologue and has no
keyword of an update as a word of its own.
-/

namespace Dkg.Query

/-! ## Blanking out -/

/-- What the scanner is inside of. -/
inductive Scan
  | code
  | longString (quote : Char)
  | string (quote : Char)
  | iri
  | comment
  /-- The next characters are blanked, whatever they are. -/
  | skip (count : ℕ) (next : Scan)

def isLetter (c : Char) : Bool := ('a' ≤ c && c ≤ 'z') || ('A' ≤ c && c ≤ 'Z')

def isDigit (c : Char) : Bool := '0' ≤ c && c ≤ '9'

/-- After such a character a `<` compares. -/
def endsOperand (c : Char) : Bool :=
  isLetter c || isDigit c || c ∈ ['?', '$', '_', ')', ']']

def startsIri (c : Char) : Bool := isLetter c || c ∈ ['#', '/', '.', '_']

/-- How the scanner reads a character of code, with the character before it and the text after. -/
def scanCode (prev : Option Char) (c : Char) (rest : List Char) : Char × Scan :=
  if c = '\x22' ∨ c = '\'' then
    if [c, c] <+: rest then (' ', .skip 2 (.longString c)) else (' ', .string c)
  else if c = '<' then
    if !(prev.any endsOperand) && rest.head?.any startsIri then (' ', .iri) else (c, .code)
  else if c = '#' then (' ', .comment)
  else (c, .code)

/-- What is written for a character, and what the scanner is inside of after it. -/
def scanStep (prev : Option Char) (c : Char) (rest : List Char) : Scan → Char × Scan
  | .code => scanCode prev c rest
  | .longString quote =>
    if c = '\\' then (' ', .skip 1 (.longString quote))
    else if c = quote ∧ [quote, quote] <+: rest then (' ', .skip 2 .code)
    else (' ', .longString quote)
  | .string quote =>
    if c = '\\' then (' ', .skip 1 (.string quote))
    else if c = quote then (' ', .code)
    else (' ', .string quote)
  | .iri =>
    if c = '>' then (' ', .code) else if c = '\n' then (c, .code) else (' ', .iri)
  | .comment => if c = '\n' then (c, .code) else (' ', .comment)
  | .skip count next => (' ', if count ≤ 1 then next else .skip (count - 1) next)

def strip (prev : Option Char) : Scan → List Char → List Char
  | _, [] => []
  | scan, c :: rest =>
    (scanStep prev c rest scan).1 :: strip (some c) (scanStep prev c rest scan).2 rest

def stripLiteralsAndComments (sparql : Term) : Term := strip none .code sparql

/-! ## Words -/

/-- `\w`. -/
def isWordChar (c : Char) : Bool := isLetter c || isDigit c || c = '_'

/-- The text after a word that it begins with, letters of either case being the same. -/
def dropWord (word : String) (cs : List Char) : Option (List Char) :=
  if word.toList.map Char.toUpper = (cs.take word.toList.length).map Char.toUpper then
    some (cs.drop word.toList.length)
  else none

/-- The text after a word that ends at a boundary. -/
def dropWholeWord (word : String) (cs : List Char) : Option (List Char) :=
  (dropWord word cs).filter fun rest => !(rest.head?.any isWordChar)

/-! ## The form of a query -/

inductive SparqlForm
  | select
  | construct
  | ask
  | describe
  deriving DecidableEq

def SparqlForm.word : SparqlForm → String
  | .select => "SELECT"
  | .construct => "CONSTRUCT"
  | .ask => "ASK"
  | .describe => "DESCRIBE"

def readOnlyForms : List SparqlForm := [.select, .construct, .ask, .describe]

/-- What `\s+[^\n]*\n\s*` may leave of a text, in the order in which it is tried: the white space
may take the line break, too. -/
def afterDeclaration (cs : List Char) : List (List Char) :=
  let spaces := cs.takeWhile (isWhiteSpace ·)
  let rest := cs.dropWhile (isWhiteSpace ·)
  if spaces = [] then []
  else
    (((cutThrough '\n' rest).map fun p => p.2.dropWhile (isWhiteSpace ·)).toList ++
      if '\n' ∈ spaces.tail then [rest] else [])

/-- What the declarations of a prologue may leave of a text; each one takes at least a letter. -/
def afterPrologue : ℕ → List Char → List (List Char)
  | 0, cs => [cs]
  | fuel + 1, cs =>
    ((["PREFIX", "BASE"].filterMap (dropWord · cs)).flatMap afterDeclaration).flatMap
      (afterPrologue fuel) ++ [cs]

def formAt (cs : List Char) : Option SparqlForm :=
  readOnlyForms.find? fun form => (dropWholeWord form.word cs).isSome

/-- `READ_ONLY_FORMS`, and the keyword that it captures. -/
def readOnlyForm (stripped : Term) : Option SparqlForm :=
  (afterPrologue stripped.length (stripped.dropWhile (isWhiteSpace ·))).findSome? formAt

/-- `classifySparqlForm`: a text of no form is taken for a selection. -/
def classifySparqlForm (sparql : Term) : SparqlForm :=
  (readOnlyForm (stripLiteralsAndComments sparql)).getD .select

/-! ## The guard -/

def mutatingKeywords : List String :=
  ["INSERT", "DELETE", "LOAD", "CLEAR", "DROP", "CREATE", "COPY", "MOVE", "ADD"]

/-- The first keyword of an update that stands as a word of its own, as it is written. -/
def mutatingKeyword (prev : Option Char) : List Char → Option Term
  | [] => none
  | c :: rest =>
    let here := if prev.any isWordChar then none
      else mutatingKeywords.find? fun word => (dropWholeWord word (c :: rest)).isSome
    match here with
    | some word => some ((c :: rest).take word.toList.length)
    | none => mutatingKeyword (some c) rest

/-- `validateReadOnlySparql`: the reason why a text is not safe. -/
def validateReadOnlySparql (sparql : Term) : Option Term :=
  let stripped := stripLiteralsAndComments sparql
  if (readOnlyForm stripped).isNone then
    some ("Query must start with SELECT, CONSTRUCT, ASK, or DESCRIBE. ".toList ++
      "Mutations must go through the publish/update protocol.".toList)
  else
    (mutatingKeyword none stripped).map fun word =>
      "Query contains mutating keyword \x22".toList ++ word ++
        "\x22. Use the publish() or update() API to modify data.".toList

example :
    validateReadOnlySparql "BASE <urn:x:> \nASK \x7b ?s ?p \x22DROP\x22 \x7d".toList = none := by
  decide +kernel

example : (validateReadOnlySparql "SELECT * WHERE \x7b \x7d ; drop ALL".toList).isSome = true := by
  decide +kernel

end Dkg.Query
