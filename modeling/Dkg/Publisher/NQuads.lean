import Dkg.Merkle.V10MerkleTree
import Dkg.Publisher.Terms

/-! # Triples as text

`parseSimpleNQuads`, which reads the payload of a gossip message, and `formatNTriple`, the text that
is hashed into a leaf of the Merkle tree. The flat root of a knowledge collection is that of the
hashes of its public triples and of the private roots.
-/

namespace Dkg

/-! ## Reading -/

/-- White space of `String.prototype.trim`. -/
def isWhiteSpace (c : Char) : Bool :=
  c.toNat ∈ [9, 10, 11, 12, 13, 0x20, 0xA0, 0x1680, 0x2028, 0x2029, 0x202F, 0x205F, 0x3000,
      0xFEFF] ||
    (0x2000 ≤ c.toNat && c.toNat ≤ 0x200A)

def trim (s : Term) : Term :=
  (((s.dropWhile (isWhiteSpace ·)).reverse.dropWhile (isWhiteSpace ·))).reverse

/-- The part up to the first `c`, which it includes, and the rest. -/
def cutThrough (c : Char) : List Char → Option (List Char × List Char)
  | [] => none
  | d :: rest =>
    if d = c then some ([d], rest) else (cutThrough c rest).map fun p => (d :: p.1, p.2)

/-- The language tag or the datatype after the closing quotation mark. -/
def literalSuffix : List Char → List Char × List Char
  | '@' :: rest => ('@' :: rest.takeWhile (· ≠ ' '), rest.dropWhile (· ≠ ' '))
  | '^' :: '^' :: '<' :: rest =>
    match cutThrough '>' rest with
    | some (uri, rest) => ('^' :: '^' :: '<' :: uri, rest)
    | none => (['^', '^'], '<' :: rest)
  | '^' :: '^' :: rest => (['^', '^'], rest)
  | rest => ([], rest)

/-- What follows the opening quotation mark; a backslash hides the next character. -/
def readLiteral : List Char → List Char × List Char
  | [] => ([], [])
  | '\\' :: c :: rest => ('\\' :: c :: (readLiteral rest).1, (readLiteral rest).2)
  | '\x22' :: rest => ('\x22' :: (literalSuffix rest).1, (literalSuffix rest).2)
  | c :: rest => (c :: (readLiteral rest).1, (readLiteral rest).2)

/-- `splitNQuadLine`; every round takes at least one character. -/
def splitNQuadLine : ℕ → List Char → List Term
  | 0, _ => []
  | n + 1, line =>
    match line.dropWhile (· = ' ') with
    | '<' :: rest =>
      match cutThrough '>' rest with
      | some (uri, rest) => ('<' :: uri) :: splitNQuadLine n rest
      | none => []
    | '\x22' :: rest => ('\x22' :: (readLiteral rest).1) :: splitNQuadLine n (readLiteral rest).2
    | '_' :: rest =>
      ('_' :: rest.takeWhile (· ≠ ' ')) :: splitNQuadLine n (rest.dropWhile (· ≠ ' '))
    | _ => []

def stripAngleBrackets (s : Term) : Term :=
  if ['<'] <+: s ∧ ['>'] <:+ s then (s.drop 1).dropLast else s

/-- A line of the text, when it has three terms. -/
def parseLine (line : List Char) : Option Quad :=
  let trimmed := trim line
  if trimmed = [] ∨ ['#'] <+: trimmed then none
  else
    let body := if " .".toList <:+ trimmed then trim (trimmed.dropLast.dropLast) else trimmed
    match splitNQuadLine (body.length + 1) body with
    | s :: p :: o :: rest => some {
        subject := stripAngleBrackets s
        predicate := stripAngleBrackets p
        object := if ['\x22'] <+: o then o else stripAngleBrackets o
        graph := (rest.head?.map stripAngleBrackets).getD [] }
    | _ => none

def parseSimpleNQuads (text : List Char) : List Quad := (text.splitOn '\n').filterMap parseLine

example : parseSimpleNQuads "<r> <p> \x22a \\\x22b\x22@en <g> .".toList =
    [⟨"r".toList, "p".toList, "\x22a \\\x22b\x22@en".toList, "g".toList⟩] := by decide

/-! ## Hashing -/

def formatTerm (term : Term) : Term :=
  if ['\x22'] <+: term ∨ "_:".toList <+: term ∨ ['<'] <+: term then term
  else '<' :: (term ++ ['>'])

def formatNTriple (subject predicate object : Term) : Term :=
  formatTerm subject ++ [' '] ++ formatTerm predicate ++ [' '] ++ formatTerm object ++ " .".toList

variable {B : Type}

def hashTripleV10 (keccak256 : Term → B) (q : Quad) : B :=
  keccak256 (formatNTriple q.subject q.predicate q.object)

/-- The leaves of a knowledge collection. -/
def flatLeaves (keccak256 : Term → B) (publicQuads : List Quad) (privateRoots : List B) : List B :=
  publicQuads.map (hashTripleV10 keccak256) ++ privateRoots

variable [LinearOrder B] [Zero B]

def computeFlatKCRootV10 (keccak256 : Term → B) (hashPair : B → B → B) (publicQuads : List Quad)
    (privateRoots : List B) : B :=
  (V10MerkleTree.new hashPair (flatLeaves keccak256 publicQuads privateRoots)).root

def computeFlatKCMerkleLeafCountV10 (keccak256 : Term → B) (hashPair : B → B → B)
    (publicQuads : List Quad) (privateRoots : List B) : ℕ :=
  (V10MerkleTree.new hashPair (flatLeaves keccak256 publicQuads privateRoots)).leafCount

/-- A collection of one leaf has that leaf as its root. -/
lemma computeFlatKCRootV10_single (keccak256 : Term → B) (hashPair : B → B → B) (q : Quad) :
    computeFlatKCRootV10 keccak256 hashPair [q] [] = hashTripleV10 keccak256 q := by
  have hlayers : buildLayers hashPair [hashTripleV10 keccak256 q] =
      [[hashTripleV10 keccak256 q]] := by
    unfold buildLayers
    simp
  simp [computeFlatKCRootV10, flatLeaves, V10MerkleTree.new, sortedLeaves, dedupSorted, hlayers,
    V10MerkleTree.root]

end Dkg
