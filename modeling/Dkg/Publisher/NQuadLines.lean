import Dkg.Publisher.NQuads

/-! # Quads as lines of text

A node that sends quads writes each one on a line of its own, as `<s> <p> o <g> .` (`writeLine`).
What it may write is `Readable`: no term ends early and no literal is open. The lines are read back
as they were (`parseSimpleNQuads_writeLines`).
-/

namespace Dkg

open List

/-- A literal is written as it is, and any other term in angle brackets. -/
def writeObject (object : Term) : Term :=
  if ['\x22'] <+: object then object else '<' :: (object ++ ['>'])

def writeLine (q : Quad) : Term :=
  '<' :: (q.subject ++ '>' :: ' ' :: '<' :: (q.predicate ++ '>' :: ' ' ::
    (writeObject q.object ++ ' ' :: '<' :: (q.graph ++ ['>', ' ', '.']))))

def writeLines (quads : List Quad) : Term := ['\n'].intercalate (quads.map writeLine)

/-! ## What is readable -/

/-- No quotation mark is on its own, and no backslash is the last character. -/
inductive Escaped : List Char → Prop
  | nil : Escaped []
  | char {c : Char} {rest : List Char} : c ≠ '\x22' → c ≠ '\\' → Escaped rest → Escaped (c :: rest)
  | escape {c : Char} {rest : List Char} : Escaped rest → Escaped ('\\' :: c :: rest)

/-- What can follow the closing quote of a literal. -/
inductive IsSuffix : List Char → Prop
  | none : IsSuffix []
  | language {tag : List Char} : ' ' ∉ tag → IsSuffix ('@' :: tag)
  | datatype {uri : List Char} : '>' ∉ uri → IsSuffix ('^' :: '^' :: '<' :: (uri ++ ['>']))

/-- An object that the line parser reads back. -/
inductive ReadableObject : Term → Prop
  | uri {object : Term} : ¬ IsLiteral object → '>' ∉ object → ReadableObject object
  | literal {value suffix : List Char} : Escaped value → IsSuffix suffix →
      ReadableObject ('\x22' :: (value ++ '\x22' :: suffix))

/-- A quad whose line can be read. -/
structure Readable (q : Quad) : Prop where
  subject : '>' ∉ q.subject
  predicate : '>' ∉ q.predicate
  object : ReadableObject q.object
  graph : '>' ∉ q.graph
  line : '\n' ∉ writeLine q

/-- A term that has neither the end of an IRI nor the end of a line. -/
def IsPlainTerm (term : Term) : Prop := '>' ∉ term ∧ '\n' ∉ term
  deriving Decidable

lemma readable_of_plain {s p o g : Term} (hs : IsPlainTerm s) (hp : IsPlainTerm p)
    (ho : ReadableObject o) (hline : '\n' ∉ o) (hg : IsPlainTerm g) : Readable ⟨s, p, o, g⟩ where
  subject := hs.1
  predicate := hp.1
  object := ho
  graph := hg.1
  line := by
    have hobject : '\n' ∉ writeObject o := by
      unfold writeObject
      split
      next => exact hline
      next => simpa using hline
    simp [writeLine, hs.2, hp.2, hg.2, hobject]

/-! ## Reading a line -/

variable {uri rest value suffix : List Char} {q : Quad} {n : ℕ}

lemma cutThrough_append (h : '>' ∉ uri) (rest : List Char) :
    cutThrough '>' (uri ++ '>' :: rest) = some (uri ++ ['>'], rest) := by
  induction uri with
  | nil => rfl
  | cons c uri ih =>
    obtain ⟨hc, huri⟩ := not_or.mp (mt mem_cons.mpr h)
    rw [cons_append, cutThrough, if_neg (Ne.symm hc), ih huri]
    rfl

/-- A suffix ends with a space or with the line. -/
lemma literalSuffix_append (h : IsSuffix suffix) (hrest : ∀ c ∈ rest.head?, c = ' ') :
    literalSuffix (suffix ++ rest) = (suffix, rest) := by
  cases h with
  | none =>
    cases rest with
    | nil => rfl
    | cons c rest =>
      cases hrest c rfl
      rfl
  | @language tag htag =>
    have hword : ∀ c ∈ tag, decide (c ≠ ' ') = true := by
      intro c hc
      exact decide_eq_true fun heq => htag (heq ▸ hc)
    have hstop : rest.takeWhile (· ≠ ' ') = [] ∧ rest.dropWhile (· ≠ ' ') = rest := by
      cases rest with
      | nil => exact ⟨rfl, rfl⟩
      | cons c rest =>
        cases hrest c rfl
        exact ⟨rfl, rfl⟩
    show ('@' :: (tag ++ rest).takeWhile (· ≠ ' '), (tag ++ rest).dropWhile (· ≠ ' ')) = _
    rw [takeWhile_append_of_pos hword, dropWhile_append_of_pos hword, hstop.1, hstop.2, append_nil]
  | @datatype uri huri =>
    show literalSuffix ('^' :: '^' :: '<' :: (uri ++ ['>'] ++ rest)) = _
    rw [append_assoc, singleton_append, literalSuffix, cutThrough_append huri]

lemma readLiteral_append (hvalue : Escaped value) (hsuffix : IsSuffix suffix)
    (hrest : ∀ c ∈ rest.head?, c = ' ') : readLiteral (value ++ '\x22' :: (suffix ++ rest)) =
      (value ++ '\x22' :: suffix, rest) := by
  induction hvalue with
  | nil => rw [nil_append, readLiteral, literalSuffix_append hsuffix hrest]; rfl
  | @char c value hquote hbackslash _ ih =>
    rw [cons_append, readLiteral, ih]
    · rfl
    · intro _ _ heq
      exact absurd heq hbackslash
    · exact hquote
  | escape _ ih =>
    rw [cons_append, cons_append, readLiteral, ih]
    rfl

/-- A term in angle brackets, perhaps after a space. -/
lemma splitNQuadLine_uri (n : ℕ) (rest : List Char) (h : '>' ∉ uri) (front : List Char)
    (hfront : ∀ c ∈ front, c = ' ') :
    splitNQuadLine (n + 1) (front ++ '<' :: (uri ++ '>' :: rest)) =
      ('<' :: (uri ++ ['>'])) :: splitNQuadLine n rest := by
  have hdrop : (front ++ '<' :: (uri ++ '>' :: rest)).dropWhile (· = ' ') =
      '<' :: (uri ++ '>' :: rest) := by
    rw [dropWhile_append_of_pos fun c hc => decide_eq_true (hfront c hc)]
    rfl
  rw [splitNQuadLine, hdrop]
  simp only [cutThrough_append h]

lemma splitNQuadLine_object {object : Term} (n : ℕ) (h : ReadableObject object)
    (hrest : ∀ c ∈ rest.head?, c = ' ') :
    splitNQuadLine (n + 1) (' ' :: (writeObject object ++ rest)) =
      writeObject object :: splitNQuadLine n rest := by
  cases h with
  | uri hliteral huri =>
    have hwrite : writeObject object = '<' :: (object ++ ['>']) := if_neg hliteral
    rw [hwrite]
    simpa using splitNQuadLine_uri n rest huri [' '] (by simp)
  | @literal value suffix hvalue hsuffix =>
    have hwrite : writeObject ('\x22' :: (value ++ '\x22' :: suffix)) =
        '\x22' :: (value ++ '\x22' :: suffix) := if_pos ⟨_, rfl⟩
    have hread := readLiteral_append hvalue hsuffix hrest
    rw [hwrite, splitNQuadLine]
    simp [hread]

lemma stripAngleBrackets_uri (uri : List Char) : stripAngleBrackets ('<' :: (uri ++ ['>'])) =
    uri := by
  rw [stripAngleBrackets, if_pos ⟨⟨_, rfl⟩, ⟨'<' :: uri, rfl⟩⟩]
  simp

lemma trim_eq_self {s : List Char} (hfirst : ∀ c ∈ s.head?, isWhiteSpace c = false)
    (hlast : ∀ c ∈ s.getLast?, isWhiteSpace c = false) : trim s = s := by
  have hdrop : ∀ t : List Char, (∀ c ∈ t.head?, isWhiteSpace c = false) →
      t.dropWhile (isWhiteSpace ·) = t := by
    intro t ht
    cases t with
    | nil => rfl
    | cons c t => rw [dropWhile_cons, ht c rfl]; rfl
  rw [trim, hdrop s hfirst, hdrop s.reverse (by rwa [head?_reverse]), reverse_reverse]

/-- A line without the dot at its end, with the text of its object. -/
def lineBody (q : Quad) (object : Term) : Term :=
  '<' :: (q.subject ++ '>' :: ' ' :: '<' :: (q.predicate ++ '>' :: ' ' ::
    (object ++ ' ' :: '<' :: (q.graph ++ ['>']))))

lemma writeLine_eq (q : Quad) : writeLine q = lineBody q (writeObject q.object) ++ " .".toList := by
  simp [writeLine, lineBody]

variable {object : Term}

lemma trim_line (q : Quad) (object : Term) :
    trim (lineBody q object ++ " .".toList) = lineBody q object ++ " .".toList := by
  apply trim_eq_self
  · intro c hc
    cases hc
    decide
  · intro c hc
    rw [show " .".toList = [' '] ++ ['.'] from rfl, ← append_assoc, getLast?_concat] at hc
    cases hc
    decide

lemma trim_lineBody (q : Quad) (object : Term) : trim (lineBody q object) = lineBody q object := by
  apply trim_eq_self
  · intro c hc
    cases hc
    decide
  · intro c hc
    have hend : lineBody q object = ('<' :: (q.subject ++ '>' :: ' ' :: '<' :: (q.predicate ++
        '>' :: ' ' :: (object ++ ' ' :: '<' :: q.graph)))) ++ ['>'] := by
      simp [lineBody]
    rw [hend, getLast?_concat] at hc
    cases hc
    decide

/-- Whatever comes after a space, the object is a term of its own. -/
def IsOneTerm (object : Term) : Prop :=
  ∀ n rest, (∀ c ∈ rest.head?, c = ' ') →
    splitNQuadLine (n + 1) (' ' :: (object ++ rest)) = object :: splitNQuadLine n rest

lemma splitNQuadLine_lineBody (hs : '>' ∉ q.subject) (hp : '>' ∉ q.predicate) (object : Term) :
    splitNQuadLine (n + 4) (lineBody q object) = ['<' :: (q.subject ++ ['>']),
      '<' :: (q.predicate ++ ['>'])] ++
        splitNQuadLine (n + 2) (' ' :: (object ++ ' ' :: '<' :: (q.graph ++ ['>']))) := by
  have hsubject := splitNQuadLine_uri (n + 3) (' ' :: '<' :: (q.predicate ++ '>' :: ' ' ::
    (object ++ ' ' :: '<' :: (q.graph ++ ['>'])))) hs [] (by simp)
  have hpredicate := splitNQuadLine_uri (n + 2)
    (' ' :: (object ++ ' ' :: '<' :: (q.graph ++ ['>']))) hp [' '] (by simp)
  rw [nil_append] at hsubject
  rw [singleton_append] at hpredicate
  rw [lineBody, hsubject, hpredicate]
  rfl

lemma readObject {object : Term} (h : ReadableObject object) :
    (if ['\x22'] <+: writeObject object then writeObject object
      else stripAngleBrackets (writeObject object)) = object := by
  cases h with
  | uri hliteral _ =>
    have hwrite : writeObject object = '<' :: (object ++ ['>']) := if_neg hliteral
    have hopen : ¬ ['\x22'] <+: '<' :: (object ++ ['>']) := by
      rintro ⟨_, h⟩
      cases h
    rw [hwrite, if_neg hopen, stripAngleBrackets_uri]
  | @literal value suffix _ _ =>
    have hwrite : writeObject ('\x22' :: (value ++ '\x22' :: suffix)) =
        '\x22' :: (value ++ '\x22' :: suffix) := if_pos ⟨_, rfl⟩
    rw [hwrite, if_pos ⟨_, rfl⟩]

lemma line_start (q : Quad) (object : Term) : ¬ (lineBody q object ++ " .".toList = [] ∨
    ['#'] <+: lineBody q object ++ " .".toList) := by
  rintro (hnil | ⟨_, hhash⟩)
  · cases hnil
  · cases hhash

lemma dropLast_line (q : Quad) (object : Term) :
    (lineBody q object ++ " .".toList).dropLast.dropLast = lineBody q object := by
  rw [show lineBody q object ++ " .".toList = lineBody q object ++ [' '] ++ ['.'] by simp,
    dropLast_concat, dropLast_concat]

lemma exists_length_lineBody (q : Quad) (object : Term) :
    ∃ n, (lineBody q object).length + 1 = n + 4 := by
  refine ⟨(lineBody q object).length - 3, ?_⟩
  have : 3 ≤ (lineBody q object).length := by
    simp only [lineBody, length_cons, length_append]
    omega
  omega

/-- A line with an object that is one term. -/
lemma parseLine_of_isOneTerm (hs : '>' ∉ q.subject) (hp : '>' ∉ q.predicate)
    (hg : '>' ∉ q.graph) (ho : IsOneTerm object) :
    parseLine (lineBody q object ++ " .".toList) =
      some { q with
        object := if ['\x22'] <+: object then object else stripAngleBrackets object } := by
  obtain ⟨n, hn⟩ := exists_length_lineBody q object
  have hobject := ho (n + 1) (' ' :: '<' :: (q.graph ++ ['>'])) (by simp)
  have hgraph := splitNQuadLine_uri n [] hg [' '] (by simp)
  rw [singleton_append] at hgraph
  unfold parseLine
  simp only [trim_line, if_neg (line_start q object), if_pos (suffix_append _ _), dropLast_line,
    trim_lineBody, hn, splitNQuadLine_lineBody hs hp, hobject, hgraph]
  simp only [cons_append, nil_append, stripAngleBrackets_uri, head?_cons, Option.map_some,
    Option.getD_some]

/-- A line with an object at which no term begins. -/
lemma parseLine_of_no_term (hs : '>' ∉ q.subject) (hp : '>' ∉ q.predicate)
    (ho : ∀ n rest, splitNQuadLine n (' ' :: (object ++ rest)) = []) :
    parseLine (lineBody q object ++ " .".toList) = none := by
  obtain ⟨n, hn⟩ := exists_length_lineBody q object
  unfold parseLine
  simp only [trim_line, if_neg (line_start q object), if_pos (suffix_append _ _), dropLast_line,
    trim_lineBody, hn, splitNQuadLine_lineBody hs hp, ho, append_nil]

lemma parseLine_writeLine (h : Readable q) : parseLine (writeLine q) = some q := by
  have ho : IsOneTerm (writeObject q.object) := fun n rest hrest =>
    splitNQuadLine_object n h.object hrest
  rw [writeLine_eq, parseLine_of_isOneTerm h.subject h.predicate h.graph ho, readObject h.object]

lemma parseSimpleNQuads_writeLines {quads : List Quad} (h : ∀ q ∈ quads, Readable q) :
    parseSimpleNQuads (writeLines quads) = quads := by
  by_cases hnil : quads = []
  · subst hnil
    rfl
  · have hlines : ∀ l ∈ quads.map writeLine, '\n' ∉ l := by
      intro l hl
      obtain ⟨q, hq, rfl⟩ := mem_map.mp hl
      exact (h q hq).line
    rw [parseSimpleNQuads, writeLines, splitOn_intercalate _ hlines (by simpa using hnil),
      filterMap_map]
    calc quads.filterMap (parseLine ∘ writeLine)
        = quads.filterMap some :=
          filterMap_congr fun q hq => parseLine_writeLine (h q hq)
      _ = quads := filterMap_some

end Dkg
