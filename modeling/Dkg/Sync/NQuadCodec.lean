import Dkg.Publisher.NQuadLines

/-! # The three readers of quads

`parseSimpleNQuads` reads what a publisher gossips, and `parseNQuads` what a peer answers to a sync
request; the verification worker and the agent have a `parseNQuads` each. Their scanner goes along a
text by position. It finds the terms that the reader by suffixes finds (`splitNQuadLine_eq_suffix`),
so that all three readers agree on every text, and what the serializers write is read back
(`nquads_codec`).
-/

namespace Dkg

open List Option

namespace Scanner

/-! ## Scanning by position -/

/-- `while (i < text.length && p(text[i])) i++`. -/
def advance (p : Char → Bool) (text : List Char) (i : ℕ) : ℕ :=
  i + ((text.drop i).takeWhile p).length

/-- `text.indexOf(c, i)`. -/
def indexOf (c : Char) (text : List Char) (i : ℕ) : Option ℕ :=
  ((text.drop i).findIdx? (· = c)).map (i + ·)

def slice (text : List Char) (i j : ℕ) : Term := (text.take j).drop i

/-- The end of the language tag or of the datatype at `j`. -/
def suffixEnd (text : List Char) (j : ℕ) : ℕ :=
  if text[j]? = some '@' then advance (· ≠ ' ') text j
  else if text[j]? = some '^' ∧ text[j + 1]? = some '^' then
    if text[j + 2]? = some '<' then
      match indexOf '>' text (j + 2) with
      | some e => e + 1
      | none => j + 2
    else j + 2
  else j

/-- The end of the literal that goes on at `j`; every round takes at least one character. -/
def literalEnd (text : List Char) : ℕ → ℕ → ℕ
  | 0, j => j
  | n + 1, j =>
    match text[j]? with
    | none => j
    | some c =>
      if c = '\\' then literalEnd text n (j + 2)
      else if c = '\x22' then suffixEnd text (j + 1)
      else literalEnd text n (j + 1)

/-- `splitNQuadLine` from position `i`. -/
def splitNQuadLine (text : List Char) : ℕ → ℕ → List Term
  | 0, _ => []
  | n + 1, i =>
    let i := advance (· = ' ') text i
    match text[i]? with
    | none => []
    | some c =>
      if c = '<' then
        match indexOf '>' text i with
        | none => []
        | some e => slice text i (e + 1) :: splitNQuadLine text n (e + 1)
      else if c = '\x22' then
        let j := literalEnd text text.length (i + 1)
        slice text i j :: splitNQuadLine text n j
      else if c = '_' then
        let j := advance (· ≠ ' ') text i
        slice text i j :: splitNQuadLine text n j
      else []

/-! ### Positions and suffixes -/

variable {text : List Char} {i j n : ℕ}

lemma slice_self (text : List Char) (i : ℕ) : slice text i i = [] := by
  rw [slice, drop_eq_nil_iff, length_take]
  omega

variable {taken rest : List Char}

/-- What lies between a position and the end of a prefix of the rest. -/
lemma slice_of_append (h : text.drop i = taken ++ rest) :
    slice text i (i + taken.length) = taken := by
  rw [slice, drop_take, Nat.add_sub_cancel_left, h, take_left]

lemma drop_of_append (h : text.drop i = taken ++ rest) : text.drop (i + taken.length) = rest := by
  rw [← drop_drop, h, drop_left]

lemma drop_advance (p : Char → Bool) (text : List Char) (i : ℕ) :
    text.drop (advance p text i) = (text.drop i).dropWhile p :=
  drop_of_append (takeWhile_append_dropWhile).symm

lemma indexOf_spec (c : Char) (text : List Char) (i : ℕ) :
    match cutThrough c (text.drop i) with
    | some (taken, rest) => text.drop i = taken ++ rest ∧
        indexOf c text i = some (i + taken.length - 1) ∧
        0 < taken.length
    | none => indexOf c text i = none := by
  have hcut : ∀ s : List Char, match cutThrough c s with
      | some (taken, rest) => s = taken ++ rest ∧ s.findIdx? (· = c) = some (taken.length - 1) ∧
          0 < taken.length
      | none => s.findIdx? (· = c) = none := by
    intro s
    induction s with
    | nil => rfl
    | cons d s ih =>
      rw [cutThrough, findIdx?_cons]
      by_cases hd : d = c
      · simp [hd]
      · cases hs : cutThrough c s with
        | none =>
          rw [hs] at ih
          simp [hd, ih]
        | some p =>
          rw [hs] at ih
          obtain ⟨heq, hidx, hpos⟩ := ih
          simp only [hd, decide_false, hidx, if_false, map_some, length_cons,
            cons_append, ← heq, true_and, Bool.false_eq_true]
          exact ⟨by congr 1; omega, by omega⟩
  have h := hcut (text.drop i)
  unfold indexOf
  cases hs : cutThrough c (text.drop i) with
  | none =>
    rw [hs] at h
    simp [h]
  | some p =>
    rw [hs] at h
    obtain ⟨heq, hidx, hpos⟩ := h
    refine ⟨heq, ?_, hpos⟩
    rw [hidx, map_some]
    congr 1
    omega

/-! ### Terms -/

/-- `j` is the end of the characters that were taken from position `i` on. -/
structure EndsAt (text : List Char) (i : ℕ) (taken rest : List Char) (j : ℕ) : Prop where
  taken_eq : slice text i j = taken
  drop_eq : text.drop j = rest

lemma endsAt_of_append (h : text.drop i = taken ++ rest) :
    EndsAt text i taken rest (i + taken.length) := ⟨slice_of_append h, drop_of_append h⟩

lemma endsAt_advance (p : Char → Bool) (text : List Char) (i : ℕ) :
    EndsAt text i ((text.drop i).takeWhile p) ((text.drop i).dropWhile p) (advance p text i) :=
  endsAt_of_append (takeWhile_append_dropWhile).symm

/-- Characters that are taken one part after the other. -/
lemma EndsAt.append {first second : List Char} {j k : ℕ} (hj : text.drop i = first ++ text.drop j)
    (hij : j = i + first.length) (h : EndsAt text j second rest k) (hjk : j ≤ k) :
    EndsAt text i (first ++ second) rest k := by
  refine ⟨?_, h.drop_eq⟩
  have hsecond : (text.drop j).take (k - j) = second := by
    rw [← drop_take]
    exact h.taken_eq
  calc slice text i k = (text.drop i).take (k - i) := by rw [slice, drop_take]
    _ = (first ++ text.drop j).take (first.length + (k - j)) := by
        rw [hj]
        congr 1
        omega
    _ = first ++ second := by rw [take_length_add_append, hsecond]

lemma le_suffixEnd (text : List Char) (j : ℕ) : j ≤ suffixEnd text j := by
  unfold suffixEnd advance indexOf
  split
  · omega
  · split
    · split
      · split
        next h =>
          obtain ⟨k, _, rfl⟩ := map_eq_some_iff.mp h
          omega
        next => omega
      · omega
    · omega

lemma getElem?_of_drop {s : List Char} (h : text.drop j = s) (k : ℕ) : text[j + k]? = s[k]? := by
  rw [← h, getElem?_drop]

lemma suffixEnd_spec (text : List Char) (j : ℕ) :
    EndsAt text j (literalSuffix (text.drop j)).1 (literalSuffix (text.drop j)).2
      (suffixEnd text j) := by
  generalize hs : text.drop j = s
  have hnone : EndsAt text j [] s j := ⟨slice_self text j, hs⟩
  have hzero : text[j]? = s[0]? := getElem?_of_drop hs 0
  rw [suffixEnd, hzero, getElem?_of_drop hs 1, getElem?_of_drop hs 2]
  unfold literalSuffix
  split
  next rest =>
    -- a language tag
    have hadvance := endsAt_advance (· ≠ ' ') text j
    rw [hs] at hadvance
    exact hadvance
  next rest =>
    -- a datatype in angle brackets, if it is closed
    have hdrop : text.drop (j + 2) = '<' :: rest := by
      rw [← drop_drop, hs]
      rfl
    have hpair : text.drop j = ['^', '^'] ++ '<' :: rest := hs
    have hfirst := endsAt_of_append hpair
    have hindex := indexOf_spec '>' text (j + 2)
    rw [hdrop, cutThrough, if_neg (by decide)] at hindex
    rw [if_neg (by simp), if_pos (by simp), if_pos (by simp)]
    cases hcut : cutThrough '>' rest with
    | none =>
      rw [hcut] at hindex
      simp only [map_none] at hindex
      rw [hindex]
      exact hfirst
    | some p =>
      rw [hcut] at hindex
      simp only [map_some] at hindex
      obtain ⟨heq, hidx, hpos⟩ := hindex
      rw [hidx]
      have hwhole : text.drop j = ('^' :: '^' :: '<' :: p.1) ++ p.2 := by
        rw [hs, heq]
        rfl
      have hends := endsAt_of_append hwhole
      have hlength : j + ('^' :: '^' :: '<' :: p.1).length =
          j + 2 + ('<' :: p.1).length - 1 + 1 := by
        simp only [length_cons]
        omega
      rw [hlength] at hends
      exact hends
  next rest hno =>
    -- two circumflexes
    have hpair : text.drop j = ['^', '^'] ++ rest := hs
    have hfirst := endsAt_of_append hpair
    have hangle : ¬ ('^' :: '^' :: rest)[2]? = some '<' := by
      intro h
      cases rest with
      | nil => cases h
      | cons c rest =>
        cases h
        exact hno rest rfl
    rw [if_neg (by simp), if_pos (by simp), if_neg hangle]
    exact hfirst
  next hlanguage _ hdatatype =>
    have hat : ¬ s[0]? = some '@' := by
      intro h
      cases s with
      | nil => cases h
      | cons c s =>
        cases h
        exact hlanguage s rfl
    have hcircumflex : ¬ (s[0]? = some '^' ∧ s[1]? = some '^') := by
      rintro ⟨h, h'⟩
      cases s with
      | nil => cases h
      | cons c s =>
        cases s with
        | nil => cases h'
        | cons d s =>
          cases h
          cases h'
          exact hdatatype s rfl
    rw [if_neg hat, if_neg hcircumflex]
    exact hnone

lemma le_literalEnd (text : List Char) (n j : ℕ) : j ≤ literalEnd text n j := by
  induction n generalizing j with
  | zero => exact le_rfl
  | succ n ih =>
    unfold literalEnd
    split
    · exact le_rfl
    · split
      · exact (Nat.le_add_right j 2).trans (ih (j + 2))
      · split
        · exact (Nat.le_succ j).trans (le_suffixEnd text (j + 1))
        · exact (Nat.le_succ j).trans (ih (j + 1))

/-- **A literal** ends where the reader by suffixes says. -/
lemma literalEnd_spec (text : List Char) (n j : ℕ) (hn : text.length ≤ j + n) :
    EndsAt text j (readLiteral (text.drop j)).1 (readLiteral (text.drop j)).2
      (literalEnd text n j) := by
  induction n generalizing j with
  | zero =>
    have hnil : text.drop j = [] := drop_eq_nil_of_le hn
    rw [hnil]
    exact ⟨slice_self text j, hnil⟩
  | succ n ih =>
    generalize hs : text.drop j = s
    have hzero : text[j]? = s[0]? := getElem?_of_drop hs 0
    cases s with
    | nil =>
      have hend : literalEnd text (n + 1) j = j := by
        rw [literalEnd, hzero]
        rfl
      rw [hend]
      exact ⟨slice_self text j, hs⟩
    | cons c s =>
      have hfront : text.drop j = [c] ++ s := hs
      have hnext : text.drop (j + 1) = s := drop_of_append hfront
      have hone : text.drop j = [c] ++ text.drop (j + 1) := by rw [hfront, hnext]
      have hend : literalEnd text (n + 1) j =
          if c = '\\' then literalEnd text n (j + 2)
          else if c = '\x22' then suffixEnd text (j + 1)
          else literalEnd text n (j + 1) := by
        rw [literalEnd, hzero]
        rfl
      rw [hend]
      by_cases hbackslash : c = '\\'
      · -- the next character is hidden, if there is one
        rw [if_pos hbackslash]
        subst hbackslash
        cases s with
        | nil =>
          have hlength : text.length ≤ j + 1 := by
            rwa [drop_eq_nil_iff] at hnext
          have hnil : text.drop (j + 2) = [] := drop_eq_nil_of_le (by omega)
          have hrest := ih (j + 2) (by omega)
          rw [hnil] at hrest
          refine ⟨?_, hrest.drop_eq⟩
          show slice text j (literalEnd text n (j + 2)) = ['\\']
          have hle := le_literalEnd text n (j + 2)
          rw [slice, take_of_length_le (by omega), hs]
        | cons d s =>
          have hpair : text.drop j = ['\\', d] ++ s := hs
          have htwo : text.drop (j + 2) = s := drop_of_append hpair
          have hboth : text.drop j = ['\\', d] ++ text.drop (j + 2) := by rw [hpair, htwo]
          have hrest := ih (j + 2) (by omega)
          rw [htwo] at hrest
          exact EndsAt.append hboth rfl hrest (le_literalEnd text n (j + 2))
      · rw [if_neg hbackslash]
        by_cases hquote : c = '\x22'
        · rw [if_pos hquote]
          subst hquote
          have hrest := suffixEnd_spec text (j + 1)
          rw [hnext] at hrest
          exact EndsAt.append hone rfl hrest (le_suffixEnd text (j + 1))
        · rw [if_neg hquote]
          have hrest := ih (j + 1) (by omega)
          rw [hnext] at hrest
          have hread : readLiteral (c :: s) = (c :: (readLiteral s).1, (readLiteral s).2) := by
            rw [readLiteral]
            · intro d t hc
              exact absurd hc hbackslash
            · exact hquote
          rw [hread]
          exact EndsAt.append hone rfl hrest (le_literalEnd text n (j + 1))

/-- **The scanner by position** finds the terms that the reader by suffixes finds. -/
lemma splitNQuadLine_eq_suffix (text : List Char) (n i : ℕ) :
    splitNQuadLine text n i = Dkg.splitNQuadLine n (text.drop i) := by
  induction n generalizing i with
  | zero => rfl
  | succ n ih =>
    have hstart : text.drop (advance (· = ' ') text i) = (text.drop i).dropWhile (· = ' ') :=
      drop_advance (· = ' ') text i
    generalize hk : advance (· = ' ') text i = k at hstart
    rw [splitNQuadLine, Dkg.splitNQuadLine, hk, ← hstart]
    have hzero : text[k]? = (text.drop k)[0]? := getElem?_of_drop rfl 0
    simp only [hzero]
    cases hs : text.drop k with
    | nil => rfl
    | cons c s =>
      have hfront : text.drop k = [c] ++ s := hs
      have hnext : text.drop (k + 1) = s := drop_of_append hfront
      show (if c = '<' then _ else if c = '\x22' then _ else if c = '_' then _ else _) = _
      by_cases hangle : c = '<'
      · -- an IRI
        subst hangle
        have hindex := indexOf_spec '>' text k
        rw [hs, cutThrough, if_neg (by decide)] at hindex
        rw [if_pos rfl]
        cases hcut : cutThrough '>' s with
        | none =>
          rw [hcut] at hindex
          simp only [map_none] at hindex
          simp only [hindex, hcut]
        | some p =>
          rw [hcut] at hindex
          simp only [map_some] at hindex
          obtain ⟨heq, hidx, _⟩ := hindex
          have hends := endsAt_of_append (hs.trans heq)
          have hlength : k + ('<' :: p.1).length = k + ('<' :: p.1).length - 1 + 1 := by
            simp only [length_cons]
            omega
          rw [hlength] at hends
          simp only [hidx, hends.taken_eq, ih, hends.drop_eq, hcut]
      · rw [if_neg hangle]
        by_cases hquote : c = '\x22'
        · -- a literal
          subst hquote
          rw [if_pos rfl]
          have hread := literalEnd_spec text text.length (k + 1) (by omega)
          rw [hnext] at hread
          have hone : text.drop k = ['\x22'] ++ text.drop (k + 1) := by rw [hfront, hnext]
          have hends := EndsAt.append hone rfl hread (le_literalEnd text _ (k + 1))
          simp only [hends.taken_eq, ih, hends.drop_eq]
          rfl
        · rw [if_neg hquote]
          by_cases hblank : c = '_'
          · -- a blank node
            subst hblank
            rw [if_pos rfl]
            have hends := endsAt_advance (· ≠ ' ') text k
            rw [hs] at hends
            simp only [hends.taken_eq, ih, hends.drop_eq]
            rfl
          · rw [if_neg hblank]
            split
            next heq => exact absurd (List.cons.inj heq).1 hangle
            next heq => exact absurd (List.cons.inj heq).1 hquote
            next heq => exact absurd (List.cons.inj heq).1 hblank
            next => rfl

end Scanner

/-! ## The parsers -/

namespace SyncVerifyWorker

def strip (value : Term) : Term :=
  if ['<'] <+: value ∧ ['>'] <:+ value then (value.drop 1).dropLast else value

/-- A line of the text, after the quads of the lines before it. -/
def parseNQuadLine (quads : List Quad) (text : List Char) : List Quad :=
  let trimmed := trim text
  if trimmed = [] ∨ ['#'] <+: trimmed then quads
  else
    let body := if " .".toList <:+ trimmed then trim (trimmed.dropLast.dropLast) else trimmed
    let parts := Scanner.splitNQuadLine body (body.length + 1) 0
    if parts.length < 3 then quads
    else quads ++ [{
      subject := strip (parts.getD 0 [])
      predicate := strip (parts.getD 1 [])
      object := if ['\x22'] <+: parts.getD 2 [] then parts.getD 2 [] else strip (parts.getD 2 [])
      graph := if parts.getD 3 [] ≠ [] then strip (parts.getD 3 []) else [] }]

def parseNQuads (text : List Char) : List Quad := (text.splitOn '\n').foldl parseNQuadLine []

end SyncVerifyWorker

namespace AgentUtils

def strip (s : Term) : Term :=
  if ['<'] <+: s ∧ ['>'] <:+ s then (s.drop 1).dropLast else s

/-- A line of the text, after the quads of the lines before it. -/
def parseNQuadLine (quads : List Quad) (text : List Char) : List Quad :=
  let trimmed := trim text
  if trimmed = [] ∨ ['#'] <+: trimmed then quads
  else
    let body := if " .".toList <:+ trimmed then trim (trimmed.dropLast.dropLast) else trimmed
    let parts := Scanner.splitNQuadLine body (body.length + 1) 0
    if 3 ≤ parts.length then
      quads ++ [{
        subject := strip (parts.getD 0 [])
        predicate := strip (parts.getD 1 [])
        object := if ['\x22'] <+: parts.getD 2 [] then parts.getD 2 [] else strip (parts.getD 2 [])
        graph := if parts.getD 3 [] ≠ [] then strip (parts.getD 3 []) else [] }]
    else quads

def parseNQuads (text : List Char) : List Quad := (text.splitOn '\n').foldl parseNQuadLine []

end AgentUtils

/-- The worker reads a line as the publish handler does. -/
lemma SyncVerifyWorker.parseNQuadLine_eq (quads : List Quad) (text : List Char) :
    SyncVerifyWorker.parseNQuadLine quads text = quads ++ (parseLine text).toList := by
  unfold SyncVerifyWorker.parseNQuadLine parseLine
  simp only
  split
  · simp
  · simp only [Scanner.splitNQuadLine_eq_suffix, drop_zero]
    generalize Dkg.splitNQuadLine _ _ = parts
    -- fewer than three terms, or a graph after them or none
    rcases parts with _ | ⟨s, _ | ⟨p, _ | ⟨o, _ | ⟨g, rest⟩⟩⟩⟩
    · simp
    · simp
    · simp
    · simp [SyncVerifyWorker.strip, stripAngleBrackets]
    · by_cases hg : g = []
      · simp [SyncVerifyWorker.strip, stripAngleBrackets, hg]
      · simp [SyncVerifyWorker.strip, stripAngleBrackets, hg]

lemma AgentUtils.parseNQuadLine_eq (quads : List Quad) (text : List Char) :
    AgentUtils.parseNQuadLine quads text = SyncVerifyWorker.parseNQuadLine quads text := by
  unfold AgentUtils.parseNQuadLine SyncVerifyWorker.parseNQuadLine
  simp only [← not_lt, ite_not]
  rfl

lemma foldl_lines (texts : List (List Char)) (quads : List Quad) :
    texts.foldl SyncVerifyWorker.parseNQuadLine quads = quads ++ texts.filterMap parseLine := by
  induction texts generalizing quads with
  | nil => simp
  | cons text texts ih =>
    rw [foldl_cons, ih, SyncVerifyWorker.parseNQuadLine_eq, append_assoc]
    cases h : parseLine text with
    | none => simp [h]
    | some q => simp [h]

lemma SyncVerifyWorker.parseNQuads_eq (text : List Char) :
    SyncVerifyWorker.parseNQuads text = parseSimpleNQuads text := foldl_lines _ []

lemma AgentUtils.parseNQuads_eq (text : List Char) :
    AgentUtils.parseNQuads text = parseSimpleNQuads text := by
  have hline : AgentUtils.parseNQuadLine = SyncVerifyWorker.parseNQuadLine := by
    funext quads line
    exact AgentUtils.parseNQuadLine_eq quads line
  rw [AgentUtils.parseNQuads, hline]
  exact foldl_lines _ []

/-! ## The serializers -/

/-- `nquadsStr` of a share, whose quads get the data graph. -/
def shareNQuads (dataGraphUri : Term) (kaQuads : List Quad) : Term :=
  writeLines (kaQuads.map fun q => { q with graph := dataGraphUri })

/-- `nquadsStr` of a publish. -/
def publishNQuads (allSkolemizedQuads : List Quad) : Term := writeLines allSkolemizedQuads

/-- The answer to a sync request, from the rows of the query with their graphs. -/
def responderNQuads (rows : List Quad) : Term := writeLines rows

def writeTriple (q : Quad) : Term :=
  '<' :: (q.subject ++ '>' :: ' ' :: '<' :: (q.predicate ++ '>' :: ' ' ::
    (writeObject q.object ++ [' ', '.'])))

/-- `ntriples` of the message that a publish gossips, without graphs. -/
def broadcastNTriples (publicQuads : List Quad) : Term :=
  ['\n'].intercalate (publicQuads.map writeTriple)

/-! ### Well-formed quads -/

/-- An IRI: it is no literal, and it has no angle brackets and no line breaks. -/
def IsIriText (iri : Term) : Prop :=
  ¬ IsLiteral iri ∧ ∀ c ∈ iri, c ∉ ['<', '>', '\n', '\r']

/-- A blank node with a legal label. -/
def IsBlankText (node : Term) : Prop :=
  IsBlankNode node ∧ ∀ c ∈ node, isWhiteSpace c = false ∧ c ∉ ['<', '>', '\x22']

/-- The characters between the quotation marks: escapes, and no raw line breaks. -/
inductive LiteralText : List Char → Prop
  | nil : LiteralText []
  | char {c : Char} {rest : List Char} : c ∉ ['\x22', '\\', '\n', '\r'] → LiteralText rest →
      LiteralText (c :: rest)
  | escape {c : Char} {rest : List Char} :
      c ∈ ['t', 'b', 'n', 'r', 'f', '\x22', '\x27', '\\', 'u', 'U'] → LiteralText rest →
        LiteralText ('\\' :: c :: rest)

/-- What can follow the closing quote of a literal. -/
inductive LiteralSuffix : List Char → Prop
  | none : LiteralSuffix []
  | language {tag : List Char} : (∀ c ∈ tag, c.isAlphanum ∨ c = '-') → LiteralSuffix ('@' :: tag)
  | datatype {iri : List Char} : IsIriText iri →
      LiteralSuffix ('^' :: '^' :: '<' :: (iri ++ ['>']))

/-- The text of an object. -/
inductive ObjectText : Term → Prop
  | iri {object : Term} : IsIriText object → ObjectText object
  | blank {object : Term} : IsBlankText object → ObjectText object
  | literal {value suffix : List Char} : LiteralText value → LiteralSuffix suffix →
      ObjectText ('\x22' :: (value ++ '\x22' :: suffix))

/-- A quad of IRIs, blank nodes and, as its object, literals. -/
structure Quad.WellFormed (q : Quad) : Prop where
  subject : IsIriText q.subject ∨ IsBlankText q.subject
  predicate : IsIriText q.predicate
  object : ObjectText q.object
  graph : IsIriText q.graph ∨ IsBlankText q.graph

variable {value suffix term object : List Char} {q : Quad}

lemma IsIriText.plain (h : IsIriText term) : IsPlainTerm term := by
  constructor
  · intro hmem
    exact h.2 _ hmem (by decide)
  · intro hmem
    exact h.2 _ hmem (by decide)

lemma IsBlankText.plain (h : IsBlankText term) : IsPlainTerm term := by
  constructor
  · intro hmem
    exact (h.2 _ hmem).2 (by decide)
  · intro hmem
    exact absurd (h.2 _ hmem).1 (by decide)

lemma IsBlankText.not_literal (h : IsBlankText term) : ¬ IsLiteral term := by
  rintro ⟨rest, rfl⟩
  exact (h.2 '\x22' mem_cons_self).2 (by decide)

lemma plain_of_node (h : IsIriText term ∨ IsBlankText term) : IsPlainTerm term := by
  rcases h with h | h
  · exact h.plain
  · exact h.plain

lemma LiteralText.escaped (h : LiteralText value) : Escaped value := by
  induction h with
  | nil => exact .nil
  | char hc _ ih =>
    refine .char (fun heq => hc ?_) (fun heq => hc ?_) ih
    · rw [heq]
      decide
    · rw [heq]
      decide
  | escape _ _ ih => exact .escape ih

lemma LiteralText.no_break (h : LiteralText value) : '\n' ∉ value := by
  induction h with
  | nil => exact not_mem_nil
  | char hc _ ih =>
    rw [mem_cons, not_or]
    refine ⟨fun heq => hc ?_, ih⟩
    rw [← heq]
    decide
  | escape hc _ ih =>
    rw [mem_cons, mem_cons, not_or, not_or]
    refine ⟨by decide, fun heq => ?_, ih⟩
    rw [← heq] at hc
    exact absurd hc (by decide)

lemma LiteralSuffix.isSuffix (h : LiteralSuffix suffix) : IsSuffix suffix := by
  cases h with
  | none => exact .none
  | language htag =>
    refine .language fun hmem => ?_
    exact absurd (htag ' ' hmem) (by decide)
  | datatype hiri => exact .datatype hiri.plain.1

lemma LiteralSuffix.no_break (h : LiteralSuffix suffix) : '\n' ∉ suffix := by
  cases h with
  | none => exact not_mem_nil
  | language htag =>
    rw [mem_cons, not_or]
    refine ⟨by decide, fun hmem => ?_⟩
    exact absurd (htag '\n' hmem) (by decide)
  | datatype hiri =>
    have hbreak := hiri.plain.2
    simp [hbreak]

lemma ObjectText.readable (h : ObjectText object) : ReadableObject object ∧ '\n' ∉ object := by
  cases h with
  | iri hiri => exact ⟨.uri hiri.1 hiri.plain.1, hiri.plain.2⟩
  | blank hblank => exact ⟨.uri hblank.not_literal hblank.plain.1, hblank.plain.2⟩
  | literal hvalue hsuffix =>
    refine ⟨.literal hvalue.escaped hsuffix.isSuffix, ?_⟩
    simp [hvalue.no_break, hsuffix.no_break]

lemma Quad.WellFormed.readable (h : q.WellFormed) : Readable q :=
  readable_of_plain (plain_of_node h.subject) h.predicate.plain h.object.readable.1
    h.object.readable.2 (plain_of_node h.graph)

/-! ### Triples -/

lemma not_whiteSpace_of_tag {c : Char} (h : c.isAlphanum ∨ c = '-') : isWhiteSpace c = false := by
  have hrange : 0x2D ≤ c.toNat ∧ c.toNat ≤ 0x7A := by
    rcases h with h | rfl
    · unfold Char.isAlphanum Char.isAlpha Char.isUpper Char.isLower Char.isDigit at h
      simp only [Bool.or_eq_true, Bool.and_eq_true, decide_eq_true_eq, ge_iff_le,
        UInt32.le_iff_toNat_le] at h
      simp only [Char.toNat]
      have hA : 'A'.val.toNat = 65 := rfl
      have hZ : 'Z'.val.toNat = 90 := rfl
      have ha : 'a'.val.toNat = 97 := rfl
      have hz : 'z'.val.toNat = 122 := rfl
      have h0 : '0'.val.toNat = 48 := rfl
      have h9 : '9'.val.toNat = 57 := rfl
      omega
    · decide
  simp only [isWhiteSpace, mem_cons, not_mem_nil, or_false, Bool.or_eq_false_iff,
    decide_eq_false_iff_not, Bool.and_eq_false_iff]
  omega

lemma getLast_writeObject (h : ObjectText object) :
    ∀ c ∈ (writeObject object).getLast?, isWhiteSpace c = false := by
  have hangle : ∀ t : Term, ¬ IsLiteral t → ∀ c ∈ (writeObject t).getLast?,
      isWhiteSpace c = false := by
    intro t ht c hc
    have hwrite : writeObject t = ('<' :: t) ++ ['>'] := if_neg ht
    rw [hwrite, getLast?_concat] at hc
    cases hc
    decide
  cases h with
  | iri hiri => exact hangle object hiri.1
  | blank hblank => exact hangle object hblank.not_literal
  | @literal value suffix hvalue hsuffix =>
    intro c hc
    have hwrite : writeObject ('\x22' :: (value ++ '\x22' :: suffix)) =
        ('\x22' :: value) ++ '\x22' :: suffix := if_pos ⟨_, rfl⟩
    rw [hwrite, getLast?_append_of_ne_nil _ (cons_ne_nil _ _)] at hc
    cases hsuffix with
    | none =>
      cases hc
      decide
    | @language tag htag =>
      rcases mem_cons.mp (mem_of_mem_getLast? hc) with rfl | hmem
      · decide
      · rcases mem_cons.mp hmem with rfl | hmem
        · decide
        · exact not_whiteSpace_of_tag (htag c hmem)
    | @datatype iri hiri =>
      have hend : '\x22' :: '^' :: '^' :: '<' :: (iri ++ ['>']) =
          ('\x22' :: '^' :: '^' :: '<' :: iri) ++ ['>'] := rfl
      rw [hend, getLast?_concat] at hc
      cases hc
      decide

/-- A triple without the dot at its end. -/
def tripleBody (q : Quad) : Term :=
  '<' :: (q.subject ++ '>' :: ' ' :: '<' :: (q.predicate ++ '>' :: ' ' :: writeObject q.object))

lemma writeTriple_eq (q : Quad) : writeTriple q = tripleBody q ++ " .".toList := by
  simp [writeTriple, tripleBody]

lemma writeObject_ne_nil (object : Term) : writeObject object ≠ [] := by
  unfold writeObject
  split
  next h =>
    obtain ⟨rest, rfl⟩ := h
    exact cons_ne_nil _ _
  next => exact cons_ne_nil _ _

lemma trim_tripleBody (h : ObjectText q.object) : trim (tripleBody q) = tripleBody q := by
  apply trim_eq_self
  · intro c hc
    cases hc
    decide
  · intro c hc
    have hend : tripleBody q = ('<' :: (q.subject ++ '>' :: ' ' :: '<' :: (q.predicate ++
        ['>', ' ']))) ++ writeObject q.object := by
      simp [tripleBody]
    rw [hend, getLast?_append_of_ne_nil _ (writeObject_ne_nil q.object)] at hc
    exact getLast_writeObject h c hc

lemma trim_writeTriple (q : Quad) : trim (writeTriple q) = writeTriple q := by
  apply trim_eq_self
  · intro c hc
    cases hc
    decide
  · intro c hc
    rw [writeTriple_eq, show " .".toList = [' '] ++ ['.'] from rfl, ← append_assoc,
      getLast?_concat] at hc
    cases hc
    decide

lemma splitNQuadLine_tripleBody (h : Readable q) (n : ℕ) :
    splitNQuadLine (n + 3) (tripleBody q) = ['<' :: (q.subject ++ ['>']),
      '<' :: (q.predicate ++ ['>']), writeObject q.object] ++ splitNQuadLine n [] := by
  have hsubject := splitNQuadLine_uri (n + 2)
    (' ' :: '<' :: (q.predicate ++ '>' :: ' ' :: writeObject q.object)) h.subject [] (by simp)
  have hpredicate := splitNQuadLine_uri (n + 1) (' ' :: writeObject q.object) h.predicate [' ']
    (by simp)
  have hnil : ∀ c ∈ ([] : List Char).head?, c = ' ' := by simp
  have hobject := splitNQuadLine_object n h.object hnil
  rw [nil_append] at hsubject
  rw [singleton_append] at hpredicate
  rw [append_nil] at hobject
  rw [tripleBody, hsubject, hpredicate, hobject]
  rfl

/-- A triple is read back, without its graph. -/
lemma parseLine_writeTriple (h : q.WellFormed) :
    parseLine (writeTriple q) = some { q with graph := [] } := by
  have hstart : ¬ (writeTriple q = [] ∨ ['#'] <+: writeTriple q) := by
    rintro (hnil | ⟨_, hhash⟩)
    · cases hnil
    · cases hhash
  have hend : " .".toList <:+ writeTriple q := ⟨tripleBody q, (writeTriple_eq q).symm⟩
  have hbody : (writeTriple q).dropLast.dropLast = tripleBody q := by
    rw [writeTriple_eq, show tripleBody q ++ " .".toList = tripleBody q ++ [' '] ++ ['.'] by simp,
      dropLast_concat, dropLast_concat]
  have hlength : ∃ n, (tripleBody q).length + 1 = n + 3 := by
    refine ⟨(tripleBody q).length - 2, ?_⟩
    have : 2 ≤ (tripleBody q).length := by
      simp only [tripleBody, length_cons, length_append]
      omega
    omega
  have hnil : ∀ n, splitNQuadLine n [] = [] := by
    intro n
    cases n with
    | zero => rfl
    | succ n => rfl
  obtain ⟨n, hn⟩ := hlength
  unfold parseLine
  simp only [trim_writeTriple, if_neg hstart, if_pos hend, hbody, trim_tripleBody h.object, hn,
    splitNQuadLine_tripleBody h.readable, hnil]
  simp only [cons_append, nil_append, stripAngleBrackets_uri, readObject h.readable.object,
    head?_nil, map_none, getD_none]

lemma no_break_writeTriple (h : q.WellFormed) : '\n' ∉ writeTriple q := by
  have hline := h.readable.line
  simp only [writeLine, writeTriple, mem_cons, mem_append, not_or, not_mem_nil] at *
  tauto

/-- Triples are read back, without their graphs. -/
lemma parseSimpleNQuads_broadcast {quads : List Quad} (h : ∀ q ∈ quads, q.WellFormed) :
    parseSimpleNQuads (broadcastNTriples quads) = quads.map fun q => { q with graph := [] } := by
  by_cases hnil : quads = []
  · subst hnil
    rfl
  · have hlines : ∀ l ∈ quads.map writeTriple, '\n' ∉ l := by
      intro l hl
      obtain ⟨q, hq, rfl⟩ := mem_map.mp hl
      exact no_break_writeTriple (h q hq)
    rw [parseSimpleNQuads, broadcastNTriples, splitOn_intercalate _ hlines (by simpa using hnil),
      filterMap_map]
    calc quads.filterMap (parseLine ∘ writeTriple)
        = quads.filterMap (fun q => some { q with graph := [] }) :=
          filterMap_congr fun q hq => parseLine_writeTriple (h q hq)
      _ = quads.map fun q => { q with graph := [] } := by rw [filterMap_eq_map']

/-! ## Round trip and agreement -/

/-- **The codec.** The three parsers agree on every text, and read back what a share, a publish or
an answer to a sync request has written, whatever its literals contain. Triples are read back
without their graphs. -/
theorem nquads_codec :
    (∀ text, SyncVerifyWorker.parseNQuads text = parseSimpleNQuads text ∧
      AgentUtils.parseNQuads text = parseSimpleNQuads text) ∧
    ∀ quads : List Quad, (∀ q ∈ quads, q.WellFormed) →
      parseSimpleNQuads (publishNQuads quads) = quads ∧
      parseSimpleNQuads (responderNQuads quads) = quads ∧
      (∀ dataGraphUri, (∀ q ∈ quads, q.graph = dataGraphUri) →
        parseSimpleNQuads (shareNQuads dataGraphUri quads) = quads) ∧
      parseSimpleNQuads (broadcastNTriples quads) = quads.map fun q => { q with graph := [] } := by
  refine ⟨fun text => ⟨SyncVerifyWorker.parseNQuads_eq text, AgentUtils.parseNQuads_eq text⟩,
    fun quads h => ?_⟩
  have hlines : parseSimpleNQuads (writeLines quads) = quads :=
    parseSimpleNQuads_writeLines fun q hq => (h q hq).readable
  refine ⟨hlines, hlines, fun dataGraphUri hgraph => ?_, parseSimpleNQuads_broadcast h⟩
  have hsame : quads.map (fun q => { q with graph := dataGraphUri }) = quads := by
    calc quads.map (fun q => { q with graph := dataGraphUri }) = quads.map id :=
          map_congr_left fun q hq => by rw [← hgraph q hq]; rfl
      _ = quads := map_id quads
  rw [shareNQuads, hsame]
  exact hlines

/-- A quad of a blank node whose literal has an escaped quotation mark, a space and a dot. -/
def escapedQuad : Quad where
  subject := ['_', ':', 'b']
  predicate := ['p']
  object := '\x22' :: (['a', '\\', '\x22', ' ', '.'] ++ '\x22' :: '@' :: ['e', 'n'])
  graph := ['g']

lemma escapedQuad_tag : ∀ c ∈ ['e', 'n'], c.isAlphanum ∨ c = '-' := by
  intro c hc
  rw [mem_cons, mem_singleton] at hc
  rcases hc with rfl | rfl
  · exact .inl rfl
  · exact .inl rfl

lemma escapedQuad_wellFormed : escapedQuad.WellFormed where
  subject := .inr ⟨⟨['b'], rfl⟩, by simp [escapedQuad, isWhiteSpace]⟩
  predicate := ⟨by simp [escapedQuad, IsLiteral], by simp [escapedQuad]⟩
  object := .literal
    (.char (by simp) (.escape (by simp) (.char (by simp) (.char (by simp) .nil))))
    (.language escapedQuad_tag)
  graph := .inl ⟨by simp [escapedQuad, IsLiteral], by simp [escapedQuad]⟩

/-- A quad whose text needs escapes. -/
theorem nquads_codec_escaped : parseSimpleNQuads (publishNQuads [escapedQuad]) = [escapedQuad] := by
  refine (nquads_codec.2 [escapedQuad] fun q hq => ?_).1
  rw [mem_singleton.mp hq]
  exact escapedQuad_wellFormed

end Dkg
