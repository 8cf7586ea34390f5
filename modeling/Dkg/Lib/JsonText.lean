import Dkg.Lib.Json
import Mathlib.Data.List.TakeWhile

/-! # Reading JSON

`Json.parse` reads a text with white space between its tokens; what a number stands for is a
parameter. The text of a value without numbers is read back (`parse_render`). A text that begins as
that of an object and breaks off is not read, with or without one more character after the break
(`parse_take_render`, `parse_take_render_append`).
-/

namespace Dkg.Lib.Json

open List

/-! ## Tokens -/

def IsJsonSpace (c : Char) : Prop := c ∈ [' ', '\t', '\n', '\r']
  deriving Decidable

def skip (cs : List Char) : List Char := cs.dropWhile fun c => decide (IsJsonSpace c)

def isExponent : List Char → Bool
  | [] => true
  | e :: cs =>
    let ds := match cs with
      | '+' :: ds => ds
      | '-' :: ds => ds
      | ds => ds
    decide (e = 'e' ∨ e = 'E') && !ds.isEmpty && ds.all Char.isDigit

def isFraction : List Char → Bool
  | '.' :: cs => !(cs.takeWhile Char.isDigit).isEmpty && isExponent (cs.dropWhile Char.isDigit)
  | cs => isExponent cs

def isNumber (cs : List Char) : Bool :=
  let cs := match cs with
    | '-' :: cs => cs
    | cs => cs
  match cs.takeWhile Char.isDigit with
  | [] => false
  | d :: ds => (decide (d ≠ '0') || ds.isEmpty) && isFraction (cs.dropWhile Char.isDigit)

/-- No token begins right after a number with one of these. -/
def isNumberChar (c : Char) : Bool := c.isDigit || decide (c ∈ ['.', 'e', 'E', '+', '-'])

/-! ## Values -/

variable {α : Type}

/-- What follows the opening bracket of a list that is not empty. -/
def readMore (close : Char) (item : List Char → Option (α × List Char)) :
    ℕ → List Char → Option (List α × List Char)
  | 0, _ => none
  | n + 1, cs =>
    match item cs with
    | none => none
    | some (a, rest) =>
      match skip rest with
      | [] => none
      | c :: rest =>
        if c = close then some ([a], rest)
        else if c = ',' then
          (readMore close item n rest).map fun r => (a :: r.1, r.2)
        else none

def readList (close : Char) (item : List Char → Option (α × List Char)) (cs : List Char) :
    Option (List α × List Char) :=
  if (skip cs).head? = some close then some ([], (skip cs).tail)
  else readMore close item cs.length cs

/-- A key and what it is the key of. -/
def readPair (value : List Char → Option (α × List Char)) (cs : List Char) :
    Option ((Utf16 × α) × List Char) :=
  match skip cs with
  | [] => none
  | c :: cs =>
    if c = '\x22' then
      match readString cs with
      | none => none
      | some (key, rest) =>
        match skip rest with
        | [] => none
        | c :: rest =>
          if c = ':' then (value rest).map fun r => ((key, r.1), r.2) else none
    else none

def words : List (List Char × Json) :=
  [("null".toList, .null), ("true".toList, .boolean true), ("false".toList, .boolean false)]

def readWord (cs : List Char) : Option (Json × List Char) :=
  words.findSome? fun word => if word.1 <+: cs then some (word.2, cs.drop word.1.length) else none

/-- A value with at most `depth - 1` brackets around its parts. -/
def readValue (numberOf : List Char → Json) : ℕ → List Char → Option (Json × List Char)
  | 0, _ => none
  | depth + 1, cs =>
    match skip cs with
    | [] => none
    | c :: cs =>
      if c = '\x22' then (readString cs).map fun r => (.string r.1, r.2)
      else if c = '\x7b' then
        (readList '\x7d' (readPair (readValue numberOf depth)) cs).map fun r =>
          (.object r.1, r.2)
      else if c = '[' then
        (readList ']' (readValue numberOf depth) cs).map fun r => (.array r.1, r.2)
      else if isNumberChar c then
        let digits := (c :: cs).takeWhile isNumberChar
        if isNumber digits then some (numberOf digits, (c :: cs).dropWhile isNumberChar)
        else none
      else readWord (c :: cs)

/-- `JSON.parse`, with the pairs of an object as they are written. -/
def parse (numberOf : List Char → Json) (text : List Char) : Option Json :=
  match readValue numberOf (text.length + 1) text with
  | none => none
  | some (v, rest) => if skip rest = [] then some v else none

/-! ## What is read is a start of the text -/

variable {cs rest more part : List Char} {c close : Char} {s units : Utf16} {v : Json} {n n' : ℕ}

lemma skip_cons (h : ¬ IsJsonSpace c) (cs : List Char) : skip (c :: cs) = c :: cs :=
  dropWhile_cons_of_neg (by simpa using h)

lemma skip_suffix (cs : List Char) : skip cs <:+ cs := dropWhile_suffix _

lemma skip_append (h : skip cs ≠ []) (more : List Char) : skip (cs ++ more) = skip cs ++ more := by
  induction cs with
  | nil => exact absurd rfl h
  | cons c cs ih =>
    by_cases hc : IsJsonSpace c
    · have hdrop : ∀ cs, skip (c :: cs) = skip cs := fun cs =>
        dropWhile_cons_of_pos (by simpa using hc)
      rw [hdrop] at h ⊢
      rw [cons_append, hdrop, ih h]
    · rw [skip_cons hc, cons_append, skip_cons hc]

lemma readString_cases (h : readString cs = some (s, rest)) :
    (cs = '\x22' :: rest ∧ s = []) ∨
    ∃ part units cs' s', StringPart part units ∧ cs = part ++ cs' ∧ s = units ++ s' ∧
      readString cs' = some (s', rest) := by
  have hmap : ∀ {part units cs'}, StringPart part units → cs = part ++ cs' →
      ∃ part units cs' s', StringPart part units ∧ cs = part ++ cs' ∧ s = units ++ s' ∧
        readString cs' = some (s', rest) := by
    intro part units cs' hpart heq
    rw [heq, readString_part hpart, Option.map_eq_some_iff] at h
    obtain ⟨r, hr, hpair⟩ := h
    cases hpair
    exact ⟨part, units, cs', r.1, hpart, heq, rfl, hr⟩
  cases cs with
  | nil => cases h
  | cons c cs =>
    rw [readString.eq_def] at h
    simp only at h
    split at h
    next hquote =>
      cases h
      exact .inl ⟨by rw [hquote], rfl⟩
    next hquote =>
      split at h
      next hbackslash =>
        subst hbackslash
        cases cs with
        | nil => cases h
        | cons e cs =>
          simp only at h
          split at h
          next hu =>
            subst hu
            rcases cs with _ | ⟨c₁, _ | ⟨c₂, _ | ⟨c₃, _ | ⟨c₄, cs⟩⟩⟩⟩
            iterate 4 cases h
            cases hunit : hexUnit c₁ c₂ c₃ c₄ with
            | none => simp [hunit] at h
            | some u => exact .inr (hmap (.unicode hunit) rfl)
          next hu =>
            cases hescape : letterEscape e with
            | none => simp [hescape] at h
            | some c => exact .inr (hmap (.letter hu hescape) rfl)
      next hbackslash =>
        split at h
        next => cases h
        next hsmall => exact .inr (hmap (.plain hquote hbackslash hsmall) rfl)

lemma readString_induction {rest : List Char} {P : List Char → Utf16 → Prop}
    (h : readString cs = some (s, rest)) (close : P ('\x22' :: rest) [])
    (part : ∀ part units cs s, StringPart part units → readString cs = some (s, rest) → P cs s →
      P (part ++ cs) (units ++ s)) : P cs s := by
  induction hn : cs.length using Nat.strong_induction_on generalizing cs s with
  | _ n ih =>
    rcases readString_cases h with ⟨rfl, rfl⟩ | ⟨p, units, cs', s', hpart, rfl, rfl, hread⟩
    · exact close
    · refine part p units cs' s' hpart hread (ih _ ?_ hread rfl)
      have hlength : 0 < p.length := by cases hpart <;> simp
      rw [length_append] at hn
      omega

lemma readString_append (h : readString cs = some (s, rest)) (more : List Char) :
    readString (cs ++ more) = some (s, rest ++ more) := by
  apply readString_induction (P := fun cs s => readString (cs ++ more) = some (s, rest ++ more)) h
  · rw [cons_append, readString_close]
  · intro p units cs s hpart _ ih
    rw [append_assoc, readString_part hpart, ih]
    rfl

lemma readString_suffix (h : readString cs = some (s, rest)) : rest <:+ cs := by
  apply readString_induction (P := fun cs _ => rest <:+ cs) h
  · exact suffix_cons _ _
  · intro p units cs s _ _ ih
    exact ih.trans (suffix_append _ _)

section

variable {α : Type} {item item' : List Char → Option (α × List Char)} {as : List α} {a : α}
  {key : Utf16}

/-- An item and what follows it, the bracket that closes the list or a comma. -/
lemma readMore_cases (h : readMore close item (n + 1) cs = some (as, rest)) :
    ∃ a after, item cs = some (a, after) ∧
      ((skip after = close :: rest ∧ as = [a]) ∨
        ∃ more as', skip after = ',' :: more ∧ close ≠ ',' ∧
          readMore close item n more = some (as', rest) ∧ as = a :: as') := by
  rw [readMore] at h
  cases hitem : item cs with
  | none => simp [hitem] at h
  | some r =>
    obtain ⟨a, after⟩ := r
    refine ⟨a, after, rfl, ?_⟩
    cases hskip : skip after with
    | nil => simp [hitem, hskip] at h
    | cons c cs' =>
      simp only [hitem, hskip] at h
      split at h
      next hc =>
        cases h
        exact .inl ⟨by rw [hc], rfl⟩
      next hc =>
        split at h
        next hcomma =>
          obtain ⟨r, hr, hpair⟩ := Option.map_eq_some_iff.mp h
          cases hpair
          exact .inr ⟨cs', r.1, by rw [hcomma], fun heq => hc (heq ▸ hcomma), hr, rfl⟩
        next => cases h

section

variable (hitem : ∀ cs a rest, item cs = some (a, rest) → rest <:+ cs)

include hitem

lemma readMore_suffix (h : readMore close item n cs = some (as, rest)) : close :: rest <:+ cs := by
  induction n generalizing cs as with
  | zero => cases h
  | succ n ih =>
    obtain ⟨a, after, hread, hcases⟩ := readMore_cases h
    have hafter : skip after <:+ cs := (skip_suffix after).trans (hitem _ _ _ hread)
    rcases hcases with ⟨hskip, _⟩ | ⟨more, as', hskip, _, hmore, _⟩
    · exact hskip ▸ hafter
    · have hcons : more <:+ skip after := hskip ▸ suffix_cons _ _
      exact (ih hmore).trans (hcons.trans hafter)

lemma readList_suffix (h : readList close item cs = some (as, rest)) : close :: rest <:+ cs := by
  unfold readList at h
  split at h
  next hhead =>
    cases h
    have hcons : skip cs = close :: (skip cs).tail := (cons_head?_tail hhead).symm
    exact hcons ▸ skip_suffix cs
  next => exact readMore_suffix hitem h

omit hitem in
lemma readPair_cases {pair : Utf16 × α} (h : readPair item cs = some (pair, rest)) :
    ∃ cs₁ cs₂ cs₃, skip cs = '\x22' :: cs₁ ∧ readString cs₁ = some (pair.1, cs₂) ∧
      skip cs₂ = ':' :: cs₃ ∧ item cs₃ = some (pair.2, rest) := by
  unfold readPair at h
  cases hskip : skip cs with
  | nil => simp [hskip] at h
  | cons c cs₁ =>
    simp only [hskip] at h
    split at h
    next hc =>
      cases hstring : readString cs₁ with
      | none => simp [hstring] at h
      | some r =>
        obtain ⟨key, cs₂⟩ := r
        simp only [hstring] at h
        cases hskip₂ : skip cs₂ with
        | nil => simp [hskip₂] at h
        | cons c₂ cs₃ =>
          simp only [hskip₂] at h
          split at h
          next hcolon =>
            obtain ⟨r, hr, hpair⟩ := Option.map_eq_some_iff.mp h
            cases hpair
            exact ⟨cs₁, cs₂, cs₃, by rw [hc], hstring, by rw [hskip₂, hcolon], hr⟩
          next => cases h
    next => cases h

omit hitem in
lemma readPair_eq {cs₁ cs₂ cs₃ : List Char} (hskip : skip cs = '\x22' :: cs₁)
    (hkey : readString cs₁ = some (key, cs₂)) (hcolon : skip cs₂ = ':' :: cs₃)
    (hvalue : item cs₃ = some (a, rest)) : readPair item cs = some ((key, a), rest) := by
  simp only [readPair, hskip, hkey, hcolon, if_true, hvalue, Option.map_some]

lemma readPair_suffix
    {pair : Utf16 × α} (h : readPair item cs = some (pair, rest)) : rest <:+ cs := by
  obtain ⟨cs₁, cs₂, cs₃, hskip, hkey, hcolon, hvalue⟩ := readPair_cases h
  have h₃ : cs₃ <:+ skip cs₂ := hcolon ▸ suffix_cons _ _
  have h₁ : cs₁ <:+ skip cs := hskip ▸ suffix_cons _ _
  calc rest <:+ cs₃ := hitem _ _ _ hvalue
    _ <:+ cs₂ := h₃.trans (skip_suffix _)
    _ <:+ cs₁ := readString_suffix hkey
    _ <:+ cs := h₁.trans (skip_suffix _)

end

/-- What a reader reads does not change when more text follows that it leaves. -/
def Extends (more : List Char) (item item' : List Char → Option (α × List Char)) : Prop :=
  ∀ cs a rest, item cs = some (a, rest) → rest ≠ [] → item' (cs ++ more) = some (a, rest ++ more)

lemma skip_append_cons (h : skip cs = c :: rest) (more : List Char) :
    skip (cs ++ more) = c :: (rest ++ more) := by
  rw [skip_append (by rw [h]; exact cons_ne_nil _ _), h, cons_append]

lemma ne_nil_of_skip (h : skip cs = c :: rest) : cs ≠ [] := by
  rintro rfl
  cases h

lemma readMore_append (hitem : Extends more item item') (hn : n ≤ n')
    (h : readMore close item n cs = some (as, rest)) :
    readMore close item' n' (cs ++ more) = some (as, rest ++ more) := by
  induction n generalizing cs as n' with
  | zero => cases h
  | succ n ih =>
    obtain ⟨n', rfl⟩ : ∃ m, n' = m + 1 := ⟨n' - 1, by omega⟩
    obtain ⟨a, after, hread, hcases⟩ := readMore_cases h
    rcases hcases with ⟨hskip, rfl⟩ | ⟨tail, as', hskip, hclose, hmore, rfl⟩
    · rw [readMore, hitem _ _ _ hread (ne_nil_of_skip hskip)]
      simp [skip_append_cons hskip]
    · rw [readMore, hitem _ _ _ hread (ne_nil_of_skip hskip)]
      simp [skip_append_cons hskip, hclose.symm, ih (Nat.le_of_succ_le_succ hn) hmore]

lemma readList_append (hitem : Extends more item item')
    (hblank : ∀ cs, skip cs = [] → item cs = none) (h : readList close item cs = some (as, rest)) :
    readList close item' (cs ++ more) = some (as, rest ++ more) := by
  unfold readList at h ⊢
  split at h
  next hhead =>
    cases h
    have hcons : skip cs = close :: (skip cs).tail := (cons_head?_tail hhead).symm
    rw [skip_append_cons hcons]
    simp
  next hhead =>
    have hne : skip cs ≠ [] := by
      intro hnil
      cases hlength : cs.length with
      | zero => rw [hlength] at h; cases h
      | succ n =>
        rw [hlength] at h
        obtain ⟨a, after, hread, _⟩ := readMore_cases h
        rw [hblank cs hnil] at hread
        cases hread
    have hhead' : (skip (cs ++ more)).head? = (skip cs).head? := by
      rw [skip_append hne, head?_append_of_ne_nil _ hne]
    rw [hhead', if_neg hhead]
    exact readMore_append hitem (by simp) h

lemma readPair_append (hitem : Extends more item item') :
    Extends more (readPair item) (readPair item') := by
  intro cs pair rest h hrest
  obtain ⟨cs₁, cs₂, cs₃, hskip, hkey, hcolon, hvalue⟩ := readPair_cases h
  exact readPair_eq (skip_append_cons hskip more) (readString_append hkey more)
    (skip_append_cons hcolon more) (hitem _ _ _ hvalue hrest)

end

/-! ## Values -/

section

variable {numberOf : List Char → Json} {depth depth' : ℕ}

lemma readValue_blank (h : skip cs = []) : readValue numberOf depth cs = none := by
  cases depth with
  | zero => rfl
  | succ depth => simp [readValue, h]

lemma readPair_blank {α : Type} {value : List Char → Option (α × List Char)} (h : skip cs = []) :
    readPair value cs = none := by
  simp [readPair, h]

lemma readWord_cases (h : readWord cs = some (v, rest)) :
    ∃ word ∈ words, cs = word.1 ++ rest ∧ v = word.2 := by
  obtain ⟨word, hword, hread⟩ := exists_of_findSome?_eq_some h
  split at hread
  next hfront =>
    cases hread
    obtain ⟨tail, rfl⟩ := hfront
    exact ⟨word, hword, by simp, rfl⟩
  next => cases hread

lemma readWord_append {word : List Char × Json} (h : word ∈ words) (more : List Char) :
    readWord (word.1 ++ more) = some (word.2, more) := by
  simp only [words, mem_cons, not_mem_nil, or_false] at h
  rcases h with rfl | rfl | rfl <;> simp [readWord, words]

/-- What is read depends on the first character of the value. -/
lemma readValue_cases (h : readValue numberOf (depth + 1) cs = some (v, rest)) :
    ∃ c after, skip cs = c :: after ∧
      ((c = '\x22' ∧ ∃ s, readString after = some (s, rest) ∧ v = .string s) ∨
        (c = '\x7b' ∧ ∃ pairs, readList '\x7d' (readPair (readValue numberOf depth)) after =
          some (pairs, rest) ∧ v = .object pairs) ∨
        (c = '[' ∧ ∃ items, readList ']' (readValue numberOf depth) after = some (items, rest) ∧
          v = .array items) ∨
        ((c ≠ '\x22' ∧ c ≠ '\x7b' ∧ c ≠ '[') ∧
          ((isNumberChar c = true ∧ isNumber ((c :: after).takeWhile isNumberChar) = true ∧
              v = numberOf ((c :: after).takeWhile isNumberChar) ∧
              rest = (c :: after).dropWhile isNumberChar) ∨
            (isNumberChar c = false ∧ readWord (c :: after) = some (v, rest))))) := by
  rw [readValue] at h
  cases hskip : skip cs with
  | nil => simp [hskip] at h
  | cons c after =>
    refine ⟨c, after, rfl, ?_⟩
    simp only [hskip] at h
    split at h
    next hc =>
      obtain ⟨r, hr, hpair⟩ := Option.map_eq_some_iff.mp h
      cases hpair
      exact .inl ⟨hc, r.1, hr, rfl⟩
    next hc₁ =>
    split at h
    next hc =>
      obtain ⟨r, hr, hpair⟩ := Option.map_eq_some_iff.mp h
      cases hpair
      exact .inr (.inl ⟨hc, r.1, hr, rfl⟩)
    next hc₂ =>
    split at h
    next hc =>
      obtain ⟨r, hr, hpair⟩ := Option.map_eq_some_iff.mp h
      cases hpair
      exact .inr (.inr (.inl ⟨hc, r.1, hr, rfl⟩))
    next hc₃ =>
    refine .inr (.inr (.inr ⟨⟨hc₁, hc₂, hc₃⟩, ?_⟩))
    split at h
    next hnumber =>
      split at h
      next hvalid =>
        cases h
        exact .inl ⟨hnumber, hvalid, rfl, rfl⟩
      next => cases h
    next hnumber => exact .inr ⟨by simpa using hnumber, h⟩

lemma readValue_suffix (h : readValue numberOf depth cs = some (v, rest)) : rest <:+ cs := by
  induction depth generalizing cs v rest with
  | zero => cases h
  | succ depth ih =>
    obtain ⟨c, after, hskip, hcases⟩ := readValue_cases h
    have hcs : c :: after <:+ cs := hskip ▸ skip_suffix cs
    have hafter : after <:+ cs := (suffix_cons c after).trans hcs
    have hitem : ∀ cs a rest, readValue numberOf depth cs = some (a, rest) → rest <:+ cs :=
      fun _ _ _ => ih
    rcases hcases with ⟨_, s, hread, _⟩ | ⟨_, pairs, hread, _⟩ | ⟨_, items, hread, _⟩ |
      ⟨_, ⟨_, _, _, hrest⟩ | ⟨_, hword⟩⟩
    · exact (readString_suffix hread).trans hafter
    · have hclose := readList_suffix (fun _ _ _ => readPair_suffix hitem) hread
      exact ((suffix_cons _ rest).trans hclose).trans hafter
    · exact ((suffix_cons _ rest).trans (readList_suffix hitem hread)).trans hafter
    · exact (hrest ▸ dropWhile_suffix _).trans hcs
    · obtain ⟨word, _, heq, _⟩ := readWord_cases hword
      exact (heq ▸ suffix_append _ _).trans hcs

/-- An object is read up to its closing bracket. -/
lemma readValue_object_suffix
    (h : readValue numberOf depth ('\x7b' :: cs) = some (v, rest)) : '\x7d' :: rest <:+ cs := by
  cases depth with
  | zero => cases h
  | succ depth =>
    obtain ⟨c, after, hskip, hcases⟩ := readValue_cases h
    rw [skip_cons (by decide)] at hskip
    cases hskip
    rcases hcases with ⟨hc, _⟩ | ⟨_, pairs, hread, _⟩ | ⟨hc, _⟩ | ⟨⟨_, hc, _⟩, _⟩
    · exact absurd hc (by decide)
    · exact readList_suffix (fun _ _ _ => readPair_suffix fun _ _ _ => readValue_suffix) hread
    · exact absurd hc (by decide)
    · exact absurd rfl hc

lemma dropWhile_append_ne_nil {p : Char → Bool} (h : cs.dropWhile p ≠ []) (more : List Char) :
    (cs ++ more).takeWhile p = cs.takeWhile p ∧
      (cs ++ more).dropWhile p = cs.dropWhile p ++ more := by
  induction cs with
  | nil => exact absurd rfl h
  | cons c cs ih =>
    cases hc : p c with
    | false => simp [hc]
    | true =>
      simp only [dropWhile_cons, hc, if_true] at h
      simpa [hc] using ih h

lemma readValue_append (hdepth : depth ≤ depth') :
    Extends more (readValue numberOf depth) (readValue numberOf depth') := by
  induction depth generalizing depth' with
  | zero => intro cs v rest h; cases h
  | succ depth ih =>
    intro cs v rest h hrest
    obtain ⟨depth', rfl⟩ : ∃ d, depth' = d + 1 := ⟨depth' - 1, by omega⟩
    obtain ⟨c, after, hskip, hcases⟩ := readValue_cases h
    have hitem : Extends more (readValue numberOf depth) (readValue numberOf depth') :=
      ih (Nat.le_of_succ_le_succ hdepth)
    rw [readValue, skip_append_cons hskip]
    rcases hcases with ⟨rfl, s, hread, rfl⟩ | ⟨rfl, pairs, hread, rfl⟩ |
      ⟨rfl, items, hread, rfl⟩ | ⟨⟨hc₁, hc₂, hc₃⟩, ⟨hnumber, hvalid, rfl, rfl⟩ | ⟨hword, hread⟩⟩
    · simp [readString_append hread]
    · have hlist := readList_append (readPair_append hitem) (fun _ => readPair_blank) hread
      simp [hlist]
    · simp [readList_append hitem (fun _ => readValue_blank) hread]
    · obtain ⟨htake, hdrop⟩ := dropWhile_append_ne_nil hrest more
      rw [cons_append] at htake hdrop
      simp only [if_neg hc₁, if_neg hc₂, if_neg hc₃, hnumber, if_true, htake, hdrop, hvalid]
    · obtain ⟨word, hmem, heq, rfl⟩ := readWord_cases hread
      have hmore : c :: (after ++ more) = word.1 ++ (rest ++ more) := by
        rw [← cons_append, heq, append_assoc]
      simp only [if_neg hc₁, if_neg hc₂, if_neg hc₃, hword, Bool.false_eq_true, if_false]
      rw [hmore]
      exact readWord_append hmem (rest ++ more)

end

/-! ## The text of a value is read back -/

section

variable {α : Type} {item : List Char → Option (α × List Char)} {f : α → List Char} {as : List α}

lemma length_commaTail (f : α → List Char) (as : List α) : as.length ≤ (commaTail f as).length := by
  induction as with
  | nil => exact Nat.le_refl 0
  | cons a as ih =>
    have hcons : commaTail f (a :: as) = ',' :: f a ++ commaTail f as := rfl
    rw [hcons]
    simp
    omega

lemma readMore_commaTail (hclose : ¬ IsJsonSpace close) (hcomma : close ≠ ',') {a : α}
    (hitem : ∀ b ∈ a :: as, ∀ rest, item (f b ++ rest) = some (b, rest)) (hn : as.length < n) :
    readMore close item n (f a ++ (commaTail f as ++ close :: rest)) = some (a :: as, rest) := by
  induction as generalizing a n with
  | nil =>
    obtain ⟨n, rfl⟩ : ∃ m, n = m + 1 := ⟨n - 1, by omega⟩
    rw [readMore, hitem a mem_cons_self]
    simp [commaTail, skip_cons hclose]
  | cons b as ih =>
    obtain ⟨n, rfl⟩ : ∃ m, n = m + 1 := ⟨n - 1, by omega⟩
    have hcons : commaTail f (b :: as) ++ close :: rest =
        ',' :: (f b ++ (commaTail f as ++ close :: rest)) := by
      simp [commaTail]
    have hrest := ih (fun c hc => hitem c (mem_cons_of_mem a hc)) (Nat.lt_of_succ_lt_succ hn)
    have hspace : ¬ IsJsonSpace ',' := by decide
    rw [readMore, hitem a mem_cons_self, hcons]
    simp [skip_cons hspace, hcomma.symm, hrest]

lemma readList_intercalate (close : Char) (hclose : ¬ IsJsonSpace close) (hcomma : close ≠ ',')
    (hhead : ∀ a rest, (skip (f a ++ rest)).head? ≠ some close)
    (hitem : ∀ a ∈ as, ∀ rest, item (f a ++ rest) = some (a, rest)) (rest : List Char) :
    readList close item (intercalate [','] (as.map f) ++ close :: rest) = some (as, rest) := by
  cases as with
  | nil => simp [readList, skip_cons hclose]
  | cons a as =>
    rw [intercalate_map_cons, append_assoc, readList, if_neg (hhead a _)]
    apply readMore_commaTail hclose hcomma hitem
    have hlength := length_commaTail f as
    simp
    omega

end

/-- A value in which there is no number. -/
inductive NumberFree : Json → Prop
  | null : NumberFree .null
  | boolean (b : Bool) : NumberFree (.boolean b)
  | string (s : Utf16) : NumberFree (.string s)
  | array {items : List Json} : (∀ v ∈ items, NumberFree v) → NumberFree (.array items)
  | object {pairs : List (Utf16 × Json)} : (∀ pair ∈ pairs, NumberFree pair.2) →
      NumberFree (.object pairs)

variable {numberOf : List Char → Json} {depth : ℕ}

lemma length_le_intercalate {as : List (List Char)} {a : List Char} (h : a ∈ as) :
    a.length ≤ (intercalate [','] as).length := by
  induction as with
  | nil => cases h
  | cons b as ih =>
    have htail := intercalate_map_cons (f := id) b as
    rw [map_id] at htail
    rw [htail, length_append, id]
    rcases mem_cons.mp h with rfl | h
    · omega
    · obtain ⟨c, as', rfl⟩ := exists_cons_of_ne_nil (ne_nil_of_mem h)
      have hmore := intercalate_map_cons (f := id) c as'
      rw [map_id] at hmore
      have hcons : commaTail id (c :: as') = ',' :: c ++ commaTail id as' := rfl
      have hle := ih h
      rw [hmore, length_append, id] at hle
      rw [hcons, length_append, length_cons]
      omega

lemma skip_render (v : Json) (rest : List Char) : skip (v.render ++ rest) = v.render ++ rest := by
  obtain ⟨c, tail, heq, hstarts⟩ := starts_render v
  have hspace : ¬ IsJsonSpace c := by
    cases v with
    | null | string s | array items | object pairs => exact hstarts ▸ by decide
    | boolean b => cases b <;> exact hstarts ▸ by decide
    | number x =>
      intro hspace
      simp only [IsJsonSpace, mem_cons, not_mem_nil, or_false] at hspace
      rcases hspace with rfl | rfl | rfl | rfl <;>
        exact absurd hstarts (by simp [Starts, IsNumberChar])
  rw [heq, cons_append, skip_cons hspace]

lemma readPair_renderPair {pair : Utf16 × Json}
    (hvalue : ∀ rest, readValue numberOf depth (pair.2.render ++ rest) = some (pair.2, rest))
    (rest : List Char) :
    readPair (readValue numberOf depth) (renderPair pair ++ rest) = some (pair, rest) := by
  obtain ⟨after, heq, hkey⟩ := readString_quoteString pair.1 (':' :: (pair.2.render ++ rest))
  have hskip : skip (renderPair pair ++ rest) = '\x22' :: after := by
    rw [renderPair, append_assoc, cons_append, heq, skip_cons (by decide)]
  exact readPair_eq hskip hkey (skip_cons (by decide) _) (hvalue rest)

lemma readValue_word (word : List Char × Json) (h : word ∈ words) (rest : List Char) :
    readValue numberOf (depth + 1) (word.1 ++ rest) = some (word.2, rest) := by
  have hread := readWord_append h rest
  have hstart : ∃ c tail, word.1 = c :: tail ∧ ¬ IsJsonSpace c ∧ c ≠ '\x22' ∧ c ≠ '\x7b' ∧
      c ≠ '[' ∧ isNumberChar c = false := by
    simp only [words, mem_cons, not_mem_nil, or_false] at h
    rcases h with rfl | rfl | rfl <;>
      exact ⟨_, _, rfl, by decide, by decide, by decide, by decide, by decide⟩
  obtain ⟨c, tail, heq, hspace, hc₁, hc₂, hc₃, hnumber⟩ := hstart
  rw [heq, cons_append] at hread ⊢
  rw [readValue, skip_cons hspace]
  simp only [if_neg hc₁, if_neg hc₂, if_neg hc₃, hnumber, Bool.false_eq_true, if_false]
  exact hread

/-- **The text of a value without numbers** is read back, whatever follows. -/
lemma readValue_render (hv : NumberFree v) (hdepth : v.render.length < depth)
    (rest : List Char) : readValue numberOf depth (v.render ++ rest) = some (v, rest) := by
  induction hv generalizing depth rest with
  | null =>
    obtain ⟨depth, rfl⟩ : ∃ d, depth = d + 1 := ⟨depth - 1, by omega⟩
    exact readValue_word ("null".toList, .null) (by simp [words]) rest
  | boolean b =>
    obtain ⟨depth, rfl⟩ : ∃ d, depth = d + 1 := ⟨depth - 1, by omega⟩
    cases b with
    | true => exact readValue_word ("true".toList, .boolean true) (by simp [words]) rest
    | false =>
      exact readValue_word ("false".toList, .boolean false) (by simp [words]) rest
  | string s =>
    obtain ⟨depth, rfl⟩ : ∃ d, depth = d + 1 := ⟨depth - 1, by omega⟩
    obtain ⟨after, heq, hread⟩ := readString_quoteString s rest
    rw [render, heq, readValue, skip_cons (by decide)]
    simp [hread]
  | @array items _ ih =>
    obtain ⟨depth, rfl⟩ : ∃ d, depth = d + 1 := ⟨depth - 1, by omega⟩
    rw [render, renderItems_eq] at hdepth
    have hitem : ∀ v ∈ items, ∀ rest,
        readValue numberOf depth (v.render ++ rest) = some (v, rest) := by
      intro v hv rest
      have hle := length_le_intercalate (mem_map_of_mem (f := render) hv)
      have hlt : v.render.length < depth := by
        simp at hdepth
        omega
      exact ih v hv hlt rest
    have hlist := readList_intercalate ']' (by decide) (by decide)
      (fun v rest => by rw [skip_render]; exact head_render_ne (by simp) rest) hitem rest
    rw [render, renderItems_eq, cons_append, readValue, skip_cons (by decide)]
    simp [hlist]
  | @object pairs _ ih =>
    obtain ⟨depth, rfl⟩ : ∃ d, depth = d + 1 := ⟨depth - 1, by omega⟩
    rw [render, renderPairs_eq] at hdepth
    have hitem : ∀ pair ∈ pairs, ∀ rest,
        readPair (readValue numberOf depth) (renderPair pair ++ rest) = some (pair, rest) := by
      intro pair hpair rest
      have hle := length_le_intercalate (mem_map_of_mem (f := renderPair) hpair)
      have hlt : pair.2.render.length < depth := by
        simp [renderPair] at hdepth hle
        omega
      exact readPair_renderPair (fun rest => ih pair hpair hlt rest) rest
    have hhead : ∀ (pair : Utf16 × Json) rest,
        (skip (renderPair pair ++ rest)).head? ≠ some '\x7d' := by
      intro pair rest
      obtain ⟨after, heq, _⟩ := readString_quoteString pair.1 (':' :: (pair.2.render ++ rest))
      rw [renderPair, append_assoc, cons_append, heq, skip_cons (by decide)]
      simp
    have hlist := readList_intercalate '\x7d' (by decide) (by decide) hhead hitem rest
    rw [render, renderPairs_eq, cons_append, readValue, skip_cons (by decide)]
    simp [hlist]

lemma parse_render (hv : NumberFree v) : parse numberOf v.render = some v := by
  have hread : readValue numberOf (v.render.length + 1) (v.render ++ []) = some (v, []) :=
    readValue_render hv (Nat.lt_succ_self _) []
  rw [append_nil] at hread
  rw [parse, hread]
  rfl

/-! ### Its characters -/

lemma digitChar_printable (h : n < 16) : 0x20 ≤ (Nat.digitChar n).toNat := by
  interval_cases n <;> decide

lemma quotePoint_printable {p : CodePoint} (hc : c ∈ quotePoint p) : 0x20 ≤ c.toNat := by
  have hunicode : ∀ u, c ∈ unicodeEscape u → 0x20 ≤ c.toNat := by
    intro u hu
    have hlt := u.isLt
    simp only [unicodeEscape, mem_cons, not_mem_nil, or_false] at hu
    rcases hu with rfl | rfl | rfl | rfl | rfl | rfl
    · decide
    · decide
    all_goals exact digitChar_printable (by omega)
  cases p with
  | lone u => exact hunicode u hc
  | scalar d =>
    cases hescape : escapes.lookup d with
    | some e =>
      obtain ⟨before, after, heq, _⟩ := lookup_eq_some_iff.mp hescape
      have hentry : ∀ entry ∈ escapes, 0x20 ≤ entry.2.toNat := by decide
      simp only [quotePoint, hescape, mem_cons, not_mem_nil, or_false] at hc
      rcases hc with rfl | rfl
      · decide
      · exact hentry (d, c) (by simp [heq])
    | none =>
      simp only [quotePoint, hescape] at hc
      split at hc
      next => exact hunicode _ hc
      next hsmall =>
        rw [mem_singleton] at hc
        subst hc
        omega

lemma quoteString_printable (hc : c ∈ quoteString s) : 0x20 ≤ c.toNat := by
  simp only [quoteString, mem_cons, mem_append, mem_flatMap, not_mem_nil, or_false] at hc
  rcases hc with rfl | ⟨p, _, hp⟩ | rfl
  · decide
  · exact quotePoint_printable hp
  · decide

lemma mem_intercalate {as : List (List Char)} (hc : c ∈ intercalate [','] as) :
    c = ',' ∨ ∃ a ∈ as, c ∈ a := by
  cases as with
  | nil => cases hc
  | cons b as =>
    have htail := intercalate_map_cons (f := id) b as
    rw [map_id] at htail
    rw [htail, mem_append] at hc
    rcases hc with hc | hc
    · exact .inr ⟨b, mem_cons_self, hc⟩
    · obtain ⟨a, ha, hca⟩ := mem_flatMap.mp hc
      exact (mem_cons.mp hca).imp_right fun h => ⟨a, mem_cons_of_mem b ha, h⟩

lemma word_printable
    (hc : c ∈ "null".toList ∨ c ∈ "true".toList ∨ c ∈ "false".toList) : 0x20 ≤ c.toNat := by
  have hletter : c ∈ ['n', 'u', 'l', 't', 'r', 'e', 'f', 'a', 's'] := by
    simp at hc ⊢
    tauto
  simp only [mem_cons, not_mem_nil, or_false] at hletter
  rcases hletter with rfl | rfl | rfl | rfl | rfl | rfl | rfl | rfl | rfl <;> decide

/-- There is no line end in the text of a value. -/
lemma render_printable (hv : NumberFree v) (hc : c ∈ v.render) : 0x20 ≤ c.toNat := by
  induction hv with
  | null => exact word_printable (.inl hc)
  | boolean b =>
    cases b with
    | true => exact word_printable (.inr (.inl hc))
    | false => exact word_printable (.inr (.inr hc))
  | string s => exact quoteString_printable hc
  | array _ ih =>
    simp only [render, renderItems_eq, mem_cons, mem_append, not_mem_nil, or_false] at hc
    rcases hc with rfl | hc | rfl
    · decide
    · rcases mem_intercalate hc with rfl | ⟨a, ha, hca⟩
      · decide
      · obtain ⟨v, hv, rfl⟩ := mem_map.mp ha
        exact ih v hv hca
    · decide
  | object _ ih =>
    simp only [render, renderPairs_eq, mem_cons, mem_append, not_mem_nil, or_false] at hc
    rcases hc with rfl | hc | rfl
    · decide
    · rcases mem_intercalate hc with rfl | ⟨a, ha, hca⟩
      · decide
      · obtain ⟨pair, hpair, rfl⟩ := mem_map.mp ha
        simp only [renderPair, mem_append, mem_cons] at hca
        rcases hca with hca | rfl | hca
        · exact quoteString_printable hca
        · decide
        · exact ih pair hpair hca
    · decide

/-! ## A text that breaks off -/

section

variable {pairs : List (Utf16 × Json)} {k depth' : ℕ}

/-- Whatever follows, an object is what it was. -/
lemma readValue_object_append (hdepth : depth ≤ depth')
    (h : readValue numberOf depth ('\x7b' :: cs) = some (v, rest)) (more : List Char) :
    readValue numberOf depth' ('\x7b' :: cs ++ more) = some (v, rest ++ more) := by
  cases depth with
  | zero => cases h
  | succ depth =>
    obtain ⟨depth', rfl⟩ : ∃ d, depth' = d + 1 := ⟨depth' - 1, by omega⟩
    obtain ⟨c, after, hskip, hcases⟩ := readValue_cases h
    rw [skip_cons (by decide)] at hskip
    cases hskip
    rcases hcases with ⟨hc, _⟩ | ⟨_, pairs, hread, rfl⟩ | ⟨hc, _⟩ | ⟨⟨_, hc, _⟩, _⟩
    · exact absurd hc (by decide)
    · have hitem : Extends more (readValue numberOf depth) (readValue numberOf depth') :=
        readValue_append (Nat.le_of_succ_le_succ hdepth)
      have hlist := readList_append (readPair_append hitem) (fun _ => readPair_blank) hread
      rw [cons_append, readValue, skip_cons (by decide)]
      simp [hlist]
    · exact absurd hc (by decide)
    · exact absurd rfl hc

lemma parse_eq_some (h : parse numberOf cs = some v) :
    ∃ rest, readValue numberOf (cs.length + 1) cs = some (v, rest) ∧ skip rest = [] := by
  unfold parse at h
  cases hread : readValue numberOf (cs.length + 1) cs with
  | none => simp [hread] at h
  | some r =>
    simp only [hread] at h
    split at h
    next hskip =>
      cases h
      exact ⟨r.2, rfl, hskip⟩
    next => cases h

lemma take_render (pairs : List (Utf16 × Json)) (hk : 0 < k) :
    ∃ tail, (object pairs).render.take k = '\x7b' :: tail := by
  obtain ⟨k, rfl⟩ : ∃ j, k = j + 1 := ⟨k - 1, by omega⟩
  exact ⟨_, by rw [render, take_succ_cons]⟩

/-- **The text of an object that breaks off** is not read. -/
lemma parse_take_render (hv : NumberFree (.object pairs)) (hk : k < (object pairs).render.length) :
    parse numberOf ((object pairs).render.take k) = none := by
  cases hparse : parse numberOf ((object pairs).render.take k) with
  | none => rfl
  | some w =>
    exfalso
    obtain ⟨rest, hread, _⟩ := parse_eq_some hparse
    rcases Nat.eq_zero_or_pos k with rfl | hpos
    · cases hread
    · obtain ⟨tail, htail⟩ := take_render pairs hpos
      have hle : ((object pairs).render.take k).length + 1 ≤
          (object pairs).render.length + 1 := by
        simp
      rw [htail] at hread hle
      have hmore := readValue_object_append hle hread ((object pairs).render.drop k)
      rw [← htail, take_append_drop] at hmore
      have hwhole : readValue numberOf ((object pairs).render.length + 1)
          ((object pairs).render ++ []) = some (object pairs, []) :=
        readValue_render hv (Nat.lt_succ_self _) []
      rw [append_nil, hmore, Option.some.injEq, Prod.mk.injEq] at hwhole
      have hlength := congrArg length (append_eq_nil_iff.mp hwhole.2).2
      rw [length_drop, length_nil] at hlength
      omega

/-- Nor is it with one more character that is neither a bracket nor white space. -/
lemma parse_take_render_append (hk : 0 < k) (hc : c ≠ '\x7d') (hspace : ¬ IsJsonSpace c) :
    parse numberOf ((object pairs).render.take k ++ [c]) = none := by
  cases hparse : parse numberOf ((object pairs).render.take k ++ [c]) with
  | none => rfl
  | some w =>
    exfalso
    obtain ⟨rest, hread, hskip⟩ := parse_eq_some hparse
    obtain ⟨tail, htail⟩ := take_render pairs hk
    rw [htail, cons_append] at hread
    obtain ⟨used, hused⟩ := readValue_object_suffix hread
    have hlast : ('\x7d' :: rest).getLast? = some c := by
      rw [← getLast?_append_cons used, hused, getLast?_concat]
    have hrest : ∀ d ∈ rest, IsJsonSpace d := by
      intro d hd
      by_contra hspace
      rw [skip, dropWhile_eq_nil_iff] at hskip
      exact hspace (of_decide_eq_true (hskip d hd))
    rcases mem_cons.mp (mem_of_getLast? hlast) with heq | hmem
    · exact hc heq
    · exact hspace (hrest c hmem)

end

end Dkg.Lib.Json
