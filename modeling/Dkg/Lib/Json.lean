import Dkg.Lib.NumberText
import Dkg.Lib.Utf16

/-! # JSON

Values and their text without white space. Objects are lists of pairs, in the order in which they
are written. A text followed by a delimiter stands for one value only (`Json.render_unambiguous`),
so `Json.render` is injective.
-/

namespace Dkg.Lib

open List

/-! ## Strings -/

/-- The characters with an escape of their own. -/
def escapes : List (Char × Char) :=
  [('\x08', 'b'), ('\t', 't'), ('\n', 'n'), ('\x0c', 'f'), ('\r', 'r'), ('\x22', '\x22'),
    ('\\', '\\')]

def unicodeEscape (u : CodeUnit) : List Char :=
  ['\\', 'u', Nat.digitChar (u.val / 0x1000), Nat.digitChar (u.val / 0x100 % 0x10),
    Nat.digitChar (u.val / 0x10 % 0x10), Nat.digitChar (u.val % 0x10)]

def quotePoint : CodePoint → List Char
  | .scalar c =>
    match escapes.lookup c with
    | some e => ['\\', e]
    | none => if c.toNat < 0x20 then unicodeEscape (Fin.ofNat _ c.toNat) else [c]
  | .lone u => unicodeEscape u

/-- `QuoteJSONString`. -/
def quoteString (s : Utf16) : List Char := '\x22' :: ((codePoints s).flatMap quotePoint ++ ['\x22'])

/-! ### Reading a string -/

namespace Json

def hexDigit (c : Char) : Option ℕ :=
  if c.isDigit then some (c.toNat - '0'.toNat)
  else if 'a' ≤ c ∧ c ≤ 'f' then some (c.toNat - 'a'.toNat + 10)
  else if 'A' ≤ c ∧ c ≤ 'F' then some (c.toNat - 'A'.toNat + 10)
  else none

def hexUnit (a b c d : Char) : Option CodeUnit := do
  let a ← hexDigit a
  let b ← hexDigit b
  let c ← hexDigit c
  let d ← hexDigit d
  return Fin.ofNat _ (a * 0x1000 + b * 0x100 + c * 0x10 + d)

/-- The escapes of one letter; a slash may be escaped too. -/
def letterEscape (e : Char) : Option Char :=
  if e = '/' then some '/' else (escapes.map Prod.swap).lookup e

/-- The rest of a string, its quotation mark left out. -/
def readString : List Char → Option (Utf16 × List Char)
  | [] => none
  | c :: cs =>
    if c = '\x22' then some ([], cs)
    else if c = '\\' then
      match cs with
      | [] => none
      | e :: cs =>
        if e = 'u' then
          match cs with
          | c₁ :: c₂ :: c₃ :: c₄ :: cs => do
              let u ← hexUnit c₁ c₂ c₃ c₄
              let (s, rest) ← readString cs
              return (u :: s, rest)
          | _ => none
        else do
          let c ← letterEscape e
          let (s, rest) ← readString cs
          return (charUnits c ++ s, rest)
    else if c.toNat < 0x20 then none
    else do
      let (s, rest) ← readString cs
      return (charUnits c ++ s, rest)

variable {cs rest part : List Char} {units : Utf16} {n : ℕ}

/-- A character of a string, or an escape. -/
inductive StringPart : List Char → Utf16 → Prop
  | plain {c : Char} : c ≠ '\x22' → c ≠ '\\' → ¬ c.toNat < 0x20 → StringPart [c] (charUnits c)
  | letter {e c : Char} : e ≠ 'u' → letterEscape e = some c → StringPart ['\\', e] (charUnits c)
  | unicode {c₁ c₂ c₃ c₄ : Char} {u : CodeUnit} : hexUnit c₁ c₂ c₃ c₄ = some u →
      StringPart ['\\', 'u', c₁, c₂, c₃, c₄] [u]

lemma readString_close (cs : List Char) : readString ('\x22' :: cs) = some ([], cs) := by
  rw [readString.eq_def]
  simp only [if_true]

lemma readString_part (h : StringPart part units) (cs : List Char) :
    readString (part ++ cs) = (readString cs).map fun r => (units ++ r.1, r.2) := by
  cases h with
  | plain hquote hbackslash hsmall =>
    rw [singleton_append, readString.eq_def]
    simp only [if_neg hquote, if_neg hbackslash, if_neg hsmall]
    cases readString cs <;> rfl
  | letter he hescape =>
    rw [cons_append, singleton_append, readString.eq_def]
    simp only [Char.reduceEq, if_false, if_true, if_neg he, hescape]
    cases readString cs <;> rfl
  | unicode hunit =>
    simp only [cons_append, nil_append]
    rw [readString.eq_def]
    simp only [Char.reduceEq, if_false, if_true, hunit]
    cases readString cs <;> rfl

lemma hexDigit_digitChar (h : n < 16) : hexDigit (Nat.digitChar n) = some n := by
  interval_cases n <;> decide

lemma hexUnit_unicodeEscape (u : CodeUnit) :
    hexUnit (Nat.digitChar (u.val / 0x1000)) (Nat.digitChar (u.val / 0x100 % 0x10))
      (Nat.digitChar (u.val / 0x10 % 0x10)) (Nat.digitChar (u.val % 0x10)) = some u := by
  have hu := u.isLt
  have hvalue : u.val / 0x1000 * 0x1000 + u.val / 0x100 % 0x10 * 0x100 +
      u.val / 0x10 % 0x10 * 0x10 + u.val % 0x10 = u.val := by omega
  rw [hexUnit, hexDigit_digitChar (by omega), hexDigit_digitChar (by omega),
    hexDigit_digitChar (by omega), hexDigit_digitChar (by omega)]
  show some (Fin.ofNat _ (u.val / 0x1000 * 0x1000 + u.val / 0x100 % 0x10 * 0x100 +
      u.val / 0x10 % 0x10 * 0x10 + u.val % 0x10)) = some u
  rw [hvalue]
  simp

lemma stringPart_escape : ∀ entry ∈ escapes,
    StringPart ['\\', entry.2] (charUnits entry.1) := by
  intro entry hentry
  simp only [escapes, mem_cons, not_mem_nil, or_false] at hentry
  rcases hentry with rfl | rfl | rfl | rfl | rfl | rfl | rfl <;>
    exact .letter (by decide) (by decide)

lemma stringPart_quotePoint (p : CodePoint) : StringPart (quotePoint p) p.units := by
  cases p with
  | lone u => exact .unicode (hexUnit_unicodeEscape u)
  | scalar c =>
    cases hescape : escapes.lookup c with
    | some e =>
      obtain ⟨before, after, heq, _⟩ := lookup_eq_some_iff.mp hescape
      simp only [quotePoint, hescape]
      exact stringPart_escape (c, e) (by simp [heq])
    | none =>
      have hquote : c ≠ '\x22' := by
        rintro rfl
        simp [escapes] at hescape
      have hbackslash : c ≠ '\\' := by
        rintro rfl
        simp [escapes] at hescape
      simp only [quotePoint, hescape]
      by_cases hsmall : c.toNat < 0x20
      · rw [if_pos hsmall, CodePoint.units, charUnits, if_pos (by omega)]
        exact .unicode (hexUnit_unicodeEscape _)
      · rw [if_neg hsmall]
        exact .plain hquote hbackslash hsmall

lemma readString_quotePoints (ps : List CodePoint) (rest : List Char) :
    readString (ps.flatMap quotePoint ++ '\x22' :: rest) =
      some (ps.flatMap CodePoint.units, rest) := by
  induction ps with
  | nil => exact readString_close rest
  | cons p ps ih =>
    rw [flatMap_cons, append_assoc, readString_part (stringPart_quotePoint p), ih]
    rfl

/-- **A quoted string** is read back. -/
lemma readString_quoteString (s : Utf16) (rest : List Char) :
    ∃ after, quoteString s ++ rest = '\x22' :: after ∧ readString after = some (s, rest) := by
  refine ⟨(codePoints s).flatMap quotePoint ++ '\x22' :: rest, by simp [quoteString], ?_⟩
  rw [readString_quotePoints, flatMap_units_codePoints]

/-- **A quoted string** stands for one string. -/
lemma quoteString_unambiguous {s t : Utf16} {rest rest' : List Char}
    (h : quoteString s ++ rest = quoteString t ++ rest') : s = t ∧ rest = rest' := by
  obtain ⟨after, heq, hread⟩ := readString_quoteString s rest
  obtain ⟨after', heq', hread'⟩ := readString_quoteString t rest'
  have hafter : after = after' := by simpa [heq, heq'] using h
  rw [hafter, hread', Option.some.injEq, Prod.mk.injEq] at hread
  exact ⟨hread.1.symm, hread.2.symm⟩

end Json

/-! ## Values -/

inductive Json
  | null
  | boolean (b : Bool)
  | number (x : Binary64)
  | string (s : Utf16)
  | array (items : List Json)
  | object (pairs : List (Utf16 × Json))

namespace Json

/-- Induction on the values inside a value. -/
lemma nested {P : Json → Prop} (null : P .null) (boolean : ∀ b, P (.boolean b))
    (number : ∀ x, P (.number x)) (string : ∀ s, P (.string s))
    (array : ∀ items, (∀ v ∈ items, P v) → P (.array items))
    (object : ∀ pairs, (∀ pair ∈ pairs, P pair.2) → P (.object pairs)) : ∀ v, P v
  | .null => null
  | .boolean b => boolean b
  | .number x => number x
  | .string s => string s
  | .array items => array items fun v hv =>
    have := sizeOf_lt_of_mem hv
    nested null boolean number string array object v
  | .object pairs => object pairs fun pair hpair =>
    have := sizeOf_lt_of_mem hpair
    nested null boolean number string array object pair.2
termination_by v => sizeOf v
decreasing_by
  all_goals
    simp_wf
    first
    | omega
    | (cases pair; simp_all; omega)

mutual

def render : Json → List Char
  | .null => "null".toList
  | .boolean b => if b then "true".toList else "false".toList
  | .number x => x.toText
  | .string s => quoteString s
  | .array items => '[' :: (List.intercalate [','] (renderItems items) ++ [']'])
  | .object pairs => '\x7b' :: (List.intercalate [','] (renderPairs pairs) ++ ['\x7d'])

def renderItems : List Json → List (List Char)
  | [] => []
  | v :: rest => v.render :: renderItems rest

def renderPairs : List (Utf16 × Json) → List (List Char)
  | [] => []
  | (key, v) :: rest => (quoteString key ++ ':' :: v.render) :: renderPairs rest

end

lemma renderItems_eq (items : List Json) : renderItems items = items.map render := by
  induction items with
  | nil => rfl
  | cons v rest ih => rw [renderItems, ih, map_cons]

def renderPair (pair : Utf16 × Json) : List Char := quoteString pair.1 ++ ':' :: pair.2.render

lemma renderPairs_eq (pairs : List (Utf16 × Json)) : renderPairs pairs = pairs.map renderPair := by
  induction pairs with
  | nil => rfl
  | cons pair rest ih => rw [renderPairs, ih, map_cons, renderPair]

/-! ## Unambiguous text

A value ends where the text ends or a delimiter follows. -/

def Stops (rest : List Char) : Prop := ∀ c ∈ rest.head?, c ∈ [',', ']', '\x7d']

/-- Followed by a delimiter, `f a` is the text of `a` only. -/
def Unambiguous {α : Type} (f : α → List Char) (a : α) : Prop :=
  ∀ b rest rest', Stops rest → Stops rest' → f a ++ rest = f b ++ rest' → a = b ∧ rest = rest'

variable {α : Type} {f : α → List Char}

/-- What follows the first of several texts with commas between them. -/
def commaTail (f : α → List Char) (as : List α) : List Char := as.flatMap fun a => ',' :: f a

lemma intercalate_map_cons (a : α) (as : List α) :
    intercalate [','] ((a :: as).map f) = f a ++ commaTail f as := by
  induction as generalizing a with
  | nil => simp [commaTail]
  | cons b as ih =>
    rw [map_cons, map_cons, intercalate_cons_cons, ← map_cons, ih b]
    simp [commaTail]

variable {close c : Char} {as bs : List α} {rest rest' : List Char} {v : Json}

lemma stops_commaTail (hclose : close ∈ [']', '\x7d']) (as : List α) (rest : List Char) :
    Stops (commaTail f as ++ close :: rest) := by
  have hstop : close ∈ [',', ']', '\x7d'] := mem_cons_of_mem ',' hclose
  cases as with
  | nil =>
    intro c hc
    simp only [commaTail, flatMap_nil, nil_append, head?_cons, Option.mem_some_iff] at hc
    exact hc ▸ hstop
  | cons a as =>
    intro c hc
    simp only [commaTail, flatMap_cons, cons_append, head?_cons, Option.mem_some_iff] at hc
    simp [← hc]

lemma commaTail_unambiguous (hclose : close ∈ [']', '\x7d']) (hf : ∀ a ∈ as, Unambiguous f a)
    (h : commaTail f as ++ close :: rest = commaTail f bs ++ close :: rest') :
    as = bs ∧ rest = rest' := by
  have hcomma : close ≠ ',' := by
    rintro rfl
    simp at hclose
  induction as generalizing bs with
  | nil =>
    cases bs with
    | nil => simpa [commaTail] using h
    | cons b bs => simp [commaTail, hcomma] at h
  | cons a as ih =>
    cases bs with
    | nil => simp [commaTail, hcomma.symm] at h
    | cons b bs =>
      have hhead : f a ++ (commaTail f as ++ close :: rest) =
          f b ++ (commaTail f bs ++ close :: rest') := by
        simpa [commaTail] using h
      obtain ⟨rfl, htail⟩ := hf a mem_cons_self b _ _ (stops_commaTail hclose as rest)
        (stops_commaTail hclose bs rest') hhead
      obtain ⟨rfl, hrest⟩ := ih (fun c hc => hf c (mem_cons_of_mem a hc)) htail
      exact ⟨rfl, hrest⟩

/-- Texts with commas between them and a bracket at the end stand for one list. -/
lemma commas_unambiguous (hclose : close ∈ [']', '\x7d'])
    (hhead : ∀ a rest, (f a ++ rest).head? ≠ some close) (hf : ∀ a ∈ as, Unambiguous f a)
    (h : intercalate [','] (as.map f) ++ close :: rest =
      intercalate [','] (bs.map f) ++ close :: rest') : as = bs ∧ rest = rest' := by
  cases as with
  | nil =>
    cases bs with
    | nil => simpa using h
    | cons b bs =>
      rw [intercalate_map_cons, append_assoc] at h
      exact absurd (congrArg head? h).symm (hhead b _)
  | cons a as =>
    cases bs with
    | nil =>
      rw [intercalate_map_cons, append_assoc] at h
      exact absurd (congrArg head? h) (hhead a _)
    | cons b bs =>
      refine commaTail_unambiguous hclose hf ?_
      rw [intercalate_map_cons, intercalate_map_cons] at h
      simpa [commaTail] using h

/-! ## The text of a value -/

/-- How the text of a value starts. -/
def Starts : Json → Char → Prop
  | .null, c => c = 'n'
  | .boolean b, c => c = if b then 't' else 'f'
  | .number _, c => IsNumberChar c
  | .string _, c => c = '\x22'
  | .array _, c => c = '['
  | .object _, c => c = '\x7b'

lemma starts_render (v : Json) : ∃ c rest, v.render = c :: rest ∧ v.Starts c := by
  cases v with
  | null => exact ⟨_, _, rfl, rfl⟩
  | boolean b => cases b <;> exact ⟨_, _, rfl, rfl⟩
  | string s => exact ⟨_, _, rfl, rfl⟩
  | array items | object pairs => exact ⟨_, _, by rw [render], rfl⟩
  | number x =>
    obtain ⟨c, rest, heq⟩ := exists_cons_of_ne_nil x.toText_ne_nil
    exact ⟨c, rest, by rw [render, heq], x.toText_chars c (by simp [heq])⟩

inductive Kind
  | null
  | boolean
  | number
  | string
  | array
  | object

def kind : Json → Kind
  | .null => .null
  | .boolean _ => .boolean
  | .number _ => .number
  | .string _ => .string
  | .array _ => .array
  | .object _ => .object

/-- The kind of the values that start with a character. -/
def kindOf (c : Char) : Kind :=
  if c = 'n' then .null
  else if c = 't' ∨ c = 'f' then .boolean
  else if c = '\x22' then .string
  else if c = '[' then .array
  else if c = '\x7b' then .object
  else .number

lemma kindOf_starts (h : v.Starts c) : kindOf c = v.kind := by
  cases v with
  | number x =>
    have hne : ∀ d, ¬ IsNumberChar d → c ≠ d := by
      rintro d hd rfl
      exact hd h
    simp [kindOf, kind, hne 'n' (by simp [IsNumberChar]), hne 't' (by simp [IsNumberChar]),
      hne 'f' (by simp [IsNumberChar]), hne '\x22' (by simp [IsNumberChar]),
      hne '[' (by simp [IsNumberChar]), hne '\x7b' (by simp [IsNumberChar])]
  | boolean b => cases b <;> cases h <;> rfl
  | _ =>
    cases h
    rfl

lemma same_kind {w : Json} (h : v.render ++ rest = w.render ++ rest') : v.kind = w.kind := by
  obtain ⟨c, tail, hv, hc⟩ := starts_render v
  obtain ⟨d, tail', hw, hd⟩ := starts_render w
  rw [hv, hw, cons_append, cons_append, cons.injEq] at h
  rw [← kindOf_starts hc, ← kindOf_starts hd, h.1]

lemma head_render_ne (h : c ∈ [']', '\x7d']) (rest : List Char) :
    (v.render ++ rest).head? ≠ some c := by
  obtain ⟨d, tail, hv, hd⟩ := starts_render v
  rw [hv, cons_append, head?_cons]
  intro heq
  simp only [mem_cons, not_mem_nil, or_false] at h
  cases v with
  | boolean b => rcases h with rfl | rfl <;> cases heq <;> cases b <;> simp [Starts] at hd
  | _ => rcases h with rfl | rfl <;> cases heq <;> simp [Starts, IsNumberChar] at hd

lemma renderPair_unambiguous {pair : Utf16 × Json} (h : Unambiguous render pair.2) :
    Unambiguous renderPair pair := by
  intro pair' rest rest' hstops hstops' heq
  simp only [renderPair, append_assoc, cons_append] at heq
  obtain ⟨hkey, htail⟩ := quoteString_unambiguous heq
  simp only [cons.injEq, true_and] at htail
  obtain ⟨hvalue, hrest⟩ := h pair'.2 rest rest' hstops hstops' htail
  exact ⟨Prod.ext hkey hvalue, hrest⟩

lemma numberText_unambiguous {P : Char → Prop} {xs ys : List Char} (hxs : ∀ c ∈ xs, P c)
    (hys : ∀ c ∈ ys, P c) (hrest : ∀ c ∈ rest.head?, ¬ P c) (hrest' : ∀ c ∈ rest'.head?, ¬ P c)
    (h : xs ++ rest = ys ++ rest') : xs = ys ∧ rest = rest' := by
  induction xs generalizing ys with
  | nil =>
    cases ys with
    | nil => exact ⟨rfl, h⟩
    | cons y ys =>
      rw [nil_append] at h
      exact absurd (hys y mem_cons_self) (hrest y (by simp [h]))
  | cons x xs ih =>
    cases ys with
    | nil =>
      rw [nil_append] at h
      exact absurd (hxs x mem_cons_self) (hrest' x (by simp [← h]))
    | cons y ys =>
      simp only [cons_append, cons.injEq] at h
      obtain ⟨rfl, h⟩ := h
      obtain ⟨rfl, hrest⟩ := ih (fun c hc => hxs c (mem_cons_of_mem x hc))
        (fun c hc => hys c (mem_cons_of_mem x hc)) h
      exact ⟨rfl, hrest⟩

lemma Stops.not_number (h : Stops rest) : ∀ c ∈ rest.head?, ¬ IsNumberChar c := by
  intro c hc hnumber
  have hmem := h c hc
  simp only [mem_cons, not_mem_nil, or_false] at hmem
  rcases hmem with rfl | rfl | rfl <;> simp [IsNumberChar] at hnumber

/-- **The text of a value**, followed by a delimiter, stands for that value only. -/
lemma render_unambiguous (v : Json) : Unambiguous render v := by
  induction v using nested with
  | null =>
    intro w rest rest' _ _ h
    have hkind := same_kind h
    cases w with
    | null => exact ⟨rfl, append_cancel_left h⟩
    | _ => cases hkind
  | boolean b =>
    intro w rest rest' _ _ h
    have hkind := same_kind h
    cases w with
    | boolean b' => cases b <;> cases b' <;> simp [render] at h ⊢ <;> exact h
    | _ => cases hkind
  | number x =>
    intro w rest rest' hstops hstops' h
    have hkind := same_kind h
    cases w with
    | number y =>
      rw [render, render] at h
      obtain ⟨htext, hrest⟩ := numberText_unambiguous x.toText_chars y.toText_chars
        hstops.not_number hstops'.not_number h
      rw [Binary64.toText_injective htext]
      exact ⟨rfl, hrest⟩
    | _ => cases hkind
  | string s =>
    intro w rest rest' _ _ h
    have hkind := same_kind h
    cases w with
    | string t =>
      rw [render, render] at h
      obtain ⟨rfl, hrest⟩ := quoteString_unambiguous h
      exact ⟨rfl, hrest⟩
    | _ => cases hkind
  | array items ih =>
    intro w rest rest' _ _ h
    have hkind := same_kind h
    cases w with
    | array items' =>
      simp only [render, renderItems_eq, cons_append, append_assoc,
        nil_append, cons.injEq, true_and] at h
      obtain ⟨rfl, hrest⟩ := commas_unambiguous (by simp)
        (fun v rest => head_render_ne (by simp) rest) ih h
      exact ⟨rfl, hrest⟩
    | _ => cases hkind
  | object pairs ih =>
    intro w rest rest' _ _ h
    have hkind := same_kind h
    cases w with
    | object pairs' =>
      simp only [render, renderPairs_eq, cons_append, append_assoc,
        nil_append, cons.injEq, true_and] at h
      obtain ⟨rfl, hrest⟩ := commas_unambiguous (by simp)
        (fun pair rest => by simp [renderPair, quoteString])
        (fun pair hpair => renderPair_unambiguous (ih pair hpair)) h
      exact ⟨rfl, hrest⟩
    | _ => cases hkind

/-- **Different values have different texts.** -/
lemma render_injective : Function.Injective render := by
  intro v w h
  have hstops : Stops [] := by simp [Stops]
  exact (render_unambiguous v w [] [] hstops hstops (by rw [h])).1

end Json

end Dkg.Lib
