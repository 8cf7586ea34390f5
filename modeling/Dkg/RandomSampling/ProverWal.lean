import Dkg.Lib.JsonText
import Dkg.Lib.Machine
import Dkg.Lib.Utf8
import Dkg.Publisher.NQuads

/-! # The log of the prover

An append writes one line at the end of the file, and a crash in the middle leaves a start of the
line. The next open does not read such a line (`load_torn`), but it does not end it either: a later
append goes on in the same line, and both are lost with it (`wal_loses_appended`). While no append
begins in an unfinished line, the file is whole lines and perhaps the start of one more
(`WholeLines`), and every entry whose append has returned is there after each open (`wal_durable`).

What a number in the file stands for is a parameter: no entry has one.
-/

namespace Dkg.ProverWal

open Lib List Utf8 Option

/-! ## Entries -/

inductive ProverPeriodStatus
  | started
  | challenge
  | extracted
  | built
  | submitted
  | confirmed
  | failed

def ProverPeriodStatus.text : ProverPeriodStatus → List Char
  | .started => "started".toList
  | .challenge => "challenge".toList
  | .extracted => "extracted".toList
  | .built => "built".toList
  | .submitted => "submitted".toList
  | .confirmed => "confirmed".toList
  | .failed => "failed".toList

structure WalError where
  (code message : Utf16)

structure ProverWalEntry where
  (ts epoch periodStartBlock identityId : Utf16)
  status : ProverPeriodStatus
  (kcId cgId chunkId txHash : Option Utf16)
  error : Option WalError

open ProverWalEntry

def field (key : List Char) (value : Json) : Utf16 × Json := (utf16 key, value)

def textField (key : List Char) (value : Utf16) : Utf16 × Json := field key (.string value)

def WalError.toJson (e : WalError) : Json :=
  .object [textField "code".toList e.code, textField "message".toList e.message]

/-- The pairs of an entry; a field that is not set has none. -/
def ProverWalEntry.pairs (e : ProverWalEntry) : List (Utf16 × Json) :=
  [textField "ts".toList e.ts, textField "epoch".toList e.epoch,
    textField "periodStartBlock".toList e.periodStartBlock,
    textField "identityId".toList e.identityId, textField "status".toList (utf16 e.status.text)] ++
    (e.kcId.map (textField "kcId".toList)).toList ++
    (e.cgId.map (textField "cgId".toList)).toList ++
    (e.chunkId.map (textField "chunkId".toList)).toList ++
    (e.txHash.map (textField "txHash".toList)).toList ++
    (e.error.map fun err => field "error".toList err.toJson).toList

def ProverWalEntry.toJson (e : ProverWalEntry) : Json := .object e.pairs

structure PeriodKey where
  (epoch periodStartBlock identityId : ℤ)

/-- A property of what a line was read as; of two pairs with one key, the last counts. -/
def property (key : List Char) : Json → Option Json
  | .object pairs => (pairs.reverse.find? fun pair => pair.1 = utf16 key).map Prod.snd
  | _ => none

/-- `entry[key] === n.toString()`. -/
def hasText (key : List Char) (n : ℤ) (entry : Json) : Bool :=
  match property key entry with
  | some (.string s) => decide (s = utf16 (toString n).toList)
  | _ => false

def periodKeyMatches (key : PeriodKey) (entry : Json) : Bool :=
  hasText "epoch".toList key.epoch entry &&
    hasText "periodStartBlock".toList key.periodStartBlock entry &&
    hasText "identityId".toList key.identityId entry

/-- The loop of `latestFor`, from the entry before `i` down. -/
def latestBefore (entries : List Json) (key : PeriodKey) : ℕ → Option Json
  | 0 => none
  | i + 1 =>
    match entries[i]? with
    | some e => if periodKeyMatches key e then some e else latestBefore entries key i
    | none => latestBefore entries key i

def latestFor (entries : List Json) (key : PeriodKey) : Option Json :=
  latestBefore entries key entries.length

/-! ## The log in memory -/

structure InMemoryProverWal where
  entries : List ProverWalEntry

def InMemoryProverWal.empty : InMemoryProverWal := ⟨[]⟩

def InMemoryProverWal.append (wal : InMemoryProverWal) (e : ProverWalEntry) : InMemoryProverWal :=
  ⟨wal.entries ++ [e]⟩

def InMemoryProverWal.readAll (wal : InMemoryProverWal) : List ProverWalEntry := wal.entries

/-! ## The log in a file -/

/-- `JSON.stringify(entry) + '\n'`. -/
def line (e : ProverWalEntry) : List Char := e.toJson.render ++ ['\n']

def readLine (numberOf : List Char → Json) (text : List Char) : Option Json :=
  if trim text = [] then none else Json.parse numberOf text

/-- The cache that `open` begins with. -/
def load (numberOf : List Char → Json) (file : List Octet) : List Json :=
  ((decode file).splitOn '\n').filterMap (readLine numberOf)

/-- How an append ended. -/
inductive Outcome
  | returned
  | cutOff

/-- The file, the cache of the open log, and the appends so far. -/
structure Node where
  file : List Octet
  cache : Option (List Json)
  history : List (ProverWalEntry × Outcome)

/-- An append, or a crash in the middle of one, or what stops and starts the log. -/
inductive Step
  | openLog
  | append (e : ProverWalEntry)
  /-- A crash when `n` octets of the line are written. -/
  | cut (e : ProverWalEntry) (n : ℕ)
  | crash
  | close

def exec (numberOf : List Char → Json) (s : Node) : Step → Node
  | .openLog =>
    match s.cache with
    | none => { s with cache := some (load numberOf s.file) }
    | some _ => s
  | .append e =>
    match s.cache with
    | none => s
    | some cache =>
      { file := s.file ++ encode (line e), cache := some (cache ++ [e.toJson]),
        history := s.history ++ [(e, .returned)] }
  | .cut e n =>
    match s.cache with
    | none => s
    | some _ =>
      { file := s.file ++ (encode (line e)).take n, cache := none,
        history := s.history ++ [(e, .cutOff)] }
  | .crash | .close => { s with cache := none }

/-- All runs from an empty file. -/
def machine (numberOf : List Char → Json) : Machine Node Step where
  init s := s = ⟨[], none, []⟩
  step s l s' := s' = exec numberOf s l

/-! ## What the log lists -/

/-- The log in memory has every append that returned, and some of those that were cut off. -/
inductive Recovered : List (ProverWalEntry × Outcome) → InMemoryProverWal → Prop
  | empty : Recovered [] .empty
  | listed {h : List (ProverWalEntry × Outcome)} {wal : InMemoryProverWal} (e : ProverWalEntry)
      (o : Outcome) : Recovered h wal → Recovered (h ++ [(e, o)]) (wal.append e)
  | lost {h : List (ProverWalEntry × Outcome)} {wal : InMemoryProverWal} (e : ProverWalEntry) :
      Recovered h wal → Recovered (h ++ [(e, .cutOff)]) wal

/-- What an open log lists. -/
def Durable (s : Node) : Prop :=
  ∀ cache, s.cache = some cache →
    (∃ wal, Recovered s.history wal ∧ cache = wal.readAll.map toJson) ∧
      ∀ key, latestFor cache key = (cache.filter (periodKeyMatches key)).getLast?

def AtLineStart (s : Node) : Step → Prop
  | .append _ | .cut _ _ => ∀ b ∈ s.file.getLast?, b.val = 10
  | _ => True

instance decidableAtLineStart (s : Node) : (l : Step) → Decidable (AtLineStart s l)
  | .append _ | .cut _ _ => inferInstanceAs (Decidable (∀ b ∈ s.file.getLast?, b.val = 10))
  | .openLog | .crash | .close => instDecidableTrue

/-! ## The last entry of a period -/

lemma latestBefore_eq (entries : List Json) (key : PeriodKey) (n : ℕ) :
    latestBefore entries key n =
      ((entries.take n).filter (periodKeyMatches key)).getLast? := by
  induction n with
  | zero => rfl
  | succ n ih =>
    rw [latestBefore]
    cases hget : entries[n]? with
    | none =>
      have hle : entries.length ≤ n := getElem?_eq_none_iff.mp hget
      simp only [ih]
      rw [take_of_length_le hle, take_of_length_le (by omega)]
    | some e =>
      simp only [ih]
      rw [take_add_one, hget, toList_some, filter_append]
      by_cases hmatches : periodKeyMatches key e = true
      · simp [hmatches]
      · simp [hmatches]

/-- **`latestFor`** is the last entry of the period. -/
lemma latestFor_eq (entries : List Json) (key : PeriodKey) :
    latestFor entries key = (entries.filter (periodKeyMatches key)).getLast? := by
  rw [latestFor, latestBefore_eq, take_length]

/-! ## Lines -/

variable {numberOf : List Char → Json} {e : ProverWalEntry} {es : List ProverWalEntry} {n : ℕ}
  {s : Node}

lemma numberFree_toJson (e : ProverWalEntry) : Json.NumberFree e.toJson := by
  have htext : ∀ key value, Json.NumberFree (textField key value).2 := fun key value =>
      .string value
  refine .object fun pair hpair => ?_
  simp only [pairs, mem_append, mem_cons, not_mem_nil, or_false,
    mem_toList, map_eq_some_iff] at hpair
  rcases hpair with ((((hpair | ⟨x, _, rfl⟩) | ⟨x, _, rfl⟩) | ⟨x, _, rfl⟩) | ⟨x, _, rfl⟩) |
    ⟨err, _, rfl⟩
  · rcases hpair with rfl | rfl | rfl | rfl | rfl <;> exact htext _ _
  · exact htext _ _
  · exact htext _ _
  · exact htext _ _
  · exact htext _ _
  · refine .object fun pair hpair => ?_
    simp only [mem_cons, not_mem_nil, or_false] at hpair
    rcases hpair with rfl | rfl <;> exact htext _ _

lemma lineEnd_not_mem (e : ProverWalEntry) : '\n' ∉ e.toJson.render := by
  intro hmem
  exact absurd (Json.render_printable (numberFree_toJson e) hmem) (by decide)

/-- What begins with the bracket of an object is not blank. -/
lemma readLine_cons (text : List Char) :
    readLine numberOf ('\x7b' :: text) = Json.parse numberOf ('\x7b' :: text) := by
  have hne : trim ('\x7b' :: text) ≠ [] := by
    intro hnil
    have hstart : ('\x7b' :: text).dropWhile (isWhiteSpace ·) = '\x7b' :: text :=
      dropWhile_cons_of_neg (by decide)
    rw [trim, hstart, reverse_eq_nil_iff, dropWhile_eq_nil_iff] at hnil
    exact absurd (hnil '\x7b' (by simp)) (by decide)
  rw [readLine, if_neg hne]

lemma readLine_render (e : ProverWalEntry) : readLine numberOf e.toJson.render = some e.toJson := by
  have hstart : ∃ text, e.toJson.render = '\x7b' :: text := ⟨_, by
    rw [toJson, Json.render]⟩
  obtain ⟨text, heq⟩ := hstart
  rw [heq, readLine_cons, ← heq, Json.parse_render (numberFree_toJson e)]

/-- A start of a line is read as its entry when the line lacks nothing but its end. -/
lemma readLine_torn (numberOf : List Char → Json) {k : ℕ} (hk : k < (line e).length)
    {torn : List Char}
    (htorn : torn = (line e).take k ∨ torn = (line e).take k ++ [replacement]) :
    '\n' ∉ torn ∧ (readLine numberOf torn = none ∨ readLine numberOf torn = some e.toJson) := by
  have hlength : k ≤ e.toJson.render.length := by
    rw [line, length_append, length_singleton] at hk
    omega
  have htake : (line e).take k = e.toJson.render.take k := by
    rw [line, take_append_of_le_length hlength]
  have hend : '\n' ∉ e.toJson.render.take k := fun hmem =>
    lineEnd_not_mem e (mem_of_mem_take hmem)
  rw [htake] at htorn
  rcases Nat.eq_zero_or_pos k with rfl | hpos
  · rcases htorn with rfl | rfl
    · exact ⟨not_mem_nil, .inl rfl⟩
    · rw [take_zero, nil_append]
      exact ⟨by decide, .inl rfl⟩
  obtain ⟨text, hstart⟩ : ∃ text, e.toJson.render.take k = '\x7b' :: text :=
      Json.take_render e.pairs hpos
  rcases htorn with rfl | rfl
  · refine ⟨hend, ?_⟩
    rw [hstart, readLine_cons, ← hstart]
    rcases Nat.lt_or_ge k e.toJson.render.length with hlt | hge
    · exact .inl (Json.parse_take_render (numberFree_toJson e) hlt)
    · rw [take_of_length_le hge]
      exact .inr (Json.parse_render (numberFree_toJson e))
  · refine ⟨by simpa [replacement] using hend, .inl ?_⟩
    rw [hstart, cons_append, readLine_cons, ← cons_append, ← hstart]
    exact Json.parse_take_render_append hpos (by decide) (by decide)

/-! ## Loading -/

lemma splitOn_lines {texts : List (List Char)} {torn : List Char}
    (hlines : ∀ text ∈ texts, '\n' ∉ text) (htorn : '\n' ∉ torn) :
    ((texts.flatMap fun text => text ++ ['\n']) ++ torn).splitOn '\n' = texts ++ [torn] := by
  have hjoin : ∀ texts : List (List Char), (texts.flatMap fun text => text ++ ['\n']) ++ torn =
      ['\n'].intercalate (texts ++ [torn]) := by
    intro texts
    induction texts with
    | nil => simp
    | cons text texts ih =>
      obtain ⟨next, rest, heq⟩ := exists_cons_of_ne_nil (append_ne_nil_of_right_ne_nil
        texts (cons_ne_nil torn []))
      have hcons : text :: texts ++ [torn] = text :: next :: rest := by
        rw [cons_append, heq]
      rw [hcons, intercalate_cons_cons, ← heq, ← ih]
      simp
  rw [hjoin, splitOn_intercalate]
  · exact forall_mem_append.mpr ⟨hlines, forall_mem_singleton.mpr htorn⟩
  · simp

lemma filterMap_readLine (es : List ProverWalEntry) :
    (es.map fun e => e.toJson.render).filterMap (readLine numberOf) =
      es.map toJson := by
  induction es with
  | nil => rfl
  | cons e es ih => rw [map_cons, filterMap_cons_some (readLine_render e), ih, map_cons]

/-- Whole lines, with the start of one more. -/
def fileOf (es : List ProverWalEntry) (torn : List Octet) : List Octet :=
  encode (es.flatMap line) ++ torn

variable {torn : List Octet} {h : List (ProverWalEntry × Outcome)}

/-- Whole lines are read, and from what follows them the entry that it is, if any. -/
lemma load_fileOf (hend : '\n' ∉ decode torn) :
    load numberOf (fileOf es torn) =
      es.map toJson ++ (readLine numberOf (decode torn)).toList := by
  have hlines : es.flatMap line =
      (es.map fun e => e.toJson.render).flatMap fun text => text ++ ['\n'] := by
    rw [flatMap_map]
    rfl
  rw [load, fileOf, decode_encode_append, hlines, splitOn_lines _ hend, filterMap_append,
    filterMap_readLine]
  · cases hread : readLine numberOf (decode torn) <;> simp [hread]
  · intro text htext
    obtain ⟨e, _, rfl⟩ := mem_map.mp htext
    exact lineEnd_not_mem e

lemma load_whole (es : List ProverWalEntry) : load numberOf (fileOf es []) = es.map toJson := by
  rw [load_fileOf not_mem_nil]
  exact append_nil _

/-- **A start of a line** is read as its entry or not at all. -/
lemma load_torn (numberOf : List Char → Json) (es : List ProverWalEntry)
    (hn : n < (encode (line e)).length) :
    load numberOf (fileOf es ((encode (line e)).take n)) = es.map toJson ∨
      load numberOf (fileOf es ((encode (line e)).take n)) =
        (es ++ [e]).map toJson := by
  obtain ⟨k, hk, hdecode⟩ := decode_take_encode (line e) n hn
  obtain ⟨hend, hread⟩ := readLine_torn numberOf hk hdecode
  rw [load_fileOf hend]
  rcases hread with hread | hread
  · refine .inl ?_
    rw [hread]
    exact append_nil _
  · refine .inr ?_
    rw [hread, map_append]
    rfl

/-! ## Runs -/

/-- The line of an append that was cut off, as far as it is in the file. -/
inductive Torn : List (ProverWalEntry × Outcome) → List ProverWalEntry → List Octet → Prop
  | none {h : List (ProverWalEntry × Outcome)} {es : List ProverWalEntry} :
      Recovered h ⟨es⟩ → Torn h es []
  | start {h : List (ProverWalEntry × Outcome)} {es : List ProverWalEntry} {e : ProverWalEntry}
      {n : ℕ} : Recovered h ⟨es⟩ → 0 < n → n < (encode (line e)).length →
        Torn (h ++ [(e, .cutOff)]) es ((encode (line e)).take n)

/-- **The invariant.** The file is whole lines and perhaps the start of one more, and an open log
lists what an append may follow. -/
def WholeLines (s : Node) : Prop :=
  ∃ es torn, s.file = fileOf es torn ∧ Torn s.history es torn ∧
    ∀ cache, s.cache = some cache → (torn = [] → cache = es.map toJson) ∧
      ∃ wal, Recovered s.history wal ∧ cache = wal.readAll.map toJson

lemma fileOf_append (e : ProverWalEntry) :
    fileOf es [] ++ encode (line e) = fileOf (es ++ [e]) [] := by
  simp [fileOf, encode]

lemma getLast_torn (es : List ProverWalEntry) (hpos : 0 < n) (hn : n < (encode (line e)).length) :
    ∃ b ∈ (fileOf es ((encode (line e)).take n)).getLast?, b.val ≠ 10 := by
  have hline : encode (line e) = encode e.toJson.render ++ [10] := by
    rw [line, encode, flatMap_append]
    rfl
  have hlength : n ≤ (encode e.toJson.render).length := by
    rw [hline, length_append, length_singleton] at hn
    omega
  have htake : (encode (line e)).take n = (encode e.toJson.render).take n := by
    rw [hline, take_append_of_le_length hlength]
  have hne : (encode e.toJson.render).take n ≠ [] := by
    intro hnil
    have hzero := congrArg length hnil
    rw [length_take_of_le hlength, length_nil] at hzero
    omega
  rw [htake, fileOf, getLast?_append_of_ne_nil _ hne, getLast?_eq_some_getLast hne]
  refine ⟨_, rfl, fun hlast => ?_⟩
  have hmem := mem_of_mem_take (getLast_mem hne)
  obtain ⟨c, hc, hoctet⟩ := mem_flatMap.mp hmem
  have hnewline : c = '\n' := by
    rw [← Char.ofNat_toNat c, toNat_of_mem_encodeChar hoctet (by omega), hlast]
  exact lineEnd_not_mem e (hnewline ▸ hc)

/-- Where a line may start, no line is unfinished. -/
lemma Torn.at_lineStart (htorn : Torn h es torn)
    (hstart : ∀ b ∈ (fileOf es torn).getLast?, b.val = 10) : torn = [] ∧ Recovered h ⟨es⟩ := by
  cases htorn with
  | none hrecovered => exact ⟨rfl, hrecovered⟩
  | start _ hpos hn =>
    obtain ⟨b, hb, hne⟩ := getLast_torn es hpos hn
    exact absurd (hstart b hb) hne

lemma Torn.load (htorn : Torn h es torn) :
    (torn = [] → load numberOf (fileOf es torn) = es.map toJson) ∧
      ∃ wal, Recovered h wal ∧
        load numberOf (fileOf es torn) = wal.readAll.map toJson := by
  cases htorn with
  | none hrecovered => exact ⟨fun _ => load_whole es, ⟨es⟩, hrecovered, load_whole es⟩
  | @start h _ e n hrecovered hpos hn =>
    refine ⟨fun hnil => ?_, ?_⟩
    · have hlength := congrArg length hnil
      rw [length_take_of_le hn.le, length_nil] at hlength
      omega
    · rcases load_torn numberOf es hn with hload | hload
      · exact ⟨⟨es⟩, hrecovered.lost e, hload⟩
      · exact ⟨⟨es ++ [e]⟩, hrecovered.listed e .cutOff, hload⟩

lemma WholeLines.openLog (numberOf : List Char → Json) (h : WholeLines s) :
    WholeLines { s with cache := some (load numberOf s.file) } := by
  obtain ⟨es, torn, hfile, htorn, _⟩ := h
  refine ⟨es, torn, hfile, htorn, ?_⟩
  intro cache hcache
  cases hcache
  rw [hfile]
  exact htorn.load

lemma WholeLines.append (h : WholeLines s) (hstart : ∀ b ∈ s.file.getLast?, b.val = 10)
    (e : ProverWalEntry) {cache : List Json} (hcache : s.cache = some cache) :
    WholeLines ⟨s.file ++ encode (line e), some (cache ++ [e.toJson]),
      s.history ++ [(e, .returned)]⟩ := by
  obtain ⟨es, torn, hfile, htorn, hlists⟩ := h
  obtain ⟨rfl, hrecovered⟩ := htorn.at_lineStart (hfile ▸ hstart)
  have hmore : Recovered (s.history ++ [(e, .returned)]) ⟨es ++ [e]⟩ :=
      hrecovered.listed e .returned
  refine ⟨es ++ [e], [], ?_, .none hmore, ?_⟩
  · rw [hfile, fileOf_append]
  · intro cache' hcache'
    cases hcache'
    rw [(hlists cache hcache).1 rfl]
    have hmap : es.map toJson ++ [e.toJson] =
        (es ++ [e]).map toJson := by
      rw [map_append]
      rfl
    exact ⟨fun _ => hmap, ⟨es ++ [e]⟩, hmore, hmap⟩

lemma WholeLines.cut (h : WholeLines s) (hstart : ∀ b ∈ s.file.getLast?, b.val = 10)
    (e : ProverWalEntry) (n : ℕ) :
    WholeLines ⟨s.file ++ (encode (line e)).take n, none,
      s.history ++ [(e, .cutOff)]⟩ := by
  obtain ⟨es, torn, hfile, htorn, _⟩ := h
  obtain ⟨rfl, hrecovered⟩ := htorn.at_lineStart (hfile ▸ hstart)
  rcases Nat.lt_or_ge n (encode (line e)).length with hlt | hge
  · rcases Nat.eq_zero_or_pos n with rfl | hpos
    · refine ⟨es, [], ?_, .none (hrecovered.lost e), fun cache hcache => by cases hcache⟩
      rw [hfile, take_zero, append_nil]
    · refine ⟨es, _, ?_, .start hrecovered hpos hlt, fun cache hcache => by cases hcache⟩
      rw [hfile, fileOf, fileOf, append_nil]
  · refine ⟨es ++ [e], [], ?_, .none (hrecovered.listed e .cutOff),
      fun cache hcache => by cases hcache⟩
    rw [hfile, take_of_length_le hge, fileOf_append]

lemma WholeLines.exec (h : WholeLines s) (l : Step) (hstart : AtLineStart s l) :
    WholeLines (exec numberOf s l) := by
  have hclosed : WholeLines { s with cache := none } := by
    obtain ⟨es, torn, hfile, htorn, _⟩ := h
    exact ⟨es, torn, hfile, htorn, fun cache hcache => by cases hcache⟩
  cases l with
  | openLog =>
    cases hcache : s.cache with
    | none => simpa only [ProverWal.exec, hcache] using h.openLog numberOf
    | some cache => simpa only [ProverWal.exec, hcache] using h
  | append e =>
    cases hcache : s.cache with
    | none => simpa only [ProverWal.exec, hcache] using h
    | some cache => simpa only [ProverWal.exec, hcache] using h.append hstart e hcache
  | cut e n =>
    cases hcache : s.cache with
    | none => simpa only [ProverWal.exec, hcache] using h
    | some cache => simpa only [ProverWal.exec, hcache] using h.cut hstart e n
  | crash => exact hclosed
  | close => exact hclosed

/-- **Durability.** While every append begins at the start of a line, an open log lists the appends
that returned, in their order, and besides them at most some of those that a crash cut off. -/
theorem wal_durable (numberOf : List Char → Json) (s : Node)
    (h : ((machine numberOf).restrict AtLineStart).Reachable s) : Durable s := by
  have hinv : WholeLines s := by
    refine Machine.Reachable.invariant ?_ ?_ h
    · rintro s rfl
      exact ⟨[], [], rfl, .none .empty, fun cache hcache => by cases hcache⟩
    · rintro s l s' hs ⟨hstart, rfl⟩
      exact hs.exec l hstart
  obtain ⟨es, torn, _, _, hlists⟩ := hinv
  intro cache hcache
  exact ⟨(hlists cache hcache).2, latestFor_eq cache⟩

def startedEntry : ProverWalEntry :=
  ⟨[], utf16 ['7'], utf16 ['4'], utf16 ['1'], .started, none, none, none, none, none⟩

/-- The states of the runs below; no line of theirs has a number. -/
def after (ls : List Step) : Node := ls.foldl (exec fun _ => .null) ⟨[], none, []⟩

/-- A crash while nothing of a line is written. -/
def keptRun : List Step :=
  [.openLog, .append startedEntry, .cut startedEntry 0, .openLog, .append startedEntry, .crash,
    .openLog]

/-- Both appends are there after the crashes. -/
theorem wal_durable_kept : Durable (after keptRun) ∧
    (after keptRun).cache.map List.length = some 2 := by
  refine ⟨wal_durable (fun _ => .null) _ ?_, by decide +kernel⟩
  have hinit : ((machine fun _ => .null).restrict AtLineStart).Reachable ⟨[], none, []⟩ := .init rfl
  have hallowed : Machine.Allowed AtLineStart (exec fun _ => .null) keptRun ⟨[], none, []⟩ := by
    decide +kernel
  refine Machine.Reachable.foldl ?_ hinit hallowed
  intro s l hstart
  exact ⟨hstart, rfl⟩

/-! ## An append that is lost -/

lemma Recovered.of_returned {wal : InMemoryProverWal}
    (hrecovered : Recovered (h ++ [(e, .returned)]) wal) :
    ∃ wal' : InMemoryProverWal, wal = wal'.append e := by
  generalize hlist : h ++ [(e, Outcome.returned)] = h' at hrecovered
  cases hrecovered with
  | empty => simp at hlist
  | @listed h wal e' o _ =>
    obtain ⟨_, hlast⟩ := append_inj' hlist rfl
    cases hlast
    exact ⟨wal, rfl⟩
  | lost e' _ =>
    obtain ⟨_, hlast⟩ := append_inj' hlist rfl
    cases hlast

/-- A line that breaks off after five octets, and an append after the next open. -/
def lostRun : List Step :=
  [.openLog, .cut startedEntry 5, .openLog, .append startedEntry, .crash, .openLog]

/-- **An append after a crash** is in the line that the crash left unfinished: the log that is
opened next does not list it. -/
theorem wal_loses_appended :
    (machine fun _ => .null).Reachable (after lostRun) ∧ ¬ Durable (after lostRun) := by
  refine ⟨?_, fun hdurable => ?_⟩
  · have hinit : (machine fun _ => .null).Reachable ⟨[], none, []⟩ := .init rfl
    exact Machine.Reachable.foldl (C := fun _ _ => True) (fun _ _ _ => rfl) hinit
      (by simp [lostRun, Machine.Allowed])
  · have hlength : (after lostRun).cache.map List.length = some 0 := by decide +kernel
    obtain ⟨cache, hcache, hzero⟩ := map_eq_some_iff.mp hlength
    obtain ⟨⟨wal, hrecovered, hlists⟩, _⟩ := hdurable cache hcache
    obtain ⟨wal', rfl⟩ := Recovered.of_returned (h := [(startedEntry, .cutOff)]) hrecovered
    rw [hlists] at hzero
    simp [InMemoryProverWal.readAll, InMemoryProverWal.append] at hzero

end Dkg.ProverWal
