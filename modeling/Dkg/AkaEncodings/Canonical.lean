import Dkg.AttestedAssets.Model
import Dkg.Lib.Json

/-! # Canonical JSON

`canonicalJsonEncode` of `attested-assets/src/canonical.ts`, with what it signs. A value is a
`JsValue`; the JSON value that it stands for (`JsValue.json`) has the keys of its objects in order,
without those whose value is undefined.

The encoding of values that are JSON is injective up to that (`canonicalJsonEncode_eq_iff`).
-/

namespace Dkg.Aka.Encoding

open Lib List

/-! ## Values -/

inductive JsNumber
  | nan
  | infinity (negative : Bool)
  | negativeZero
  | finite (x : Binary64)
  deriving DecidableEq

def JsNumber.value : JsNumber → Option ℚ
  | .nan => none
  | .infinity _ => none
  | .negativeZero => some 0
  | .finite x => some x.value

/-- How `canonicalJsonEncode` writes a number. -/
def JsNumber.text : JsNumber → List Char
  | .nan => "null".toList
  | .infinity _ => "null".toList
  | .negativeZero => "0".toList
  | .finite x => x.toText

/-- A value of the source; `other` is a bigint, symbol or function, with its text. -/
inductive JsValue
  | undefined
  | null
  | boolean (b : Bool)
  | number (x : JsNumber)
  | string (s : Utf16)
  | array (items : List JsValue)
  | object (pairs : List (Utf16 × JsValue))
  | other (shown : List Char)

def JsValue.isUndefined : JsValue → Bool
  | .undefined => true
  | _ => false

/-- The order of the keys, by their code units. -/
def keyLe {α : Type} (p q : Utf16 × α) : Bool := p.1 ≤ q.1

/-- The keys with a value, in order. -/
def definedPairs {α : Type} (pairs : List (Utf16 × Option α)) : List (Utf16 × α) :=
  (pairs.mergeSort keyLe).filterMap fun pair => pair.2.map (pair.1, ·)

mutual

def canonicalJsonEncode : JsValue → List Char
  | .undefined => "null".toList
  | .null => "null".toList
  | .boolean b => if b then "true".toList else "false".toList
  | .number x => x.text
  | .string s => quoteString s
  | .array items => '[' :: (List.intercalate [','] (encodeItems items) ++ [']'])
  | .object pairs =>
    '\x7b' :: (List.intercalate [','] ((definedPairs (encodePairs pairs)).map fun pair =>
      quoteString pair.1 ++ ':' :: pair.2) ++ ['\x7d'])
  | .other shown => shown

def encodeItems : List JsValue → List (List Char)
  | [] => []
  | v :: rest => canonicalJsonEncode v :: encodeItems rest

def encodePairs : List (Utf16 × JsValue) → List (Utf16 × Option (List Char))
  | [] => []
  | (key, v) :: rest =>
    (key, if v.isUndefined then none else some (canonicalJsonEncode v)) :: encodePairs rest

end

namespace JsValue

lemma nested {P : JsValue → Prop} (undefined : P .undefined) (null : P .null)
    (boolean : ∀ b, P (.boolean b)) (number : ∀ x, P (.number x)) (string : ∀ s, P (.string s))
    (array : ∀ items, (∀ v ∈ items, P v) → P (.array items))
    (object : ∀ pairs, (∀ pair ∈ pairs, P pair.2) → P (.object pairs))
    (other : ∀ shown, P (.other shown)) : ∀ v, P v
  | .undefined => undefined
  | .null => null
  | .boolean b => boolean b
  | .number x => number x
  | .string s => string s
  | .array items => array items fun v hv =>
    have := sizeOf_lt_of_mem hv
    nested undefined null boolean number string array object other v
  | .object pairs => object pairs fun pair hpair =>
    have := sizeOf_lt_of_mem hpair
    nested undefined null boolean number string array object other pair.2
  | .other shown => other shown
termination_by v => sizeOf v
decreasing_by
  all_goals
    simp_wf
    first
    | omega
    | (cases pair; simp_all; omega)

/-! ## The JSON value that a value stands for -/

/-- A number that is not finite is written as `null`. -/
def numberJson : JsNumber → Json
  | .nan => .null
  | .infinity _ => .null
  | .negativeZero => .number (Binary64.ofNat 0 (by norm_num))
  | .finite x => .number x

mutual

def json : JsValue → Json
  | .undefined => .null
  | .null => .null
  | .boolean b => .boolean b
  | .number x => numberJson x
  | .string s => .string s
  | .array items => .array (jsonItems items)
  | .object pairs => .object (definedPairs (jsonPairs pairs))
  | .other _ => .null

def jsonItems : List JsValue → List Json
  | [] => []
  | v :: rest => v.json :: jsonItems rest

def jsonPairs : List (Utf16 × JsValue) → List (Utf16 × Option Json)
  | [] => []
  | (key, v) :: rest => (key, if v.isUndefined then none else some v.json) :: jsonPairs rest

end

mutual

/-- A value without values of other types. -/
def Plain : JsValue → Prop
  | .array items => PlainItems items
  | .object pairs => PlainPairs pairs
  | .other _ => False
  | _ => True

def PlainItems : List JsValue → Prop
  | [] => True
  | v :: rest => v.Plain ∧ PlainItems rest

def PlainPairs : List (Utf16 × JsValue) → Prop
  | [] => True
  | (_, v) :: rest => v.Plain ∧ PlainPairs rest

end

mutual

/-- A JSON value: numbers are finite, keys are distinct, and nothing but the value of a key is
undefined. -/
def IsJson : JsValue → Prop
  | .null | .boolean _ | .number .negativeZero | .number (.finite _) | .string _ => True
  | .array items => JsonItems items
  | .object pairs => (pairs.map Prod.fst).Nodup ∧ JsonPairs pairs
  | _ => False

def JsonItems : List JsValue → Prop
  | [] => True
  | v :: rest => v.IsJson ∧ JsonItems rest

def JsonPairs : List (Utf16 × JsValue) → Prop
  | [] => True
  | (_, v) :: rest => (v.isUndefined = false → v.IsJson) ∧ JsonPairs rest

end

variable {items : List JsValue} {pairs : List (Utf16 × JsValue)} {v : JsValue}

lemma plainItems_iff : PlainItems items ↔ ∀ v ∈ items, v.Plain := by
  induction items with
  | nil => simp [PlainItems]
  | cons v rest ih => simp [PlainItems, ih]

lemma plainPairs_iff : PlainPairs pairs ↔ ∀ pair ∈ pairs, pair.2.Plain := by
  induction pairs with
  | nil => simp [PlainPairs]
  | cons pair rest ih => simp [PlainPairs, ih]

lemma jsonItems_iff : JsonItems items ↔ ∀ v ∈ items, v.IsJson := by
  induction items with
  | nil => simp [JsonItems]
  | cons v rest ih => simp [JsonItems, ih]

lemma jsonPairs_iff :
    JsonPairs pairs ↔ ∀ pair ∈ pairs, pair.2.isUndefined = false → pair.2.IsJson := by
  induction pairs with
  | nil => simp [JsonPairs]
  | cons pair rest ih => simp [JsonPairs, ih]

lemma IsJson.plain (h : v.IsJson) : v.Plain := by
  induction v using nested with
  | array items ih => exact plainItems_iff.mpr fun v hv => ih v hv (jsonItems_iff.mp h v hv)
  | object pairs ih =>
    refine plainPairs_iff.mpr fun pair hpair => ?_
    by_cases hdefined : pair.2.isUndefined = false
    · exact ih pair hpair (jsonPairs_iff.mp h.2 pair hpair hdefined)
    · cases hvalue : pair.2 with
      | undefined => trivial
      | _ => simp [isUndefined, hvalue] at hdefined
  | other shown => exact h
  | _ => trivial

/-! ## The text of the JSON value -/

lemma encodeItems_eq (items : List JsValue) :
    encodeItems items = items.map canonicalJsonEncode := by
  induction items with
  | nil => rfl
  | cons v rest ih => rw [encodeItems, ih, map_cons]

lemma encodePairs_eq (pairs : List (Utf16 × JsValue)) :
    encodePairs pairs = pairs.map fun pair =>
      (pair.1, if pair.2.isUndefined then none else some (canonicalJsonEncode pair.2)) := by
  induction pairs with
  | nil => rfl
  | cons pair rest ih => rw [encodePairs, ih, map_cons]

lemma jsonItems_eq (items : List JsValue) : jsonItems items = items.map json := by
  induction items with
  | nil => rfl
  | cons v rest ih => rw [jsonItems, ih, map_cons]

lemma jsonPairs_eq (pairs : List (Utf16 × JsValue)) :
    jsonPairs pairs = pairs.map fun pair =>
      (pair.1, if pair.2.isUndefined then none else some pair.2.json) := by
  induction pairs with
  | nil => rfl
  | cons pair rest ih => rw [jsonPairs, ih, map_cons]

/-- What is done to the values does not change the order of the keys. -/
lemma definedPairs_map {α β : Type} (f : α → β) (pairs : List (Utf16 × Option α)) :
    definedPairs (pairs.map fun pair => (pair.1, pair.2.map f)) =
      (definedPairs pairs).map fun pair => (pair.1, f pair.2) := by
  have hsort : (pairs.map fun pair => (pair.1, pair.2.map f)).mergeSort keyLe =
      (pairs.mergeSort keyLe).map fun pair => (pair.1, pair.2.map f) :=
    (map_mergeSort (f := fun pair : Utf16 × Option α => (pair.1, pair.2.map f))
      fun _ _ _ _ => rfl).symm
  rw [definedPairs, definedPairs, hsort, filterMap_map, map_filterMap]
  refine congrArg (fun g => filterMap g (pairs.mergeSort keyLe)) ?_
  funext pair
  cases h : pair.2 <;> simp [h]

lemma numberJson_render (x : JsNumber) : (numberJson x).render = x.text := by
  cases x with
  | negativeZero =>
    rw [numberJson, Json.render]
    simp [Binary64.toText, JsNumber.text]
  | _ => simp [numberJson, Json.render, JsNumber.text]

/-- **What `canonicalJsonEncode` writes** is the text of the JSON value. -/
lemma canonicalJsonEncode_eq (h : v.Plain) : canonicalJsonEncode v = v.json.render := by
  induction v using nested with
  | number x =>
    rw [canonicalJsonEncode, json, numberJson_render]
  | array items ih =>
    have hitems : items.map canonicalJsonEncode = (items.map json).map Json.render := by
      rw [map_map]
      exact map_congr_left fun v hv => ih v hv (plainItems_iff.mp h v hv)
    rw [canonicalJsonEncode, json, Json.render, Json.renderItems_eq, jsonItems_eq,
      encodeItems_eq, hitems]
  | object pairs ih =>
    have hpairs : encodePairs pairs =
        (jsonPairs pairs).map fun pair => (pair.1, pair.2.map Json.render) := by
      rw [encodePairs_eq, jsonPairs_eq, map_map]
      refine map_congr_left fun pair hpair => ?_
      have hvalue := ih pair hpair (plainPairs_iff.mp h pair hpair)
      by_cases hdefined : pair.2.isUndefined <;> simp [hdefined, hvalue]
    rw [canonicalJsonEncode, json, Json.render, Json.renderPairs_eq, hpairs, definedPairs_map,
      map_map]
    rfl
  | other shown => exact absurd h id
  | _ => simp [canonicalJsonEncode, json, Json.render]

/-- Values have one encoding exactly if they stand for one JSON value. -/
lemma canonicalJsonEncode_eq_iff_json {w : JsValue} (hv : v.Plain) (hw : w.Plain) :
    canonicalJsonEncode v = canonicalJsonEncode w ↔ v.json = w.json := by
  rw [canonicalJsonEncode_eq hv, canonicalJsonEncode_eq hw]
  exact Json.render_injective.eq_iff

/-! ## Sameness

Two values are the same if they differ only in the order of keys, in keys whose value is undefined,
and in the sign of a zero.
-/

mutual

def Same : JsValue → JsValue → Prop
  | .undefined, w => w = .undefined
  | .null, w => w = .null
  | .boolean b, w => w = .boolean b
  | .number x, w => ∃ y, w = .number y ∧ x.value = y.value
  | .string s, w => w = .string s
  | .array items, w => ∃ items', w = .array items' ∧ SameItems items items'
  | .object pairs, w => ∃ pairs', w = .object pairs' ∧ SamePairs pairs pairs' ∧
      ∀ pair' ∈ pairs', pair'.2.isUndefined = false →
        ∃ pair ∈ pairs, pair.1 = pair'.1 ∧ pair.2.isUndefined = false
  | .other shown, w => w = .other shown

def SameItems : List JsValue → List JsValue → Prop
  | [], items' => items' = []
  | v :: rest, items' => ∃ v' rest', items' = v' :: rest' ∧ v.Same v' ∧ SameItems rest rest'

/-- Every key with a value has the same value in the other object. -/
def SamePairs : List (Utf16 × JsValue) → List (Utf16 × JsValue) → Prop
  | [], _ => True
  | (key, v) :: rest, pairs' =>
    (v.isUndefined = false → ∃ v', (key, v') ∈ pairs' ∧ v'.isUndefined = false ∧ v.Same v') ∧
      SamePairs rest pairs'

end

lemma samePairs_iff {pairs pairs' : List (Utf16 × JsValue)} :
    SamePairs pairs pairs' ↔ ∀ pair ∈ pairs, pair.2.isUndefined = false →
      ∃ v', (pair.1, v') ∈ pairs' ∧ v'.isUndefined = false ∧ pair.2.Same v' := by
  induction pairs with
  | nil => simp [SamePairs]
  | cons pair rest ih => simp [SamePairs, ih]

lemma sameItems_iff {items items' : List JsValue} :
    SameItems items items' ↔ Forall₂ Same items items' := by
  induction items generalizing items' with
  | nil => simp [SameItems]
  | cons v rest ih =>
    cases items' with
    | nil => simp [SameItems]
    | cons v' rest' => simp [SameItems, ih]

variable {α : Type} {pairs : List (Utf16 × Option α)} {key : Utf16} {v w : JsValue}

/-- What is in an object: its keys that have a value. -/
lemma mem_definedPairs {pair : Utf16 × α} :
    pair ∈ definedPairs pairs ↔ (pair.1, some pair.2) ∈ pairs := by
  simp only [definedPairs, mem_filterMap, mem_mergeSort]
  constructor
  · rintro ⟨entry, hentry, heq⟩
    obtain ⟨value, hvalue, rfl⟩ := Option.map_eq_some_iff.mp heq
    rw [← hvalue]
    exact hentry
  · exact fun h => ⟨_, h, rfl⟩

/-- The pairs of an object are in the order of their keys. -/
lemma sorted_definedPairs (h : (pairs.map Prod.fst).Nodup) :
    (definedPairs pairs).Pairwise fun p q => p.1 < q.1 := by
  have hsorted : (pairs.mergeSort keyLe).Pairwise fun p q => keyLe p q = true :=
    pairwise_mergeSort
      (fun p q r hpq hqr => by
        simp only [keyLe, decide_eq_true_eq] at *
        exact hpq.trans hqr)
      (fun p q => by
        simp only [keyLe, Bool.or_eq_true, decide_eq_true_eq]
        exact le_total _ _) pairs
  have hnodup : ((pairs.mergeSort keyLe).map Prod.fst).Nodup :=
    ((mergeSort_perm pairs keyLe).map Prod.fst).nodup_iff.mpr h
  have hstrict : (pairs.mergeSort keyLe).Pairwise fun p q => p.1 < q.1 := by
    refine (hsorted.and (pairwise_map.mp hnodup)).imp ?_
    rintro p q ⟨hle, hne⟩
    simp only [keyLe, decide_eq_true_eq] at hle
    exact lt_of_le_of_ne hle hne
  rw [definedPairs, pairwise_filterMap]
  refine hstrict.imp ?_
  intro p q hlt p' hp' q' hq'
  obtain ⟨_, _, rfl⟩ := Option.map_eq_some_iff.mp hp'
  obtain ⟨_, _, rfl⟩ := Option.map_eq_some_iff.mp hq'
  exact hlt

lemma definedPairs_ext {pairs' : List (Utf16 × Option α)} (h : (pairs.map Prod.fst).Nodup)
    (h' : (pairs'.map Prod.fst).Nodup)
    (hmem : ∀ pair : Utf16 × α, (pair.1, some pair.2) ∈ pairs ↔ (pair.1, some pair.2) ∈ pairs') :
    definedPairs pairs = definedPairs pairs' := by
  have hsorted := sorted_definedPairs h
  have hsorted' := sorted_definedPairs h'
  have hnodup : (definedPairs pairs).Nodup := hsorted.imp fun hlt heq => by
    rw [heq] at hlt
    exact lt_irrefl _ hlt
  have hnodup' : (definedPairs pairs').Nodup := hsorted'.imp fun hlt heq => by
    rw [heq] at hlt
    exact lt_irrefl _ hlt
  refine Perm.eq_of_pairwise ?_ hsorted hsorted' ?_
  · intro p q _ _ hpq hqp
    exact absurd (hpq.trans hqp) (lt_irrefl _)
  · rw [perm_ext_iff_of_nodup hnodup hnodup']
    intro pair
    rw [mem_definedPairs, mem_definedPairs, hmem]

lemma mem_jsonPairs {pairs : List (Utf16 × JsValue)} {j : Json} :
    (key, some j) ∈ jsonPairs pairs ↔
      ∃ v, (key, v) ∈ pairs ∧ v.isUndefined = false ∧ v.json = j := by
  rw [jsonPairs_eq, mem_map]
  constructor
  · rintro ⟨pair, hpair, heq⟩
    simp only [Prod.mk.injEq] at heq
    obtain ⟨rfl, hvalue⟩ := heq
    by_cases hdefined : pair.2.isUndefined = true
    · simp [hdefined] at hvalue
    · simp only [hdefined, Bool.false_eq_true, if_false, Option.some.injEq] at hvalue
      exact ⟨pair.2, hpair, by simpa using hdefined, hvalue⟩
  · rintro ⟨v, hv, hdefined, rfl⟩
    exact ⟨(key, v), hv, by simp [hdefined]⟩

lemma keys_jsonPairs (pairs : List (Utf16 × JsValue)) :
    (jsonPairs pairs).map Prod.fst = pairs.map Prod.fst := by
  rw [jsonPairs_eq, map_map]
  rfl

lemma value_inj_of_nodup {pairs : List (Utf16 × α)} (h : (pairs.map Prod.fst).Nodup) {v w : α}
    (hv : (key, v) ∈ pairs) (hw : (key, w) ∈ pairs) : v = w := by
  have := inj_on_of_nodup_map h hv hw rfl
  simpa using this

lemma json_number {x : JsNumber} (h : (number x).IsJson) :
    ∃ b, numberJson x = .number b ∧ x.value = some b.value := by
  cases x with
  | nan | infinity negative => exact absurd h id
  | negativeZero => exact ⟨_, rfl, by simp [JsNumber.value]⟩
  | finite b => exact ⟨b, rfl, rfl⟩

/-- Values that are the same stand for one JSON value, and the other way round. -/
lemma same_iff_json (hv : v.IsJson) (hw : w.IsJson) : v.Same w ↔ v.json = w.json := by
  have hnumber : ∀ {j : Json}, j.kind ≠ .number → ∀ y, (number y).IsJson → j ≠ numberJson y := by
    rintro _ hkind y hy rfl
    obtain ⟨b, hb, _⟩ := json_number hy
    exact hkind (by rw [hb]; rfl)
  induction v using nested generalizing w with
  | undefined | other shown => exact absurd hv id
  | null =>
    cases w with
    | undefined | other shown => exact absurd hw id
    | number y => simp [Same, json, hnumber (j := .null) (by simp [Json.kind]) y hw]
    | _ => simp [Same, json]
  | boolean b =>
    cases w with
    | number y => simp [Same, json, hnumber (j := .boolean b) (by simp [Json.kind]) y hw]
    | _ => simp [Same, json, eq_comm]
  | string s =>
    cases w with
    | number y => simp [Same, json, hnumber (j := .string s) (by simp [Json.kind]) y hw]
    | _ => simp [Same, json, eq_comm]
  | number x =>
    obtain ⟨a, ha, hx⟩ := json_number hv
    cases w with
    | number y =>
      obtain ⟨b, hb, hy⟩ := json_number hw
      simp only [Same, json, ha, hb, hx, hy, JsValue.number.injEq, exists_eq_left',
        Option.some.injEq, Json.number.injEq]
      exact ⟨Binary64.ext, congrArg Binary64.value⟩
    | _ => simp [Same, json, ha]
  | array items ih =>
    cases w with
    | array items' =>
      have hitems := jsonItems_iff.mp hv
      have hitems' := jsonItems_iff.mp hw
      simp only [Same, json, jsonItems_eq, JsValue.array.injEq, exists_eq_left',
        Json.array.injEq, sameItems_iff]
      rw [← forall₂_eq_eq_eq, forall₂_map_left_iff, forall₂_map_right_iff,
        forall₂_iff_zip, forall₂_iff_zip]
      refine and_congr_right fun _ => ⟨fun h a b hab => ?_, fun h a b hab => ?_⟩
      · obtain ⟨ha, hb⟩ := of_mem_zip hab
        exact (ih a ha (hitems a ha) (hitems' b hb)).mp (h hab)
      · obtain ⟨ha, hb⟩ := of_mem_zip hab
        exact (ih a ha (hitems a ha) (hitems' b hb)).mpr (h hab)
    | number y => simp [Same, json, hnumber (j := .array (jsonItems items)) (by simp [Json.kind]) y
        hw]
    | _ => simp [Same, json]
  | object pairs ih =>
    cases w with
    | object pairs' =>
      have hpairs := jsonPairs_iff.mp hv.2
      have hpairs' := jsonPairs_iff.mp hw.2
      simp only [Same, json, JsValue.object.injEq, exists_eq_left', Json.object.injEq,
        samePairs_iff]
      constructor
      · rintro ⟨hsame, hback⟩
        refine definedPairs_ext (by rw [keys_jsonPairs]; exact hv.1)
          (by rw [keys_jsonPairs]; exact hw.1) fun pair => ?_
        rw [mem_jsonPairs, mem_jsonPairs]
        constructor
        · rintro ⟨v, hmem, hdefined, hjson⟩
          obtain ⟨v', hmem', hdefined', hv'⟩ := hsame _ hmem hdefined
          refine ⟨v', hmem', hdefined', ?_⟩
          rw [← hjson]
          exact ((ih _ hmem (hpairs _ hmem hdefined) (hpairs' _ hmem' hdefined')).mp hv').symm
        · rintro ⟨w, hmem, hdefined, hjson⟩
          obtain ⟨entry, hentry, hkey, hvalue⟩ := hback _ hmem hdefined
          obtain ⟨w', hmem', hdefined', hw'⟩ := hsame _ hentry hvalue
          rw [hkey] at hmem'
          obtain rfl := value_inj_of_nodup hw.1 hmem' hmem
          refine ⟨entry.2, hkey ▸ hentry, hvalue, ?_⟩
          rw [← hjson]
          exact (ih _ hentry (hpairs _ hentry hvalue) (hpairs' _ hmem' hdefined')).mp hw'
      · intro heq
        have hmem : ∀ pair : Utf16 × Json,
            (pair.1, some pair.2) ∈ jsonPairs pairs ↔
              (pair.1, some pair.2) ∈ jsonPairs pairs' := by
          intro pair
          rw [← mem_definedPairs, heq, mem_definedPairs]
        constructor
        · intro pair hpair hdefined
          obtain ⟨v', hmem', hdefined', hjson⟩ := mem_jsonPairs.mp
            ((hmem (pair.1, pair.2.json)).mp (mem_jsonPairs.mpr ⟨_, hpair, hdefined, rfl⟩))
          exact ⟨v', hmem', hdefined',
            (ih _ hpair (hpairs _ hpair hdefined) (hpairs' _ hmem' hdefined')).mpr hjson.symm⟩
        · intro pair' hpair' hdefined'
          obtain ⟨v, hv, hdefined, _⟩ := mem_jsonPairs.mp
            ((hmem (pair'.1, pair'.2.json)).mpr (mem_jsonPairs.mpr ⟨_, hpair', hdefined', rfl⟩))
          exact ⟨_, hv, rfl, hdefined⟩
    | number y => simp [Same, json, hnumber (j := .object (definedPairs (jsonPairs pairs)))
        (by simp [Json.kind]) y hw]
    | _ => simp [Same, json]

/-- **`canonicalJsonEncode` on JSON values** is injective up to sameness. -/
lemma canonicalJsonEncode_eq_iff (hv : v.IsJson) (hw : w.IsJson) :
    canonicalJsonEncode v = canonicalJsonEncode w ↔ v.Same w := by
  rw [canonicalJsonEncode_eq_iff_json hv.plain hw.plain, same_iff_json hv hw]

end JsValue

end Dkg.Aka.Encoding
