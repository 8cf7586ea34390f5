import Dkg.AkaEncodings.Canonical

/-! # Hashes and signed messages

The rest of `attested-assets/src/canonical.ts`: the hash of a session's configuration, and the
message that is signed for an event. The hash function is a parameter, `Sha256`.
-/

namespace Dkg.Aka.Encoding

open Lib List

def literal (s : String) : Utf16 := utf16 s.toList

lemma literal_injective : Function.Injective literal := fun _ _ h =>
  String.toList_injective (utf16_injective h)

abbrev Sha256 := Bytes → Bytes

/-- A character as UTF-8 knows it; a surrogate alone is replaced. -/
def CodePoint.replaced : CodePoint → Char
  | .scalar c => c
  | .lone _ => '\uFFFD'

/-- `TextEncoder.encode`. -/
def encodeText (s : Utf16) : Bytes :=
  (String.ofList ((codePoints s).map CodePoint.replaced)).toUTF8.data.toList

lemma encodeText_utf16 {cs cs' : List Char} (h : encodeText (utf16 cs) = encodeText (utf16 cs')) :
    cs = cs' := by
  have hreplaced : ∀ cs : List Char, (codePoints (utf16 cs)).map CodePoint.replaced = cs := by
    intro cs
    rw [codePoints_utf16, map_map]
    exact map_id cs
  simp only [encodeText, hreplaced] at h
  have hbytes : (String.ofList cs).toUTF8 = (String.ofList cs').toUTF8 :=
    ByteArray.ext (Array.toList_inj.mp h)
  exact String.ofList_injective (String.toByteArray_inj.mp hbytes)

/-- The text of a byte in base 16, of two characters. -/
def hexByte (b : UInt8) : List Char :=
  [Nat.digitChar (b.toNat / 16), Nat.digitChar (b.toNat % 16)]

def sha256Hex (sha256 : Sha256) (data : Bytes) : Utf16 := utf16 ((sha256 data).flatMap hexByte)

def sha256String (sha256 : Sha256) (s : Utf16) : Utf16 := sha256Hex sha256 (encodeText s)

lemma hexBytes_injective {bs bs' : Bytes} (h : bs.flatMap hexByte = bs'.flatMap hexByte) :
    bs = bs' := by
  have hdigit : ∀ {n m : ℕ}, n < 16 → m < 16 → Nat.digitChar n = Nat.digitChar m → n = m := by
    intro n m hn hm heq
    have hread := Json.hexDigit_digitChar hn
    rw [heq, Json.hexDigit_digitChar hm] at hread
    exact (Option.some.inj hread).symm
  induction bs generalizing bs' with
  | nil =>
    cases bs' with
    | nil => rfl
    | cons b' rest' => simp [hexByte] at h
  | cons b rest ih =>
    cases bs' with
    | nil => simp [hexByte] at h
    | cons b' rest' =>
      simp only [flatMap_cons, hexByte, cons_append, nil_append, List.cons.injEq] at h
      obtain ⟨hhigh, hlow, hrest⟩ := h
      have hb := b.toNat_lt
      have hb' := b'.toNat_lt
      have hhigh := hdigit (by omega) (by omega) hhigh
      have hlow := hdigit (by omega) (by omega) hlow
      have heq : b.toNat = b'.toNat := by omega
      rw [UInt8.toNat_inj.mp heq, ih hrest]

lemma sha256Hex_eq_iff {sha256 : Sha256} {data data' : Bytes} :
    sha256Hex sha256 data = sha256Hex sha256 data' ↔ sha256 data = sha256 data' :=
  ⟨fun h => hexBytes_injective (utf16_injective h), fun h => by rw [sha256Hex, h, sha256Hex]⟩

/-! ## Numbers of the source -/

def JsNumber.ofNat (n : ℕ) (h : n < 2 ^ 53) : JsNumber := .finite (Binary64.ofNat n h)

/-- `Array.from` of bytes, as a JSON value. -/
def bytesValue (bytes : Bytes) : JsValue :=
  .array (bytes.map fun b => .number (JsNumber.ofNat b.toNat (by
    have := b.toNat_lt
    omega)))

lemma bytesValue_isJson (bytes : Bytes) : (bytesValue bytes).IsJson := by
  rw [bytesValue, JsValue.IsJson, JsValue.jsonItems_iff]
  intro v hv
  obtain ⟨b, _, rfl⟩ := mem_map.mp hv
  trivial

lemma bytesValue_same {bytes bytes' : Bytes} (h : (bytesValue bytes).Same (bytesValue bytes')) :
    bytes = bytes' := by
  simp only [bytesValue, JsValue.Same, JsValue.array.injEq, exists_eq_left',
    JsValue.sameItems_iff, forall₂_map_left_iff, forall₂_map_right_iff,
    JsValue.number.injEq, JsNumber.ofNat, JsNumber.value, Binary64.ofNat_value,
    Option.some.injEq, Nat.cast_inj, UInt8.toNat_inj, forall₂_eq_eq_eq] at h
  exact h

/-! ## Signed messages -/

def eventTypeName : AKAEventType → String
  | .sessionProposed => "SessionProposed"
  | .sessionAccepted => "SessionAccepted"
  | .sessionActivated => "SessionActivated"
  | .sessionFinalized => "SessionFinalized"
  | .sessionAborted => "SessionAborted"
  | .roundStart => "RoundStart"
  | .inputSubmitted => "InputSubmitted"
  | .roundProposal => "RoundProposal"
  | .roundAck => "RoundAck"
  | .roundFinalized => "RoundFinalized"
  | .roundTimeout => "RoundTimeout"

structure SigningContext where
  (domain network contextGraphId sessionId : Utf16)
  round : JsNumber
  type : AKAEventType

def signingValue (context : SigningContext) (payload : JsValue) : JsValue :=
  .object [
    (literal "domain", .string context.domain),
    (literal "network", .string context.network),
    (literal "contextGraphId", .string context.contextGraphId),
    (literal "payload", payload),
    (literal "round", .number context.round),
    (literal "sessionId", .string context.sessionId),
    (literal "type", .string (literal (eventTypeName context.type)))]

def buildSigningPayload (context : SigningContext) (payload : JsValue) : Bytes :=
  encodeText (utf16 (canonicalJsonEncode (signingValue context payload)))

variable {context context' : SigningContext}

lemma signingValue_isJson {payload : JsValue} (hround : context.round.value.isSome)
    (hpayload : payload.IsJson) : (signingValue context payload).IsJson := by
  have hnumber : (JsValue.number context.round).IsJson := by
    cases hvalue : context.round <;> simp_all [JsValue.IsJson, JsNumber.value]
  refine ⟨by simp [literal_injective.eq_iff], ?_⟩
  simp only [JsValue.JsonPairs, and_true]
  exact ⟨fun _ => trivial, fun _ => trivial, fun _ => trivial, fun _ => hpayload, fun _ => hnumber,
    fun _ => trivial, fun _ => trivial⟩

/-- The bytes of a signed message tell what is signed. -/
lemma signingValue_same {payload payload' : JsValue} (hround : context.round.value.isSome)
    (hround' : context'.round.value.isSome) (hpayload : payload.IsJson)
    (hpayload' : payload'.IsJson)
    (h : buildSigningPayload context payload = buildSigningPayload context' payload') :
    (signingValue context payload).Same (signingValue context' payload') :=
  (JsValue.canonicalJsonEncode_eq_iff (signingValue_isJson hround hpayload)
    (signingValue_isJson hround' hpayload')).mp (encodeText_utf16 h)

lemma eventTypeName_injective : Function.Injective eventTypeName := by
  intro t t' h
  cases t <;> cases t' <;> first | rfl | exact absurd h (by decide)

/-- **Different contexts or payloads** are never signed by the same message. -/
lemma buildSigningPayload_injective {payload payload' : Bytes}
    (hround : context.round.value.isSome) (hround' : context'.round.value.isSome)
    (h : buildSigningPayload context (bytesValue payload) =
      buildSigningPayload context' (bytesValue payload')) :
    context.domain = context'.domain ∧ context.network = context'.network ∧
      context.contextGraphId = context'.contextGraphId ∧ context.sessionId = context'.sessionId ∧
      context.round.value = context'.round.value ∧ context.type = context'.type ∧
      payload = payload' := by
  have hsame := signingValue_same hround hround' (bytesValue_isJson payload)
    (bytesValue_isJson payload') h
  simp only [signingValue, JsValue.Same, JsValue.object.injEq, exists_eq_left',
    JsValue.SamePairs, and_true] at hsame
  obtain ⟨⟨hdomain, hnetwork, hcontextGraph, hpayload, hround, hsession, htype⟩, _⟩ := hsame
  have hbytes : (bytesValue payload).Same (bytesValue payload') := by
    simpa [literal_injective.eq_iff, bytesValue, JsValue.isUndefined] using hpayload
  refine ⟨?_, ?_, ?_, ?_, ?_, ?_, bytesValue_same hbytes⟩
  · simpa [literal_injective.eq_iff, JsValue.isUndefined] using hdomain
  · simpa [literal_injective.eq_iff, JsValue.isUndefined] using hnetwork
  · simpa [literal_injective.eq_iff, JsValue.isUndefined] using hcontextGraph
  · simpa [literal_injective.eq_iff, JsValue.isUndefined] using hsession
  · simpa [literal_injective.eq_iff, JsValue.isUndefined] using hround
  · simpa [literal_injective.eq_iff, JsValue.isUndefined, eventTypeName_injective.eq_iff] using
        htype

end Dkg.Aka.Encoding
