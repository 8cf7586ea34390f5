import Dkg.Lib.JsonText
import Dkg.Lib.Utf8
import Dkg.Publisher.Terms

/-! # The message handler

`handleIncoming` caches the sender's key, looks up the conversation, advances its high-water mark,
and only then checks the signature and decrypts the payload (`receive`, `dispatch`). It waits for
the signature check and for the handler of a skill or chat, so that other messages are handled in
between.
-/

namespace Dkg.Messaging

open Lib

/-- The primitives of the handler. A key pair is named by its public key, and a nonce is the hash of
a conversation and a sequence number. -/
structure Crypto where
  Key : Type
  Secret : Type
  Nonce : Type
  Signature : Type
  /-- `deriveSecret` of one's own key pair and the public key of a peer; it throws for some keys. -/
  deriveSecret : Key → Key → Option Secret
  /-- `new Uint8Array(32)`. -/
  zeroSecret : Secret
  buildNonce : Term → ℤ → Nonce
  buildNonce_injective : ∀ {conversationId conversationId' : Term} {sequence sequence' : ℤ},
    buildNonce conversationId sequence = buildNonce conversationId' sequence' →
      conversationId = conversationId' ∧ sequence = sequence'
  encrypt : Secret → List Octet → Nonce → List Octet
  decrypt : Secret → List Octet → Nonce → Option (List Octet)
  sign : List Octet → Key → Signature
  verify : Signature → List Octet → Key → Bool
  /-- The signature has 64 bytes. -/
  isFull : Signature → Bool
  /-- `ed25519KeyFromPeerId`. -/
  keyFromPeerId : Term → Option Key
  /-- `String(value)` in a template. -/
  stringOf : Json → Utf16
  /-- The value of a number in JSON. -/
  numberOf : List Char → Json

variable {C : Crypto}

/-! ## Messages -/

/-- A decoded `AgentMessage`; a public key that has not 32 bytes counts as none. -/
structure Message (C : Crypto) where
  conversationId : Term
  /-- As it is on the wire. -/
  sequence : ℕ
  (senderPeerId recipientPeerId : Term)
  encryptedPayload : List Octet
  nonce : C.Nonce
  senderSignature : C.Signature
  senderPublicKey : Option C.Key

/-- `msg.sequence.low`. -/
def Message.seq (msg : Message C) : ℤ := Int.bmod msg.sequence (2 ^ 32)

def Message.number (msg : Message C) : Term × ℤ := (msg.conversationId, msg.seq)

lemma Message.number_eq_iff {msg msg' : Message C} : msg.number = msg'.number ↔
    msg.conversationId = msg'.conversationId ∧ msg.seq = msg'.seq := by
  unfold Message.number
  exact Prod.mk_inj

/-- An integer as a `uint64` on the wire. -/
def wireSequence (n : ℤ) : ℕ := (n % 2 ^ 64).toNat

def integerText (n : ℤ) : List Char :=
  if n < 0 then '-' :: digitText n.natAbs else digitText n.natAbs

def buildSignatureInput (conversationId : Term) (sequence : ℤ) (ciphertext : List Octet) :
    List Octet :=
  Utf8.encode (conversationId ++ ':' :: integerText sequence ++ [':']) ++ ciphertext

/-- The bytes that the signature of a message is for. -/
def Message.signed (msg : Message C) : List Octet :=
  buildSignatureInput msg.conversationId msg.seq msg.encryptedPayload

structure SkillResponse where
  success : Bool
  outputData : Option (List Octet)
  (resultUal error : Option Utf16)
  executionTimeMs : Option Binary64

def SkillResponse.failure (error : Utf16) : SkillResponse := ⟨false, none, none, some error, none⟩

def literal (text : String) : Utf16 := utf16 text.toList

def octetNumber (o : Octet) : Json := .number (Binary64.ofNat o.val (by omega))

/-- `JSON.stringify` of a response; a field that is undefined is left out. -/
def SkillResponse.toJson (r : SkillResponse) : Json :=
  .object (([(literal "success", some (.boolean r.success)),
    (literal "outputData", r.outputData.map fun bytes => .array (bytes.map octetNumber)),
    (literal "resultUal", r.resultUal.map .string), (literal "error", r.error.map .string),
    (literal "executionTimeMs", r.executionTimeMs.map .number)] :
      List (Utf16 × Option Json)).filterMap fun field => field.2.map fun value => (field.1, value))

def SkillResponse.payload (r : SkillResponse) : List Octet := Utf8.encode r.toJson.render

/-! ## The state of a handler -/

structure ConversationState (C : Crypto) where
  highWaterMark : ℤ
  lastActivity : ℕ
  sharedSecret : C.Secret

/-- What does not change: the own key pair and peer id, the registered skills, and whether there is
a chat handler. -/
structure Config (C : Crypto) where
  key : C.Key
  peerId : Term
  skillHandlers : Utf16 → Bool
  chatHandler : Bool

structure MessageHandler (C : Crypto) where
  conversations : Term → Option (ConversationState C)
  peerKeys : Term → Option C.Key

def CONVERSATION_TTL : ℕ := 60 * 60 * 1000

def MessageHandler.cleanExpiredConversations (h : MessageHandler C) (now : ℕ) : MessageHandler C :=
  { h with conversations := fun id => (h.conversations id).filter fun conv =>
      ¬ CONVERSATION_TTL < now - conv.lastActivity }

/-! ## Incoming messages -/

/-- A message that is being handled, with the secret of its conversation and the sender's key. -/
structure Task (C : Crypto) where
  msg : Message C
  fromPeerId : Term
  sharedSecret : C.Secret
  senderKey : Option C.Key

/-- How the handling goes on. -/
inductive Next
  | throws
  | answers (response : SkillResponse)
  | verifies
  | runsSkill (skillUri : Utf16)
  | runsChat

/-- `parsed[name]`. -/
def field (name : String) : Json → Option Json
  | .object pairs => (pairs.reverse.find? fun pair => pair.1 = literal name).map Prod.snd
  | _ => none

def textField (name : String) (value : Json) : Option Utf16 :=
  match field name value with
  | none => none
  | some (.string s) => some s
  | some _ => none

/-- A field in a template. -/
def template (C : Crypto) : Option Json → Utf16
  | none => literal "undefined"
  | some (.string s) => s
  | some value => C.stringOf value

/-- What a payload asks for. -/
def dispatchPayload (cfg : Config C) (plaintext : List Char) : Next :=
  match Json.parse C.numberOf plaintext with
  | none => .answers (.failure (literal "Invalid message format"))
  | some .null => .throws
  | some parsed =>
    if textField "type" parsed = some (literal "skill_request") then
      match textField "skillUri" parsed with
      | some skillUri =>
        if cfg.skillHandlers skillUri then .runsSkill skillUri
        else .answers (.failure (literal "Unknown skill: " ++ skillUri))
      | none => .answers (.failure (literal "Unknown skill: "
          ++ template C (field "skillUri" parsed)))
    else if textField "type" parsed = some (literal "chat") then
      if cfg.chatHandler then .runsChat else .answers ⟨true, none, none, none, none⟩
    else .answers (.failure (literal "Unknown message type: "
      ++ template C (field "type" parsed)))

/-- `new TextDecoder().decode`: one byte order mark at the start is left out. -/
def decodeText (bytes : List Octet) : List Char :=
  match Utf8.decode bytes with
  | '\uFEFF' :: text => text
  | text => text

/-- From the decryption on. -/
def dispatch (cfg : Config C) (t : Task C) : Next :=
  match C.decrypt t.sharedSecret t.msg.encryptedPayload t.msg.nonce with
  | none => .answers (.failure (literal "Decryption failed"))
  | some bytes => dispatchPayload cfg (decodeText bytes)

/-- The key that comes with the message, or the cached one. -/
def MessageHandler.senderKey (h : MessageHandler C) (msg : Message C) : Option C.Key :=
  msg.senderPublicKey.orElse fun _ => h.peerKeys msg.senderPeerId

/-- The cache with the sender's key. -/
def MessageHandler.cacheKey (h : MessageHandler C) (msg : Message C) : MessageHandler C :=
  match h.senderKey msg with
  | some key => { h with peerKeys := Function.update h.peerKeys msg.senderPeerId (some key) }
  | none => h

def MessageHandler.setConversation (h : MessageHandler C) (id : Term) (conv : ConversationState C) :
    MessageHandler C := { h with conversations := Function.update h.conversations id (some conv) }

/-- The secret for a new conversation. -/
def MessageHandler.secretFor (h : MessageHandler C) (cfg : Config C) (msg : Message C) :
    Option C.Secret :=
  match h.senderKey msg with
  | some key => C.deriveSecret cfg.key key
  | none => some C.zeroSecret

/-- The conversation of a message, new if it is not on record. -/
def MessageHandler.conversation (h : MessageHandler C) (msg : Message C) (sharedSecret : C.Secret)
    (now : ℕ) : ConversationState C :=
  (h.conversations msg.conversationId).getD ⟨0, now, sharedSecret⟩

/-- The part of `handleIncoming` before it waits for the first time. -/
def receive (cfg : Config C) (h : MessageHandler C) (now : ℕ) (msg : Message C)
    (fromPeerId : Term) : MessageHandler C × Option (Task C × Next) :=
  match h.secretFor cfg msg with
  | none => (h.cacheKey msg, none)
  | some sharedSecret =>
    let conv := h.conversation msg sharedSecret now
    let task : Task C := ⟨msg, fromPeerId, conv.sharedSecret, h.senderKey msg⟩
    if msg.seq ≤ conv.highWaterMark then
      ((h.cacheKey msg).setConversation msg.conversationId conv,
        some (task, .answers (.failure (literal "Replay detected"))))
    else
      ((h.cacheKey msg).setConversation msg.conversationId
          { conv with highWaterMark := msg.seq, lastActivity := now },
        some (task, if task.senderKey.isSome ∧ C.isFull msg.senderSignature then .verifies
          else dispatch cfg task))

/-- After the signature check. -/
def verified (cfg : Config C) (t : Task C) : Next :=
  if t.senderKey.any (C.verify t.msg.senderSignature t.msg.signed) then dispatch cfg t
  else .answers (.failure (literal "Invalid signature"))

/-! ## Transparent primitives -/

/-- Primitives to run the handler with: ciphertexts are open and carry a first octet, a signature
names its key and the signed bytes, the secret of two keys is the pair of them, and the key of a
peer is the length of its id. -/
def Crypto.transparent : Crypto where
  Key := ℕ
  Secret := ℕ × ℕ
  Nonce := Term × ℤ
  Signature := ℕ × List Octet
  deriveSecret key key' := some (min key key', max key key')
  zeroSecret := (0, 0)
  buildNonce conversationId sequence := (conversationId, sequence)
  buildNonce_injective h := Prod.mk.inj h
  encrypt _ plaintext _ := Utf8.encode ['c'] ++ plaintext
  decrypt _ ciphertext _ := some ciphertext.tail
  sign data key := (key, data)
  verify signature data key := decide (signature = (key, data))
  isFull _ := true
  keyFromPeerId peerId := some peerId.length
  stringOf _ := []
  numberOf _ := .null

instance : DecidableEq Crypto.transparent.Secret := inferInstanceAs (DecidableEq (ℕ × ℕ))

instance : DecidableEq Crypto.transparent.Nonce := inferInstanceAs (DecidableEq (Term × ℤ))

lemma Crypto.transparent_verify {signature : ℕ × List Octet} {data : List Octet} {key : ℕ}
    (h : Crypto.transparent.verify signature data key = true) : signature = (key, data) :=
  of_decide_eq_true h

end Dkg.Messaging
