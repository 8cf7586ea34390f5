import Dkg.Lib.Machine
import Dkg.Messaging.Handler

/-! # Two handlers and the network between them

Two peers send requests and answer messages. The network has every message that was sent and may
deliver it any number of times to either peer: a retry of the transport is a second delivery. Every
encryption is logged. If no message is delivered twice, every nonce is used once
(`one_plaintext_per_nonce`); an answer to a second delivery is encrypted under the nonce of the
first answer (`second_delivery_reuses_nonce`).
-/

namespace Dkg.Messaging

open Lib

variable {C : Crypto}

/-! ## Requests -/

structure SkillRequest where
  skillUri : Utf16
  inputData : List Octet
  paymentProof : Option Utf16
  timeoutMs : Option Binary64
  callback : Option Utf16

inductive Request
  | chat (text : Utf16)
  | skill (request : SkillRequest)

/-- What `sendChat` and `sendSkillRequest` encrypt. -/
def Request.toJson : Request → Json
  | .chat text =>
    .object [(literal "type", .string (literal "chat")), (literal "text", .string text)]
  | .skill request =>
    .object (([(literal "type", some (.string (literal "skill_request"))),
      (literal "skillUri", some (.string request.skillUri)),
      (literal "inputData", some (.array (request.inputData.map octetNumber))),
      (literal "paymentProof", request.paymentProof.map .string),
      (literal "timeoutMs", request.timeoutMs.map .number),
      (literal "callback", request.callback.map .string)] :
        List (Utf16 × Option Json)).filterMap fun field =>
          field.2.map fun value => (field.1, value))

def Request.payload (r : Request) : List Octet := Utf8.encode r.toJson.render

/-! ## Encryptions -/

structure Encryption (C : Crypto) where
  sharedSecret : C.Secret
  conversationId : Term
  sequence : ℤ
  plaintext : List Octet

def Encryption.nonce (e : Encryption C) : C.Nonce := C.buildNonce e.conversationId e.sequence

def Encryption.message (cfg : Config C) (recipientPeerId : Term) (e : Encryption C) : Message C :=
  let ciphertext := C.encrypt e.sharedSecret e.plaintext e.nonce
  { conversationId := e.conversationId
    sequence := wireSequence e.sequence
    senderPeerId := cfg.peerId
    recipientPeerId := recipientPeerId
    encryptedPayload := ciphertext
    nonce := e.nonce
    senderSignature := C.sign (buildSignatureInput e.conversationId e.sequence ciphertext) cfg.key
    senderPublicKey := some cfg.key }

/-- The encryption of `encryptAndSign`. -/
def Task.encryption (t : Task C) (response : SkillResponse) : Encryption C :=
  ⟨t.sharedSecret, t.msg.conversationId, t.msg.seq + 1, response.payload⟩

def MessageHandler.resolvePeerKey (h : MessageHandler C) (peerId : Term) : Option C.Key :=
  (h.peerKeys peerId).orElse fun _ => C.keyFromPeerId peerId

/-! ## The network -/

inductive Side
  | left
  | right
  deriving DecidableEq

/-- What a message waits for. -/
inductive Stage
  | verifying
  | runningSkill
  | runningChat
  deriving DecidableEq

structure Waiting (C : Crypto) where
  side : Side
  task : Task C
  stage : Stage

/-- Both ends of a conversation, the messages on the way, and the log of what was encrypted. -/
structure Network (C : Crypto) where
  handlers : Side → MessageHandler C
  waiting : List (Waiting C)
  sent : List (Message C)
  log : List (Encryption C)
  /-- The messages that were delivered. -/
  delivered : List (Message C)
  /-- The conversation ids that were drawn. -/
  drawn : List Term

inductive Event (C : Crypto)
  | send (side : Side) (conversationId recipientPeerId : Term) (request : Request) (now : ℕ)
  | deliver (side : Side) (msg : Message C) (fromPeerId : Term) (now : ℕ)
  /-- The signature check of the waiting message at the index is done. -/
  | checked (index : ℕ)
  /-- The handler of the waiting message at the index is done. -/
  | finished (index : ℕ) (response : SkillResponse)
  | clean (side : Side) (now : ℕ)

namespace Network

variable (cfg : Side → Config C)

def setHandler (s : Network C) (side : Side) (h : MessageHandler C) : Network C :=
  { s with handlers := Function.update s.handlers side h }

/-- A message that is encrypted and sent. -/
def emit (s : Network C) (side : Side) (recipientPeerId : Term) (e : Encryption C) : Network C :=
  { s with
    sent := e.message (cfg side) recipientPeerId :: s.sent
    log := e :: s.log }

/-- How the handling of a message goes on. -/
def proceed (s : Network C) (side : Side) (task : Task C) : Next → Network C
  | .throws => s
  | .answers response => s.emit cfg side [] (task.encryption response)
  | .verifies => { s with waiting := ⟨side, task, .verifying⟩ :: s.waiting }
  | .runsSkill _ => { s with waiting := ⟨side, task, .runningSkill⟩ :: s.waiting }
  | .runsChat => { s with waiting := ⟨side, task, .runningChat⟩ :: s.waiting }

/-- `sendChat` or `sendSkillRequest`; without a key or a secret nothing is sent. -/
def send (s : Network C) (side : Side) (conversationId recipientPeerId : Term) (request : Request)
    (now : ℕ) : Network C :=
  let h := s.handlers side
  let s := { s with drawn := conversationId :: s.drawn }
  match h.resolvePeerKey recipientPeerId with
  | none => s
  | some key =>
    let h := { h with peerKeys := Function.update h.peerKeys recipientPeerId (some key) }
    match C.deriveSecret (cfg side).key key with
    | none => s.setHandler side h
    | some sharedSecret =>
      (s.setHandler side (h.setConversation conversationId ⟨0, now, sharedSecret⟩)).emit cfg
        side recipientPeerId ⟨sharedSecret, conversationId, 1, request.payload⟩

def deliver (s : Network C) (side : Side) (msg : Message C) (fromPeerId : Term) (now : ℕ) :
    Network C :=
  let result := receive (cfg side) (s.handlers side) now msg fromPeerId
  let s := { s.setHandler side result.1 with delivered := msg :: s.delivered }
  match result.2 with
  | none => s
  | some (task, next) => s.proceed cfg side task next

def exec (s : Network C) : Event C → Network C
  | .send side conversationId recipientPeerId request now =>
    s.send cfg side conversationId recipientPeerId request now
  | .deliver side msg fromPeerId now => s.deliver cfg side msg fromPeerId now
  | .checked index =>
    match s.waiting[index]? with
    | some ⟨side, task, .verifying⟩ =>
      proceed cfg { s with waiting := s.waiting.eraseIdx index } side task
        (verified (cfg side) task)
    | _ => s
  | .finished index response =>
    match s.waiting[index]? with
    | some ⟨side, task, .runningSkill⟩ =>
      proceed cfg { s with waiting := s.waiting.eraseIdx index } side task (.answers response)
    | some ⟨side, task, .runningChat⟩ =>
      proceed cfg { s with waiting := s.waiting.eraseIdx index } side task
        (.answers ⟨true, none, none, none, none⟩)
    | _ => s
  | .clean side now => s.setHandler side ((s.handlers side).cleanExpiredConversations now)

/-- Only messages that were sent are delivered. -/
def Possible (s : Network C) : Event C → Prop
  | .deliver _ msg _ _ => msg ∈ s.sent
  | _ => True

/-- At first nothing was sent. -/
def machine : Machine (Network C) (Event C) where
  init s := s.waiting = [] ∧ s.sent = [] ∧ s.log = [] ∧ s.delivered = [] ∧ s.drawn = []
  step s event s' := Possible s event ∧ s' = exec cfg s event

/-- No message is delivered twice, to whichever side, no sequence number comes round to zero, and no
conversation id is drawn twice. -/
def Once (s : Network C) : Event C → Prop
  | .send _ conversationId _ _ _ => conversationId ∉ s.drawn
  | .deliver _ msg _ _ => msg ∉ s.delivered ∧ msg.seq ≠ 0
  | _ => True

end Network

end Dkg.Messaging
