import Dkg.Lib.Machine
import Dkg.Messaging.Handler

/-! # Authentic messages

One handler receives the messages of honest and malicious peers, in any order and any number of
times, and forgets conversations in between. Signatures cannot be forged: a message whose signature
holds under a key carries bytes that the holder of the key produced. If every delivery is `Sound`,
handlers are invoked for genuine messages only and once for each number of a conversation, whatever
forged messages come in between, and a refused message leaves no trace exactly if it is a
`KnownReplay` (`authentic_of_sound`). One forged message leaves the attacker's key and number behind
(`forged_message_is_remembered`).
-/

namespace Dkg.Messaging

open Lib MessageHandler List Machine.Reachable Option Function

variable {C : Crypto}

/-! ## Checks of a message -/

def MessageHandler.highWaterMark (h : MessageHandler C) (conversationId : Term) : ℤ :=
  (h.conversations conversationId).elim 0 ConversationState.highWaterMark

/-- The task of a message; without a secret there is none. -/
def MessageHandler.task (h : MessageHandler C) (cfg : Config C) (msg : Message C)
    (fromPeerId : Term) : Option (Task C) :=
  (h.secretFor cfg msg).map fun sharedSecret =>
    ⟨msg, fromPeerId, ((h.conversations msg.conversationId).map
      ConversationState.sharedSecret).getD sharedSecret, h.senderKey msg⟩

/-- The signature is checked only with a key and at full length. -/
def Task.signatureHolds (t : Task C) : Bool :=
  t.senderKey.all fun key =>
    !C.isFull t.msg.senderSignature || C.verify t.msg.senderSignature t.msg.signed key

def Task.decrypts (t : Task C) : Bool :=
  (C.decrypt t.sharedSecret t.msg.encryptedPayload t.msg.nonce).isSome

def Next.invokes : Next → Bool
  | .runsSkill _ => true
  | .runsChat => true
  | _ => false

/-- The signature of the message is checked before it is decrypted. -/
def Task.isChecked (t : Task C) : Bool :=
  t.senderKey.isSome && C.isFull t.msg.senderSignature

/-- The message asks for a handler and is not refused. -/
def Task.asks (cfg : Config C) (t : Task C) : Bool :=
  (if t.isChecked then verified cfg t else dispatch cfg t).invokes

/-- The message fails the replay, signature or decryption check. -/
def MessageHandler.refuses (h : MessageHandler C) (cfg : Config C) (msg : Message C)
    (fromPeerId : Term) : Bool :=
  (h.task cfg msg fromPeerId).any fun t =>
    decide (msg.seq ≤ h.highWaterMark msg.conversationId) || !t.signatureHolds || !t.decrypts

/-! ## The inbox -/

/-- A message that failed a check, with the handler before and after it. -/
structure Refusal (C : Crypto) where
  msg : Message C
  before : MessageHandler C
  after : MessageHandler C

/-- A replay in a conversation on record that comes with no new key. -/
structure Refusal.KnownReplay (r : Refusal C) : Prop where
  replay : r.msg.seq ≤ r.before.highWaterMark r.msg.conversationId
  recorded : (r.before.conversations r.msg.conversationId).isSome = true
  cached : ∀ key, r.msg.senderPublicKey = some key →
    r.before.peerKeys r.msg.senderPeerId = some key

/-- A handler with its history. -/
structure Inbox (C : Crypto) where
  handler : MessageHandler C
  /-- What waits for its signature check. -/
  waiting : List (Task C)
  /-- The bytes that the holder of a key produced. -/
  produced : List (C.Key × List Octet)
  /-- The peers whose keys came with a message. -/
  heard : List Term
  /-- The messages that failed a check. -/
  refused : List (Refusal C)
  /-- What a skill or chat handler was invoked for. -/
  invoked : List (Task C)
  /-- The numbers of forgotten conversations that asked for a handler. -/
  forgotten : List (Term × ℤ)

inductive Incoming (C : Crypto)
  | deliver (msg : Message C) (fromPeerId : Term) (now : ℕ)
  /-- The signature check of the waiting message at the index is done. -/
  | checked (index : ℕ)
  | clean (now : ℕ)
  | produce (key : C.Key) (data : List Octet)

namespace Inbox

variable (cfg : Config C)

/-- What asked for a handler and was not refused. -/
def asking (s : Inbox C) : List (Task C) := s.invoked ++ s.waiting.filter (Task.asks cfg)

def proceed (s : Inbox C) (t : Task C) : Next → Inbox C
  | .verifies => { s with waiting := t :: s.waiting }
  | .runsSkill _ | .runsChat => { s with invoked := t :: s.invoked }
  | .answers _ => s
  | .throws => s

def record (s : Inbox C) (msg : Message C) (fromPeerId : Term) (h : MessageHandler C) : Inbox C :=
  { s with
    handler := h
    heard := if msg.senderPublicKey.isSome then msg.senderPeerId :: s.heard else s.heard
    refused :=
      if s.handler.refuses cfg msg fromPeerId then ⟨msg, s.handler, h⟩ :: s.refused
      else s.refused }

def deliver (s : Inbox C) (msg : Message C) (fromPeerId : Term) (now : ℕ) : Inbox C :=
  let result := receive cfg s.handler now msg fromPeerId
  match result.2 with
  | none => s.record cfg msg fromPeerId result.1
  | some (t, next) => (s.record cfg msg fromPeerId result.1).proceed t next

def clean (s : Inbox C) (now : ℕ) : Inbox C :=
  let h := s.handler.cleanExpiredConversations now
  { s with
    handler := h
    forgotten := ((s.asking cfg).filter fun t =>
      (h.conversations t.msg.conversationId).isNone).map (fun t => t.msg.number) ++ s.forgotten }

def exec (s : Inbox C) : Incoming C → Inbox C
  | .deliver msg fromPeerId now => s.deliver cfg msg fromPeerId now
  | .checked index =>
    match s.waiting[index]? with
    | some t => proceed { s with waiting := s.waiting.eraseIdx index } t (verified cfg t)
    | none => s
  | .clean now => s.clean cfg now
  | .produce key data => { s with produced := (key, data) :: s.produced }

/-- Signatures are unforgeable. -/
def Possible (s : Inbox C) : Incoming C → Prop
  | .deliver msg _ _ => ∀ key, C.verify msg.senderSignature msg.signed key = true →
      (key, msg.signed) ∈ s.produced
  | _ => True

/-- At first no message was received; conversations and keys may be on record. -/
def machine : Machine (Inbox C) (Incoming C) where
  init s := s.waiting = [] ∧ s.heard = [] ∧ s.refused = [] ∧ s.invoked = [] ∧ s.forgotten = []
  step s event s' := s.Possible event ∧ s' = s.exec cfg event

/-- The holder of the key of the peer produced the message. -/
def Genuine (s : Inbox C) (msg : Message C) (peerId : Term) : Prop :=
  ∃ key, C.keyFromPeerId peerId = some key ∧ (key, msg.signed) ∈ s.produced

/-- What is handled is genuine and handled at most once, and the cached keys are the peers' own. -/
structure Handled (s : Inbox C) : Prop where
  genuine : ∀ t ∈ s.invoked, s.Genuine t.msg t.fromPeerId
  once : (s.invoked.map fun t => t.msg.number).Nodup
  own_keys : ∀ peerId ∈ s.heard, ∃ key, C.keyFromPeerId peerId = some key ∧
    s.handler.peerKeys peerId = some key

/-- Messages are authentic and handled at most once, and a refused one leaves no trace. -/
structure Authentic (s : Inbox C) : Prop extends Handled s where
  unchanged : ∀ r ∈ s.refused, r.after = r.before

/-- The conditions on a delivered message. Whether its signature holds is not one of them. -/
structure SoundMessage (s : Inbox C) (msg : Message C) (fromPeerId : Term) : Prop where
  /-- The key that comes with it is the sender's own. -/
  own_key : ∀ key, msg.senderPublicKey = some key → C.keyFromPeerId msg.senderPeerId = some key
  /-- What asks for a handler has a signature that is checked, under the key of the peer that
  delivers it. -/
  checked : ∀ t, s.handler.task cfg msg fromPeerId = some t →
    s.handler.highWaterMark msg.conversationId < msg.seq → t.asks cfg = true →
    t.isChecked = true ∧ t.senderKey = C.keyFromPeerId fromPeerId
  /-- It does not repeat a number of a forgotten conversation. -/
  fresh : ∀ t, s.handler.task cfg msg fromPeerId = some t →
    s.handler.highWaterMark msg.conversationId < msg.seq → t.asks cfg = true →
    msg.number ∉ s.forgotten

def Sound (s : Inbox C) : Incoming C → Prop
  | .deliver msg fromPeerId _ => s.SoundMessage cfg msg fromPeerId
  | _ => True

end Inbox

/-! ## What a delivery does -/

section

variable {cfg : Config C} {h : MessageHandler C} {msg : Message C} {fromPeerId : Term} {t : Task C}

lemma receive_without_secret (now : ℕ) (ht : h.task cfg msg fromPeerId = none) :
    receive cfg h now msg fromPeerId = (h.cacheKey msg, none) := by
  have hsecret : h.secretFor cfg msg = none := map_eq_none_iff.mp ht
  unfold receive
  rw [hsecret]

lemma conversation_highWaterMark (sharedSecret : C.Secret) (now : ℕ) :
    (h.conversation msg sharedSecret now).highWaterMark = h.highWaterMark msg.conversationId := by
  unfold conversation highWaterMark
  cases h.conversations msg.conversationId with
  | none => rfl
  | some conv => rfl

lemma conversation_sharedSecret (sharedSecret : C.Secret) (now : ℕ) :
    (h.conversation msg sharedSecret now).sharedSecret =
      ((h.conversations msg.conversationId).map ConversationState.sharedSecret).getD
        sharedSecret := by
  unfold conversation
  cases h.conversations msg.conversationId with
  | none => rfl
  | some conv => rfl

lemma receive_replay (now : ℕ) (ht : h.task cfg msg fromPeerId = some t)
    (hseq : msg.seq ≤ h.highWaterMark msg.conversationId) :
    ∃ sharedSecret response, receive cfg h now msg fromPeerId =
      ((h.cacheKey msg).setConversation msg.conversationId (h.conversation msg sharedSecret now),
        some (t, .answers response)) := by
  obtain ⟨sharedSecret, hsecret, rfl⟩ := map_eq_some_iff.mp ht
  unfold receive
  rw [hsecret]
  simp only [conversation_highWaterMark, conversation_sharedSecret, hseq, if_true]
  exact ⟨sharedSecret, _, rfl⟩

lemma receive_new (now : ℕ) (ht : h.task cfg msg fromPeerId = some t)
    (hseq : h.highWaterMark msg.conversationId < msg.seq) :
    ∃ sharedSecret, receive cfg h now msg fromPeerId =
      ((h.cacheKey msg).setConversation msg.conversationId ⟨msg.seq, now, sharedSecret⟩,
        some (t, if t.senderKey.isSome ∧ C.isFull msg.senderSignature then .verifies
          else dispatch cfg t)) := by
  obtain ⟨sharedSecret, hsecret, rfl⟩ := map_eq_some_iff.mp ht
  unfold receive
  rw [hsecret]
  simp only [conversation_highWaterMark, conversation_sharedSecret, not_le.mpr hseq, if_false]
  exact ⟨_, rfl⟩

lemma task_eq (ht : h.task cfg msg fromPeerId = some t) :
    t.msg = msg ∧ t.fromPeerId = fromPeerId ∧ t.senderKey = h.senderKey msg := by
  obtain ⟨sharedSecret, -, rfl⟩ := map_eq_some_iff.mp ht
  exact ⟨rfl, rfl, rfl⟩

end

/-! ## The invariant -/

namespace Inbox

variable {cfg : Config C} {s : Inbox C} {msg : Message C} {fromPeerId : Term} {t : Task C}
variable {tasks tasks' : List (Task C)}

/-- The number is behind: forgotten, or not above the mark of its conversation. -/
def Marked (s : Inbox C) (msg : Message C) : Prop :=
  msg.number ∈ s.forgotten ∨ ∃ conv, s.handler.conversations msg.conversationId = some conv ∧
    msg.seq ≤ conv.highWaterMark

/-- The invariant, for the tasks that asked for a handler. -/
structure Kept (s : Inbox C) (tasks : List (Task C)) : Prop where
  genuine : ∀ t ∈ tasks, s.Genuine t.msg t.fromPeerId
  once : (tasks.map fun t => t.msg.number).Nodup
  marked : ∀ t ∈ tasks, s.Marked t.msg
  own_keys : ∀ peerId ∈ s.heard, ∃ key, C.keyFromPeerId peerId = some key ∧
    s.handler.peerKeys peerId = some key
  unchanged_iff : ∀ r ∈ s.refused, r.after = r.before ↔ r.KnownReplay

lemma Kept.perm (h : Kept s tasks) (hperm : tasks.Perm tasks') : Kept s tasks' where
  genuine := fun t ht => h.genuine t (hperm.mem_iff.mpr ht)
  once := (hperm.map _).nodup_iff.mp h.once
  marked := fun t ht => h.marked t (hperm.mem_iff.mpr ht)
  own_keys := h.own_keys
  unchanged_iff := h.unchanged_iff

lemma Kept.cons (h : Kept s tasks) (hgenuine : s.Genuine t.msg t.fromPeerId)
    (hnew : ∀ old ∈ tasks, old.msg.number ≠ t.msg.number) (hmarked : s.Marked t.msg) :
    Kept s (t :: tasks) where
  genuine := forall_mem_cons.mpr ⟨hgenuine, h.genuine⟩
  once := by
    refine nodup_cons.mpr ⟨fun hmem => ?_, h.once⟩
    obtain ⟨old, hold, heq⟩ := mem_map.mp hmem
    exact hnew old hold heq
  marked := forall_mem_cons.mpr ⟨hmarked, h.marked⟩
  own_keys := h.own_keys
  unchanged_iff := h.unchanged_iff

lemma Kept.tail (h : Kept s (t :: tasks)) : Kept s tasks where
  genuine := (forall_mem_cons.mp h.genuine).2
  once := (nodup_cons.mp h.once).2
  marked := (forall_mem_cons.mp h.marked).2
  own_keys := h.own_keys
  unchanged_iff := h.unchanged_iff

/-! ### The handling of a task -/

/-- The task is added to those that asked for a handler if it asks for one. -/
def withTask (cfg : Config C) (t : Task C) (tasks : List (Task C)) : List (Task C) :=
  if t.asks cfg then t :: tasks else tasks

lemma Kept.withTask (h : Kept s tasks) (hasks : t.asks cfg = true → s.Genuine t.msg t.fromPeerId ∧
      (∀ old ∈ tasks, old.msg.number ≠ t.msg.number) ∧ s.Marked t.msg) :
    Kept s (withTask cfg t tasks) := by
  unfold Inbox.withTask
  split
  next ht => exact h.cons (hasks ht).1 (hasks ht).2.1 (hasks ht).2.2
  next => exact h

lemma Kept.of_withTask (h : Kept s (Inbox.withTask cfg t tasks)) : Kept s tasks := by
  unfold Inbox.withTask at h
  split at h
  next => exact h.tail
  next => exact h

/-- However the handling goes on, it keeps the invariant of the task and the others. -/
lemma Kept.proceed (h : Kept s (Inbox.withTask cfg t (s.asking cfg))) {next : Next}
    (hnext : next = .verifies ∨ (next.invokes = true → t.asks cfg = true)) :
    Kept (s.proceed t next) ((s.proceed t next).asking cfg) := by
  have hinvoked (ht : t.asks cfg = true) : Kept { s with invoked := t :: s.invoked }
      (asking cfg { s with invoked := t :: s.invoked }) := by
    rw [Inbox.withTask, if_pos ht] at h
    exact ⟨h.genuine, h.once, h.marked, h.own_keys, h.unchanged_iff⟩
  cases next with
  | throws | answers response => exact h.of_withTask
  | verifies =>
    have hperm : (Inbox.withTask cfg t (s.asking cfg)).Perm
        (asking cfg { s with waiting := t :: s.waiting }) := by
      unfold Inbox.withTask asking
      rw [filter_cons]
      split
      next => exact perm_middle.symm
      next => exact Perm.refl _
    have hkept := h.perm hperm
    exact ⟨hkept.genuine, hkept.once, hkept.marked, hkept.own_keys, hkept.unchanged_iff⟩
  | runsSkill skillUri | runsChat =>
    exact hinvoked (hnext.elim (fun heq => nomatch heq) fun hn => hn rfl)

/-! ### A delivery -/

/-- The records of a delivery keep the invariant if marks only rise and the key is the sender's. -/
lemma Kept.record (h : Kept s tasks) {handler : MessageHandler C}
    (hmarks : ∀ id conv, s.handler.conversations id = some conv →
      ∃ later, handler.conversations id = some later ∧ conv.highWaterMark ≤ later.highWaterMark)
    (hkeys : handler.peerKeys = (s.handler.cacheKey msg).peerKeys)
    (hown : ∀ key, msg.senderPublicKey = some key → C.keyFromPeerId msg.senderPeerId = some key)
    (hrefused : s.handler.refuses cfg msg fromPeerId = true →
      (handler = s.handler ↔ Refusal.KnownReplay ⟨msg, s.handler, handler⟩)) :
    Kept (s.record cfg msg fromPeerId handler) tasks where
  genuine := h.genuine
  once := h.once
  marked := by
    intro t ht
    rcases h.marked t ht with hforgotten | ⟨conv, hconv, hle⟩
    · exact .inl hforgotten
    · obtain ⟨later, hlater, hmark⟩ := hmarks _ conv hconv
      exact .inr ⟨later, hlater, hle.trans hmark⟩
  own_keys := by
    have hheard : ∀ peerId ∈ s.heard, ∃ key, C.keyFromPeerId peerId = some key ∧
        (s.handler.cacheKey msg).peerKeys peerId = some key := by
      intro peerId hpeer
      obtain ⟨key, howner, hcached⟩ := h.own_keys peerId hpeer
      refine ⟨key, howner, ?_⟩
      unfold cacheKey
      split
      next sent hsent =>
        by_cases hsender : peerId = msg.senderPeerId
        · subst hsender
          show Function.update s.handler.peerKeys msg.senderPeerId (some sent) _ = _
          rw [update_self]
          cases hkey : msg.senderPublicKey with
          | some fresh =>
            rw [senderKey, hkey] at hsent
            rw [← howner, hown fresh hkey]
            exact hsent.symm
          | none =>
            rw [senderKey, hkey] at hsent
            exact hsent.symm.trans hcached
        · exact (update_of_ne hsender _ _).trans hcached
      next => exact hcached
    show ∀ peerId ∈ (if msg.senderPublicKey.isSome then msg.senderPeerId :: s.heard else s.heard),
      ∃ key, C.keyFromPeerId peerId = some key ∧ handler.peerKeys peerId = some key
    rw [hkeys]
    cases hkey : msg.senderPublicKey with
    | none => exact hheard
    | some fresh =>
      refine forall_mem_cons.mpr ⟨⟨fresh, hown fresh hkey, ?_⟩, hheard⟩
      rw [cacheKey, senderKey, hkey]
      exact update_self _ _ _
  unchanged_iff := by
    show ∀ r ∈ (if s.handler.refuses cfg msg fromPeerId then
      ⟨msg, s.handler, handler⟩ :: s.refused else s.refused), r.after = r.before ↔ r.KnownReplay
    split
    next href => exact forall_mem_cons.mpr ⟨hrefused href, h.unchanged_iff⟩
    next => exact h.unchanged_iff

lemma cacheKey_conversations (h : MessageHandler C) (msg : Message C) :
    (h.cacheKey msg).conversations = h.conversations := by
  unfold cacheKey
  split
  next => rfl
  next => rfl

lemma setConversation_self (h : MessageHandler C) (id : Term) (conv : ConversationState C) :
    (h.setConversation id conv).conversations id = some conv :=
  update_self _ _ _

lemma setConversation_of_ne (h : MessageHandler C) {id id' : Term} (hid : id' ≠ id)
    (conv : ConversationState C) :
    (h.setConversation id conv).conversations id' = h.conversations id' :=
  update_of_ne hid _ _

/-- A replay in a conversation on record with the cached key changes nothing. -/
lemma replay_unchanged {h : MessageHandler C} (sharedSecret : C.Secret) (now : ℕ)
    (hrecord : (h.conversations msg.conversationId).isSome = true)
    (hkey : ∀ key, msg.senderPublicKey = some key → h.peerKeys msg.senderPeerId = some key) :
    (h.cacheKey msg).setConversation msg.conversationId (h.conversation msg sharedSecret now) =
      h := by
  have hcache : h.cacheKey msg = h := by
    unfold cacheKey
    split
    next key hsender =>
      have hcached : h.peerKeys msg.senderPeerId = some key := by
        cases hfresh : msg.senderPublicKey with
        | some fresh =>
          rw [senderKey, hfresh] at hsender
          exact (hkey fresh hfresh).trans hsender
        | none =>
          rw [senderKey, hfresh] at hsender
          exact hsender
      rw [← hcached, update_eq_self]
    next => rfl
  obtain ⟨conv, hconv⟩ := isSome_iff_exists.mp hrecord
  rw [hcache]
  unfold setConversation conversation
  rw [hconv, getD_some, ← hconv, update_eq_self]

lemma replay_unchanged_iff {h : MessageHandler C} (sharedSecret : C.Secret) (now : ℕ) :
    (h.cacheKey msg).setConversation msg.conversationId (h.conversation msg sharedSecret now) = h ↔
      (h.conversations msg.conversationId).isSome = true ∧
        ∀ key, msg.senderPublicKey = some key → h.peerKeys msg.senderPeerId = some key := by
  constructor
  · intro heq
    constructor
    · have hconv := setConversation_self (h.cacheKey msg) msg.conversationId
        (h.conversation msg sharedSecret now)
      rw [heq] at hconv
      rw [hconv]
      rfl
    · intro key hkey
      have hpeers := congrArg peerKeys heq
      have hcached : (h.cacheKey msg).peerKeys = h.peerKeys := hpeers
      rw [← hcached, cacheKey, senderKey, hkey]
      exact update_self _ _ _
  · rintro ⟨hrecord, hkey⟩
    exact replay_unchanged sharedSecret now hrecord hkey

/-- The mark of a message that is not a replay is raised before the message is checked. -/
lemma raised_ne {h : MessageHandler C} {seq : ℤ} (hseq : h.highWaterMark msg.conversationId < seq)
    (now : ℕ) (sharedSecret : C.Secret) :
    (h.cacheKey msg).setConversation msg.conversationId ⟨seq, now, sharedSecret⟩ ≠ h := by
  intro heq
  have hconv := setConversation_self (h.cacheKey msg) msg.conversationId ⟨seq, now, sharedSecret⟩
  rw [heq] at hconv
  rw [highWaterMark, hconv] at hseq
  simp only [elim_some, lt_self_iff_false] at hseq

/-- A mark that is just written. -/
lemma le_mark {n seq : ℤ} (hn : n ≤ seq) (now : ℕ) (sharedSecret : C.Secret) :
    n ≤ (⟨seq, now, sharedSecret⟩ : ConversationState C).highWaterMark := hn

/-- Marks do not fall if the conversation that is written has none below the one on record. -/
lemma marks_rise (h : MessageHandler C) (conv' : ConversationState C)
    (hmark : h.highWaterMark msg.conversationId ≤ conv'.highWaterMark) (id : Term)
    (conv : ConversationState C) (hconv : h.conversations id = some conv) :
    ∃ later, ((h.cacheKey msg).setConversation msg.conversationId conv').conversations id =
      some later ∧ conv.highWaterMark ≤ later.highWaterMark := by
  by_cases hid : id = msg.conversationId
  · subst hid
    rw [highWaterMark, hconv] at hmark
    exact ⟨conv', setConversation_self _ _ _, hmark⟩
  · rw [setConversation_of_ne _ hid, cacheKey_conversations]
    exact ⟨conv, hconv, le_refl _⟩

lemma exists_verify (h : (verified cfg t).invokes = true) :
    ∃ key, t.senderKey = some key ∧ C.verify t.msg.senderSignature t.msg.signed key = true := by
  unfold verified at h
  split at h
  next hany => exact (any_eq_true _ _).mp hany
  next => cases h

/-- Signatures are unforgeable, so a message that asks for a handler is genuine. -/
lemma SoundMessage.genuine (h : s.SoundMessage cfg msg fromPeerId)
    (hpossible : ∀ key, C.verify msg.senderSignature msg.signed key = true →
      (key, msg.signed) ∈ s.produced) (ht : s.handler.task cfg msg fromPeerId = some t)
    (hseq : s.handler.highWaterMark msg.conversationId < msg.seq) (hasks : t.asks cfg = true) :
    s.Genuine msg fromPeerId := by
  obtain ⟨hchecked, howner⟩ := h.checked t ht hseq hasks
  rw [Task.asks, if_pos hchecked] at hasks
  obtain ⟨key, hkey, hverify⟩ := exists_verify hasks
  rw [(task_eq ht).1] at hverify
  exact ⟨key, howner.symm.trans hkey, hpossible key hverify⟩

lemma Marked.not_above (h : s.Marked msg) (hforgotten : msg.number ∉ s.forgotten) :
    msg.seq ≤ s.handler.highWaterMark msg.conversationId := by
  obtain ⟨conv, hconv, hle⟩ := h.resolve_left hforgotten
  rw [highWaterMark, hconv]
  exact hle

lemma Kept.deliver (h : Kept s (s.asking cfg)) (hsound : s.SoundMessage cfg msg fromPeerId)
    (hpossible : ∀ key, C.verify msg.senderSignature msg.signed key = true →
      (key, msg.signed) ∈ s.produced) (now : ℕ) :
    Kept (s.deliver cfg msg fromPeerId now) ((s.deliver cfg msg fromPeerId now).asking cfg) := by
  unfold Inbox.deliver
  cases ht : s.handler.task cfg msg fromPeerId with
  | none =>
    rw [receive_without_secret now ht]
    refine h.record (fun id conv hconv => ?_) rfl hsound.own_key fun href => ?_
    · rw [cacheKey_conversations]
      exact ⟨conv, hconv, le_refl _⟩
    · rw [refuses, ht] at href
      cases href
  | some t =>
    rcases le_or_gt msg.seq (s.handler.highWaterMark msg.conversationId) with hseq | hseq
    · obtain ⟨sharedSecret, response, hreceive⟩ := receive_replay now ht hseq
      rw [hreceive]
      refine h.record (marks_rise s.handler _ ?_) rfl hsound.own_key fun _ => ?_
      · exact (conversation_highWaterMark sharedSecret now).ge
      · refine (replay_unchanged_iff sharedSecret now).trans ?_
        exact ⟨fun hknown => ⟨hseq, hknown.1, hknown.2⟩,
          fun hknown => ⟨hknown.recorded, hknown.cached⟩⟩
    · obtain ⟨sharedSecret, hreceive⟩ := receive_new now ht hseq
      rw [hreceive]
      set handler := (s.handler.cacheKey msg).setConversation msg.conversationId
        ⟨msg.seq, now, sharedSecret⟩ with hhandler
      have hrecord : Kept (s.record cfg msg fromPeerId handler) (s.asking cfg) := by
        refine h.record (marks_rise s.handler _ (le_mark hseq.le now sharedSecret)) rfl
            hsound.own_key fun _ => ?_
        exact iff_of_false (raised_ne hseq now sharedSecret)
          fun hknown => absurd hknown.replay (not_le.mpr hseq)
      obtain ⟨hmsg, hpeer, -⟩ := task_eq ht
      refine Kept.proceed (hrecord.withTask fun hasks => ?_) ?_
      · rw [hmsg, hpeer]
        refine ⟨hsound.genuine hpossible ht hseq hasks, fun old hold heq => ?_,
          .inr ⟨_, setConversation_self _ _ _, le_mark (le_refl _) now sharedSecret⟩⟩
        have hfresh := hsound.fresh t ht hseq hasks
        have hparts := Message.number_eq_iff.mp heq
        rw [← heq] at hfresh
        have hle := (h.marked old hold).not_above hfresh
        rw [hparts.1, hparts.2] at hle
        omega
      · split
        next => exact .inl rfl
        next hunchecked =>
          refine .inr fun hn => ?_
          rw [Task.asks, if_neg]
          · exact hn
          · rw [Task.isChecked, hmsg, Bool.and_eq_true]
            exact hunchecked

/-! ### The other steps -/

lemma Kept.clean (h : Kept s (s.asking cfg)) (now : ℕ) :
    Kept (s.clean cfg now) ((s.clean cfg now).asking cfg) where
  genuine := h.genuine
  once := h.once
  marked := by
    intro t ht
    rcases h.marked t ht with hforgotten | ⟨conv, hconv, hle⟩
    · exact .inl (mem_append_right _ hforgotten)
    · cases hlater : (s.handler.cleanExpiredConversations now).conversations
        t.msg.conversationId with
      | none =>
        refine .inl (mem_append_left _ (mem_map_of_mem ?_))
        exact mem_filter.mpr ⟨ht, by rw [hlater]; rfl⟩
      | some later =>
        refine .inr ⟨later, hlater, ?_⟩
        have hfilter : (s.handler.conversations t.msg.conversationId).filter _ = some later :=
          hlater
        rw [hconv] at hfilter
        rw [← (filter_eq_some_iff.mp hfilter).1 |> Option.some.inj]
        exact hle
  own_keys := h.own_keys
  unchanged_iff := h.unchanged_iff

lemma Kept.produce (h : Kept s tasks) (key : C.Key) (data : List Octet) :
    Kept { s with produced := (key, data) :: s.produced } tasks where
  genuine := fun t ht => (h.genuine t ht).imp fun _ howner =>
    ⟨howner.1, mem_cons_of_mem _ howner.2⟩
  once := h.once
  marked := h.marked
  own_keys := h.own_keys
  unchanged_iff := h.unchanged_iff

lemma asks_of_verified (h : (verified cfg t).invokes = true) : t.asks cfg = true := by
  unfold Task.asks
  split
  next => exact h
  next =>
    unfold verified at h
    split at h
    next => exact h
    next => cases h

lemma Kept.checked (h : Kept s (s.asking cfg)) {index : ℕ} (hw : s.waiting[index]? = some t) :
    Kept (Inbox.proceed { s with waiting := s.waiting.eraseIdx index } t (verified cfg t))
      ((Inbox.proceed { s with waiting := s.waiting.eraseIdx index } t (verified cfg t)).asking
        cfg) := by
  obtain ⟨hindex, hget⟩ := List.getElem?_eq_some_iff.mp hw
  have hwaiting : (t :: s.waiting.eraseIdx index).Perm s.waiting := by
    rw [← hget]
    exact getElem_cons_eraseIdx_perm hindex
  have hperm : (s.asking cfg).Perm (Inbox.withTask cfg t
      (asking cfg { s with waiting := s.waiting.eraseIdx index })) := by
    have hfilter := hwaiting.filter (Task.asks cfg)
    rw [filter_cons] at hfilter
    refine ((List.Perm.append_left s.invoked hfilter).symm).trans ?_
    unfold Inbox.withTask asking
    split
    next => exact perm_middle
    next => exact List.Perm.refl _
  have hkept := h.perm hperm
  have hrest : Kept { s with waiting := s.waiting.eraseIdx index } (Inbox.withTask cfg t
      (asking cfg { s with waiting := s.waiting.eraseIdx index })) :=
    ⟨hkept.genuine, hkept.once, hkept.marked, hkept.own_keys, hkept.unchanged_iff⟩
  exact hrest.proceed (.inr asks_of_verified)

/-! ### Runs -/

lemma Kept.step {event : Incoming C} {s' : Inbox C} (h : Kept s (s.asking cfg))
    (hstep : ((machine cfg).restrict (Sound cfg)).step s event s') : Kept s' (s'.asking cfg) := by
  obtain ⟨hsound, hpossible, rfl⟩ := hstep
  cases event with
  | deliver msg fromPeerId now => exact h.deliver hsound hpossible now
  | checked index =>
    simp only [exec]
    split
    next hw => exact h.checked hw
    next => exact h
  | clean now => exact h.clean now
  | produce key data => exact h.produce key data

lemma kept (hr : ((machine cfg).restrict (Sound cfg)).Reachable s) : Kept s (s.asking cfg) := by
  refine invariant (P := fun s => Kept s (s.asking cfg)) (fun s hinit => ?_)
    (fun _ _ _ h hstep => Kept.step h hstep) hr
  obtain ⟨hwaiting, hheard, hrefused, hinvoked, -⟩ := hinit
  have hasking : s.asking cfg = [] := by
    rw [asking, hwaiting, hinvoked]
    rfl
  rw [hasking]
  refine ⟨?_, nodup_nil, ?_, ?_, ?_⟩
  · exact fun t ht => absurd ht not_mem_nil
  · exact fun t ht => absurd ht not_mem_nil
  · simp [hheard]
  · simp [hrefused]

end Inbox

/-- In a run in which every delivery is sound, what is handled is genuine and handled once, and the
refused messages leave no trace exactly if all of them are known replays. -/
theorem authentic_of_sound {cfg : Config C} {s : Inbox C}
    (hr : ((Inbox.machine cfg).restrict (Inbox.Sound cfg)).Reachable s) :
    s.Handled ∧ (s.Authentic ↔ ∀ r ∈ s.refused, r.KnownReplay) := by
  have hkept := Inbox.kept hr
  have hinvoked : (s.invoked.map fun t => t.msg.number).Nodup := by
    have honce := hkept.once
    rw [Inbox.asking, map_append] at honce
    exact (nodup_append.mp honce).1
  have hhandled : s.Handled :=
    { genuine := fun t ht => hkept.genuine t (mem_append_left _ ht)
      once := hinvoked
      own_keys := hkept.own_keys }
  refine ⟨hhandled, fun hauthentic r hr => ?_, fun hknown => ⟨hhandled, fun r hr => ?_⟩⟩
  · exact (hkept.unchanged_iff r hr).mp (hauthentic.unchanged r hr)
  · exact (hkept.unchanged_iff r hr).mpr (hknown r hr)

/-! ## A genuine message and two forged ones -/

namespace Mailbox

def config : Config Crypto.transparent := ⟨(2 : ℕ), ['b', 'b'], fun _ => false, true⟩

def start : Inbox Crypto.transparent :=
  ⟨⟨fun _ => none, fun _ => none⟩, [], [], [], [], [], []⟩

/-- What `sendChat` encrypts. -/
def payload : List Octet := Crypto.transparent.encrypt ((1 : ℕ), (2 : ℕ))
  (Utf8.encode (Json.object [(literal "type", .string (literal "chat")),
    (literal "text", .string (literal "hello"))]).render) (['c'], (1 : ℤ))

def chat : Message Crypto.transparent where
  conversationId := ['c']
  sequence := 1
  senderPeerId := ['a']
  recipientPeerId := ['b', 'b']
  encryptedPayload := payload
  nonce := (['c'], (1 : ℤ))
  senderSignature := ((1 : ℕ), buildSignatureInput ['c'] 1 payload)
  senderPublicKey := some (1 : ℕ)

/-- Another peer claims to be the sender of the chat and sends its own key, a higher number and an
empty signature. -/
def forgery : Message Crypto.transparent where
  conversationId := ['c']
  sequence := 5
  senderPeerId := ['a']
  recipientPeerId := ['b', 'b']
  encryptedPayload := []
  nonce := (['c'], (5 : ℤ))
  senderSignature := ((3 : ℕ), ([] : List Octet))
  senderPublicKey := some (3 : ℕ)

/-- The same peer sends the key of the peer it names and guesses at the signature. -/
def guess : Message Crypto.transparent where
  conversationId := ['d']
  sequence := 5
  senderPeerId := ['a']
  recipientPeerId := ['b', 'b']
  encryptedPayload := payload
  nonce := (['d'], (5 : ℤ))
  senderSignature := ((1 : ℕ), ([] : List Octet))
  senderPublicKey := some (1 : ℕ)

def produced : Inbox Crypto.transparent := start.exec config (.produce (1 : ℕ) chat.signed)

def guessed : Inbox Crypto.transparent := produced.exec config (.deliver guess ['c', 'c', 'c'] 0)

def delivered : Inbox Crypto.transparent := guessed.exec config (.deliver chat ['a'] 0)

/-- Both signatures are checked. -/
def answered : Inbox Crypto.transparent :=
  (delivered.exec config (.checked 1)).exec config (.checked 0)

/-- The chat comes again. -/
def repeated : Inbox Crypto.transparent := answered.exec config (.deliver chat ['a'] 0)

def forged : Inbox Crypto.transparent := start.exec config (.deliver forgery ['c', 'c', 'c'] 0)

lemma guess_sound : produced.SoundMessage config guess ['c', 'c', 'c'] where
  own_key := fun _ hkey => hkey
  checked := by
    intro t ht _ hasks
    obtain rfl := Option.some.inj ht
    exact absurd hasks (by decide +kernel)
  fresh := fun _ _ _ _ => not_mem_nil

lemma chat_sound : guessed.SoundMessage config chat ['a'] where
  own_key := fun _ hkey => hkey
  checked := by
    intro t ht _ _
    obtain rfl := Option.some.inj ht
    exact ⟨rfl, rfl⟩
  fresh := fun _ _ _ _ => not_mem_nil

lemma repeated_sound : answered.SoundMessage config chat ['a'] where
  own_key := fun _ hkey => hkey
  checked := fun _ _ hseq => absurd hseq (by decide +kernel)
  fresh := fun _ _ hseq => absurd hseq (by decide +kernel)

/-- An empty signature holds under no key. -/
lemma not_verify_nil {signer key : ℕ} {data : List Octet} (hdata : data ≠ []) :
    ¬ Crypto.transparent.verify (signer, ([] : List Octet)) data key = true := by
  intro hkey
  have hempty : [] = data := congrArg Prod.snd (Crypto.transparent_verify hkey)
  exact hdata hempty.symm

lemma checked_produced (s : Inbox Crypto.transparent) (index : ℕ) :
    (s.exec config (.checked index)).produced = s.produced := by
  simp only [Inbox.exec]
  split
  next t _ => cases verified config t <;> rfl
  next => rfl

lemma chat_possible {s : Inbox Crypto.transparent} (hs : ((1 : ℕ), chat.signed) ∈ s.produced) :
    s.Possible (.deliver chat ['a'] 0) := by
  intro key hkey
  have hsigner : chat.senderSignature = (key, chat.signed) := Crypto.transparent_verify hkey
  have hone : (1 : ℕ) = key := congrArg Prod.fst hsigner
  subst hone
  exact hs

lemma repeated_reachable :
    ((Inbox.machine config).restrict (Inbox.Sound config)).Reachable repeated := by
  have hstart : ((Inbox.machine config).restrict (Inbox.Sound config)).Reachable start :=
    .init ⟨rfl, rfl, rfl, rfl, rfl⟩
  have hproduced := step (c := Incoming.produce (1 : ℕ) chat.signed) hstart ⟨trivial, trivial, rfl⟩
  have hguessed := step (c := Incoming.deliver guess ['c', 'c', 'c'] 0) hproduced
    ⟨guess_sound, fun _ hkey => absurd hkey (not_verify_nil (by decide +kernel)), rfl⟩
  have hdelivered := step (c := Incoming.deliver chat ['a'] 0) hguessed
    ⟨chat_sound, chat_possible mem_cons_self, rfl⟩
  have hchecked := step (c := Incoming.checked 1) hdelivered ⟨trivial, trivial, rfl⟩
  have hanswered : ((Inbox.machine config).restrict (Inbox.Sound config)).Reachable answered :=
    step (c := Incoming.checked 0) hchecked ⟨trivial, trivial, rfl⟩
  refine step (c := Incoming.deliver chat ['a'] 0) hanswered
    ⟨repeated_sound, chat_possible ?_, rfl⟩
  rw [answered, checked_produced, checked_produced]
  exact mem_cons_self

lemma forged_reachable : (Inbox.machine config).Reachable forged := by
  have hstart : (Inbox.machine config).Reachable start := .init ⟨rfl, rfl, rfl, rfl, rfl⟩
  exact step (c := Incoming.deliver forgery ['c', 'c', 'c'] 0) hstart
    ⟨fun _ hkey => absurd hkey (not_verify_nil (by decide +kernel)), rfl⟩

end Mailbox

/-- The chat invokes the chat handler once, whatever the guess and the repetition. -/
theorem chat_is_authentic :
    (Mailbox.repeated.invoked.length = 1 ∧ Mailbox.repeated.refused.length = 2) ∧
      Mailbox.repeated.Handled ∧
        (Mailbox.repeated.Authentic ↔ ∀ r ∈ Mailbox.repeated.refused, r.KnownReplay) :=
  ⟨by decide +kernel, authentic_of_sound Mailbox.repeated_reachable⟩

/-- The forged message fails the signature check, but its key is cached for the peer it names, and
the chat of that peer is a replay from then on. -/
theorem forged_message_is_remembered :
    (Inbox.machine Mailbox.config).Reachable Mailbox.forged ∧ ¬ Mailbox.forged.Authentic ∧
      Mailbox.chat.seq ≤ Mailbox.forged.handler.highWaterMark ['c'] := by
  refine ⟨Mailbox.forged_reachable, fun h => ?_, by decide +kernel⟩
  obtain ⟨key, howner, hcached⟩ := h.own_keys ['a'] mem_cons_self
  have hlength : some (1 : ℕ) = some key := howner
  have hforged : some (3 : ℕ) = some key := hcached
  rw [← hforged] at hlength
  cases hlength

end Dkg.Messaging
