import Dkg.Messaging.Network

/-! # Nonces between two handlers

The slot of an encryption is its conversation and sequence number. Every slot belongs to a drawn
conversation id or to one delivered message, whose number is one less. A waiting message holds its
slot.
-/

namespace Dkg.Messaging

open Lib List Encryption

variable {C : Crypto}

/-! ## Sequence numbers on the wire -/

lemma bmod_wireSequence (n : ℤ) : Int.bmod (wireSequence n) (2 ^ 32) = Int.bmod n (2 ^ 32) := by
  have hcast : ((wireSequence n : ℕ) : ℤ) = n % 2 ^ 64 :=
    Int.toNat_of_nonneg (Int.emod_nonneg n (by norm_num))
  rw [hcast, Int.bmod_def, Int.bmod_def]
  omega

/-- The numbers that an answer can have come back different. -/
lemma wireSequence_injective {m n : ℤ} (hm : -2147483648 < m ∧ m ≤ 2147483648)
    (hn : -2147483648 < n ∧ n ≤ 2147483648)
    (h : Int.bmod (wireSequence m) (2 ^ 32) = Int.bmod (wireSequence n) (2 ^ 32)) : m = n := by
  rw [bmod_wireSequence, bmod_wireSequence, Int.bmod_def, Int.bmod_def] at h
  omega

lemma Message.seq_bounds (msg : Message C) :
    -2147483648 < msg.seq + 1 ∧ msg.seq + 1 ≤ 2147483648 := by
  unfold Message.seq
  rw [Int.bmod_def]
  omega

/-! ## Slots -/

def Encryption.slot (e : Encryption C) : Term × ℤ := (e.conversationId, e.sequence)

/-- The number of the message of an encryption. -/
def Encryption.number (e : Encryption C) : Term × ℤ :=
  (e.conversationId, Int.bmod (wireSequence e.sequence) (2 ^ 32))

def Task.slot (t : Task C) : Term × ℤ := (t.msg.conversationId, t.msg.seq + 1)

def Waiting.slot (w : Waiting C) : Term × ℤ := w.task.slot

namespace Network

variable {cfg : Side → Config C} {s : Network C} {side : Side} {e : Encryption C} {task : Task C}

def slots (s : Network C) : List (Term × ℤ) :=
  s.log.map slot ++ s.waiting.map Waiting.slot

/-- The slot is that of a request, or of the answer to a delivered message. -/
def HasOrigin (s : Network C) (slot : Term × ℤ) : Prop :=
  (slot.1 ∈ s.drawn ∧ slot.2 = 1) ∨ ∃ msg ∈ s.delivered, slot = (msg.conversationId, msg.seq + 1)

/-- What every run keeps: each nonce that was used belongs to one message of one side. -/
structure Inv (s : Network C) : Prop where
  slots_nodup : s.slots.Nodup
  origin : ∀ slot ∈ s.slots, s.HasOrigin slot
  sent_log : s.sent.map Message.number = s.log.map number
  delivered_sent : ∀ msg ∈ s.delivered, msg ∈ s.sent ∧ msg.seq ≠ 0
  sent_drawn : ∀ msg ∈ s.sent, msg.conversationId ∈ s.drawn

variable {slot : Term × ℤ} {msg : Message C} {w : Waiting C}

lemma HasOrigin.bounds (h : s.HasOrigin slot) : -2147483648 < slot.2 ∧ slot.2 ≤ 2147483648 := by
  rcases h with ⟨-, hone⟩ | ⟨msg, -, rfl⟩
  · omega
  · exact msg.seq_bounds

/-! ## Sent messages -/

lemma mem_sent_proceed (next : Next) (h : msg ∈ s.sent) :
    msg ∈ (s.proceed cfg side task next).sent := by
  cases next with
  | answers response => exact mem_cons_of_mem _ h
  | _ => exact h

lemma mem_sent_exec {event : Event C} (h : msg ∈ s.sent) : msg ∈ (s.exec cfg event).sent := by
  cases event with
  | send =>
    simp only [exec, send]
    split
    · exact h
    · split
      · exact h
      · exact mem_cons_of_mem _ h
  | deliver =>
    simp only [exec, deliver]
    split
    · exact h
    · exact mem_sent_proceed _ h
  | checked | finished =>
    simp only [exec]
    split
    all_goals first | exact mem_sent_proceed _ h | exact h
  | clean => exact h

section

variable (h : Inv s)

include h

lemma Inv.drawn (hslot : slot ∈ s.slots) : slot.1 ∈ s.drawn := by
  rcases h.origin slot hslot with ⟨hdrawn, -⟩ | ⟨msg, hmsg, rfl⟩
  · exact hdrawn
  · exact h.sent_drawn msg (h.delivered_sent msg hmsg).1

/-- Two messages with one conversation and sequence number are one message. -/
lemma Inv.sent_injective {msg' : Message C} (hmsg : msg ∈ s.sent)
    (hmsg' : msg' ∈ s.sent) (hnumber : msg.number = msg'.number) : msg = msg' := by
  have hlog : (s.log.map number).Nodup := by
    have hslots : (s.log.map slot).Nodup := (nodup_append.mp h.slots_nodup).1
    refine nodup_map_iff_inj_on (Nodup.of_map _ hslots) |>.mpr ?_
    intro e he e' he' heq
    refine inj_on_of_nodup_map hslots he he' ?_
    have hslot := h.origin _ (mem_append_left _ (mem_map_of_mem he))
    have hslot' := h.origin _ (mem_append_left _ (mem_map_of_mem he'))
    obtain ⟨hid, hsequence⟩ := Prod.ext_iff.mp heq
    simp only [number] at hid hsequence
    exact Prod.ext hid (wireSequence_injective hslot.bounds hslot'.bounds hsequence)
  rw [← h.sent_log] at hlog
  exact inj_on_of_nodup_map hlog hmsg hmsg' hnumber

/-- The answer to a message that was not delivered yet has a slot of its own. -/
lemma Inv.slot_notMem (hmsg : msg ∈ s.sent) (hnew : msg ∉ s.delivered)
    (hseq : msg.seq ≠ 0) : (msg.conversationId, msg.seq + 1) ∉ s.slots := by
  intro hslot
  rcases h.origin _ hslot with ⟨-, hone⟩ | ⟨msg', hmsg', heq⟩
  · have hsum : msg.seq + 1 = 1 := hone
    omega
  · simp only [Prod.mk.injEq, add_left_inj] at heq
    have hnumber : msg.number = msg'.number := Message.number_eq_iff.mpr heq
    rw [h.sent_injective hmsg (h.delivered_sent msg' hmsg').1 hnumber] at hnew
    exact hnew hmsg'

/-! ## Steps -/

lemma Inv.emit (recipientPeerId : Term) (hslot : e.slot ∉ s.slots)
    (horigin : s.HasOrigin e.slot) (hdrawn : e.conversationId ∈ s.drawn) :
    Inv (s.emit cfg side recipientPeerId e) where
  slots_nodup := nodup_cons.mpr ⟨hslot, h.slots_nodup⟩
  origin := forall_mem_cons.mpr ⟨horigin, h.origin⟩
  sent_log := congrArg (cons e.number) h.sent_log
  delivered_sent := fun msg hmsg =>
    ⟨mem_cons_of_mem _ (h.delivered_sent msg hmsg).1, (h.delivered_sent msg hmsg).2⟩
  sent_drawn := forall_mem_cons.mpr ⟨hdrawn, h.sent_drawn⟩

lemma Inv.wait (hslot : w.slot ∉ s.slots) (horigin : s.HasOrigin w.slot) :
    Inv { s with waiting := w :: s.waiting } where
  slots_nodup := (nodup_middle).mpr (nodup_cons.mpr ⟨hslot, h.slots_nodup⟩)
  origin := by
    intro slot hmem
    rcases mem_append.mp hmem with hlog | hwaiting
    · exact h.origin slot (mem_append_left _ hlog)
    · rcases mem_cons.mp hwaiting with rfl | hold
      · exact horigin
      · exact h.origin slot (mem_append_right _ hold)
  sent_log := h.sent_log
  delivered_sent := h.delivered_sent
  sent_drawn := h.sent_drawn

/-- However the handling of a message goes on, it uses the slot of the answer. -/
lemma Inv.proceed (hslot : task.slot ∉ s.slots) (horigin : s.HasOrigin task.slot)
    (hdrawn : task.msg.conversationId ∈ s.drawn) (next : Next) :
    Inv (s.proceed cfg side task next) := by
  cases next with
  | throws => exact h
  | answers response => exact h.emit [] hslot horigin hdrawn
  | verifies | runsSkill skillUri | runsChat => exact h.wait hslot horigin

lemma Inv.setHandler (handler : MessageHandler C) : Inv (s.setHandler side handler) :=
  ⟨h.slots_nodup, h.origin, h.sent_log, h.delivered_sent, h.sent_drawn⟩

lemma Inv.draw (conversationId : Term) : Inv { s with drawn := conversationId :: s.drawn } where
  slots_nodup := h.slots_nodup
  origin := fun slot hslot =>
    (h.origin slot hslot).imp_left fun hone => ⟨mem_cons_of_mem _ hone.1, hone.2⟩
  sent_log := h.sent_log
  delivered_sent := h.delivered_sent
  sent_drawn := fun msg hmsg => mem_cons_of_mem _ (h.sent_drawn msg hmsg)

lemma Inv.send {conversationId : Term} (hnew : conversationId ∉ s.drawn)
    (recipientPeerId : Term) (request : Request) (now : ℕ) :
    Inv (s.send cfg side conversationId recipientPeerId request now) := by
  unfold Network.send
  simp only
  cases hkey : (s.handlers side).resolvePeerKey recipientPeerId with
  | none => exact h.draw conversationId
  | some key =>
    simp only
    cases hsecret : C.deriveSecret (cfg side).key key with
    | none => exact (h.draw conversationId).setHandler _
    | some sharedSecret =>
      refine ((h.draw conversationId).setHandler _).emit _ (fun hslot => hnew ?_)
        (.inl ⟨mem_cons_self, rfl⟩) mem_cons_self
      exact h.drawn (show (conversationId, (1 : ℤ)) ∈ s.slots from hslot)

omit h in
lemma receive_msg {config : Config C} {h : MessageHandler C} {now : ℕ} {fromPeerId : Term}
    {next : Next} (hresult : (receive config h now msg fromPeerId).2 = some (task, next)) :
    task.msg = msg := by
  unfold receive at hresult
  split at hresult
  next => cases hresult
  next =>
    simp only at hresult
    split at hresult
    next =>
      cases hresult
      rfl
    next =>
      cases hresult
      rfl

lemma Inv.deliver (hmsg : msg ∈ s.sent) (hnew : msg ∉ s.delivered)
    (hseq : msg.seq ≠ 0) (fromPeerId : Term) (now : ℕ) :
    Inv (s.deliver cfg side msg fromPeerId now) := by
  have hdelivered : Inv { s.setHandler side (receive (cfg side) (s.handlers side) now msg
      fromPeerId).1 with delivered := msg :: s.delivered } :=
    { slots_nodup := h.slots_nodup
      origin := fun slot hslot => (h.origin slot hslot).imp_right fun horigin =>
        horigin.imp fun old hold => ⟨mem_cons_of_mem _ hold.1, hold.2⟩
      sent_log := h.sent_log
      delivered_sent := forall_mem_cons.mpr ⟨⟨hmsg, hseq⟩, h.delivered_sent⟩
      sent_drawn := h.sent_drawn }
  unfold Network.deliver
  simp only
  cases hresult : (receive (cfg side) (s.handlers side) now msg fromPeerId).2 with
  | none => exact hdelivered
  | some result =>
    have htask : result.1.msg = msg := receive_msg hresult
    refine hdelivered.proceed ?_ (.inr ⟨msg, mem_cons_self, ?_⟩) ?_ result.2
    · unfold Task.slot
      rw [htask]
      exact h.slot_notMem hmsg hnew hseq
    · rw [Task.slot, htask]
    · rw [htask]
      exact h.sent_drawn msg hmsg

lemma Inv.resume {index : ℕ} (hw : s.waiting[index]? = some w) (next : Next) :
    Inv (Network.proceed cfg { s with waiting := s.waiting.eraseIdx index } w.side
      w.task next) := by
  obtain ⟨hindex, hget⟩ := List.getElem?_eq_some_iff.mp hw
  have hperm : (w.slot :: (s.waiting.eraseIdx index).map Waiting.slot).Perm
      (s.waiting.map Waiting.slot) := by
    rw [← hget]
    exact (getElem_cons_eraseIdx_perm hindex).map Waiting.slot
  have hslots : (w.slot :: (s.log.map slot ++
      (s.waiting.eraseIdx index).map Waiting.slot)).Nodup := by
    have hmiddle := (List.Perm.append_left (s.log.map slot) hperm).nodup_iff.mpr h.slots_nodup
    exact nodup_middle.mp hmiddle
  have hmem : w.slot ∈ s.slots := mem_append_right _ (hperm.subset mem_cons_self)
  have hrest : Inv { s with waiting := s.waiting.eraseIdx index } :=
    { slots_nodup := (nodup_cons.mp hslots).2
      origin := by
        intro slot hslot
        refine h.origin slot ?_
        rcases mem_append.mp hslot with hlog | hwaiting
        · exact mem_append_left _ hlog
        · exact mem_append_right _ (hperm.subset (mem_cons_of_mem _ hwaiting))
      sent_log := h.sent_log
      delivered_sent := h.delivered_sent
      sent_drawn := h.sent_drawn }
  exact hrest.proceed (nodup_cons.mp hslots).1 (h.origin _ hmem) (h.drawn hmem) next

/-! ## Runs -/

/-- **The step lemma.** No step uses a nonce again. -/
lemma Inv.step {event : Event C} {s' : Network C}
    (hstep : ((machine cfg).restrict Once).step s event s') : Inv s' := by
  obtain ⟨honce, hpossible, rfl⟩ := hstep
  cases event with
  | send side conversationId recipientPeerId request now => exact h.send honce _ _ _
  | deliver side msg fromPeerId now => exact h.deliver hpossible honce.1 honce.2 _ _
  | checked index =>
    simp only [exec]
    split
    next hw => exact h.resume hw _
    next => exact h
  | finished index response =>
    simp only [exec]
    split
    next hw => exact h.resume hw _
    next hw => exact h.resume hw _
    next => exact h
  | clean side now => exact h.setHandler _

end

lemma inv (hr : ((machine cfg).restrict Once).Reachable s) : Inv s := by
  refine hr.invariant (fun s hinit => ?_) (fun _ _ _ h hstep => h.step hstep)
  obtain ⟨hwaiting, hsent, hlog, hdelivered, hdrawn⟩ := hinit
  have hslots : s.slots = [] := by
    rw [slots, hwaiting, hlog]
    rfl
  refine ⟨by rw [hslots]; exact nodup_nil, ?_, by rw [hsent, hlog]; rfl, ?_, ?_⟩
  · simp [hslots]
  · simp [hdelivered]
  · simp [hsent]

end Network

/-- In a run in which every message is delivered once, two encryptions under one secret with one
nonce have one plaintext. -/
theorem one_plaintext_per_nonce {cfg : Side → Config C} {s : Network C}
    (hr : ((Network.machine cfg).restrict Network.Once).Reachable s) {e e' : Encryption C}
    (he : e ∈ s.log) (he' : e' ∈ s.log) (_ : e.sharedSecret = e'.sharedSecret)
    (hnonce : e.nonce = e'.nonce) : e.plaintext = e'.plaintext := by
  have hslots : (s.log.map slot).Nodup := (nodup_append.mp (Network.inv hr).slots_nodup).1
  have hparts := C.buildNonce_injective hnonce
  have hslot : e.slot = e'.slot := Prod.ext hparts.1 hparts.2
  rw [inj_on_of_nodup_map hslots he he' hslot]

/-! ## A retry -/

namespace Retry

/-- The peer ids have one character and two. -/
def config : Side → Config Crypto.transparent
  | .left => ⟨(1 : ℕ), ['a'], fun _ => false, false⟩
  | .right => ⟨(2 : ℕ), ['b', 'b'], fun _ => false, false⟩

def start : Network Crypto.transparent :=
  ⟨fun _ => ⟨fun _ => none, fun _ => none⟩, [], [], [], [], []⟩

def greeting : Request := .chat (literal "hello")

def sending : Event Crypto.transparent := .send .left ['c'] ['b', 'b'] greeting 0

def sentChat : Network Crypto.transparent := Network.exec config start sending

def chatMessage : Message Crypto.transparent :=
  message (config .left) ['b', 'b'] ⟨((1 : ℕ), (2 : ℕ)), ['c'], 1, greeting.payload⟩

def delivery : Event Crypto.transparent := .deliver .right chatMessage ['a'] 0

def answered : Network Crypto.transparent :=
  Network.exec config (Network.exec config sentChat delivery) (.checked 0)

/-- The transport has the answer to the first attempt lost and sends the message again. -/
def retried : Network Crypto.transparent := Network.exec config answered delivery

lemma chatMessage_mem : chatMessage ∈ sentChat.sent := mem_cons_self

lemma answered_reachable : ((Network.machine config).restrict Network.Once).Reachable answered := by
  have hstart : ((Network.machine config).restrict Network.Once).Reachable start :=
    .init ⟨rfl, rfl, rfl, rfl, rfl⟩
  have hsent : ((Network.machine config).restrict Network.Once).Reachable sentChat :=
    Machine.Reachable.step (c := sending) hstart ⟨not_mem_nil, trivial, rfl⟩
  have hdelivered := Machine.Reachable.step (c := delivery) hsent
    ⟨⟨not_mem_nil, by decide +kernel⟩, chatMessage_mem, rfl⟩
  exact Machine.Reachable.step (c := Event.checked 0) hdelivered ⟨trivial, trivial, rfl⟩

lemma retried_reachable : (Network.machine config).Reachable retried := by
  have hanswered := answered_reachable.of_restrict
  have hsent : chatMessage ∈ answered.sent :=
    Network.mem_sent_exec (Network.mem_sent_exec chatMessage_mem)
  exact Machine.Reachable.step (c := delivery) hanswered ⟨hsent, rfl⟩

end Retry

/-- Request and answer. -/
theorem nonces_of_one_chat : Retry.answered.log.length = 2 ∧
    ∀ e ∈ Retry.answered.log, ∀ e' ∈ Retry.answered.log, e.sharedSecret = e'.sharedSecret →
      e.nonce = e'.nonce → e.plaintext = e'.plaintext :=
  ⟨by decide +kernel, fun _ he _ he' hsecret hnonce =>
    one_plaintext_per_nonce Retry.answered_reachable he he' hsecret hnonce⟩

/-- The answer to a retry has the nonce of the first answer. -/
theorem second_delivery_reuses_nonce : (Network.machine Retry.config).Reachable Retry.retried ∧
    ∃ e ∈ Retry.retried.log, ∃ e' ∈ Retry.retried.log, e.sharedSecret = e'.sharedSecret ∧
      e.nonce = e'.nonce ∧ e.plaintext ≠ e'.plaintext :=
  ⟨Retry.retried_reachable, by decide +kernel⟩

end Dkg.Messaging
