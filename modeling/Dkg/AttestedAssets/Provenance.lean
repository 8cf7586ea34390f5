import Dkg.AttestedAssets.Signing

/-! # Where the record of a session comes from

Every ack and every input that a manager has recorded was carried by an event whose signature it
has verified (`SessionState.From`), and so was every pair of acks for which it has excluded a
member. `Manager.Traced` adds the suspended functions, and is kept by every step; what is known of
the received events is a parameter.
-/

namespace Dkg.Aka

open Lib KeyedList SessionState List

variable {P : Primitives} {me : Local} {s s' : SessionState P} {e : Effect P} {m : Manager P}
  {event : AKAEvent P} {round : ℕ} {r r' : RoundState P} {proposal : RoundProposalPayload P.Hash}

/-! ## Functions that record nothing -/

namespace SessionState

lemma sameRecord_finalizeRound (round : ℕ) : SameRecord s (s.finalizeRound round).session := by
  cases hp : s.proposalOf round with
  | none =>
    rw [finalizeRound_of_none hp]
    exact .refl s
  | some proposal => exact (finalizeRound_of_proposal hp).record

lemma sameRecord_handleRoundProposal (event : AKAEvent P) :
    SameRecord s (s.handleRoundProposal me event).session := by
  rcases handleRoundProposal_cases me s event with hplain | ⟨_, _, _, _, _, hacks⟩
  · exact hplain.session.record
  · exact hacks.session.record

lemma sameRecord_handleRoundFinalized (event : AKAEvent P) :
    SameRecord s (s.handleRoundFinalized event).session := by
  rcases handleRoundFinalized_cases s event with heq | ⟨_, _, _, _, heq⟩
  · rw [heq]
    exact .refl s
  · rw [heq]
    split
    · exact sameRecord_finalizeRound event.round
    · exact .refl s

lemma sameRecord_verifyNext (event : AKAEvent P)
    (finPayload : RoundFinalizedPayload P.Hash P.Sig) (expectedAck : P.Payload) (i : ℕ) :
    SameRecord s (s.verifyNext me event finPayload expectedAck i).session := by
  by_cases hverifies : s.Verifies me event finPayload expectedAck i
  · rw [verifyNext_of_verifies hverifies]
    split
    · exact sameRecord_finalizeRound event.round
    · exact .refl s
  · rw [verifyNext_of_not_verifies hverifies]
    exact .refl s

end SessionState

/-! ## Events behind a record -/

/-- The event is of the session, and its signature verifies under the key of the member that it
names. -/
def SessionConfig.Attests (c : SessionConfig P) (network : Text) (event : AKAEvent P) : Prop :=
  event.sessionId = c.sessionId ∧
    ∃ member, (c.membership.find? fun x => x.peerId = event.signerPeerId) = some member ∧
      P.verifyAKASignature ⟨network, c.contextGraphId, event.sessionId, event.round, event.type⟩
        event.payload event.signature member.pubKey = true

/-- The event is the member's acknowledgement of the round. -/
structure AKAEvent.CarriesAck (event : AKAEvent P) (round : ℕ) (id : Text)
    (ack : RoundAckPayload P.Hash) : Prop where
  type : event.type = .roundAck
  round : event.round = round
  signer : event.signerPeerId = id
  decoded : P.decodeRoundAckPayload event.payload = some ack

/-- The event is the member's input for the round. -/
structure AKAEvent.CarriesInput (event : AKAEvent P) (round : ℕ) (id : Text)
    (input : InputPayload) : Prop where
  type : event.type = .inputSubmitted
  round : event.round = round
  signer : event.signerPeerId = id
  decoded : P.decodeInputPayload event.payload = some input

/-- What the session has recorded was carried by events that meet `V`. -/
structure SessionState.From (V : AKAEvent P → Prop) (s : SessionState P) : Prop where
  acks : ∀ round r, s.roundStates round = some r → ∀ entry ∈ r.acks.entries,
    ∃ event, V event ∧ event.CarriesAck round entry.1 entry.2 ∧
      r.ackSignatures.get entry.1 = some event.signature
  inputs : ∀ round r, s.roundStates round = some r → ∀ entry ∈ r.inputs.entries,
    ∃ event, V event ∧ event.CarriesInput round entry.1 entry.2
  equivocators : ∀ id ∈ s.equivocators, ∃ round ack ack' event event', V event ∧ V event' ∧
    event.CarriesAck round id ack ∧ event'.CarriesAck round id ack' ∧
    ack.nextStateHash ≠ ack'.nextStateHash
  distinct : s.equivocators.Nodup

/-- Every included input was carried, for its member, by an event that meets `V`. -/
def InputsFrom (V : AKAEvent P → Prop) (round : ℕ) (proposal : RoundProposalPayload P.Hash) :
    Prop :=
  List.Forall₂ (fun id data => ∃ event input, V event ∧ event.CarriesInput round id input ∧
    input.data = data) proposal.includedMembers proposal.includedInputs

variable {V V' : AKAEvent P → Prop}

namespace SessionState

lemma From.mono (hV : ∀ event, V event → V' event) (h : s.From V) : s.From V' where
  acks := by
    intro round r hr entry hentry
    obtain ⟨event, hevent, hcarries⟩ := h.acks round r hr entry hentry
    exact ⟨event, hV event hevent, hcarries⟩
  inputs := by
    intro round r hr entry hentry
    obtain ⟨event, hevent, hcarries⟩ := h.inputs round r hr entry hentry
    exact ⟨event, hV event hevent, hcarries⟩
  equivocators := by
    intro id hid
    obtain ⟨round, ack, ack', event, event', hevent, hevent', hcarries⟩ := h.equivocators id hid
    exact ⟨round, ack, ack', event, event', hV event hevent, hV event' hevent', hcarries⟩
  distinct := h.distinct

variable (h : s.From V)

include h

lemma From.of_record (hsame : SameRecord s s') : s'.From V where
  acks := by
    intro round r' hr' entry hentry
    rcases hsame.rounds round r' hr' with ⟨r, hr, hrecord⟩ | hnew
    · simp only [RoundState.record, Prod.mk.injEq] at hrecord
      rw [hrecord.1] at hentry
      rw [hrecord.2.1]
      exact h.acks round r hr entry hentry
    · simp only [RoundState.record, Prod.mk.injEq] at hnew
      rw [hnew.1] at hentry
      cases hentry
  inputs := by
    intro round r' hr' entry hentry
    rcases hsame.rounds round r' hr' with ⟨r, hr, hrecord⟩ | hnew
    · simp only [RoundState.record, Prod.mk.injEq] at hrecord
      rw [hrecord.2.2] at hentry
      exact h.inputs round r hr entry hentry
    · simp only [RoundState.record, Prod.mk.injEq] at hnew
      rw [hnew.2.2] at hentry
      cases hentry
  equivocators := by
    rw [hsame.equivocators]
    exact h.equivocators
  distinct := by
    rw [hsame.equivocators]
    exact h.distinct

omit h in
lemma From.init (config : SessionConfig P) : (initSessionState config).From V :=
  ⟨nofun, nofun, nofun, nodup_nil⟩

/-- A write of one round, whose entries come from events too. -/
lemma From.setRound (hacks : ∀ entry ∈ r'.acks.entries, ∃ event, V event ∧
      event.CarriesAck round entry.1 entry.2 ∧
      r'.ackSignatures.get entry.1 = some event.signature)
    (hinputs : ∀ entry ∈ r'.inputs.entries, ∃ event, V event ∧
      event.CarriesInput round entry.1 entry.2) : (s.setRound round r').From V where
  acks := by
    intro round₁ r₁ hr₁
    by_cases hround : round₁ = round
    · subst hround
      rw [roundStates_setRound, Option.some.injEq] at hr₁
      subst hr₁
      exact hacks
    · rw [roundStates_setRound_of_ne hround] at hr₁
      exact h.acks round₁ r₁ hr₁
  inputs := by
    intro round₁ r₁ hr₁
    by_cases hround : round₁ = round
    · subst hround
      rw [roundStates_setRound, Option.some.injEq] at hr₁
      subst hr₁
      exact hinputs
    · rw [roundStates_setRound_of_ne hround] at hr₁
      exact h.inputs round₁ r₁ hr₁
  equivocators := h.equivocators
  distinct := h.distinct

variable (hevent : V event)

include hevent

lemma From.withAck {ack : RoundAckPayload P.Hash}
    (htype : event.type = .roundAck) (hrecords : s.Records event r ack) :
    (s.setRound event.round (withAck event r ack)).From V := by
  refine h.setRound ?_ (h.inputs event.round r hrecords.stored)
  rintro ⟨id, ack'⟩ hentry
  rcases mem_set hentry with ⟨rfl, rfl⟩ | ⟨hne, hold⟩
  · exact ⟨event, hevent, ⟨htype, rfl, rfl, hrecords.decoded⟩, get_set_self⟩
  · obtain ⟨event', hevent', hcarries, hsignature⟩ := h.acks event.round r hrecords.stored _ hold
    exact ⟨event', hevent', hcarries, (get_set_of_ne hne).trans hsignature⟩

lemma From.withEquivocator {ack existing : RoundAckPayload P.Hash}
    (htype : event.type = .roundAck) (hr : s.roundStates event.round = some r)
    (hdecoded : P.decodeRoundAckPayload event.payload = some ack)
    (hexisting : r.acks.get event.signerPeerId = some existing)
    (hequivocation : detectEquivocation existing ack) : (s.withEquivocator event r).From V := by
  have hround : (s.setRound event.round { r with
      acks := r.acks.erase event.signerPeerId
      ackSignatures := r.ackSignatures.erase event.signerPeerId }).From V := by
    refine h.setRound ?_ (h.inputs event.round r hr)
    rintro ⟨id, ack'⟩ hentry
    obtain ⟨hne, hold⟩ := mem_erase hentry
    obtain ⟨event', hevent', hcarries, hsignature⟩ := h.acks event.round r hr _ hold
    exact ⟨event', hevent', hcarries, (get_erase_of_ne hne).trans hsignature⟩
  refine ⟨hround.acks, hround.inputs, ?_, ?_⟩
  · intro id hid
    simp only [SessionState.withEquivocator, addPeer] at hid
    split at hid
    next => exact h.equivocators id hid
    next =>
      rcases mem_append.mp hid with hid | hid
      · exact h.equivocators id hid
      · -- the ack that was recorded and the one of the event
        obtain ⟨event', hevent', hcarries, _⟩ := h.acks event.round r hr _ (mem_of_get hexisting)
        rw [mem_singleton.mp hid]
        exact ⟨event.round, existing, ack, event', event, hevent', hevent, hcarries,
          ⟨htype, rfl, rfl, hdecoded⟩, hequivocation⟩
  · simp only [SessionState.withEquivocator, addPeer]
    split
    next => exact h.distinct
    next hnew =>
      rw [← concat_eq_append]
      exact h.distinct.concat hnew

lemma From.handleRoundAck (htype : event.type = .roundAck) :
    (s.handleRoundAck me event).session.From V := by
  rcases handleRoundAck_cases me s event with
    heq | ⟨r, ack, existing, hr, hdecoded, hexisting, hequivocation, heq⟩ | ⟨r, ack, hrecords⟩
  · rw [heq]
    exact h
  · rw [heq]
    exact h.withEquivocator hevent htype hr hdecoded hexisting hequivocation
  · rw [handleRoundAck_of_records hrecords]
    have hstored := s.roundStates_setRound event.round (SessionState.withAck event r ack)
    have hack := h.withAck hevent htype hrecords
    rcases checkQuorumAndFinalize_cases hstored with hplain | ⟨hcompletes, proposal, hproposal⟩
    · exact hack.of_record hplain.session.record
    · exact hack.of_record (checkQuorumAndFinalize_of_completes hstored hproposal hcompletes).record

lemma From.handleInputSubmitted
    (htype : event.type = .inputSubmitted) : (s.handleInputSubmitted event).From V := by
  unfold SessionState.handleInputSubmitted
  split
  next => exact h
  next r hr =>
    split
    · exact h
    split
    · exact h
    split
    next => exact h
    next input hinput =>
      refine h.setRound (h.acks event.round r hr) ?_
      rintro ⟨id, input'⟩ hentry
      rcases mem_set hentry with ⟨rfl, rfl⟩ | ⟨_, hold⟩
      · exact ⟨event, hevent, htype, rfl, rfl, hinput⟩
      · exact h.inputs event.round r hr _ hold

lemma From.dispatch : (s.dispatch me event).session.From V := by
  unfold SessionState.dispatch
  split
  next => exact h.of_record (.of_rounds rfl rfl)
  next => exact h.of_record quiet_handleSessionActivated.record
  next => exact h.of_record (quiet_handleRoundStart event).record
  next htype => exact h.handleInputSubmitted hevent htype
  next => exact h.of_record (sameRecord_handleRoundProposal event)
  next htype => exact h.handleRoundAck hevent htype
  next => exact h.of_record (sameRecord_handleRoundFinalized event)
  next => exact h.of_record (.of_rounds rfl rfl)
  next => exact h.of_record (.of_rounds rfl rfl)
  next => exact h
  next => exact h

end SessionState

/-- The inputs of a list of keys, as they were recorded. -/
lemma forall₂_filterMap {α β : Type} {R : α → β → Prop} {f : α → Option β} {l : List α}
    (h : ∀ a ∈ l, ∃ b, f a = some b ∧ R a b) : Forall₂ R l (l.filterMap f) := by
  induction l with
  | nil => exact Forall₂.nil
  | cons a rest ih =>
    obtain ⟨b, hb, hR⟩ := h a mem_cons_self
    rw [filterMap_cons_some hb]
    exact Forall₂.cons hR (ih fun a' ha' => h a' (mem_cons_of_mem a ha'))

namespace SessionState

/-- `proposeRound` does nothing, or proposes what was recorded. -/
lemma From.proposeRound (h : s.From V) :
    s.proposeRound me round = Effect.only s ∨
    ∃ proposal, InputsFrom V round proposal ∧
      (s.proposeRound me round).tasks = [.proposing round proposal] ∧
      (s.proposeRound me round).signed =
        [(s.signingContext me round .roundProposal, P.encodeRoundProposalPayload proposal)] := by
  unfold SessionState.proposeRound
  split
  next => exact .inl rfl
  next r hr =>
    split
    · exact .inl rfl
    split
    · exact .inl rfl
    refine .inr ⟨_, ?_, rfl, rfl⟩
    refine forall₂_filterMap fun id hid => ?_
    have hkey : id ∈ r.inputs.keys := by simpa [sortedMembers] using hid
    obtain ⟨input, hinput⟩ := exists_get_of_mem_keys hkey
    obtain ⟨event, hevent, hcarries⟩ := h.inputs round r hr _ (mem_of_get hinput)
    exact ⟨input.data, by rw [hinput, Option.map_some], event, input, hevent, hcarries, rfl⟩

end SessionState

/-! ## Managers -/

/-- The event was received, as `R` says, and its signature was verified. -/
def Verified (c : SessionConfig P) (network : Text) (R : AKAEvent P → Prop) (event : AKAEvent P) :
    Prop := R event ∧ c.Attests network event

/-- What is known of the event or the proposal that a suspended function works on. -/
def Task.From (c : SessionConfig P) (network : Text) (R : AKAEvent P → Prop) : Task P → Prop
  | .validating event checks => R event ∧ event.sessionId = c.sessionId ∧
      (.signature ∈ checks ∨ c.Attests network event)
  | .dispatching event => Verified c network R event
  | .proposing round proposal => InputsFrom (Verified c network R) round proposal
  | _ => True

/-- The manager is one of the session, and all that it has recorded comes from events that it has
received and verified. -/
structure Manager.Traced (c : SessionConfig P) (network : Text) (R : AKAEvent P → Prop)
    (m : Manager P) : Prop where
  config : ∃ status, m.session.config = { c with status := status }
  inactive : m.session.inactiveMembers = []
  session : m.session.From (Verified c network R)
  tasks : ∀ task ∈ m.tasks, task.From c network R

variable {c : SessionConfig P} {network : Text} {R R' : AKAEvent P → Prop}

lemma Verified.mono (hR : ∀ event, R event → R' event) (event : AKAEvent P)
    (h : Verified c network R event) : Verified c network R' event :=
  ⟨hR event h.1, h.2⟩

lemma InputsFrom.mono (hV : ∀ event, V event → V' event) (h : InputsFrom V round proposal) :
    InputsFrom V' round proposal := by
  refine Forall₂.imp ?_ h
  rintro id data ⟨event, input, hevent, hcarries⟩
  exact ⟨event, input, hV event hevent, hcarries⟩

lemma Manager.Traced.mono (hR : ∀ event, R event → R' event) (h : m.Traced c network R) :
    m.Traced c network R' where
  config := h.config
  inactive := h.inactive
  session := h.session.mono (Verified.mono hR)
  tasks := by
    intro task htask
    have hfrom := h.tasks task htask
    cases task with
    | validating event checks => exact ⟨hR event hfrom.1, hfrom.2⟩
    | dispatching event => exact hfrom.mono hR
    | verifying event finPayload expectedAck i => trivial
    | proposing round proposal => exact InputsFrom.mono (Verified.mono hR) hfrom
    | advancing round => trivial

lemma Manager.traced_start (config : SessionConfig P) :
    (Manager.start config).Traced config network R :=
  ⟨⟨_, rfl⟩, rfl, .init config, nofun⟩

/-- What a function leaves behind comes from verified events. -/
structure Effect.From (c : SessionConfig P) (network : Text) (R : AKAEvent P → Prop)
    (e : Effect P) : Prop where
  session : e.session.From (Verified c network R)
  tasks : ∀ task ∈ e.tasks, task.From c network R

lemma Effect.From.of_record (h : s.From (Verified c network R)) (hsame : SameRecord s e.session)
    (htasks : ∀ task ∈ e.tasks, task.From c network R) : e.From c network R :=
  ⟨h.of_record hsame, htasks⟩

lemma Manager.Traced.attests_of_passes (h : m.Traced c me.network R)
    (hid : event.sessionId = c.sessionId)
    (hpass : Check.signature.passes me m.validator m.session event = true) :
    c.Attests me.network event := by
  obtain ⟨status, hconfig⟩ := h.config
  simp only [Check.passes] at hpass
  split at hpass
  next => cases hpass
  next member hmember =>
    rw [hconfig] at hpass
    refine ⟨hid, member, ?_, hpass⟩
    simpa [findMember, hconfig] using hmember

lemma Manager.Traced.validateNext {checks : List Check} (h : m.Traced c me.network R)
    (htask : (Task.validating event checks).From c me.network R) :
    (m.validateNext me event checks).Traced c me.network R := by
  obtain ⟨hreceived, hid, hchecked⟩ := htask
  cases checks with
  | nil =>
    exact ⟨h.config, h.inactive, h.session, forall_mem_append.mpr ⟨h.tasks,
      forall_mem_singleton.mpr ⟨hreceived, hchecked.resolve_left not_mem_nil⟩⟩⟩
  | cons check rest =>
    simp only [Manager.validateNext]
    split
    next hpass =>
      refine ⟨h.config, h.inactive, h.session, forall_mem_append.mpr ⟨h.tasks,
        forall_mem_singleton.mpr ⟨hreceived, hid, ?_⟩⟩⟩
      -- The check that has passed may be the one of the signature.
      rcases hchecked with hleft | hattests
      · rcases mem_cons.mp hleft with rfl | hleft
        · exact .inr (h.attests_of_passes hid hpass)
        · exact .inl hleft
      · exact .inr hattests
    next => exact h

namespace SessionState

/-! ## Functions that leave nothing to do for an event -/

lemma startRound_tasks (now : ℕ) (requestedRound : Option ℕ) :
    (s.startRound me now requestedRound).tasks = [] := by
  unfold startRound
  split
  · rfl
  split
  · rfl
  simp only
  split <;> rfl

lemma handleRoundTimeout_tasks (now round : ℕ) :
    (s.handleRoundTimeout me now round).tasks = [] := by
  unfold handleRoundTimeout
  split
  next => rfl
  next r hr =>
    split
    · rfl
    simp only
    split
    · split
      · rfl
      split
      · exact startRound_tasks _ _
      · rfl
    · split
      · exact startRound_tasks _ _
      · rfl

lemma validateAndAck_tasks (round : ℕ) (proposal : RoundProposalPayload P.Hash) :
    (s.validateAndAck me round proposal).tasks = [] :=
  (acks_validateAndAck me s round proposal).tasks

lemma handleRoundProposal_tasks (event : AKAEvent P) :
    (s.handleRoundProposal me event).tasks = [] := by
  unfold handleRoundProposal
  split
  next => rfl
  next r hr =>
    split
    · rfl
    split
    · rfl
    · exact validateAndAck_tasks _ _

lemma no_tasks : ∀ task ∈ ([] : List (Task P)), task.From c network R :=
  fun _ hmem => by cases hmem

lemma checkQuorumAndFinalize_tasks (round : ℕ) :
    ∀ task ∈ (s.checkQuorumAndFinalize me round).tasks, task.From c network R := by
  unfold checkQuorumAndFinalize
  split
  next => exact no_tasks
  next r hr =>
    split
    · exact no_tasks
    split
    · exact no_tasks
    split
    · exact no_tasks
    split
    · simp [Task.From]
    · exact no_tasks

lemma handleRoundAck_tasks (event : AKAEvent P) :
    ∀ task ∈ (s.handleRoundAck me event).tasks, task.From c network R := by
  unfold handleRoundAck
  split
  next => exact no_tasks
  next r hr =>
    split
    · exact no_tasks
    split
    · exact no_tasks
    split
    · exact no_tasks
    · exact checkQuorumAndFinalize_tasks _

lemma finalizeRound_tasks (round : ℕ) : (s.finalizeRound round).tasks = [] := by
  unfold finalizeRound
  split
  next => rfl
  next => split <;> rfl

lemma handleRoundFinalized_tasks (event : AKAEvent P) :
    ∀ task ∈ (s.handleRoundFinalized event).tasks, task.From c network R := by
  rcases handleRoundFinalized_cases s event with heq | ⟨_, _, _, _, heq⟩
  · rw [heq]
    exact no_tasks
  · rw [heq]
    split
    · simp [finalizeRound_tasks]
    · simp [Task.From]

lemma verifyNext_tasks (event : AKAEvent P) (finPayload : RoundFinalizedPayload P.Hash P.Sig)
    (expectedAck : P.Payload) (i : ℕ) :
    ∀ task ∈ (s.verifyNext me event finPayload expectedAck i).tasks, task.From c network R := by
  by_cases hverifies : s.Verifies me event finPayload expectedAck i
  · rw [verifyNext_of_verifies hverifies]
    split
    · simp [finalizeRound_tasks]
    · simp [Task.From]
  · rw [verifyNext_of_not_verifies hverifies]
    exact no_tasks

lemma dispatch_tasks (event : AKAEvent P) :
    ∀ task ∈ (s.dispatch me event).tasks, task.From c network R := by
  unfold dispatch
  split
  next => exact no_tasks
  next => exact no_tasks
  next => exact no_tasks
  next => exact no_tasks
  next => simp [handleRoundProposal_tasks]
  next => exact handleRoundAck_tasks event
  next => exact handleRoundFinalized_tasks event
  next => exact no_tasks
  next => exact no_tasks
  next => exact no_tasks
  next => exact no_tasks

end SessionState

/-! ## One step -/

section

variable (h : m.Traced c network R)

include h

lemma Manager.Traced.taskEffect {task : Task P}
    (htask : task.From c network R) : (m.taskEffect me task).From c network R := by
  cases task with
  | validating event checks => exact ⟨h.session, no_tasks⟩
  | dispatching event => exact ⟨h.session.dispatch htask, dispatch_tasks event⟩
  | verifying event finPayload expectedAck i =>
    exact .of_record h.session (sameRecord_verifyNext _ _ _ _) (verifyNext_tasks _ _ _ _)
  | proposing round proposal =>
    refine .of_record h.session (acks_validateAndAck me m.session round proposal).session.record ?_
    simp [Manager.taskEffect, validateAndAck_tasks]
  | advancing round => exact .of_record h.session (quiet_advance round).record no_tasks

lemma Manager.Traced.call {step : ManagerStep P}
    (hcall : m.resumed step = none) : (m.stepEffect me step).From c network R := by
  refine .of_record h.session (plain_stepEffect hcall).session.record ?_
  cases step with
  | receive event => exact no_tasks
  | resume i =>
    have htask : m.tasks[i]? = none := hcall
    simp only [stepEffect, htask]
    exact no_tasks
  | acceptSession => exact no_tasks
  | activateSession =>
    unfold stepEffect activateSession
    simp only
    split
    · exact no_tasks
    split <;> exact no_tasks
  | startRound now requestedRound => simp [stepEffect, startRound_tasks]
  | submitInput data requestedRound =>
    unfold stepEffect submitInput
    simp only
    split
    · exact no_tasks
    split
    · exact no_tasks
    split <;> exact no_tasks
  | proposeTimer round =>
    rcases (h.session.proposeRound : m.session.proposeRound me round = _ ∨ _) with
      heq | ⟨proposal, hinputs, htasks, _⟩
    · simp only [stepEffect, heq]
      exact no_tasks
    · simp only [stepEffect, htasks]
      intro task hmem
      rw [mem_singleton.mp hmem]
      exact hinputs
  | startTimer now => simp [stepEffect, startRound_tasks]
  | roundTimer now round => simp [stepEffect, handleRoundTimeout_tasks]
  | acceptTimer => exact no_tasks

lemma Manager.Traced.after (hsetup : SameSetup m.session e.session)
    (he : e.From c network R) : (m.after e).Traced c network R where
  config := by
    obtain ⟨status, hconfig⟩ := h.config
    obtain ⟨status', hconfig'⟩ := hsetup.config
    exact ⟨status', by simp only [Manager.after, hconfig', hconfig]⟩
  inactive := hsetup.inactive.trans h.inactive
  session := he.session
  tasks := by
    intro task hmem
    rcases mem_append.mp hmem with hmem | hmem
    · exact h.tasks task hmem
    · exact he.tasks task hmem

lemma Manager.Traced.eraseIdx (i : ℕ) :
    ({ m with tasks := m.tasks.eraseIdx i } : Manager P).Traced c network R :=
  ⟨h.config, h.inactive, h.session, fun task hmem => h.tasks task (eraseIdx_subset hmem)⟩

end

/-- **One step of a manager** records nothing but what comes from verified events. -/
lemma Manager.Traced.exec {step : ManagerStep P} (h : m.Traced c me.network R)
    (hreceive : ∀ event, step = .receive event → R event) :
    (m.exec me step).Traced c me.network R := by
  have hsetup := m.setup_stepEffect me step
  cases hresumed : m.resumed step with
  | some task =>
    cases step with
    | resume i =>
      have htask : m.tasks[i]? = some task := hresumed
      have hfrom := h.tasks task (mem_of_getElem? htask)
      have heffect : (m.taskEffect me task).From c me.network R := h.taskEffect hfrom
      rw [stepEffect_of_resumed hresumed] at hsetup
      unfold Manager.exec
      simp only [htask]
      cases task with
      | validating event checks => exact (h.eraseIdx i).validateNext hfrom
      | dispatching event | verifying event finPayload expectedAck j | proposing round proposal
      | advancing round => exact (h.eraseIdx i).after hsetup heffect
    | _ => cases hresumed
  | none =>
    have heffect : (m.stepEffect me step).From c me.network R := h.call hresumed
    cases step with
    | receive event =>
      unfold Manager.exec
      simp only
      split
      next hid =>
        obtain ⟨status, hconfig⟩ := h.config
        refine h.validateNext ⟨hreceive event rfl, ?_, .inl ?_⟩
        · rw [hid, hconfig]
        · simp [checksFor]
      next => exact h
    | resume i =>
      have htask : m.tasks[i]? = none := hresumed
      unfold Manager.exec
      simp only [htask]
      exact h
    | _ => exact h.after hsetup heffect

end Dkg.Aka
