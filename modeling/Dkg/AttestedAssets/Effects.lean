import Dkg.AttestedAssets.Model

/-! # What the functions of the manager do

Most functions are `Effect.Plain`: they keep the state, the setup and the votes of the session,
finalize nothing, and sign no ack. What the others do is said once for each of them: a vote is
recorded by `handleRoundAck` only, an ack is signed after the two checks of `validateAndAck` only,
and the state changes where a quorum of acks or a certificate closes a round (`Task.Closes`).
-/

namespace Dkg.Aka

open Lib List

variable {P : Primitives} {me : Local} {s s₁ s' : SessionState P} {e : Effect P} {m : Manager P}
  {event : AKAEvent P} {round : ℕ} {r r' : RoundState P} {proposal : RoundProposalPayload P.Hash}

/-! ## Sessions that agree -/

/-- The setup of the session and the recorded votes are those from before. -/
structure SameVotes (s s' : SessionState P) : Prop where
  config : ∃ status, s'.config = { s.config with status := status }
  equivocators : s'.equivocators = s.equivocators
  inactive : s'.inactiveMembers = s.inactiveMembers
  acks : ∀ round r', s'.roundStates round = some r' → ∀ entry ∈ r'.acks.entries,
    ∃ r, s.roundStates round = some r ∧ entry ∈ r.acks.entries

/-- The setup of the session, without its status. -/
structure SameSetup (s s' : SessionState P) : Prop where
  config : ∃ status, s'.config = { s.config with status := status }
  inactive : s'.inactiveMembers = s.inactiveMembers

open SameSetup

/-- The state and its hash are left as they were. -/
structure SameState (s s' : SessionState P) : Prop where
  bytes : s'.latestStateBytes = s.latestStateBytes
  hash : s'.latestStateHash = s.latestStateHash

/-- The acks of a round with their signatures, and the inputs. -/
def RoundState.record (r : RoundState P) :
    KeyedList Text (RoundAckPayload P.Hash) × KeyedList Text P.Sig × KeyedList Text InputPayload :=
  (r.acks, r.ackSignatures, r.inputs)

/-- Every round has the record from before, or none where it is new. -/
structure SameRecord (s s' : SessionState P) : Prop where
  equivocators : s'.equivocators = s.equivocators
  rounds : ∀ round r', s'.roundStates round = some r' →
    (∃ r, s.roundStates round = some r ∧ r'.record = r.record) ∨
      r'.record = (.empty, .empty, .empty)

/-- Neither the setup nor the record nor the state changes. -/
structure Quiet (s s' : SessionState P) : Prop where
  setup : SameSetup s s'
  record : SameRecord s s'
  state : SameState s s'

lemma SameRecord.of_rounds (hequivocators : s'.equivocators = s.equivocators)
    (hrounds : s'.roundStates = s.roundStates) : SameRecord s s' where
  equivocators := hequivocators
  rounds := by
    intro round r' hr'
    rw [hrounds] at hr'
    exact .inl ⟨r', hr', rfl⟩

lemma SameRecord.refl (s : SessionState P) : SameRecord s s := .of_rounds rfl rfl

lemma SameRecord.trans (h₁ : SameRecord s s₁) (h₂ : SameRecord s₁ s') : SameRecord s s' where
  equivocators := h₂.equivocators.trans h₁.equivocators
  rounds := by
    intro round r' hr'
    rcases h₂.rounds round r' hr' with ⟨r₁, hr₁, hrecord⟩ | hnew
    · rw [hrecord]
      exact h₁.rounds round r₁ hr₁
    · exact .inr hnew

/-- The votes are a part of the record. -/
lemma SameRecord.votes (h : SameRecord s s') (hsetup : SameSetup s s') : SameVotes s s' where
  config := hsetup.config
  equivocators := h.equivocators
  inactive := hsetup.inactive
  acks := by
    intro round r' hr' entry hentry
    rcases h.rounds round r' hr' with ⟨r, hr, hrecord⟩ | hnew
    · have hacks : r'.acks = r.acks := congrArg Prod.fst hrecord
      exact ⟨r, hr, hacks ▸ hentry⟩
    · have hacks : r'.acks = KeyedList.empty := congrArg Prod.fst hnew
      rw [hacks] at hentry
      cases hentry

lemma SameSetup.refl (s : SessionState P) : SameSetup s s := ⟨⟨_, rfl⟩, rfl⟩

lemma SameSetup.trans (h₁ : SameSetup s s₁) (h₂ : SameSetup s₁ s') : SameSetup s s' where
  config := by
    obtain ⟨status, hstatus⟩ := h₁.config
    obtain ⟨status', hstatus'⟩ := h₂.config
    exact ⟨status', by rw [hstatus', hstatus]⟩
  inactive := h₂.inactive.trans h₁.inactive

lemma SameState.trans (h₁ : SameState s s₁) (h₂ : SameState s₁ s') : SameState s s' :=
  ⟨h₂.bytes.trans h₁.bytes, h₂.hash.trans h₁.hash⟩

lemma Quiet.votes (h : Quiet s s') : SameVotes s s' := h.record.votes h.setup

lemma Quiet.refl (s : SessionState P) : Quiet s s := ⟨.refl s, .refl s, ⟨rfl, rfl⟩⟩

lemma Quiet.trans (h₁ : Quiet s s₁) (h₂ : Quiet s₁ s') : Quiet s s' :=
  ⟨h₁.setup.trans h₂.setup, h₁.record.trans h₂.record, h₁.state.trans h₂.state⟩

lemma Quiet.status (status : SessionStatus) :
    Quiet s { s with config := { s.config with status := status } } :=
  ⟨⟨⟨status, rfl⟩, rfl⟩, .of_rounds rfl rfl, ⟨rfl, rfl⟩⟩

lemma Quiet.currentRound (n : ℕ) : Quiet s { s with currentRound := n } :=
  ⟨⟨⟨_, rfl⟩, rfl⟩, .of_rounds rfl rfl, ⟨rfl, rfl⟩⟩

lemma Quiet.consecutiveSkips (h : Quiet s s') (n : ℕ) : Quiet s { s' with consecutiveSkips := n } :=
  h.trans ⟨⟨⟨_, rfl⟩, rfl⟩, .of_rounds rfl rfl, ⟨rfl, rfl⟩⟩

namespace SessionState

lemma roundStates_setRound (round : ℕ) (r : RoundState P) :
    (s.setRound round r).roundStates round = some r := Function.update_self ..

lemma roundStates_setRound_of_ne {round' : ℕ} (h : round' ≠ round) (r : RoundState P) :
    (s.setRound round r).roundStates round' = s.roundStates round' := Function.update_of_ne h ..

/-- A write of a round whose votes were there before. -/
lemma sameVotes_setRound
    (h : ∀ entry ∈ r'.acks.entries, ∃ r, s.roundStates round = some r ∧ entry ∈ r.acks.entries) :
    SameVotes s (s.setRound round r') where
  config := ⟨_, rfl⟩
  equivocators := rfl
  inactive := rfl
  acks := by
    intro round₁ r₁ hr₁ entry hentry
    by_cases hround : round₁ = round
    · subst hround
      rw [roundStates_setRound] at hr₁
      cases hr₁
      exact h entry hentry
    · rw [roundStates_setRound_of_ne hround] at hr₁
      exact ⟨r₁, hr₁, hentry⟩

lemma roundOrNew_of_some (h : s.roundStates round = some r) : s.roundOrNew round = r := by
  simp [roundOrNew, h]

lemma sameRecord_setRound (h : r'.record = (s.roundOrNew round).record) :
    SameRecord s (s.setRound round r') where
  equivocators := rfl
  rounds := by
    intro round₁ r₁ hr₁
    by_cases hround : round₁ = round
    · subst hround
      rw [roundStates_setRound, Option.some.injEq] at hr₁
      subst hr₁
      rw [h]
      cases hr : s.roundStates round₁ with
      | none => exact .inr (by simp [roundOrNew, hr, newRound, RoundState.record])
      | some r => exact .inl ⟨r, rfl, by rw [roundOrNew_of_some hr]⟩
    · rw [roundStates_setRound_of_ne hround] at hr₁
      exact .inl ⟨r₁, hr₁, rfl⟩

lemma quiet_setRound_new (h : r'.record = (s.roundOrNew round).record) :
    Quiet s (s.setRound round r') :=
  ⟨⟨⟨_, rfl⟩, rfl⟩, sameRecord_setRound h, ⟨rfl, rfl⟩⟩

lemma quiet_setRound (hr : s.roundStates round = some r) (h : r'.record = r.record) :
    Quiet s (s.setRound round r') := quiet_setRound_new (by rw [roundOrNew_of_some hr, h])

lemma quiet_getOrCreateRoundState (round : ℕ) : Quiet s (s.getOrCreateRoundState round) :=
  quiet_setRound_new rfl

lemma quiet_advance (round : ℕ) : Quiet s (s.advance round) := by
  unfold advance
  split
  · exact Quiet.refl s
  · exact (Quiet.currentRound _).trans (quiet_getOrCreateRoundState _)

end SessionState

open SessionState

/-! ## Plain functions -/

/-- A suspended function that goes on without a look at any event. -/
def Task.Idle : Task P → Prop
  | .proposing _ _ | .advancing _ => True
  | _ => False

/-- Every message that the function signs is of one of the types. -/
def Effect.SignsOnly (types : List AKAEventType) (e : Effect P) : Prop :=
  ∀ message ∈ e.signed, message.1.type ∈ types

variable {ts ts' : List AKAEventType}

/-- Nothing changes but what no vote and no state depends on, and events of some types are
signed. -/
structure Effect.Plain (types : List AKAEventType) (s : SessionState P) (e : Effect P) : Prop where
  session : Quiet s e.session
  finalized : e.finalized = none
  tasks : ∀ task ∈ e.tasks, task.Idle
  signed : e.SignsOnly types

lemma Effect.Plain.only (h : Quiet s s') : (Effect.only s').Plain ts s :=
  ⟨h, rfl, nofun, nofun⟩

lemma Effect.Plain.skip (s : SessionState P) : (Effect.only s).Plain ts s := .only (Quiet.refl s)

lemma Effect.Plain.signs {type : AKAEventType} {payload : P.Payload} (h : Quiet s s')
    (htype : type ∈ ts) :
    (Effect.signs s' (s₁.signingContext me round type, payload)).Plain ts s :=
  ⟨h, rfl, nofun, by simpa [SignsOnly, Effect.signs, signingContext] using htype⟩

lemma Effect.Plain.of_quiet (hs : Quiet s s₁) (h : e.Plain ts s₁) (hsub : ts ⊆ ts') :
    e.Plain ts' s :=
  ⟨hs.trans h.session, h.finalized, h.tasks, fun message hmem => hsub (h.signed message hmem)⟩

namespace SessionState

lemma plain_startRound (now : ℕ) (requestedRound : Option ℕ) :
    (s.startRound me now requestedRound).Plain [.roundStart] s := by
  unfold startRound
  split
  · exact .skip s
  split
  · exact .skip s
  simp only
  have hcreate : Quiet s (s.getOrCreateRoundState s.currentRound) :=
    quiet_getOrCreateRoundState s.currentRound
  split
  · exact .only hcreate
  · exact .signs (hcreate.trans (quiet_setRound (roundStates_setRound _ _) rfl)) (by simp)

lemma plain_proposeRound (round : ℕ) :
    (s.proposeRound me round).Plain [.roundProposal] s := by
  unfold proposeRound
  split
  next => exact .skip s
  next r hr =>
    split
    · exact .skip s
    split
    · exact .skip s
    · refine ⟨quiet_setRound hr rfl, rfl, ?_, ?_⟩
      · simp [Task.Idle]
      · simp [Effect.SignsOnly, signingContext]

lemma plain_abortSession (reason : Text) : (s.abortSession me reason).Plain [.sessionAborted] s :=
  .signs (Quiet.status _) (by simp)

lemma plain_handleRoundTimeout (now round : ℕ) :
    (s.handleRoundTimeout me now round).Plain [.roundStart, .sessionAborted] s := by
  unfold handleRoundTimeout
  split
  next => exact .skip s
  next r hr =>
    split
    · exact .skip s
    simp only
    split
    · -- The round is skipped.
      have hround : Quiet s (s.setRound round { r with
          status := .timedOut
          viewChangeCount := r.viewChangeCount + 1
          proposerPeerId := s.proposerAt round (r.viewChangeCount + 1) }) :=
        quiet_setRound hr rfl
      have hskip := hround.consecutiveSkips (s.consecutiveSkips + 1)
      split
      · exact .of_quiet hskip (plain_abortSession _) (by simp)
      have hnext := hskip.trans ((Quiet.currentRound (round + 1)).trans
        (quiet_getOrCreateRoundState (round + 1)))
      split
      · exact .of_quiet hnext (plain_startRound _ _) (by simp)
      · exact .only hnext
    · -- The next member proposes.
      have hview : Quiet s (s.setRound round { r with
          status := .awaitingStart
          viewChangeCount := r.viewChangeCount + 1
          proposerPeerId := s.proposerAt round (r.viewChangeCount + 1) }) :=
        quiet_setRound hr rfl
      split
      · exact .of_quiet hview (plain_startRound _ _) (by simp)
      · exact .only hview

lemma quiet_handleSessionActivated : Quiet s s.handleSessionActivated := by
  unfold handleSessionActivated
  split
  · exact (Quiet.status _).trans ((Quiet.currentRound 1).trans (quiet_getOrCreateRoundState 1))
  · exact Quiet.refl s

lemma quiet_handleRoundStart (event : AKAEvent P) : Quiet s (s.handleRoundStart event) := by
  unfold handleRoundStart
  simp only
  split
  · exact quiet_setRound_new rfl
  · exact quiet_setRound_new rfl

/-- Only the inputs change. -/
lemma handleInputSubmitted_keeps (event : AKAEvent P) :
    SameVotes s (s.handleInputSubmitted event) ∧ SameState s (s.handleInputSubmitted event) := by
  have hrefl : SameVotes s s ∧ SameState s s := ⟨(Quiet.refl s).votes, ⟨rfl, rfl⟩⟩
  unfold handleInputSubmitted
  split
  next => exact hrefl
  next r hr =>
    split
    · exact hrefl
    split
    · exact hrefl
    split
    · exact hrefl
    · exact ⟨sameVotes_setRound fun _ hentry => ⟨r, hr, hentry⟩, ⟨rfl, rfl⟩⟩

/-! ## Acks -/

/-- The two checks that `validateAndAck` makes before it signs. -/
def Confirms (s : SessionState P) (proposal : RoundProposalPayload P.Hash) : Prop :=
  P.computeInputSetHash proposal.includedInputs = proposal.inputSetHash ∧
    P.computeStateHash (P.reduce s.latestStateBytes proposal.includedInputs) =
      proposal.nextStateHash
  deriving Decidable

end SessionState

/-- The function is plain, except that it may sign an ack for the proposal, which it confirms. -/
structure Effect.Acks (me : Local) (s : SessionState P) (round : ℕ)
    (proposal : RoundProposalPayload P.Hash) (e : Effect P) : Prop where
  session : Quiet s e.session
  finalized : e.finalized = none
  tasks : e.tasks = []
  signed : ∀ message ∈ e.signed, s.Confirms proposal ∧ ∃ ack : RoundAckPayload P.Hash,
    ack.nextStateHash = proposal.nextStateHash ∧
    message = (s.signingContext me round .roundAck, P.encodeRoundAckPayload ack)

namespace SessionState

lemma acks_validateAndAck (me : Local) (s : SessionState P) (round : ℕ)
    (proposal : RoundProposalPayload P.Hash) :
    (s.validateAndAck me round proposal).Acks me s round proposal := by
  unfold validateAndAck
  split
  next h =>
    refine ⟨Quiet.refl s, rfl, rfl, fun message hmessage => ⟨h, ?_⟩⟩
    exact ⟨_, rfl, mem_singleton.mp hmessage⟩
  next => exact ⟨Quiet.refl s, rfl, rfl, nofun⟩

/-- `handleRoundProposal` does nothing, or stores the proposal of the current proposer. -/
lemma handleRoundProposal_cases (me : Local) (s : SessionState P) (event : AKAEvent P) :
    (s.handleRoundProposal me event).Plain [] s ∨
    ∃ r proposal, s.roundStates event.round = some r ∧ event.signerPeerId = r.proposerPeerId ∧
      P.decodeRoundProposalPayload event.payload = some proposal ∧
      (s.handleRoundProposal me event).Acks me s event.round proposal := by
  unfold handleRoundProposal
  split
  next => exact .inl (.skip s)
  next r hr =>
    split
    next => exact .inl (.skip s)
    next hsigner =>
      split
      next => exact .inl (.skip s)
      next proposal hproposal =>
        have hquiet : Quiet s (s.setRound event.round
            { r with proposal := some proposal, status := .awaitingAcks }) :=
          quiet_setRound hr rfl
        have h := acks_validateAndAck me (s.setRound event.round
          { r with proposal := some proposal, status := .awaitingAcks }) event.round proposal
        refine .inr ⟨r, proposal, hr, by simpa using hsigner, hproposal, ?_⟩
        -- The round that is written does not matter for the checks and for the context.
        exact ⟨hquiet.trans h.session, h.finalized, h.tasks, h.signed⟩

/-! ## Finalizations -/

def proposalOf (s : SessionState P) (round : ℕ) : Option (RoundProposalPayload P.Hash) :=
  s.roundStates round >>= RoundState.proposal

lemma proposalOf_eq_some_iff :
    s.proposalOf round = some proposal ↔
      ∃ r, s.roundStates round = some r ∧ r.proposal = some proposal := by
  simp [proposalOf, Option.bind_eq_some_iff]

end SessionState

/-- The function finalizes a round with the proposal: it reduces the included inputs and takes the
claimed hash. -/
structure Effect.Applies (s : SessionState P) (round : ℕ)
    (proposal : RoundProposalPayload P.Hash) (e : Effect P) : Prop where
  setup : SameSetup s e.session
  record : SameRecord s e.session
  bytes : e.session.latestStateBytes = P.reduce s.latestStateBytes proposal.includedInputs
  hash : e.session.latestStateHash = proposal.nextStateHash
  finalized : e.finalized = some (round, proposal)
  tasks : ∀ task ∈ e.tasks, task.Idle
  signed : e.SignsOnly [.roundFinalized]

lemma Effect.Applies.votes (h : e.Applies s round proposal) : SameVotes s e.session :=
  h.record.votes h.setup

namespace SessionState

lemma sameRecord_applyProposal (hr : s.roundStates round = some r)
    (proposal : RoundProposalPayload P.Hash) : SameRecord s (s.applyProposal round r proposal) :=
  (quiet_setRound hr rfl : Quiet s (s.setRound round { r with status := .finalized })).record.trans
    (.of_rounds rfl rfl)

/-- The round is still open, the local peer is its proposer, and the votes are enough. -/
structure Completes (me : Local) (s : SessionState P) (r : RoundState P) : Prop where
  unfinished : r.status ≠ .finalized
  proposer : r.proposerPeerId = me.localPeerId
  quorum : isQuorumMet s.config.quorumPolicy s.activeMemberCount r.acks.size

lemma completes_setRound_iff : (s.setRound round r').Completes me r ↔ s.Completes me r :=
  ⟨fun h => ⟨h.unfinished, h.proposer, h.quorum⟩, fun h => ⟨h.unfinished, h.proposer, h.quorum⟩⟩

lemma checkQuorumAndFinalize_of_completes (hr : s.roundStates round = some r)
    (hproposal : r.proposal = some proposal) (h : s.Completes me r) :
    (s.checkQuorumAndFinalize me round).Applies s round proposal := by
  unfold checkQuorumAndFinalize
  rw [hr]
  simp only [hproposal]
  rw [if_neg h.unfinished, if_neg (not_not.mpr h.proposer), if_pos h.quorum]
  refine ⟨⟨⟨_, rfl⟩, rfl⟩, sameRecord_applyProposal hr proposal, rfl, rfl, rfl, ?_, ?_⟩
  · simp [Task.Idle]
  · simp [Effect.SignsOnly, signingContext]

lemma checkQuorumAndFinalize_cases (hr : s.roundStates round = some r) :
    (s.checkQuorumAndFinalize me round).Plain [] s ∨
      s.Completes me r ∧ ∃ proposal, r.proposal = some proposal := by
  unfold checkQuorumAndFinalize
  rw [hr]
  simp only
  split
  next => exact .inl (.skip s)
  next proposal hproposal =>
    split
    next => exact .inl (.skip s)
    next hopen =>
      split
      next => exact .inl (.skip s)
      next hproposer =>
        split
        next hquorum =>
          exact .inr ⟨⟨hopen, not_not.mp hproposer, hquorum⟩, proposal, hproposal⟩
        next => exact .inl (.skip s)

lemma finalizeRound_of_proposal (h : s.proposalOf round = some proposal) :
    (s.finalizeRound round).Applies s round proposal := by
  obtain ⟨r, hr, hproposal⟩ := proposalOf_eq_some_iff.mp h
  unfold finalizeRound
  rw [hr]
  simp only [hproposal]
  have hadvance : Quiet (s.applyProposal round r proposal)
      ((s.applyProposal round r proposal).advance round) := quiet_advance round
  have hsetup : SameSetup s (s.applyProposal round r proposal) := ⟨⟨_, rfl⟩, rfl⟩
  exact ⟨hsetup.trans hadvance.setup, (sameRecord_applyProposal hr proposal).trans hadvance.record,
    hadvance.state.bytes, hadvance.state.hash, rfl, nofun, nofun⟩

lemma finalizeRound_of_none (h : s.proposalOf round = none) :
    s.finalizeRound round = Effect.only s := by
  unfold finalizeRound
  split
  next => rfl
  next r hr =>
    split
    next => rfl
    next proposal hproposal =>
      rw [proposalOf_eq_some_iff.mpr ⟨r, hr, hproposal⟩] at h
      cases h

/-! ## Votes -/

def withAck (event : AKAEvent P) (r : RoundState P) (ack : RoundAckPayload P.Hash) : RoundState P :=
  { r with
    acks := r.acks.set event.signerPeerId ack
    ackSignatures := r.ackSignatures.set event.signerPeerId event.signature }

/-- The session after the signer of the event was found to equivocate. -/
def withEquivocator (s : SessionState P) (event : AKAEvent P) (r : RoundState P) : SessionState P :=
  { s.setRound event.round { r with
      acks := r.acks.erase event.signerPeerId
      ackSignatures := r.ackSignatures.erase event.signerPeerId } with
    equivocators := addPeer s.equivocators event.signerPeerId }

/-- The event carries an ack that `handleRoundAck` records. -/
structure Records (s : SessionState P) (event : AKAEvent P) (r : RoundState P)
    (ack : RoundAckPayload P.Hash) : Prop where
  stored : s.roundStates event.round = some r
  decoded : P.decodeRoundAckPayload event.payload = some ack
  matching : ∀ proposal ∈ r.proposal, matchesProposal ack proposal
  single : ∀ existing ∈ r.acks.get event.signerPeerId, ¬ detectEquivocation existing ack

lemma handleRoundAck_of_records {ack : RoundAckPayload P.Hash} (h : s.Records event r ack) :
    s.handleRoundAck me event =
      (s.setRound event.round (withAck event r ack)).checkQuorumAndFinalize me event.round := by
  unfold handleRoundAck
  rw [h.stored]
  simp only [h.decoded]
  rw [if_neg, if_neg]
  · rfl
  · rintro ⟨existing, hmem, hequivocation⟩
    exact h.single existing hmem hequivocation
  · rintro ⟨proposal, hmem, hmatch⟩
    exact hmatch (h.matching proposal hmem)

/-- What `handleRoundAck` does: nothing, exclude a member that equivocates, or record the ack. -/
lemma handleRoundAck_cases (me : Local) (s : SessionState P) (event : AKAEvent P) :
    s.handleRoundAck me event = Effect.only s ∨
    (∃ r ack existing, s.roundStates event.round = some r ∧
      P.decodeRoundAckPayload event.payload = some ack ∧
      r.acks.get event.signerPeerId = some existing ∧ detectEquivocation existing ack ∧
      s.handleRoundAck me event = Effect.only (s.withEquivocator event r)) ∨
    ∃ r ack, s.Records event r ack := by
  by_cases hrecords : ∃ r ack, s.Records event r ack
  · exact .inr (.inr hrecords)
  -- otherwise the last branch of the function is not reached
  unfold handleRoundAck
  split
  next => exact .inl rfl
  next r hr =>
    split
    next => exact .inl rfl
    next ack hack =>
      split
      next => exact .inl rfl
      next hmatch =>
        split
        next hequivocation =>
          obtain ⟨existing, hmem, hequivocation⟩ := hequivocation
          exact .inr (.inl ⟨r, ack, existing, hr, hack, hmem, hequivocation, rfl⟩)
        next hsingle =>
          refine absurd ⟨r, ack, hr, hack, fun proposal hmem => ?_, fun x hmem hx => ?_⟩ hrecords
          · by_contra hne
            exact hmatch ⟨proposal, hmem, hne⟩
          · exact hsingle ⟨x, hmem, hx⟩

/-! ## Certificates -/

/-- The event carries a certificate that passes every check of `handleRoundFinalized` before its
signatures. -/
structure Certifies (s : SessionState P) (event : AKAEvent P)
    (finPayload : RoundFinalizedPayload P.Hash P.Sig) : Prop where
  decoded : P.decodeRoundFinalizedPayload event.payload = some finPayload
  nodup : finPayload.signerPeerIds.Nodup
  sameLength : finPayload.signatures.length = finPayload.signerPeerIds.length
  long : ∀ sig ∈ finPayload.signatures, 64 ≤ P.signatureLength sig
  quorum : isQuorumMet s.config.quorumPolicy s.activeMemberCount finPayload.signerPeerIds.length
  members : ∀ id ∈ finPayload.signerPeerIds, (s.memberByPeerId id).isSome

/-- The ack that every signer of a certificate should have signed. -/
def expectedAck (s : SessionState P) (event : AKAEvent P) (proposal : RoundProposalPayload P.Hash)
    (finPayload : RoundFinalizedPayload P.Hash P.Sig) : RoundAckPayload P.Hash :=
  ⟨event.round, proposal.prevStateHash, proposal.inputSetHash, finPayload.nextStateHash,
    P.computeTurnCommitment s.config.sessionId event.round proposal.prevStateHash
      proposal.inputSetHash finPayload.nextStateHash s.config.reducerVersion
      s.config.membershipRoot⟩

lemma handleRoundFinalized_cases (s : SessionState P) (event : AKAEvent P) :
    s.handleRoundFinalized event = Effect.only s ∨
    ∃ proposal finPayload, s.proposalOf event.round = some proposal ∧
      s.Certifies event finPayload ∧
      s.handleRoundFinalized event =
        if finPayload.signerPeerIds = [] then s.finalizeRound event.round
        else ⟨s, [.verifying event finPayload
          (P.encodeRoundAckPayload (s.expectedAck event proposal finPayload)) 0], [], none⟩ := by
  unfold handleRoundFinalized
  split
  · exact .inl rfl
  rename_i r hr
  split
  · exact .inl rfl
  rename_i proposal hproposal
  split
  · exact .inl rfl
  rename_i finPayload hdecoded
  -- Each check that fails ends the function.
  split
  · exact .inl rfl
  rename_i hnodup
  split
  · exact .inl rfl
  rename_i hlength
  split
  · exact .inl rfl
  rename_i hlong
  split
  · exact .inl rfl
  rename_i hquorum
  split
  · exact .inl rfl
  rename_i hmembers
  refine .inr ⟨proposal, finPayload, proposalOf_eq_some_iff.mpr ⟨r, hr, hproposal⟩,
    ⟨hdecoded, not_not.mp hnodup, not_not.mp hlength, ?_, not_not.mp hquorum,
      not_not.mp hmembers⟩, rfl⟩
  simpa using hlong

variable {finPayload : RoundFinalizedPayload P.Hash P.Sig} {expectedAck : P.Payload} {i : ℕ}

lemma handleRoundFinalized_of_certifies (hproposal : s.proposalOf event.round = some proposal)
    (h : s.Certifies event finPayload) (hnil : finPayload.signerPeerIds = []) :
    s.handleRoundFinalized event = s.finalizeRound event.round := by
  obtain ⟨r, hr, hp⟩ := proposalOf_eq_some_iff.mp hproposal
  unfold handleRoundFinalized
  rw [hr]
  simp only [hp, h.decoded]
  rw [if_neg (not_not.mpr h.nodup), if_neg (not_not.mpr h.sameLength), if_neg,
    if_neg (not_not.mpr h.quorum), if_neg (not_not.mpr h.members), if_pos hnil]
  rintro ⟨sig, hsig, hshort⟩
  exact absurd (h.long sig hsig) (Nat.not_le.mpr hshort)

/-- The `i`-th signature of the certificate is the ack of its signer. -/
def Verifies (me : Local) (s : SessionState P) (event : AKAEvent P)
    (finPayload : RoundFinalizedPayload P.Hash P.Sig) (expectedAck : P.Payload) (i : ℕ) : Prop :=
  ∃ signer signature member, finPayload.signerPeerIds[i]? = some signer ∧
    finPayload.signatures[i]? = some signature ∧ s.memberByPeerId signer = some member ∧
    P.verifyAKASignature (s.signingContext me event.round .roundAck) expectedAck signature
      member.pubKey = true

lemma verifyNext_of_verifies (h : s.Verifies me event finPayload expectedAck i) :
    s.verifyNext me event finPayload expectedAck i =
      if i + 1 = finPayload.signerPeerIds.length then s.finalizeRound event.round
      else ⟨s, [.verifying event finPayload expectedAck (i + 1)], [], none⟩ := by
  obtain ⟨signer, signature, member, hsigner, hsignature, hmember, hverify⟩ := h
  unfold verifyNext
  rw [hsigner, hsignature]
  simp only [hmember]
  rw [if_pos hverify]

lemma verifyNext_of_not_verifies (h : ¬ s.Verifies me event finPayload expectedAck i) :
    s.verifyNext me event finPayload expectedAck i = Effect.only s := by
  unfold verifyNext
  split
  next signer signature hsigner hsignature =>
    split
    next => rfl
    next member hmember =>
      split
      next hverify =>
        exact absurd ⟨signer, signature, member, hsigner, hsignature, hmember, hverify⟩ h
      next => rfl
  next => rfl

end SessionState

/-! ## When a step finalizes a round -/

/-- The suspended function, when it goes on, finalizes the round: the ack that it records completes
the quorum, or the last signature of the certificate that it checks is verified. -/
def Task.Closes (me : Local) (s : SessionState P) (round : ℕ) : Task P → Prop
  | .dispatching event => event.round = round ∧
      ((event.type = .roundAck ∧
          ∃ r ack, s.Records event r ack ∧ s.Completes me (withAck event r ack)) ∨
        (event.type = .roundFinalized ∧
          ∃ finPayload, s.Certifies event finPayload ∧ finPayload.signerPeerIds = []))
  | .verifying event finPayload expectedAck i => event.round = round ∧
      s.Verifies me event finPayload expectedAck i ∧ i + 1 = finPayload.signerPeerIds.length
  | _ => False

/-- The suspended function that goes on with the step. -/
def Manager.resumed (m : Manager P) : ManagerStep P → Option (Task P)
  | .resume i => m.tasks[i]?
  | _ => none

def Manager.Finalizes (me : Local) (m : Manager P) (step : ManagerStep P) (round : ℕ)
    (proposal : RoundProposalPayload P.Hash) : Prop :=
  m.session.proposalOf round = some proposal ∧
    ∃ task ∈ m.resumed step, task.Closes me m.session round

/-- The state is the reduced one and its hash is the claimed one, and the setup stays. -/
structure Effect.Finalized (s : SessionState P) (round : ℕ)
    (proposal : RoundProposalPayload P.Hash) (e : Effect P) : Prop where
  finalized : e.finalized = some (round, proposal)
  bytes : e.session.latestStateBytes = P.reduce s.latestStateBytes proposal.includedInputs
  hash : e.session.latestStateHash = proposal.nextStateHash
  setup : SameSetup s e.session

/-- Nothing is finalized, and the state and the setup are left as they were. -/
structure Effect.Idle (s : SessionState P) (e : Effect P) : Prop where
  finalized : e.finalized = none
  state : SameState s e.session
  setup : SameSetup s e.session

lemma Effect.Applies.finalize (h : e.Applies s₁ round proposal) (hs : SameState s s₁)
    (hsetup : SameSetup s e.session) : e.Finalized s round proposal :=
  ⟨h.finalized, by rw [h.bytes, hs.bytes], h.hash, hsetup⟩

lemma Effect.Plain.idle (h : e.Plain ts s) : e.Idle s :=
  ⟨h.finalized, h.session.state, h.session.setup⟩

lemma Effect.Acks.idle (h : e.Acks me s round proposal) : e.Idle s :=
  ⟨h.finalized, h.session.state, h.session.setup⟩

lemma Effect.idle_of_state {tasks : List (Task P)} {signed : List (SigningContext × P.Payload)}
    (h : SameState s s') (hsetup : SameSetup s s') :
    (⟨s', tasks, signed, none⟩ : Effect P).Idle s := ⟨rfl, h, hsetup⟩

lemma Effect.idle_of_quiet {tasks : List (Task P)} {signed : List (SigningContext × P.Payload)}
    (h : Quiet s s') : (⟨s', tasks, signed, none⟩ : Effect P).Idle s :=
  idle_of_state h.state h.setup

lemma SessionState.finalized_finalizeRound (h : s.proposalOf round = some proposal) :
    (s.finalizeRound round).Finalized s round proposal := by
  have happlies := finalizeRound_of_proposal h
  exact happlies.finalize ⟨rfl, rfl⟩ happlies.setup

lemma SessionState.idle_finalizeRound (h : s.proposalOf round = none) :
    (s.finalizeRound round).Idle s := by
  rw [finalizeRound_of_none h]
  exact Effect.idle_of_quiet (Quiet.refl s)

lemma SessionState.idle_handleRoundAck (h : ∀ proposal, s.proposalOf event.round = some proposal →
      ¬ ∃ r ack, s.Records event r ack ∧ s.Completes me (withAck event r ack)) :
    (s.handleRoundAck me event).Idle s := by
  rcases handleRoundAck_cases me s event with heq | ⟨r, ack, _, _, _, _, _, heq⟩ | ⟨r, ack,
      hrecords⟩
  · rw [heq]
    exact Effect.idle_of_quiet (Quiet.refl s)
  · rw [heq]
    exact Effect.idle_of_state ⟨rfl, rfl⟩ ⟨⟨_, rfl⟩, rfl⟩
  · rw [handleRoundAck_of_records hrecords]
    have hstored := s.roundStates_setRound event.round (withAck event r ack)
    rcases checkQuorumAndFinalize_cases hstored with hplain | ⟨hcompletes, proposal, hproposal⟩
    · obtain ⟨⟨hconfig, hinactive⟩, _, hbytes, hhash⟩ := hplain.session
      exact ⟨hplain.finalized, ⟨hbytes, hhash⟩, hconfig, hinactive⟩
    · -- The proposal and the setup are those from before the ack.
      have hp := proposalOf_eq_some_iff.mpr ⟨r, hrecords.stored, hproposal⟩
      exact absurd ⟨r, ack, hrecords, completes_setRound_iff.mp hcompletes⟩ (h proposal hp)

lemma SessionState.finalized_handleRoundAck {ack : RoundAckPayload P.Hash}
    (hproposal : s.proposalOf event.round = some proposal) (hrecords : s.Records event r ack)
    (hcompletes : s.Completes me (withAck event r ack)) :
    (s.handleRoundAck me event).Finalized s event.round proposal := by
  rw [handleRoundAck_of_records hrecords]
  have hstored := s.roundStates_setRound event.round (withAck event r ack)
  have hp : r.proposal = some proposal := by
    obtain ⟨r', hr', hp⟩ := proposalOf_eq_some_iff.mp hproposal
    rw [hrecords.stored] at hr'
    cases hr'
    exact hp
  have happlies := checkQuorumAndFinalize_of_completes hstored hp
    (completes_setRound_iff.mpr hcompletes)
  exact happlies.finalize ⟨rfl, rfl⟩ ⟨happlies.setup.config, happlies.setup.inactive⟩

lemma SessionState.idle_handleRoundFinalized
    (h : ∀ proposal, s.proposalOf event.round = some proposal →
      ¬ ∃ finPayload, s.Certifies event finPayload ∧ finPayload.signerPeerIds = []) :
    (s.handleRoundFinalized event).Idle s := by
  rcases handleRoundFinalized_cases s event with heq | ⟨proposal, finPayload, hp, hcert, heq⟩
  · rw [heq]
    exact Effect.idle_of_quiet (Quiet.refl s)
  · rw [heq, if_neg fun hnil => h proposal hp ⟨finPayload, hcert, hnil⟩]
    exact Effect.idle_of_quiet (Quiet.refl s)

lemma SessionState.idle_verifyNext {finPayload : RoundFinalizedPayload P.Hash P.Sig}
    {expectedAck : P.Payload} {i : ℕ} (h : ∀ proposal, s.proposalOf event.round = some proposal →
      ¬ (s.Verifies me event finPayload expectedAck i ∧ i + 1 = finPayload.signerPeerIds.length)) :
    (s.verifyNext me event finPayload expectedAck i).Idle s := by
  by_cases hverifies : s.Verifies me event finPayload expectedAck i
  · rw [verifyNext_of_verifies hverifies]
    split
    next hlast =>
      refine idle_finalizeRound ?_
      by_contra hsome
      obtain ⟨proposal, hp⟩ := Option.ne_none_iff_exists'.mp hsome
      exact h proposal hp ⟨hverifies, hlast⟩
    next => exact Effect.idle_of_quiet (Quiet.refl s)
  · rw [verifyNext_of_not_verifies hverifies]
    exact Effect.idle_of_quiet (Quiet.refl s)

variable {task : Task P} {step : ManagerStep P}

lemma Manager.finalized_taskEffect (hproposal : m.session.proposalOf round = some proposal)
    (hcloses : task.Closes me m.session round) :
    (m.taskEffect me task).Finalized m.session round proposal := by
  cases task with
  | validating event checks | proposing round proposal | advancing round => exact hcloses.elim
  | dispatching event =>
    obtain ⟨rfl, ⟨htype, r, ack, hrecords, hcompletes⟩ | ⟨htype, finPayload, hcert, hnil⟩⟩ :=
      hcloses
    · simp only [taskEffect, dispatch, htype]
      exact finalized_handleRoundAck hproposal hrecords hcompletes
    · simp only [taskEffect, dispatch, htype]
      rw [handleRoundFinalized_of_certifies hproposal hcert hnil]
      exact finalized_finalizeRound hproposal
  | verifying event finPayload expectedAck i =>
    obtain ⟨rfl, hverifies, hlast⟩ := hcloses
    simp only [taskEffect]
    rw [verifyNext_of_verifies hverifies, if_pos hlast]
    exact finalized_finalizeRound hproposal

lemma Manager.idle_taskEffect (h : ∀ round proposal, m.session.proposalOf round = some proposal →
      ¬ task.Closes me m.session round) : (m.taskEffect me task).Idle m.session := by
  cases task with
  | validating event checks => exact Effect.idle_of_quiet (Quiet.refl _)
  | dispatching event =>
    unfold taskEffect dispatch
    simp only
    split
    next => exact Effect.idle_of_state ⟨rfl, rfl⟩ ⟨⟨_, rfl⟩, rfl⟩
    next => exact Effect.idle_of_quiet quiet_handleSessionActivated
    next => exact Effect.idle_of_quiet (quiet_handleRoundStart event)
    next =>
      obtain ⟨hvotes, hstate⟩ := m.session.handleInputSubmitted_keeps event
      exact Effect.idle_of_state hstate ⟨hvotes.config, hvotes.inactive⟩
    next =>
      rcases handleRoundProposal_cases me m.session event with hplain | ⟨_, _, _, _, _, hacks⟩
      · exact hplain.idle
      · exact hacks.idle
    next htype =>
      refine idle_handleRoundAck fun proposal hp hcompletes => ?_
      exact h event.round proposal hp ⟨rfl, .inl ⟨htype, hcompletes⟩⟩
    next htype =>
      refine idle_handleRoundFinalized fun proposal hp hcert => ?_
      exact h event.round proposal hp ⟨rfl, .inr ⟨htype, hcert⟩⟩
    next => exact Effect.idle_of_state ⟨rfl, rfl⟩ ⟨⟨_, rfl⟩, rfl⟩
    next => exact Effect.idle_of_state ⟨rfl, rfl⟩ ⟨⟨_, rfl⟩, rfl⟩
    next => exact Effect.idle_of_quiet (Quiet.refl _)
    next => exact Effect.idle_of_quiet (Quiet.refl _)
  | verifying event finPayload expectedAck i =>
    refine idle_verifyNext fun proposal hp hlast => ?_
    exact h event.round proposal hp ⟨rfl, hlast⟩
  | proposing round proposal => exact (acks_validateAndAck me m.session round proposal).idle
  | advancing round => exact Effect.idle_of_quiet (quiet_advance round)

lemma Manager.stepEffect_of_resumed (h : m.resumed step = some task) :
    m.stepEffect me step = m.taskEffect me task := by
  cases step with
  | resume i =>
    have htask : m.tasks[i]? = some task := h
    simp only [stepEffect, htask]
  | _ => cases h

def ManagerStep.types : ManagerStep P → List AKAEventType
  | .receive _ => []
  | .resume _ => [.roundAck, .roundFinalized]
  | .acceptSession => [.sessionAccepted]
  | .activateSession => [.sessionActivated]
  | .startRound _ _ | .startTimer _ => [.roundStart]
  | .submitInput _ _ => [.inputSubmitted]
  | .proposeTimer _ => [.roundProposal]
  | .roundTimer _ _ => [.roundStart, .sessionAborted]
  | .acceptTimer => [.sessionAborted]

lemma Manager.plain_stepEffect (h : m.resumed step = none) :
    (m.stepEffect me step).Plain step.types m.session := by
  cases step with
  | receive event => exact .skip _
  | resume i =>
    have htask : m.tasks[i]? = none := h
    simp only [stepEffect, htask]
    exact .skip _
  | acceptSession => exact .signs (Quiet.refl _) (by simp [ManagerStep.types])
  | activateSession =>
    unfold stepEffect activateSession
    simp only
    split
    · exact .skip _
    split
    · exact .skip _
    · exact .signs (Quiet.status _) (by simp [ManagerStep.types])
  | startRound now requestedRound => exact plain_startRound _ _
  | submitInput data requestedRound =>
    unfold stepEffect submitInput
    simp only
    split
    · exact .skip _
    split
    · exact .skip _
    split
    · exact .skip _
    · exact .signs (Quiet.refl _) (by simp [ManagerStep.types])
  | proposeTimer round => exact plain_proposeRound _
  | startTimer now => exact plain_startRound _ _
  | roundTimer now round => exact plain_handleRoundTimeout _ _
  | acceptTimer => exact plain_abortSession _

lemma Manager.finalized_stepEffect (h : m.Finalizes me step round proposal) :
    (m.stepEffect me step).Finalized m.session round proposal := by
  obtain ⟨hproposal, task, htask, hcloses⟩ := h
  rw [stepEffect_of_resumed htask]
  exact finalized_taskEffect hproposal hcloses

lemma Manager.idle_stepEffect (h : ∀ round proposal, ¬ m.Finalizes me step round proposal) :
    (m.stepEffect me step).Idle m.session := by
  cases htask : m.resumed step with
  | none => exact (plain_stepEffect htask).idle
  | some task =>
    rw [stepEffect_of_resumed htask]
    refine idle_taskEffect fun round proposal hp hcloses => ?_
    exact h round proposal ⟨hp, task, htask, hcloses⟩

/-- The setup stays, whether a round is finalized or not. -/
lemma Manager.setup_stepEffect (me : Local) (m : Manager P) (step : ManagerStep P) :
    SameSetup m.session (m.stepEffect me step).session := by
  by_cases h : ∃ round proposal, m.Finalizes me step round proposal
  · obtain ⟨round, proposal, hfinalizes⟩ := h
    exact (finalized_stepEffect hfinalizes).setup
  · exact (idle_stepEffect fun round proposal hf => h ⟨round, proposal, hf⟩).setup

/-! ## One step -/

/-- `validate` touches neither the session nor the record of the finalizations. -/
lemma Manager.validateNext_session (me : Local) (m : Manager P) (event : AKAEvent P)
    (checks : List Check) :
    (m.validateNext me event checks).session = m.session ∧
    (m.validateNext me event checks).finalizedRounds = m.finalizedRounds := by
  cases checks with
  | nil => exact ⟨rfl, rfl⟩
  | cons check rest =>
    simp only [validateNext]
    by_cases h : check.passes me m.validator m.session event = true
    · simp [h]
    · simp [h]

/-- A step leaves the session of its effect, and records the finalization of its effect. -/
lemma Manager.exec_eq (me : Local) (m : Manager P) (step : ManagerStep P) :
    (m.exec me step).session = (m.stepEffect me step).session ∧
    (m.exec me step).finalizedRounds =
      m.finalizedRounds ++ (m.stepEffect me step).finalized.toList := by
  cases step with
  | receive event =>
    unfold exec
    simp only
    split
    · have h := m.validateNext_session me event (checksFor event.type)
      exact ⟨h.1, h.2.trans (append_nil _).symm⟩
    · exact ⟨rfl, (append_nil _).symm⟩
  | resume i =>
    unfold exec stepEffect
    simp only
    cases htask : m.tasks[i]? with
    | none => exact ⟨rfl, (append_nil _).symm⟩
    | some task =>
      cases task with
      | validating event checks =>
        have h := Manager.validateNext_session me
          { m with tasks := m.tasks.eraseIdx i } event checks
        exact ⟨h.1, h.2.trans (append_nil _).symm⟩
      | dispatching event | verifying event finPayload expectedAck j | proposing round proposal
      | advancing round => exact ⟨rfl, rfl⟩
  | acceptSession | activateSession | startRound now requestedRound
  | submitInput data requestedRound | proposeTimer round | startTimer now | roundTimer now round
  | acceptTimer => exact ⟨rfl, rfl⟩

end Dkg.Aka
