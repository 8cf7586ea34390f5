import Dkg.AttestedAssets.Network

/-! # What a manager signs

Each function signs events of its own types only. An ack is signed by `validateAndAck`, for a
proposal that it confirms, and is the ack of that proposal in every field (`ackFor`).
-/

namespace Dkg.Aka

open Lib SessionState

variable {P : Primitives} {me : Local} {s : SessionState P} {e : Effect P} {m : Manager P}
  {event : AKAEvent P} {round : ℕ} {r : RoundState P} {proposal : RoundProposalPayload P.Hash}

/-! ## The types of what is signed -/

lemma Effect.SignsOnly.mono {types types' : List AKAEventType} (hsub : types ⊆ types')
    (h : e.SignsOnly types) : e.SignsOnly types' :=
  fun message hmessage => hsub (h message hmessage)

lemma Effect.Acks.signsOnly (h : e.Acks me s round proposal) : e.SignsOnly [.roundAck] := by
  intro message hmessage
  obtain ⟨_, ack, _, rfl⟩ := h.signed message hmessage
  simp [signingContext]

namespace SessionState

lemma signsOnly_handleRoundProposal (event : AKAEvent P) :
    (s.handleRoundProposal me event).SignsOnly [.roundAck] := by
  rcases handleRoundProposal_cases me s event with hplain | ⟨_, _, _, _, _, hacks⟩
  · exact hplain.signed.mono (by simp)
  · exact hacks.signsOnly

lemma signsOnly_handleRoundAck (event : AKAEvent P) :
    (s.handleRoundAck me event).SignsOnly [.roundFinalized] := by
  rcases handleRoundAck_cases me s event with heq | ⟨_, _, _, _, _, _, _, heq⟩ | ⟨r, ack, hrecords⟩
  · rw [heq]
    nofun
  · rw [heq]
    nofun
  · rw [handleRoundAck_of_records hrecords]
    have hstored := s.roundStates_setRound event.round (withAck event r ack)
    rcases checkQuorumAndFinalize_cases hstored with hplain | ⟨hcompletes, proposal, hproposal⟩
    · exact hplain.signed.mono (by simp)
    · exact (checkQuorumAndFinalize_of_completes hstored hproposal hcompletes).signed

lemma finalizeRound_signed (round : ℕ) : (s.finalizeRound round).signed = [] := by
  unfold finalizeRound
  split
  next => rfl
  next =>
    split
    next => rfl
    next => rfl

lemma handleRoundFinalized_signed (s : SessionState P) (event : AKAEvent P) :
    (s.handleRoundFinalized event).signed = [] := by
  rcases handleRoundFinalized_cases s event with heq | ⟨_, _, _, _, heq⟩
  · rw [heq]
    rfl
  · rw [heq]
    split
    · exact finalizeRound_signed event.round
    · rfl

lemma verifyNext_signed (me : Local) (s : SessionState P) (event : AKAEvent P)
    (finPayload : RoundFinalizedPayload P.Hash P.Sig) (expectedAck : P.Payload) (i : ℕ) :
    (s.verifyNext me event finPayload expectedAck i).signed = [] := by
  by_cases hverifies : s.Verifies me event finPayload expectedAck i
  · rw [verifyNext_of_verifies hverifies]
    split
    · exact finalizeRound_signed event.round
    · rfl
  · rw [verifyNext_of_not_verifies hverifies]
    rfl

def ackFor (s : SessionState P) (round : ℕ) (proposal : RoundProposalPayload P.Hash) :
    RoundAckPayload P.Hash where
  round := round
  prevStateHash := proposal.prevStateHash
  inputSetHash := proposal.inputSetHash
  nextStateHash := proposal.nextStateHash
  turnCommitment := P.computeTurnCommitment s.config.sessionId round proposal.prevStateHash
    proposal.inputSetHash proposal.nextStateHash s.config.reducerVersion s.config.membershipRoot

lemma validateAndAck_signed {message : SigningContext × P.Payload}
    (h : message ∈ (s.validateAndAck me round proposal).signed) :
    s.Confirms proposal ∧ message =
      (s.signingContext me round .roundAck, P.encodeRoundAckPayload (s.ackFor round proposal)) := by
  unfold validateAndAck at h
  split at h
  next hconfirms => exact ⟨hconfirms, List.mem_singleton.mp h⟩
  next => cases h

lemma handleRoundProposal_signed {message : SigningContext × P.Payload}
    (h : message ∈ (s.handleRoundProposal me event).signed) :
    ∃ r proposal, s.roundStates event.round = some r ∧ event.signerPeerId = r.proposerPeerId ∧
      P.decodeRoundProposalPayload event.payload = some proposal ∧ s.Confirms proposal ∧
      message = (s.signingContext me event.round .roundAck,
        P.encodeRoundAckPayload (s.ackFor event.round proposal)) := by
  unfold handleRoundProposal at h
  split at h
  next => cases h
  next r hr =>
    split at h
    next => cases h
    next hsigner =>
      split at h
      next => cases h
      next proposal hproposal =>
        -- the round that is written does not matter for the checks and for the ack
        obtain ⟨hconfirms, hmessage⟩ := validateAndAck_signed h
        exact ⟨r, proposal, hr, not_not.mp hsigner, hproposal, hconfirms, hmessage⟩

end SessionState

lemma Manager.signsOnly_taskEffect (task : Task P) :
    (m.taskEffect me task).SignsOnly [.roundAck, .roundFinalized] := by
  have hnone : ∀ s : SessionState P, (Effect.only s).SignsOnly [.roundAck, .roundFinalized] :=
    fun _ => List.forall_mem_nil _
  cases task with
  | validating event checks => exact hnone _
  | dispatching event =>
    unfold taskEffect dispatch
    simp only
    split
    next => exact hnone _
    next => exact hnone _
    next => exact hnone _
    next => exact hnone _
    next => exact (signsOnly_handleRoundProposal event).mono (by simp)
    next => exact (signsOnly_handleRoundAck event).mono (by simp)
    next => simp [Effect.SignsOnly, handleRoundFinalized_signed]
    next => exact hnone _
    next => exact hnone _
    next => exact hnone _
    next => exact hnone _
  | verifying event finPayload expectedAck i =>
    simp [taskEffect, Effect.SignsOnly, verifyNext_signed]
  | proposing round proposal =>
    exact (acks_validateAndAck me m.session round proposal).signsOnly.mono (by simp)
  | advancing round => exact hnone _

lemma Manager.signsOnly_stepEffect (me : Local) (m : Manager P) (step : ManagerStep P) :
    (m.stepEffect me step).SignsOnly step.types := by
  cases htask : m.resumed step with
  | none => exact (plain_stepEffect htask).signed
  | some task =>
    rw [stepEffect_of_resumed htask]
    cases step with
    | resume i => exact signsOnly_taskEffect task
    | _ => cases htask

variable {step : ManagerStep P} {message : SigningContext × P.Payload}

variable (hmem : message ∈ (m.stepEffect me step).signed)

include hmem

/-- Acks and certificates are signed by suspended functions that go on. -/
lemma Manager.resumed_of_signed
    (htype : message.1.type = .roundAck ∨ message.1.type = .roundFinalized) :
    ∃ task, m.resumed step = some task ∧ message ∈ (m.taskEffect me task).signed := by
  have honly := signsOnly_stepEffect me m step message hmem
  cases step with
  | resume i =>
    cases htask : m.tasks[i]? with
    | none =>
      simp only [stepEffect, htask] at hmem
      cases hmem
    | some task =>
      simp only [stepEffect, htask] at hmem
      exact ⟨task, htask, hmem⟩
  | _ => rcases htype with htype | htype <;> simp [ManagerStep.types, htype] at honly

lemma Manager.propose_of_signed (htype : message.1.type = .roundProposal) :
    ∃ round, step = .proposeTimer round ∧ message ∈ (m.session.proposeRound me round).signed := by
  have honly := signsOnly_stepEffect me m step message hmem
  cases step with
  | proposeTimer round => exact ⟨round, rfl, hmem⟩
  | _ => simp [ManagerStep.types, htype] at honly

omit hmem in
lemma Manager.signed_taskEffect {task : Task P} (hmem : message ∈ (m.taskEffect me task).signed)
    (htype : message.1.type = .roundAck) :
    ∃ round proposal, task.confirmed m.session = some (round, proposal) ∧
      message = (m.session.signingContext me round .roundAck,
        P.encodeRoundAckPayload (m.session.ackFor round proposal)) := by
  cases task with
  | validating event checks => cases hmem
  | dispatching event =>
    unfold taskEffect dispatch at hmem
    simp only at hmem
    split at hmem
    next => cases hmem
    next => cases hmem
    next => cases hmem
    next => cases hmem
    next hproposal =>
      obtain ⟨r, proposal, hr, hsigner, hdecoded, hconfirms, hmessage⟩ :=
        handleRoundProposal_signed hmem
      refine ⟨event.round, proposal, ?_, hmessage⟩
      simp only [Task.confirmed, hr, hdecoded]
      rw [if_pos ⟨hproposal, hsigner, hconfirms⟩]
    next =>
      have honly := signsOnly_handleRoundAck event message hmem
      simp [htype] at honly
    next =>
      rw [handleRoundFinalized_signed] at hmem
      cases hmem
    next => cases hmem
    next => cases hmem
    next => cases hmem
    next => cases hmem
  | verifying event finPayload expectedAck i =>
    unfold taskEffect at hmem
    simp only at hmem
    rw [verifyNext_signed] at hmem
    cases hmem
  | proposing round proposal =>
    obtain ⟨hconfirms, hmessage⟩ := validateAndAck_signed hmem
    refine ⟨round, proposal, ?_, hmessage⟩
    simp only [Task.confirmed]
    rw [if_pos hconfirms]
  | advancing round => cases hmem

lemma Manager.signed_stepEffect (htype : message.1.type = .roundAck) : ∃ round proposal,
      (m.resumed step).bind (Task.confirmed m.session) = some (round, proposal) ∧
      message = (m.session.signingContext me round .roundAck,
        P.encodeRoundAckPayload (m.session.ackFor round proposal)) := by
  obtain ⟨task, hresumed, hmem⟩ := resumed_of_signed hmem (.inl htype)
  rw [hresumed]
  exact signed_taskEffect hmem htype

end Dkg.Aka
