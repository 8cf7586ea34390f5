import Dkg.AttestedAssets.Certificates

/-! # The lifecycle of a session

The status of a session, its current round and its latest finalized round are written by handlers
that do not look at them: an activation opens a session again that was aborted and begins with round
1, and a round is finalized or left whatever came after it. `Manager.Onward` says for each step when
it only goes forward, and that is exact.
-/

namespace Dkg.Aka

open Lib SessionState Option

variable {P : Primitives} {me : Local} {s : SessionState P} {m m' : Manager P}
  {event : AKAEvent P} {round : ℕ} {r : RoundState P} {proposal : RoundProposalPayload P.Hash}
  {step : ManagerStep P}

/-! ## What each function does to the lifecycle -/

namespace SessionState

/-- The status, the current round and the latest finalized round. -/
def lifecycle (s : SessionState P) : SessionStatus × ℕ × ℕ :=
  (s.config.status, s.currentRound, s.latestFinalizedRound)

lemma lifecycle_startRound (now : ℕ) (requestedRound : Option ℕ) :
    (s.startRound me now requestedRound).session.lifecycle = s.lifecycle := by
  unfold startRound
  split
  · rfl
  split
  · rfl
  simp only
  split <;> rfl

lemma lifecycle_proposeRound (round : ℕ) :
    (s.proposeRound me round).session.lifecycle = s.lifecycle := by
  unfold proposeRound
  split
  next => rfl
  next r hr =>
    split
    · rfl
    split <;> rfl

lemma lifecycle_handleRoundStart (event : AKAEvent P) :
    (s.handleRoundStart event).lifecycle = s.lifecycle := by
  unfold handleRoundStart
  simp only
  split <;> rfl

lemma lifecycle_handleInputSubmitted (event : AKAEvent P) :
    (s.handleInputSubmitted event).lifecycle = s.lifecycle := by
  unfold handleInputSubmitted
  split
  next => rfl
  next r hr =>
    split
    · rfl
    split
    · rfl
    split <;> rfl

lemma validateAndAck_session (round : ℕ) (proposal : RoundProposalPayload P.Hash) :
    (s.validateAndAck me round proposal).session = s := by
  unfold validateAndAck
  split <;> rfl

lemma lifecycle_handleRoundProposal (event : AKAEvent P) :
    (s.handleRoundProposal me event).session.lifecycle = s.lifecycle := by
  unfold handleRoundProposal
  split
  next => rfl
  next r hr =>
    split
    · rfl
    split
    · rfl
    · rw [validateAndAck_session]
      rfl

lemma lifecycle_advance (round : ℕ) :
    (s.advance round).lifecycle =
      (s.config.status, if s.isLastRound round then s.currentRound else round + 1,
        s.latestFinalizedRound) := by
  unfold advance
  split <;> rfl

/-- Every member has had its turn in the round, and it is not the last one that may be skipped. -/
def Skips (s : SessionState P) (round : ℕ) : Prop :=
  ∃ r ∈ s.roundStates round, r.status ≠ .finalized ∧
    s.config.membership.length ≤ r.viewChangeCount + 1 ∧
    s.consecutiveSkips + 1 < MAX_CONSECUTIVE_SKIPS

lemma lifecycle_handleRoundTimeout (now round : ℕ) :
    (s.Skips round ∧ (s.handleRoundTimeout me now round).session.lifecycle =
      (s.config.status, round + 1, s.latestFinalizedRound)) ∨
    (¬ s.Skips round ∧ ((s.handleRoundTimeout me now round).session.lifecycle = s.lifecycle ∨
      (s.handleRoundTimeout me now round).session.lifecycle =
        (.aborted, s.currentRound, s.latestFinalizedRound))) := by
  unfold handleRoundTimeout
  split
  next hnone => exact .inr ⟨by simp [Skips, hnone], .inl rfl⟩
  next r hr =>
    split
    next hfinalized => exact .inr ⟨by simp [Skips, hr, hfinalized], .inl rfl⟩
    next hopen =>
      simp only
      split
      next hviews =>
        split
        next hmany =>
          refine .inr ⟨?_, .inr rfl⟩
          rintro ⟨_, _, _, _, hfew⟩
          exact absurd hfew (Nat.not_lt.mpr hmany)
        next hfew =>
          have hskips : s.Skips round := ⟨r, hr, hopen, hviews, Nat.lt_of_not_le hfew⟩
          split
          · exact .inl ⟨hskips, lifecycle_startRound _ _⟩
          · exact .inl ⟨hskips, rfl⟩
      next hviews =>
        have hstays : ¬ s.Skips round := by
          rintro ⟨r', hr', _, hall, _⟩
          rw [hr, mem_some_iff] at hr'
          exact hviews (hr' ▸ hall)
        split
        · exact .inr ⟨hstays, .inl (lifecycle_startRound _ _)⟩
        · exact .inr ⟨hstays, .inl rfl⟩

/-- Every member but the creator has accepted. -/
def AllAccepted (s : SessionState P) : Prop :=
  ∀ x ∈ s.config.membership, x.peerId ≠ s.config.createdBy → x.peerId ∈ s.acceptedMembers
  deriving Decidable

lemma lifecycle_handleSessionActivated :
    s.handleSessionActivated.lifecycle =
      if s.AllAccepted then (.active, 1, s.latestFinalizedRound) else s.lifecycle := by
  unfold handleSessionActivated
  split
  next h => rw [if_pos (show s.AllAccepted from h)]; rfl
  next h => rw [if_neg (show ¬ s.AllAccepted from h)]

lemma lifecycle_finalizeRound (round : ℕ) :
    (s.finalizeRound round).session.lifecycle =
      if (s.proposalOf round).isSome then
        (s.config.status, if s.isLastRound round then s.currentRound else round + 1, round)
      else s.lifecycle := by
  cases hp : s.proposalOf round with
  | none =>
    rw [finalizeRound_of_none hp]
    rfl
  | some proposal =>
    obtain ⟨r, hr, hproposal⟩ := proposalOf_eq_some_iff.mp hp
    unfold finalizeRound
    rw [hr]
    simp only [hproposal]
    exact lifecycle_advance round

lemma lifecycle_checkQuorumAndFinalize (hr : s.roundStates round = some r) :
    (s.checkQuorumAndFinalize me round).session.lifecycle =
      if s.Completes me r ∧ r.proposal.isSome then (s.config.status, s.currentRound, round)
      else s.lifecycle := by
  by_cases h : s.Completes me r ∧ r.proposal.isSome
  · obtain ⟨hcompletes, hsome⟩ := h
    obtain ⟨proposal, hproposal⟩ := isSome_iff_exists.mp hsome
    rw [if_pos ⟨hcompletes, hsome⟩]
    unfold checkQuorumAndFinalize
    rw [hr]
    simp only [hproposal]
    rw [if_neg hcompletes.unfinished, if_neg (not_not.mpr hcompletes.proposer),
      if_pos hcompletes.quorum]
    rfl
  · rw [if_neg h]
    unfold checkQuorumAndFinalize
    rw [hr]
    simp only
    split
    next => rfl
    next proposal hproposal =>
      split
      next => rfl
      next hopen =>
        split
        next => rfl
        next hproposer =>
          split
          next hquorum =>
            exact absurd ⟨⟨hopen, not_not.mp hproposer, hquorum⟩, by simp [hproposal]⟩ h
          next => rfl

/-- An ack that completes a quorum finalizes the round, and any other one leaves the lifecycle as it
was. -/
lemma lifecycle_handleRoundAck (htype : event.type = .roundAck) :
    ((Task.dispatching event).Closes me s event.round ∧ (s.proposalOf event.round).isSome ∧
      (s.handleRoundAck me event).session.lifecycle =
        (s.config.status, s.currentRound, event.round)) ∨
    (¬ ((Task.dispatching event).Closes me s event.round ∧ (s.proposalOf event.round).isSome) ∧
      (s.handleRoundAck me event).session.lifecycle = s.lifecycle) := by
  -- the round that the ack is written to has the proposal of the stored one
  have hwritten : ∀ r ack, s.Records event r ack →
      ((s.setRound event.round (withAck event r ack)).Completes me (withAck event r ack) ∧
        (withAck event r ack).proposal.isSome ↔
      (Task.dispatching event).Closes me s event.round ∧ (s.proposalOf event.round).isSome) := by
    intro r ack hrecords
    rw [completes_setRound_iff, proposalOf, hrecords.stored]
    constructor
    · rintro ⟨hcompletes, hsome⟩
      exact ⟨⟨rfl, .inl ⟨htype, r, ack, hrecords, hcompletes⟩⟩, hsome⟩
    · rintro ⟨⟨_, ⟨_, r', ack', hrecords', hcompletes⟩ | ⟨hother, _⟩⟩, hsome⟩
      · obtain rfl := Option.some.inj (hrecords.stored.symm.trans hrecords'.stored)
        obtain rfl := Option.some.inj (hrecords.decoded.symm.trans hrecords'.decoded)
        exact ⟨hcompletes, hsome⟩
      · rw [htype] at hother
        cases hother
  by_cases h : (Task.dispatching event).Closes me s event.round ∧ (s.proposalOf event.round).isSome
  · have hcloses := h.1
    obtain ⟨_, ⟨_, r, ack, hrecords, _⟩ | ⟨hother, _⟩⟩ := hcloses
    · refine .inl ⟨h.1, h.2, ?_⟩
      rw [handleRoundAck_of_records hrecords, lifecycle_checkQuorumAndFinalize (roundStates_setRound
        _ _), if_pos ((hwritten r ack hrecords).mpr h)]
      rfl
    · rw [htype] at hother
      cases hother
  · refine .inr ⟨h, ?_⟩
    rcases handleRoundAck_cases me s event with
      heq | ⟨r, _, _, _, _, _, _, heq⟩ | ⟨r, ack, hrecords⟩
    · rw [heq]
      rfl
    · rw [heq]
      rfl
    · rw [handleRoundAck_of_records hrecords,
        lifecycle_checkQuorumAndFinalize (roundStates_setRound _ _),
        if_neg fun hc => h ((hwritten r ack hrecords).mp hc)]
      rfl

end SessionState

/-! ## Steps that go forward -/

/-- The session was aborted or finalized. -/
def SessionStatus.Closed (status : SessionStatus) : Prop := status = .aborted ∨ status = .finalized
  deriving Decidable

/-- A session that was closed stays closed, and no round number decreases. -/
structure Manager.Progress (m m' : Manager P) : Prop where
  status : m.session.config.status.Closed → m'.session.config.status.Closed
  currentRound : m.session.currentRound ≤ m'.session.currentRound
  latestFinalizedRound : m.session.latestFinalizedRound ≤ m'.session.latestFinalizedRound

lemma Manager.Progress.refl (m : Manager P) : m.Progress m := ⟨id, le_rfl, le_rfl⟩

lemma Manager.Progress.trans {m₁ : Manager P} (h : m.Progress m₁) (h' : m₁.Progress m') :
    m.Progress m' :=
  ⟨h'.status ∘ h.status, h.currentRound.trans h'.currentRound,
    h.latestFinalizedRound.trans h'.latestFinalizedRound⟩

/-- A finalization of the round goes forward: no later round was finalized, and the session is not
beyond the round after it. -/
def SessionState.Next (s : SessionState P) (round : ℕ) : Prop :=
  s.latestFinalizedRound ≤ round ∧ (¬ s.isLastRound round → s.currentRound ≤ round + 1)

/-- The suspended function goes forward: an activation finds a session that is not closed and not
beyond round 1, and a round is finalized or left in order. -/
def Task.Onward (me : Local) (s : SessionState P) : Task P → Prop
  | .dispatching event =>
    (event.type = .sessionActivated → s.AllAccepted →
      ¬ s.config.status.Closed ∧ s.currentRound ≤ 1) ∧
    ((Task.dispatching event).Closes me s event.round → (s.proposalOf event.round).isSome →
      if event.type = .roundAck then s.latestFinalizedRound ≤ event.round
      else s.Next event.round)
  | .verifying event finPayload expectedAck i =>
    (Task.verifying event finPayload expectedAck i).Closes me s event.round →
      (s.proposalOf event.round).isSome → s.Next event.round
  | .advancing round => ¬ s.isLastRound round → s.currentRound ≤ round + 1
  | _ => True

/-- The step goes forward. -/
def Manager.Onward (me : Local) (m : Manager P) : ManagerStep P → Prop
  | .activateSession => m.session.config.createdBy = me.localPeerId → m.session.AllAccepted →
      ¬ m.session.config.status.Closed
  | .roundTimer _ round => m.session.Skips round → m.session.currentRound ≤ round + 1
  | .resume i => ∀ task ∈ m.tasks[i]?, task.Onward me m.session
  | _ => True

/-! ## When a step goes forward -/

/-- One lifecycle is followed by another. -/
def Forward (l l' : SessionStatus × ℕ × ℕ) : Prop :=
  (l.1.Closed → l'.1.Closed) ∧ l.2.1 ≤ l'.2.1 ∧ l.2.2 ≤ l'.2.2

lemma Forward.of_eq {l l' : SessionStatus × ℕ × ℕ} (h : l' = l) : Forward l l' := by
  rw [h]
  exact ⟨id, le_rfl, le_rfl⟩

lemma Manager.progress_exec_iff :
    m.Progress (m.exec me step) ↔
      Forward m.session.lifecycle (m.stepEffect me step).session.lifecycle := by
  rw [← (m.exec_eq me step).1]
  exact ⟨fun h => ⟨h.status, h.currentRound, h.latestFinalizedRound⟩,
    fun h => ⟨h.1, h.2.1, h.2.2⟩⟩

namespace SessionState

/-- The end of a round that a certificate closes. -/
lemma forward_finalizeRound_iff :
    Forward s.lifecycle (s.finalizeRound round).session.lifecycle ↔
      ((s.proposalOf round).isSome → s.Next round) := by
  rw [lifecycle_finalizeRound]
  by_cases hsome : (s.proposalOf round).isSome
  · rw [if_pos hsome]
    by_cases hlast : s.isLastRound round
    · simp [Forward, lifecycle, Next, hsome, hlast]
    · simp [Forward, lifecycle, Next, hsome, hlast, and_comm]
  · simp [hsome, Forward.of_eq]

lemma forward_handleRoundAck_iff (htype : event.type = .roundAck) :
    Forward s.lifecycle (s.handleRoundAck me event).session.lifecycle ↔
      ((Task.dispatching event).Closes me s event.round → (s.proposalOf event.round).isSome →
        s.latestFinalizedRound ≤ event.round) := by
  rcases lifecycle_handleRoundAck htype with
    ⟨hcloses, hsome, heq⟩ | ⟨hopen, heq⟩
  · rw [heq]
    simp [Forward, lifecycle, hcloses, hsome]
  · constructor
    · exact fun _ hcloses hsome => absurd ⟨hcloses, hsome⟩ hopen
    · exact fun _ => .of_eq heq

lemma forward_handleRoundFinalized_iff (htype : event.type = .roundFinalized) :
    Forward s.lifecycle (s.handleRoundFinalized event).session.lifecycle ↔
      ((Task.dispatching event).Closes me s event.round → (s.proposalOf event.round).isSome →
        s.Next event.round) := by
  by_cases h : (Task.dispatching event).Closes me s event.round ∧ (s.proposalOf event.round).isSome
  · obtain ⟨⟨_, ⟨hother, _⟩ | ⟨_, finPayload, hcertifies, hnil⟩⟩, hsome⟩ := id h
    · rw [htype] at hother
      cases hother
    · obtain ⟨proposal, hproposal⟩ := isSome_iff_exists.mp hsome
      rw [handleRoundFinalized_of_certifies hproposal hcertifies hnil, forward_finalizeRound_iff]
      simp [h.1]
  · constructor
    · exact fun _ hcloses hsome => absurd ⟨hcloses, hsome⟩ h
    · intro _
      refine .of_eq ?_
      rcases handleRoundFinalized_cases s event with heq | ⟨proposal, finPayload, hp, hcert, heq⟩
      · rw [heq]
        rfl
      · have hsigners : finPayload.signerPeerIds ≠ [] := fun hnil =>
          h ⟨⟨rfl, .inr ⟨htype, finPayload, hcert, hnil⟩⟩, by simp [hp]⟩
        rw [heq, if_neg hsigners]

lemma forward_verifyNext_iff {finPayload : RoundFinalizedPayload P.Hash P.Sig}
    {expectedAck : P.Payload} {i : ℕ} :
    Forward s.lifecycle (s.verifyNext me event finPayload expectedAck i).session.lifecycle ↔
      ((Task.verifying event finPayload expectedAck i).Closes me s event.round →
        (s.proposalOf event.round).isSome → s.Next event.round) := by
  by_cases hverifies : s.Verifies me event finPayload expectedAck i
  · rw [verifyNext_of_verifies hverifies]
    by_cases hlast : i + 1 = finPayload.signerPeerIds.length
    · rw [if_pos hlast, forward_finalizeRound_iff]
      simp [Task.Closes, hverifies, hlast]
    · rw [if_neg hlast]
      simp [Task.Closes, hlast, Forward.of_eq]
  · rw [verifyNext_of_not_verifies hverifies]
    simp [Task.Closes, hverifies, Forward.of_eq, Effect.only]

lemma forward_handleSessionActivated_iff :
    Forward s.lifecycle s.handleSessionActivated.lifecycle ↔
      (s.AllAccepted → ¬ s.config.status.Closed ∧ s.currentRound ≤ 1) := by
  rw [lifecycle_handleSessionActivated]
  by_cases h : s.AllAccepted
  · simp [h, Forward, lifecycle, SessionStatus.Closed]
  · simp [h, Forward.of_eq]

lemma forward_advance_iff :
    Forward s.lifecycle (s.advance round).lifecycle ↔
      (¬ s.isLastRound round → s.currentRound ≤ round + 1) := by
  rw [lifecycle_advance]
  by_cases hlast : s.isLastRound round
  · simp [Forward, lifecycle, hlast]
  · simp [Forward, lifecycle, hlast]

lemma forward_handleRoundTimeout_iff {now : ℕ} :
    Forward s.lifecycle (s.handleRoundTimeout me now round).session.lifecycle ↔
      (s.Skips round → s.currentRound ≤ round + 1) := by
  rcases lifecycle_handleRoundTimeout now round with
    ⟨hskips, heq⟩ | ⟨hstays, heq | heq⟩
  · rw [heq]
    simp [Forward, lifecycle, hskips]
  · rw [heq]
    simp [hstays, Forward.of_eq]
  · rw [heq]
    simp [Forward, lifecycle, hstays, SessionStatus.Closed]

section

variable (hactivated : event.type ≠ .sessionActivated) (hack : event.type ≠ .roundAck)
  (hfinalized : event.type ≠ .roundFinalized)

include hactivated hack hfinalized

/-- An event that is neither an activation, an ack nor a certificate goes forward. -/
lemma onward_dispatching : (Task.dispatching event).Onward me s := by
  refine ⟨fun h => absurd h hactivated, ?_⟩
  rintro ⟨_, ⟨h, _⟩ | ⟨h, _⟩⟩
  · exact absurd h hack
  · exact absurd h hfinalized

lemma forward_dispatch : Forward s.lifecycle (s.dispatch me event).session.lifecycle := by
  unfold dispatch
  split
  next => exact .of_eq rfl
  next htype => exact absurd htype hactivated
  next => exact .of_eq (lifecycle_handleRoundStart event)
  next => exact .of_eq (lifecycle_handleInputSubmitted event)
  next => exact .of_eq (lifecycle_handleRoundProposal event)
  next htype => exact absurd htype hack
  next htype => exact absurd htype hfinalized
  next => exact ⟨fun _ => .inr rfl, le_rfl, le_rfl⟩
  next => exact ⟨fun _ => .inl rfl, le_rfl, le_rfl⟩
  next => exact .of_eq rfl
  next => exact .of_eq rfl

end

lemma forward_dispatch_iff :
    Forward s.lifecycle (s.dispatch me event).session.lifecycle ↔
      (Task.dispatching event).Onward me s := by
  cases htype : event.type with
  | sessionActivated =>
    have hnever : ¬ (Task.dispatching event).Closes me s event.round := by
      simp [Task.Closes, htype]
    simp only [dispatch, htype, Effect.only, forward_handleSessionActivated_iff, Task.Onward]
    simp [hnever]
  | roundAck =>
    simp only [dispatch, htype, forward_handleRoundAck_iff htype, Task.Onward]
    simp
  | roundFinalized =>
    have hforward := @forward_handleRoundFinalized_iff _ me s event htype
    simp only [dispatch, htype, hforward, Task.Onward]
    simp
  | _ =>
    exact iff_of_true (forward_dispatch (by simp [htype]) (by simp [htype]) (by simp [htype]))
      (onward_dispatching (by simp [htype]) (by simp [htype]) (by simp [htype]))

end SessionState

lemma Manager.forward_taskEffect_iff {task : Task P} :
    Forward m.session.lifecycle (m.taskEffect me task).session.lifecycle ↔
      task.Onward me m.session := by
  cases task with
  | validating event checks => exact iff_of_true (.of_eq rfl) trivial
  | dispatching event => exact forward_dispatch_iff
  | verifying event finPayload expectedAck i => exact forward_verifyNext_iff
  | proposing round proposal =>
    refine iff_of_true (.of_eq ?_) trivial
    simp only [taskEffect, validateAndAck_session]
  | advancing round => exact forward_advance_iff

lemma Manager.forward_activateSession_iff :
    Forward m.session.lifecycle (m.activateSession me).session.lifecycle ↔
      m.Onward me .activateSession := by
  unfold activateSession
  simp only
  split
  next hcreator =>
    exact iff_of_true (.of_eq rfl) fun heq => absurd heq hcreator
  next hcreator =>
    split
    next hmissing =>
      refine iff_of_true (.of_eq rfl) fun _ hall => ?_
      obtain ⟨x, hx, hother, hpending⟩ := hmissing
      exact absurd (hall x hx hother) hpending
    next hall =>
      have haccepted : m.session.AllAccepted := by
        intro x hx hother
        by_contra hpending
        exact hall ⟨x, hx, hother, hpending⟩
      simp [Forward, lifecycle, Effect.signs, Onward, not_not.mp hcreator, haccepted,
        SessionStatus.Closed]

/-- **One step** goes forward exactly if it meets the condition. -/
lemma Manager.progress_iff (me : Local) (m : Manager P) (step : ManagerStep P) :
    m.Progress (m.exec me step) ↔ m.Onward me step := by
  rw [progress_exec_iff]
  cases step with
  | receive event | acceptSession => exact iff_of_true (.of_eq rfl) trivial
  | resume i =>
    cases htask : m.tasks[i]? with
    | none =>
      simp only [stepEffect, htask, Onward]
      exact iff_of_true (.of_eq rfl) fun _ hmem => by cases hmem
    | some task =>
      simp only [stepEffect, htask, Onward, mem_some_iff, forall_eq']
      exact forward_taskEffect_iff
  | activateSession => exact forward_activateSession_iff
  | startRound now requestedRound | startTimer now =>
    exact iff_of_true (.of_eq (lifecycle_startRound _ _)) trivial
  | submitInput data requestedRound =>
    refine iff_of_true (.of_eq ?_) trivial
    unfold stepEffect submitInput
    simp only
    split
    · rfl
    split
    · rfl
    split <;> rfl
  | proposeTimer round => exact iff_of_true (.of_eq (lifecycle_proposeRound round)) trivial
  | roundTimer now round => exact forward_handleRoundTimeout_iff
  | acceptTimer => exact iff_of_true ⟨fun _ => .inl rfl, le_rfl, le_rfl⟩ trivial

/-! ## Runs -/

/-- The entry of a session id in the map of the sessions is set, by `createSession` or at the end of
`handleSessionProposed`, or the session that is there takes a step. -/
inductive EntryStep (P : Primitives)
  | setUp (config : SessionConfig P)
  | run (step : ManagerStep P)

def entryExec (me : Local) (entry : Option (Manager P)) : EntryStep P → Option (Manager P)
  | .setUp config => some (Manager.start config)
  | .run step => entry.map fun m => m.exec me step

def entryMachine (P : Primitives) (me : Local) : Machine (Option (Manager P)) (EntryStep P) where
  init entry := entry = none
  step entry step entry' := entry' = entryExec me entry step

/-- The session is set up once, and its steps go forward. -/
def EntryOnward (me : Local) (entry : Option (Manager P)) : EntryStep P → Prop
  | .setUp _ => entry = none
  | .run step => ∀ m ∈ entry, m.Onward me step

/-- In every run whose steps go forward, a session that is closed stays closed and its rounds do
not decrease. -/
lemma progress_of_steps {entry : Option (Manager P)}
    (h : ((entryMachine P me).restrict (EntryOnward me)).Steps (some m) entry) :
    ∃ m', entry = some m' ∧ m.Progress m' := by
  induction h with
  | refl => exact ⟨m, rfl, .refl m⟩
  | @tail entry _ step _ hstep ih =>
    obtain ⟨m₁, rfl, hprogress⟩ := ih
    obtain ⟨honward, rfl⟩ := hstep
    cases step with
    | setUp config => cases honward
    | run step =>
      exact ⟨m₁.exec me step, rfl, hprogress.trans ((m₁.progress_iff me step).mpr (honward m₁ rfl))⟩

end Dkg.Aka
