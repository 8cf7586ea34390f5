import Dkg.AttestedAssets.Certificates

/-! # Acks of honest members

A member is excluded where two of its acks in one round are for different states. An honest member
signs two such acks when it confirms a second proposal after a view change, since nothing tells it
that it has acked the first one. Its acks bind the state that it has applied the inputs to, and
inputs that were signed, where the proposals say so: `validateAndAck` looks at neither.
`Session.Sincere` is what is missing.
-/

namespace Dkg.Aka

open Lib SessionState List

variable {P : Primitives} {S : Session P} {signed signed' : Signed P}
  {event : AKAEvent P} {round : ℕ} {proposal : RoundProposalPayload P.Hash} {net : Network P}
  {step : NetworkStep P}

/-- The members and the inputs of a proposal are decoded as they were encoded. -/
def Primitives.KeepsInputs (P : Primitives) : Prop :=
  ∀ proposal : RoundProposalPayload P.Hash, ∃ proposal' : RoundProposalPayload P.Hash,
    P.decodeRoundProposalPayload (P.encodeRoundProposalPayload proposal) = some proposal' ∧
    proposal'.includedMembers = proposal.includedMembers ∧
    proposal'.includedInputs = proposal.includedInputs

/-- The member confirms a proposal in a round, and so signs an ack for it. -/
def Network.Confirming (net : Network P) (member : SessionMember) (managerStep : ManagerStep P)
    (round : ℕ) (proposal : RoundProposalPayload P.Hash) : Prop :=
  ((net.managers member.peerId).resumed managerStep).bind
    (Task.confirmed (net.managers member.peerId).session) = some (round, proposal)

lemma Task.confirms_of_confirmed {s : SessionState P} {task : Task P}
    (h : task.confirmed s = some (round, proposal)) : s.Confirms proposal := by
  cases task with
  | dispatching event =>
    simp only [confirmed] at h
    split at h
    next =>
      split at h
      next hproposes =>
        simp only [Option.some.injEq, Prod.mk.injEq] at h
        obtain ⟨_, rfl⟩ := h
        exact hproposes.2.2
      next => cases h
    next => cases h
  | proposing round' proposal' =>
    simp only [confirmed] at h
    split at h
    next hconfirms =>
      simp only [Option.some.injEq, Prod.mk.injEq] at h
      obtain ⟨_, rfl⟩ := h
      exact hconfirms
    next => cases h
  | _ => cases h

namespace Session

variable (S : Session P)

/-! ## The condition -/

def context (round : ℕ) (type : AKAEventType) : SigningContext :=
  ⟨S.network, S.config.contextGraphId, S.config.sessionId, round, type⟩

/-- The members that are not honest. -/
def faulty : List Text :=
  (S.config.membership.filter fun x => x ∉ S.honest).map SessionMember.peerId

/-- Every included input was signed, for the round, by the member that is listed with it. -/
def SignedInputs (signed : Signed P) (round : ℕ) (proposal : RoundProposalPayload P.Hash) : Prop :=
  List.Forall₂ (fun id data => ∃ member ∈ S.config.membership, member.peerId = id ∧
    ∃ payload input, (member.pubKey, S.context round .inputSubmitted, payload) ∈ signed ∧
      P.decodeInputPayload payload = some input ∧ input.data = data)
    proposal.includedMembers proposal.includedInputs

/-- An honest member that confirms a proposal has acked no other state in the round. The proposal
follows the hash that the member has, which is that of its state. A proposal of a member that is not
honest includes signed inputs only. -/
structure Sincere (net : Network P) (step : NetworkStep P) : Prop where
  votes : ∀ member managerStep round proposal, step = .honest member managerStep →
    net.Confirming member managerStep round proposal →
    ∀ payload ack, (member.pubKey, S.ackContext round, payload) ∈ net.signed →
      P.decodeRoundAckPayload payload = some ack → ack.nextStateHash = proposal.nextStateHash
  linked : ∀ member managerStep round proposal, step = .honest member managerStep →
    net.Confirming member managerStep round proposal →
    proposal.prevStateHash = (net.managers member.peerId).session.latestStateHash ∧
    (net.managers member.peerId).session.latestStateHash =
      P.computeStateHash (net.managers member.peerId).session.latestStateBytes
  inputs : ∀ member managerStep event proposal, step = .honest member managerStep →
    net.Confirming member managerStep event.round proposal →
    (net.managers member.peerId).resumed managerStep = some (.dispatching event) →
    event.signerPeerId ∈ S.faulty → S.SignedInputs net.signed event.round proposal

/-- The ack binds the state that the inputs of the proposal are applied to, the inputs, which were
signed, and the state after them. -/
structure Binds (signed : Signed P) (s : SessionState P) (round : ℕ) (ack : RoundAckPayload P.Hash)
    (proposal : RoundProposalPayload P.Hash) : Prop where
  prevStateHash : ack.prevStateHash = P.computeStateHash s.latestStateBytes
  inputSetHash : ack.inputSetHash = P.computeInputSetHash proposal.includedInputs
  nextStateHash : ack.nextStateHash =
    P.computeStateHash (P.reduce s.latestStateBytes proposal.includedInputs)
  inputs : S.SignedInputs signed round proposal

/-! ## What is known of a session -/

/-- The signatures of the event that verify were made. -/
def Genuine (signed : Signed P) (event : AKAEvent P) : Prop :=
  ∀ sig ∈ event.signatures, S.Authentic signed sig

/-- Every proposal that is signed with the key of an honest member includes signed inputs only. -/
def HonestProposals (signed : Signed P) : Prop :=
  ∀ member ∈ S.honest, ∀ round payload,
    (member.pubKey, S.context round .roundProposal, payload) ∈ signed →
    ∃ proposal, payload = P.encodeRoundProposalPayload proposal ∧
        S.SignedInputs signed round proposal

/-- The invariant of a session. -/
structure Known (net : Network P) : Prop where
  traced : ∀ id, (net.managers id).Traced S.config S.network (S.Genuine net.signed)
  single : S.Single S.faulty net.signed
  proposals : S.HonestProposals net.signed

variable {S}

variable {member : SessionMember}

lemma mem_faulty_iff (hmem : member ∈ S.config.membership) :
    member.peerId ∈ S.faulty ↔ member ∉ S.honest := by
  simp only [faulty, mem_map, mem_filter, decide_eq_true_eq]
  constructor
  · rintro ⟨x, ⟨hx, hfaulty⟩, hid⟩
    rwa [eq_of_peerId hx hmem hid] at hfaulty
  · exact fun hfaulty => ⟨member, ⟨hmem, hfaulty⟩, rfl⟩

lemma reliable_iff {key : Bytes} :
    S.Reliable S.faulty key ↔ ∃ member ∈ S.honest, member.pubKey = key := by
  constructor
  · rintro ⟨member, hmem, hkey, hid⟩
    rw [mem_faulty_iff hmem, not_not] at hid
    exact ⟨member, hid, hkey⟩
  · rintro ⟨member, hmem, hkey⟩
    refine ⟨member, S.subset member hmem, hkey, ?_⟩
    rw [mem_faulty_iff (S.subset member hmem), not_not]
    exact hmem

lemma SignedInputs.mono (hsub : signed ⊆ signed') (h : S.SignedInputs signed round proposal) :
    S.SignedInputs signed' round proposal := by
  refine Forall₂.imp ?_ h
  rintro id data ⟨member, hmem, hid, payload, input, hsigned, hinput⟩
  exact ⟨member, hmem, hid, payload, input, hsub hsigned, hinput⟩

lemma Genuine.mono (hsub : signed ⊆ signed') (event : AKAEvent P) (h : S.Genuine signed event) :
    S.Genuine signed' event := fun sig hsig => (h sig hsig).mono hsub

/-- What a verified event carries was signed by the member that it names. -/
lemma attributed_of_verified (h : Verified S.config S.network (S.Genuine signed) event) :
    S.Attributed signed event := by
  obtain ⟨hgenuine, hsession, member, hmember, hverify⟩ := h
  have hmem := mem_of_find?_eq_some hmember
  have hid : member.peerId = event.signerPeerId := by simpa using find?_some hmember
  exact ⟨hsession, member, hmem, hid,
    hgenuine event.signature mem_cons_self member hmem _ _ hverify⟩

lemma signedInputs_of_inputsFrom
    (h : InputsFrom (Verified S.config S.network (S.Genuine signed)) round proposal) :
    S.SignedInputs signed round proposal := by
  refine Forall₂.imp ?_ h
  rintro id data ⟨event, input, hverified, hcarries, hdata⟩
  obtain ⟨hsession, member, hmem, hid, hsigned⟩ := attributed_of_verified hverified
  rw [hsession, hcarries.round, hcarries.type] at hsigned
  exact ⟨member, hmem, hid.trans hcarries.signer, event.payload, input, hsigned, hcarries.decoded,
    hdata⟩

/-- No honest member is excluded: two acks of it for different states would be signed. -/
lemma Known.not_mem_equivocators (h : S.Known net) (hmem : member ∈ S.honest) (id : Text) :
    member.peerId ∉ (net.managers id).session.equivocators := by
  intro hexcluded
  obtain ⟨round, ack, ack', event, event', hverified, hverified', hcarries, hcarries', hne⟩ :=
    (h.traced id).session.equivocators member.peerId hexcluded
  have hacked := (attributed_of_verified hverified).acked hcarries.type hcarries.decoded
  have hacked' := (attributed_of_verified hverified').acked hcarries'.type hcarries'.decoded
  rw [hcarries.signer, hcarries.round] at hacked
  rw [hcarries'.signer, hcarries'.round] at hacked'
  refine hne (hacked.unique h.single hacked' ?_)
  rw [mem_faulty_iff (S.subset member hmem), not_not]
  exact hmem

/-! ## Proposals of honest members -/

lemma HonestProposals.exec (hkeeps : S.HonestProposals net.signed)
    (htraced : ∀ id, (net.managers id).Traced S.config S.network (S.Genuine net.signed))
    (hadmits : S.Admits net step) : S.HonestProposals (S.exec net step).signed := by
  have hsub : net.signed ⊆ (S.exec net step).signed := signed_subset_exec
  -- a proposal that was signed before, or in this step
  have hold : ∀ member ∈ S.honest, ∀ round payload,
      (member.pubKey, S.context round .roundProposal, payload) ∈ net.signed →
      ∃ proposal, payload = P.encodeRoundProposalPayload proposal ∧
        S.SignedInputs (S.exec net step).signed round proposal := by
    intro member hmem round payload hsigned
    obtain ⟨proposal, hpayload, hinputs⟩ := hkeeps member hmem round payload hsigned
    exact ⟨proposal, hpayload, hinputs.mono hsub⟩
  intro member hmem round payload hsigned
  cases step with
  | honest signer managerStep =>
    rcases mem_append.mp hsigned with hsigned | hsigned
    · exact hold member hmem round payload hsigned
    · obtain ⟨message, hmessage, heq⟩ := mem_map.mp hsigned
      simp only [Prod.mk.injEq] at heq
      obtain ⟨_, hctx, rfl⟩ := heq
      obtain ⟨round', _, hproposed⟩ :=
        Manager.propose_of_signed hmessage (by rw [hctx]; rfl)
      rcases (htraced signer.peerId).session.proposeRound with hnone | ⟨proposal, hinputs, _, hmade⟩
      · rw [hnone] at hproposed
        cases hproposed
      · rw [hmade] at hproposed
        obtain rfl := mem_singleton.mp hproposed
        rw [signingContext_of_config (htraced signer.peerId).config] at hctx
        obtain rfl : round' = round := by simpa [context] using hctx
        exact ⟨proposal, rfl, (signedInputs_of_inputsFrom hinputs).mono hsub⟩
  | faulty key ctx payload' =>
    rcases mem_append.mp hsigned with hsigned | hsigned
    · exact hold member hmem round payload hsigned
    · have heq := mem_singleton.mp hsigned
      simp only [Prod.mk.injEq] at heq
      exact absurd heq.1 (hadmits member hmem)

/-! ## Runs -/

lemma known_init : S.Known ⟨fun _ => Manager.start S.config, []⟩ where
  traced := traced_init
  single := nofun
  proposals := nofun

lemma Known.exec (hlawful : P.Lawful) (h : S.Known net) (hadmits : S.Admits net step)
    (hsincere : S.Sincere net step) : S.Known (S.exec net step) where
  traced := by
    refine traced_exec (Genuine.mono signed_subset_exec) h.traced ?_
    rintro member event rfl
    exact hadmits.2
  single := by
    refine h.single.exec hlawful (fun id => (h.traced id).config) ?_
    intro key ctx hash hvoted hreliable payload ack hsigned hdecoded
    obtain ⟨honest, hhonest, hkey⟩ := reliable_iff.mp hreliable
    cases step with
    | honest member managerStep =>
      simp only [voted, Option.map_eq_some_iff] at hvoted
      obtain ⟨⟨round, proposal⟩, hconfirming, heq⟩ := hvoted
      simp only [Prod.mk.injEq] at heq
      obtain ⟨rfl, rfl, rfl⟩ := heq
      exact hsincere.votes member managerStep round proposal rfl hconfirming payload ack hsigned
        hdecoded
    | faulty key' ctx' payload' =>
      -- the key of an honest member is with no one else
      simp only [voted] at hvoted
      split at hvoted
      next =>
        simp only [Option.map_eq_some_iff, Prod.mk.injEq] at hvoted
        obtain ⟨_, _, rfl, _⟩ := hvoted
        exact absurd hkey (hadmits honest hhonest)
      next => cases hvoted
  proposals := h.proposals.exec h.traced hadmits

lemma known_of_reachable (hlawful : P.Lawful)
    (h : ((networkMachine S).restrict S.Sincere).Reachable net) : S.Known net := by
  refine Machine.Reachable.invariant (P := S.Known) ?_ ?_ h
  · rintro net rfl
    exact known_init
  · rintro net step net' hknown ⟨hsincere, hadmits, rfl⟩
    exact hknown.exec hlawful hadmits hsincere

lemma Known.signedInputs (h : S.Known net) (hkeeps : P.KeepsInputs) {managerStep : ManagerStep P}
    (hsincere : S.Sincere net (.honest member managerStep))
    (hconfirming : net.Confirming member managerStep round proposal) :
    S.SignedInputs net.signed round proposal := by
  obtain ⟨task, hresumed, hconfirmed⟩ := Option.bind_eq_some_iff.mp hconfirming
  have htask : task.From S.config S.network (S.Genuine net.signed) := by
    cases managerStep with
    | resume i => exact (h.traced member.peerId).tasks _ (mem_of_getElem? hresumed)
    | _ => cases hresumed
  cases task with
  | validating event checks | verifying event finPayload expectedAck i | advancing round' =>
    cases hconfirmed
  | dispatching event =>
    have hattributed := attributed_of_verified htask
    obtain ⟨signer, hsigner, hid, hsigned⟩ := hattributed.signed
    -- the proposal of the event
    simp only [Task.confirmed] at hconfirmed
    split at hconfirmed
    next r proposal' hr hdecoded =>
      split at hconfirmed
      next hproposes =>
        simp only [Option.some.injEq, Prod.mk.injEq] at hconfirmed
        obtain ⟨rfl, rfl⟩ := hconfirmed
        by_cases hfaulty : event.signerPeerId ∈ S.faulty
        · exact hsincere.inputs member managerStep event _ rfl hconfirming hresumed hfaulty
        · rw [← hid, mem_faulty_iff hsigner, not_not] at hfaulty
          rw [hattributed.session, hproposes.1] at hsigned
          obtain ⟨proposal, hpayload, hinputs⟩ :=
            h.proposals signer hfaulty event.round event.payload hsigned
          obtain ⟨decoded, hdecoded', hmembers, hincluded⟩ := hkeeps proposal
          rw [hpayload, hdecoded', Option.some.injEq] at hdecoded
          subst hdecoded
          unfold SignedInputs at hinputs ⊢
          rw [hmembers, hincluded]
          exact hinputs
      next => cases hconfirmed
    next => cases hconfirmed
  | proposing round' proposal' =>
    simp only [Task.confirmed] at hconfirmed
    split at hconfirmed
    next =>
      simp only [Option.some.injEq, Prod.mk.injEq] at hconfirmed
      obtain ⟨rfl, rfl⟩ := hconfirmed
      exact signedInputs_of_inputsFrom htask
    next => cases hconfirmed

end Session

/-! ## Runs of two members -/

def Session.SincereTest (S : Session P) (net : Network P) : NetworkStep P → Prop
  | .honest member managerStep =>
    ∀ f ∈ ((net.managers member.peerId).resumed managerStep).bind
      (Task.confirmed (net.managers member.peerId).session),
      (∀ entry ∈ net.signed, entry.1 = member.pubKey → entry.2.1 = S.ackContext f.1 →
        ∀ ack ∈ P.decodeRoundAckPayload entry.2.2, ack.nextStateHash = f.2.nextStateHash) ∧
      f.2.prevStateHash = (net.managers member.peerId).session.latestStateHash ∧
      (net.managers member.peerId).session.latestStateHash =
        P.computeStateHash (net.managers member.peerId).session.latestStateBytes
  | .faulty _ _ _ => True

instance Session.decidableSincereTest (S : Session P) (net : Network P) (step : NetworkStep P) :
    Decidable (S.SincereTest net step) :=
  match step with
  | .honest _ _ => inferInstanceAs (Decidable (∀ f ∈ _, _ ∧ _ ∧ _))
  | .faulty _ _ _ => inferInstanceAs (Decidable True)

lemma Session.sincere_of_test (hnone : S.faulty = []) (h : S.SincereTest net step) :
    S.Sincere net step where
  votes := by
    rintro member managerStep round proposal rfl hconfirming payload ack hsigned hdecoded
    exact (h (round, proposal) hconfirming).1 (member.pubKey, S.ackContext round, payload) hsigned
      rfl rfl ack hdecoded
  linked := by
    rintro member managerStep round proposal rfl hconfirming
    exact (h (round, proposal) hconfirming).2
  inputs := by
    intro _ _ _ _ _ _ _ hfaulty
    rw [hnone] at hfaulty
    cases hfaulty

lemma transparent_keepsInputs : transparent.KeepsInputs := by
  intro proposal
  refine ⟨proposal, ?_, rfl, rfl⟩
  simp only [take_left, drop_left]
  simp [Function.comp_def]

/-- Two honest members, of which the second one proposes in round 1, and the first one after a view
change. -/
def duo : Session transparent where
  config := { trio.config with createdBy := [1], membership := [⟨[2], [2]⟩, ⟨[1], [1]⟩] }
  network := [9]
  honest := [⟨[2], [2]⟩, ⟨[1], [1]⟩]
  subset := by decide
  distinct := by decide

def duoStart : Network transparent := ⟨fun _ => Manager.start duo.config, []⟩

/-- The session is set up, and the proposer starts round 1. -/
def duoSetup : List (NetworkStep transparent) :=
  let accepted := signedEvent .sessionAccepted 0 [] [2] [2] [1] [[7], []]
  let activated := signedEvent .sessionActivated 0 [] [1] [1] [2] [[]]
  [.honest ⟨[2], [2]⟩ .acceptSession] ++
  delivered ⟨[1], [1]⟩ accepted ++ delivered ⟨[2], [2]⟩ accepted ++
  [.honest ⟨[1], [1]⟩ .activateSession] ++
  delivered ⟨[1], [1]⟩ activated ++ delivered ⟨[2], [2]⟩ activated ++
  [.honest ⟨[1], [1]⟩ (.startTimer 0)]

/-- A member starts the round, and the other one submits an input. -/
def inputSubmitted (proposer member : SessionMember) (nonce : List ℕ) :
    List (NetworkStep transparent) :=
  delivered member (signedEvent .roundStart 1 [] proposer.peerId proposer.pubKey nonce
    (transparent.encodeRoundStartPayload 1 [] 1000)) ++
  [.honest member (.submitInput [5] none)] ++
  delivered proposer (signedEvent .inputSubmitted 1 [] member.peerId member.pubKey nonce
    (transparent.encodeInputPayload ⟨1, [5]⟩))

/-- The proposal with the input of a member. -/
def duoProposal (id : Text) : RoundProposalPayload (List ℕ) := ⟨1, [], [1, 5], [5], [id], [[5]]⟩

/-- A member proposes the input of the other one, which gets the proposal up to its last step. -/
def proposed (proposer member : SessionMember) : List (NetworkStep transparent) :=
  [.honest proposer (.proposeTimer 1), .honest proposer (.resume 0)] ++
  (.receive (signedEvent .roundProposal 1 [] proposer.peerId proposer.pubKey [4]
    (transparent.encodeRoundProposalPayload (duoProposal member.peerId))) ::
      List.replicate 10 (.resume 0)).map (.honest member)

/-- The proposer proposes the input of the other member. -/
def duoRun : List (NetworkStep transparent) :=
  duoSetup ++ inputSubmitted ⟨[1], [1]⟩ ⟨[2], [2]⟩ [3] ++ proposed ⟨[1], [1]⟩ ⟨[2], [2]⟩

/-- The proposer proposes and acks before it has an input. The other member gets the ack and not the
proposal, and proposes with an input after a view change. -/
def duoRunTwice : List (NetworkStep transparent) :=
  let ack (proposal : RoundProposalPayload (List ℕ)) (nonce : List ℕ) :=
    signedEvent .roundAck 1 [] [1] [1] nonce (transparent.encodeRoundAckPayload
      ⟨1, proposal.prevStateHash, proposal.inputSetHash, proposal.nextStateHash, [1]⟩)
  duoSetup ++
  [.honest ⟨[1], [1]⟩ (.proposeTimer 1), .honest ⟨[1], [1]⟩ (.resume 0)] ++
  delivered ⟨[2], [2]⟩ (ack juryProposal [6]) ++
  [.honest ⟨[1], [1]⟩ (.roundTimer 0 1), .honest ⟨[2], [2]⟩ (.roundTimer 0 1)] ++
  inputSubmitted ⟨[2], [2]⟩ ⟨[1], [1]⟩ [3] ++ proposed ⟨[2], [2]⟩ ⟨[1], [1]⟩ ++
  [.honest ⟨[1], [1]⟩ (.resume 0)] ++
  delivered ⟨[2], [2]⟩ (ack (duoProposal [1]) [7])

/-- **Honest acks.** In every run whose steps are sincere, no honest member is excluded by another
one, and every ack that an honest member signs binds the state that the member has applied the
inputs to, the state after them, and inputs that were signed by the members that are listed with
them. -/
theorem honest_acks (hlawful : P.Lawful) (hkeeps : P.KeepsInputs) (S : Session P) :
    ∀ net, ((networkMachine S).restrict S.Sincere).Reachable net →
    (∀ a ∈ S.honest, ∀ b ∈ S.honest,
      b.peerId ∉ (net.managers a.peerId).session.equivocators) ∧
    ∀ a ∈ S.honest, ∀ step, S.Sincere net (.honest a step) →
      ∀ message ∈ ((net.managers a.peerId).stepEffect (S.localOf a) step).signed,
        message.1.type = .roundAck →
        ∃ round ack proposal, message = (S.ackContext round, P.encodeRoundAckPayload ack) ∧
          S.Binds net.signed (net.managers a.peerId).session round ack proposal := by
  intro net hreachable
  have hknown := Session.known_of_reachable hlawful hreachable
  refine ⟨fun a _ b hb => hknown.not_mem_equivocators hb a.peerId, ?_⟩
  intro a _ step hsincere message hmem htype
  obtain ⟨round, proposal, hconfirmed, rfl⟩ := Manager.signed_stepEffect hmem htype
  obtain ⟨hprev, hhash⟩ := hsincere.linked a step round proposal rfl hconfirmed
  have hconfirms : (net.managers a.peerId).session.Confirms proposal := by
    obtain ⟨task, _, htask⟩ := Option.bind_eq_some_iff.mp hconfirmed
    exact Task.confirms_of_confirmed htask
  refine ⟨round, (net.managers a.peerId).session.ackFor round proposal, proposal, ?_, ?_⟩
  · rw [Session.signingContext_of_config (hknown.traced a.peerId).config]
    rfl
  · exact ⟨hprev.trans hhash, hconfirms.1.symm, hconfirms.2.symm,
      hknown.signedInputs hkeeps hsincere hconfirmed⟩

/-- The member that is not the proposer acks its own input. -/
theorem honest_acks_round_one :
    ∃ net, ((networkMachine duo).restrict duo.Sincere).Reachable net ∧
      [1] ∉ (net.managers [2]).session.equivocators ∧
      ∃ round ack proposal,
        ((net.managers [2]).stepEffect (duo.localOf ⟨[2], [2]⟩) (.resume 0)).signed =
          [(duo.ackContext round, transparent.encodeRoundAckPayload ack)] ∧
        duo.Binds net.signed (net.managers [2]).session round ack proposal := by
  have hr : ((networkMachine duo).restrict duo.Sincere).Reachable
      (duoRun.foldl duo.exec duoStart) := by
    refine Machine.Reachable.foldl (C := fun net step => duo.AdmitsTest net step ∧
      duo.SincereTest net step) ?_ (.init rfl) (by decide +kernel)
    exact fun _ _ h => ⟨Session.sincere_of_test (by decide) h.2, Session.admits_of_test h.1, rfl⟩
  obtain ⟨net, hnet, hsincere, hsigned⟩ : ∃ net,
      ((networkMachine duo).restrict duo.Sincere).Reachable net ∧
      duo.Sincere net (.honest ⟨[2], [2]⟩ (.resume 0)) ∧
      ((net.managers [2]).stepEffect (duo.localOf ⟨[2], [2]⟩) (.resume 0)).signed =
        [(duo.ackContext 1, transparent.encodeRoundAckPayload ⟨1, [], [1, 5], [5], [1]⟩)] :=
    ⟨_, hr, Session.sincere_of_test (by decide) (by decide +kernel), by decide +kernel⟩
  obtain ⟨hnone, hacks⟩ := honest_acks transparent_lawful transparent_keepsInputs duo net hnet
  obtain ⟨round, ack, proposal, hmessage, hbinds⟩ := hacks ⟨[2], [2]⟩ (by decide) (.resume 0)
    hsincere _ (by rw [hsigned]; exact mem_singleton_self _) rfl
  exact ⟨net, hnet, hnone ⟨[2], [2]⟩ (by decide) ⟨[1], [1]⟩ (by decide), round, ack, proposal,
    by rw [hsigned, hmessage], hbinds⟩

/-- Both members are honest. The first proposer is excluded, since it has acked its own proposal
and, after the view change, the one of the other member. -/
theorem honest_member_excluded :
    transparent.Lawful ∧ transparent.KeepsInputs ∧ duo.faulty = [] ∧
    ∃ net, (networkMachine duo).Reachable net ∧
      (net.managers [2]).session.equivocators = [[1]] := by
  have hr : (networkMachine duo).Reachable (duoRunTwice.foldl duo.exec duoStart) := by
    refine Machine.Reachable.foldl (C := duo.AdmitsTest) ?_ (.init rfl) (by decide +kernel)
    exact fun _ _ h => ⟨Session.admits_of_test h, rfl⟩
  exact ⟨transparent_lawful, transparent_keepsInputs, by decide, _, hr, by decide +kernel⟩

end Dkg.Aka
