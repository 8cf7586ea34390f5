import Dkg.AttestedAssets.Agreement
import Dkg.AttestedAssets.Provenance

/-! # Certificates of finality

The proposer that finalizes a round on acks publishes their signatures, and every other member
builds the ack of its stored proposal and verifies the signatures against it. The proposer compares
an ack with its proposal in three of five fields, and only if the proposal is there already. So its
certificate is accepted by the others where the acks that it counts are the proposal's in every
field (`Manager.Exact`), and nothing makes them so.
-/

namespace Dkg

open Lib List

namespace Aka

open SessionState

variable {P : Primitives} {S : Session P} {me : Local} {s : SessionState P} {m : Manager P}
  {event : AKAEvent P} {round : ℕ} {r : RoundState P} {proposal : RoundProposalPayload P.Hash}
  {net : Network P}

/-! ## The certificate that is published -/

/-- The certificate for a round, made of its acks. -/
def RoundState.certificate (r : RoundState P) (round : ℕ)
    (proposal : RoundProposalPayload P.Hash) : RoundFinalizedPayload P.Hash P.Sig where
  round := round
  nextStateHash := proposal.nextStateHash
  signerPeerIds := r.acks.keys
  signatures := r.acks.keys.map fun id => (r.ackSignatures.get id).getD P.emptySignature

variable {message : SigningContext × P.Payload}

lemma SessionState.checkQuorumAndFinalize_signed (hr : s.roundStates round = some r)
    (h : message ∈ (s.checkQuorumAndFinalize me round).signed) :
    ∃ proposal, r.proposal = some proposal ∧ s.Completes me r ∧
      (s.checkQuorumAndFinalize me round).finalized = some (round, proposal) ∧
      message = (s.signingContext me round .roundFinalized,
        P.encodeRoundFinalizedPayload (r.certificate round proposal)) := by
  unfold checkQuorumAndFinalize at h
  rw [hr] at h
  simp only at h
  split at h
  next => cases h
  next proposal hproposal =>
    split at h
    next => cases h
    next hopen =>
      split at h
      next => cases h
      next hproposer =>
        split at h
        next hquorum =>
          have hcompletes : s.Completes me r := ⟨hopen, not_not.mp hproposer, hquorum⟩
          exact ⟨proposal, hproposal, hcompletes,
            (checkQuorumAndFinalize_of_completes hr hproposal hcompletes).finalized,
            mem_singleton.mp h⟩
        next => cases h

/-- The handling of the ack completes the quorum of a round with the proposal. -/
structure SessionState.CompletedBy (me : Local) (s : SessionState P) (event : AKAEvent P)
    (r : RoundState P) (ack : RoundAckPayload P.Hash) (proposal : RoundProposalPayload P.Hash) :
    Prop where
  type : event.type = .roundAck
  records : s.Records event r ack
  stored : r.proposal = some proposal
  completes : s.Completes me (withAck event r ack)

lemma SessionState.handleRoundAck_signed (htype : event.type = .roundAck)
    (h : message ∈ (s.handleRoundAck me event).signed) :
    ∃ r ack proposal, s.CompletedBy me event r ack proposal ∧
      (s.handleRoundAck me event).finalized = some (event.round, proposal) ∧
      message = (s.signingContext me event.round .roundFinalized,
        P.encodeRoundFinalizedPayload
            ((withAck event r ack).certificate event.round proposal)) := by
  rcases handleRoundAck_cases me s event with
    heq | ⟨r, ack, existing, _, _, _, _, heq⟩ | ⟨r, ack, hrecords⟩
  · rw [heq] at h
    cases h
  · rw [heq] at h
    cases h
  · rw [handleRoundAck_of_records hrecords] at h ⊢
    obtain ⟨proposal, hproposal, hcompletes, hfinalized, hmessage⟩ :=
      checkQuorumAndFinalize_signed (roundStates_setRound event.round (withAck event r ack)) h
    exact ⟨r, ack, proposal, ⟨htype, hrecords, hproposal, completes_setRound_iff.mp hcompletes⟩,
      hfinalized, hmessage⟩

/-- Only the handling of an ack publishes a certificate. -/
lemma SessionState.dispatch_signed (h : message ∈ (s.dispatch me event).signed)
    (htype : message.1.type = .roundFinalized) :
    event.type = .roundAck ∧ s.dispatch me event = s.handleRoundAck me event := by
  unfold dispatch at h ⊢
  split at h
  next => cases h
  next => cases h
  next => cases h
  next => cases h
  next =>
    have honly := signsOnly_handleRoundProposal event message h
    simp [htype] at honly
  next hack => exact ⟨hack, rfl⟩
  next =>
    rw [handleRoundFinalized_signed] at h
    cases h
  next => cases h
  next => cases h
  next => cases h
  next => cases h

/-- A certificate is published by the step that handles the ack that completes the quorum. -/
lemma Manager.signed_certificate {step : ManagerStep P}
    (hmem : message ∈ (m.stepEffect me step).signed) (htype : message.1.type = .roundFinalized) :
    ∃ event r ack proposal, m.resumed step = some (.dispatching event) ∧
      m.session.CompletedBy me event r ack proposal ∧
      (m.stepEffect me step).finalized = some (event.round, proposal) ∧
      message = (m.session.signingContext me event.round .roundFinalized,
        P.encodeRoundFinalizedPayload
            ((withAck event r ack).certificate event.round proposal)) := by
  obtain ⟨task, hresumed, hmem⟩ := resumed_of_signed hmem (.inr htype)
  rw [stepEffect_of_resumed hresumed]
  cases task with
  | validating event checks => cases hmem
  | dispatching event =>
    simp only [taskEffect] at hmem ⊢
    obtain ⟨hack, heq⟩ := dispatch_signed hmem htype
    rw [heq] at hmem ⊢
    obtain ⟨r, ack, proposal, hcompleted, hfinalized, hmessage⟩ := handleRoundAck_signed hack hmem
    exact ⟨event, r, ack, proposal, hresumed, hcompleted, hfinalized, hmessage⟩
  | verifying event finPayload expectedAck i => simp [taskEffect, verifyNext_signed] at hmem
  | proposing round proposal =>
    have honly := (acks_validateAndAck me m.session round proposal).signsOnly message hmem
    simp [htype] at honly
  | advancing round => cases hmem

/-! ## Certificates that are accepted -/

/-- What a certificate needs of the encodings and the signatures: it is decoded as it was encoded,
and a signature has the length that the receivers ask for. -/
structure Primitives.Certifying (P : Primitives) : Prop where
  decode_encode : ∀ f : RoundFinalizedPayload P.Hash P.Sig,
    f.signatures.length = f.signerPeerIds.length →
    ∃ f' : RoundFinalizedPayload P.Hash P.Sig,
      P.decodeRoundFinalizedPayload (P.encodeRoundFinalizedPayload f) = some f' ∧
      f'.nextStateHash = f.nextStateHash ∧ f'.signerPeerIds = f.signerPeerIds ∧
      f'.signatures = f.signatures
  signature_long : ∀ ctx payload sig key, P.verifyAKASignature ctx payload sig key = true →
    64 ≤ P.signatureLength sig

/-- An ack that is sent in the encoding of its fields. -/
def AKAEvent.Canonical (event : AKAEvent P) : Prop :=
  event.type = .roundAck → ∀ ack, P.decodeRoundAckPayload event.payload = some ack →
    event.payload = P.encodeRoundAckPayload ack

/-- Acks are received in the encoding of their fields. Where one completes a quorum, all the acks
of the round are, in every field, the acks of the proposal. -/
structure Manager.Exact (me : Local) (m : Manager P) (step : ManagerStep P) : Prop where
  encoded : ∀ event, step = .receive event → event.Canonical
  counted : ∀ event r ack proposal, m.resumed step = some (.dispatching event) →
    m.session.CompletedBy me event r ack proposal →
    ∀ entry ∈ (withAck event r ack).acks.entries, entry.2 = m.session.ackFor event.round proposal

/-- The event passes every check of `handleRoundFinalized`, the signatures included. -/
def SessionState.Accepts (me : Local) (s : SessionState P) (event : AKAEvent P) : Prop :=
  ∃ proposal finPayload, s.proposalOf event.round = some proposal ∧
    s.Certifies event finPayload ∧ ∀ i < finPayload.signerPeerIds.length,
      s.Verifies me event finPayload
        (P.encodeRoundAckPayload (s.expectedAck event proposal finPayload)) i

namespace Session

variable (S : Session P)

def Exact (net : Network P) : NetworkStep P → Prop
  | .honest member step => (net.managers member.peerId).Exact (S.localOf member) step
  | .faulty _ _ _ => True

/-- The signers of the certificate are different members, enough for the quorum of the session, and
each signature is that of its signer for the ack of the proposal. -/
structure Certified (s : SessionState P) (round : ℕ) (proposal : RoundProposalPayload P.Hash)
    (finPayload : RoundFinalizedPayload P.Hash P.Sig) : Prop where
  distinct : finPayload.signerPeerIds.Nodup
  quorum : isQuorumMet S.config.quorumPolicy s.activeMemberCount finPayload.signerPeerIds.length
  signed : List.Forall₂ (fun id sig => ∃ member ∈ S.config.membership, member.peerId = id ∧
    P.verifyAKASignature (S.ackContext round) (P.encodeRoundAckPayload (s.ackFor round proposal))
      sig member.pubKey = true) finPayload.signerPeerIds finPayload.signatures

variable {S} {R R' : AKAEvent P → Prop}

/-! ## Managers of the session -/

lemma traced_init (id : Text) :
    (((⟨fun _ => Manager.start S.config, []⟩ : Network P)).managers id).Traced S.config S.network
      R :=
  Manager.traced_start S.config

lemma traced_exec {step : NetworkStep P} (hR : ∀ event, R event → R' event)
    (h : ∀ id, (net.managers id).Traced S.config S.network R)
    (hreceive : ∀ member event, step = .honest member (.receive event) → R event) (id : Text) :
    ((S.exec net step).managers id).Traced S.config S.network R' := by
  cases step with
  | honest member managerStep =>
    by_cases hid : id = member.peerId
    · subst hid
      simp only [Session.exec, Function.update_self]
      have hbefore : (net.managers member.peerId).Traced S.config (S.localOf member).network R :=
        h member.peerId
      refine hbefore.exec ?_ |>.mono hR
      rintro event rfl
      exact hreceive member event rfl
    · simp only [Session.exec, Function.update_of_ne hid]
      exact (h id).mono hR
  | faulty key ctx payload => exact (h id).mono hR

/-- In every run, what a member has recorded comes from events that it has verified. -/
lemma traced_of_reachable (h : (networkMachine S).Reachable net) (id : Text) :
    (net.managers id).Traced S.config S.network fun _ => True := by
  have hall : ∀ id, (net.managers id).Traced S.config S.network fun _ => True := by
    refine Machine.Reachable.invariant (P := fun net => ∀ id,
      (net.managers id).Traced S.config S.network fun _ => True) ?_ ?_ h
    · rintro net rfl
      exact traced_init
    · rintro net step net' htraced ⟨_, rfl⟩
      exact traced_exec (fun _ _ => trivial) htraced fun _ _ _ => trivial
  exact hall id

lemma canonical_of_reachable (h : ((networkMachine S).restrict S.Exact).Reachable net)
    (id : Text) : (net.managers id).Traced S.config S.network AKAEvent.Canonical := by
  have hall : ∀ id, (net.managers id).Traced S.config S.network AKAEvent.Canonical := by
    refine Machine.Reachable.invariant (P := fun net => ∀ id,
      (net.managers id).Traced S.config S.network AKAEvent.Canonical) ?_ ?_ h
    · rintro net rfl
      exact traced_init
    · rintro net step net' htraced ⟨hexact, _, rfl⟩
      refine traced_exec (fun _ h => h) htraced ?_
      rintro member event rfl
      exact hexact.encoded event rfl
  exact hall id

end Session

namespace Manager.Traced

variable {R R' : AKAEvent P → Prop}

lemma membership (h : m.Traced S.config S.network R) :
    m.session.config.membership = S.config.membership := by
  obtain ⟨status, hconfig⟩ := h.config
  rw [hconfig]

variable {m' : Manager P} {member : SessionMember}

lemma ackFor_eq (h : m.Traced S.config S.network R) (h' : m'.Traced S.config S.network R') :
    m'.session.ackFor round proposal = m.session.ackFor round proposal := by
  obtain ⟨status, hconfig⟩ := h.config
  obtain ⟨status', hconfig'⟩ := h'.config
  simp only [ackFor, hconfig, hconfig']

lemma activeMemberCount_eq (h : m.Traced S.config S.network R)
    (h' : m'.Traced S.config S.network R')
    (hsame : ∀ id, id ∈ m'.session.equivocators ↔ id ∈ m.session.equivocators) :
    m'.session.activeMemberCount = m.session.activeMemberCount := by
  have hperm : m'.session.equivocators.Perm m.session.equivocators :=
    (perm_ext_iff_of_nodup h'.session.distinct h.session.distinct).mpr hsame
  simp only [activeMemberCount, h.membership, h'.membership, h.inactive, h'.inactive,
    hperm.length_eq]

lemma memberByPeerId_eq (h : m.Traced S.config S.network R) (hmem : member ∈ S.config.membership) :
    m.session.memberByPeerId member.peerId = some member := by
  have hfound : (m.session.memberByPeerId member.peerId).isSome := by
    rw [memberByPeerId, h.membership, find?_isSome]
    exact ⟨member, mem_reverse.mpr hmem, by simp⟩
  obtain ⟨x, hx⟩ := Option.isSome_iff_exists.mp hfound
  have hxmem := mem_of_find?_eq_some hx
  rw [mem_reverse, h.membership] at hxmem
  have hxid : x.peerId = member.peerId := by simpa using find?_some hx
  rw [hx, Session.eq_of_peerId hxmem hmem hxid]

/-- The acks that complete a quorum, where they are those of the proposal. -/
lemma certified {ack : RoundAckPayload P.Hash} {step : ManagerStep P}
    (h : m.Traced S.config S.network AKAEvent.Canonical) (hexact : m.Exact me step)
    (hresumed : m.resumed step = some (.dispatching event))
    (hcompleted : m.session.CompletedBy me event r ack proposal) :
    S.Certified m.session event.round proposal
      ((withAck event r ack).certificate event.round proposal) where
  distinct := (withAck event r ack).acks.nodup
  quorum := by
    obtain ⟨status, hconfig⟩ := h.config
    have hquorum := hcompleted.completes.quorum
    rw [hconfig] at hquorum
    simpa [RoundState.certificate, KeyedList.keys, KeyedList.size] using hquorum
  signed := by
    have htask : (Task.dispatching event).From S.config S.network AKAEvent.Canonical := by
      cases step with
      | resume i => exact h.tasks _ (mem_of_getElem? hresumed)
      | _ => cases hresumed
    have hfrom := h.session.withAck htask hcompleted.type hcompleted.records
    simp only [RoundState.certificate, forall₂_map_right_iff, forall₂_same]
    intro id hid
    obtain ⟨entry, hentry, rfl⟩ := mem_map.mp hid
    -- the event that has brought the ack carries it in its encoding, and its signature is kept
    obtain ⟨event', ⟨hcanonical, hsession, member, hmember, hverify⟩, hcarries, hsignature⟩ :=
      hfrom.acks event.round _ (roundStates_setRound _ _) entry hentry
    have hack := hexact.counted event r ack proposal hresumed hcompleted entry hentry
    have hpayload := hcanonical hcarries.type entry.2 hcarries.decoded
    have hpeer : member.peerId = event'.signerPeerId := by simpa using find?_some hmember
    refine ⟨member, mem_of_find?_eq_some hmember, hpeer.trans hcarries.signer, ?_⟩
    rw [hsignature, Option.getD_some, ← hack, ← hpayload]
    rw [hsession, hcarries.type, hcarries.round] at hverify
    exact hverify

/-- A certificate that is signed for the proposal is accepted where the proposal is stored and the
same members are excluded. -/
lemma accepts {finPayload : RoundFinalizedPayload P.Hash P.Sig} (hcertifying : P.Certifying)
    (h : m.Traced S.config S.network R) (h' : m'.Traced S.config S.network R')
    (hcertified : S.Certified m.session round proposal finPayload)
    (hnext : finPayload.nextStateHash = proposal.nextStateHash) (hround : event.round = round)
    (hproposal : m'.session.proposalOf round = some proposal)
    (hsame : ∀ id, id ∈ m'.session.equivocators ↔ id ∈ m.session.equivocators)
    (hpayload : event.payload = P.encodeRoundFinalizedPayload finPayload) :
    m'.session.Accepts (S.localOf member) event := by
  subst hround
  have hlength := hcertified.signed.length_eq
  obtain ⟨decoded, hdecoded, hhash, hids, hsigs⟩ :=
      hcertifying.decode_encode finPayload hlength.symm
  refine ⟨proposal, decoded, hproposal, ?_, ?_⟩
  · obtain ⟨status, hconfig⟩ := h'.config
    refine ⟨by rw [hpayload, hdecoded], by rw [hids]; exact hcertified.distinct,
      by rw [hids, hsigs]; exact hlength.symm, ?_, ?_, ?_⟩
    · intro sig hsig
      rw [hsigs] at hsig
      obtain ⟨i, hi, rfl⟩ := getElem_of_mem hsig
      obtain ⟨member, _, _, hverify⟩ := hcertified.signed.get (hlength ▸ hi) hi
      exact hcertifying.signature_long _ _ _ _ hverify
    · have hquorum := hcertified.quorum
      rw [← h.activeMemberCount_eq h' hsame] at hquorum
      rw [hids, hconfig]
      exact hquorum
    · intro id hid
      rw [hids] at hid
      obtain ⟨i, hi, rfl⟩ := getElem_of_mem hid
      obtain ⟨member, hmem, hpeer, _⟩ := hcertified.signed.get hi (hlength ▸ hi)
      have hfound := h'.memberByPeerId_eq hmem
      rw [hpeer] at hfound
      exact Option.isSome_iff_exists.mpr ⟨member, hfound⟩
  · intro i hi
    rw [hids] at hi
    obtain ⟨member, hmem, hpeer, hverify⟩ := hcertified.signed.get hi (hlength ▸ hi)
    refine ⟨_, _, member, by rw [hids]; exact getElem?_eq_getElem hi,
      by rw [hsigs]; exact getElem?_eq_getElem (hlength ▸ hi), ?_, ?_⟩
    · have hfound := h'.memberByPeerId_eq hmem
      rw [hpeer] at hfound
      exact hfound
    · -- the ack that the receiver builds is that of the proposal
      have hexpected : m'.session.expectedAck event proposal decoded =
          m.session.ackFor event.round proposal := by
        rw [← h.ackFor_eq h', expectedAck, ackFor, hhash, hnext]
      rw [hexpected, Session.signingContext_of_config h'.config]
      exact hverify

end Manager.Traced

/-! ## Runs of three members -/

instance (me : Local) (s : SessionState P) (r : RoundState P) : Decidable (s.Completes me r) :=
  decidable_of_iff (r.status ≠ .finalized ∧ r.proposerPeerId = me.localPeerId ∧
      isQuorumMet s.config.quorumPolicy s.activeMemberCount r.acks.size)
    ⟨fun h => ⟨h.1, h.2.1, h.2.2⟩, fun h => ⟨h.unfinished, h.proposer, h.quorum⟩⟩

/-- A test for a suspended function that counts exact acks. -/
def Task.ExactTest (me : Local) (s : SessionState transparent) : Task transparent → Prop
  | .dispatching event => ∀ r ∈ s.roundStates event.round,
      ∀ ack ∈ transparent.decodeRoundAckPayload event.payload, ∀ proposal ∈ r.proposal,
        s.Completes me (withAck event r ack) → ∀ entry ∈ (withAck event r ack).acks.entries,
          entry.2 = s.ackFor event.round proposal
  | _ => True

instance Task.decidableExactTest (me : Local) (s : SessionState transparent)
    (task : Task transparent) : Decidable (task.ExactTest me s) := by
  unfold Task.ExactTest
  cases task <;> infer_instance

def Manager.ExactTest (me : Local) (m : Manager transparent) : ManagerStep transparent → Prop
  | .receive event => event.type = .roundAck →
      ∀ ack ∈ transparent.decodeRoundAckPayload event.payload,
        event.payload = transparent.encodeRoundAckPayload ack
  | .resume i => ∀ task ∈ m.tasks[i]?, task.ExactTest me m.session
  | _ => True

instance Manager.decidableExactTest (me : Local) (m : Manager transparent)
    (step : ManagerStep transparent) : Decidable (m.ExactTest me step) := by
  unfold Manager.ExactTest
  cases step <;> infer_instance

lemma Manager.exact_of_test {me : Local} {m : Manager transparent}
    {step : ManagerStep transparent} (h : m.ExactTest me step) : m.Exact me step where
  encoded := by
    rintro event rfl htype ack hack
    exact h htype ack hack
  counted := by
    intro event r ack proposal hresumed hcompleted
    cases step with
    | resume i =>
      exact h _ hresumed r hcompleted.records.stored ack hcompleted.records.decoded proposal
        hcompleted.stored hcompleted.completes
    | _ => cases hresumed

def Session.ExactTest (S : Session transparent) (net : Network transparent)
    (step : NetworkStep transparent) : Prop :=
  S.AdmitsTest net step ∧
    match step with
    | .honest member managerStep =>
      (net.managers member.peerId).ExactTest (S.localOf member) managerStep
    | .faulty _ _ _ => True

instance Session.decidableExactTest (S : Session transparent) (net : Network transparent)
    (step : NetworkStep transparent) : Decidable (S.ExactTest net step) :=
  match step with
  | .honest member managerStep =>
    inferInstanceAs (Decidable (_ ∧ Manager.ExactTest (S.localOf member) _ managerStep))
  | .faulty _ _ _ => inferInstanceAs (Decidable (_ ∧ True))

lemma Session.exact_of_test {S : Session transparent} {net : Network transparent}
    {step : NetworkStep transparent} (h : S.ExactTest net step) : S.Exact net step := by
  cases step with
  | honest member managerStep => exact Manager.exact_of_test h.2
  | faulty key ctx payload => trivial

instance Verifies.decidable (me : Local) (s : SessionState P) (event : AKAEvent P)
    (finPayload : RoundFinalizedPayload P.Hash P.Sig) (expectedAck : P.Payload) (i : ℕ) :
    Decidable (s.Verifies me event finPayload expectedAck i) :=
  decidable_of_iff (∃ signer ∈ finPayload.signerPeerIds[i]?,
      ∃ signature ∈ finPayload.signatures[i]?, ∃ member ∈ s.memberByPeerId signer,
        P.verifyAKASignature (s.signingContext me event.round .roundAck) expectedAck signature
          member.pubKey = true)
    ⟨fun ⟨signer, hsigner, signature, hsignature, member, hmember, hverify⟩ =>
      ⟨signer, signature, member, hsigner, hsignature, hmember, hverify⟩,
    fun ⟨signer, signature, member, hsigner, hsignature, hmember, hverify⟩ =>
      ⟨signer, hsigner, signature, hsignature, member, hmember, hverify⟩⟩

lemma takeSignatures_flatten (sigs : List (List (List ℕ))) :
    takeSignatures sigs.length (sigs.map fun sig => [sig.length] :: sig).flatten = sigs := by
  induction sigs with
  | nil => rfl
  | cons sig rest ih => simp [takeSignatures, ih]

lemma transparent_certifying : transparent.Certifying where
  decode_encode := by
    intro f hlength
    refine ⟨f, ?_, rfl, rfl, rfl⟩
    have hsigs := takeSignatures_flatten f.signatures
    rw [hlength] at hsigs
    simp only [take_left, drop_left, hsigs]
  signature_long := by
    intro ctx payload sig key hverify
    rw [of_decide_eq_true hverify]
    simp only [transparentSignature, length_cons]
    omega

/-- Three members with two thirds as the quorum. The second one proposes in round 1, and the third
one is faulty. -/
def jury : Session transparent where
  config := { trio.config with membership := [⟨[2], [2]⟩, ⟨[1], [1]⟩, ⟨[3], [3]⟩] }
  network := [9]
  honest := [⟨[2], [2]⟩, ⟨[1], [1]⟩]
  subset := by decide
  distinct := by decide

def juryProposal : RoundProposalPayload (List ℕ) := ⟨1, [], [], [], [], []⟩

/-- The proposal of round 1 has no inputs. The faulty member sends its ack before the proposal. -/
def juryRun (early : RoundAckPayload (List ℕ)) : List (NetworkStep transparent) :=
  let accepted : List (List ℕ) := [[7], []]
  let setup := [signedEvent .sessionAccepted 0 [] [1] [1] [1] accepted,
    signedEvent .sessionAccepted 0 [] [2] [2] [2] accepted,
    signedEvent .sessionActivated 0 [] [3] [3] [3] []]
  let earlyAck := transparent.encodeRoundAckPayload early
  let ack := transparent.encodeRoundAckPayload ⟨1, [], [], [], [1]⟩
  let proposal := transparent.encodeRoundProposalPayload juryProposal
  [.honest ⟨[1], [1]⟩ .acceptSession, .honest ⟨[2], [2]⟩ .acceptSession,
    .faulty [3] (trioContext 0 .sessionActivated) [],
    .faulty [3] (trioContext 1 .roundAck) earlyAck] ++
  setup.flatMap (delivered ⟨[1], [1]⟩) ++ setup.flatMap (delivered ⟨[2], [2]⟩) ++
  [.honest ⟨[1], [1]⟩ (.startTimer 0)] ++
  delivered ⟨[1], [1]⟩ (signedEvent .roundAck 1 [] [3] [3] [4] earlyAck) ++
  [.honest ⟨[1], [1]⟩ (.proposeTimer 1), .honest ⟨[1], [1]⟩ (.resume 0)] ++
  delivered ⟨[2], [2]⟩ (signedEvent .roundProposal 1 [] [1] [1] [5] proposal) ++
  (.receive (signedEvent .roundAck 1 [] [2] [2] [6] ack) :: List.replicate 9 (.resume 0)).map
    (.honest ⟨[1], [1]⟩)

def juryStart : Network transparent := ⟨fun _ => Manager.start jury.config, []⟩

/-- The certificate of round 1, with the ack of the faulty member and the one of the honest member
that is not the proposer. -/
def juryCertificate (early : RoundAckPayload (List ℕ)) :
    RoundFinalizedPayload (List ℕ) (List (List ℕ)) where
  round := 1
  nextStateHash := []
  signerPeerIds := [[3], [2]]
  signatures :=
    [transparentSignature (trioContext 1 .roundAck) (transparent.encodeRoundAckPayload early) [3],
      transparentSignature (trioContext 1 .roundAck)
        (transparent.encodeRoundAckPayload ⟨1, [], [], [], [1]⟩) [2]]

/-- What the proposer publishes when it finalizes round 1. -/
def juryMessage (early : RoundAckPayload (List ℕ)) : SigningContext × List (List ℕ) :=
  (trioContext 1 .roundFinalized, transparent.encodeRoundFinalizedPayload (juryCertificate early))

/-- **Certificates are valid.** In every run whose steps are exact, where an honest proposer
finalizes a round on acks and publishes a certificate, its signers are different members, enough for
the quorum, and have signed the ack of the proposal. Every honest member that stores the proposal
and excludes the same members accepts it, whatever else it has done. -/
theorem certificate_valid (hcertifying : P.Certifying) (S : Session P) :
    ∀ net, ((networkMachine S).restrict S.Exact).Reachable net →
    ∀ a ∈ S.honest, ∀ step, S.Exact net (.honest a step) →
    ∀ message ∈ ((net.managers a.peerId).stepEffect (S.localOf a) step).signed,
      message.1.type = .roundFinalized →
    ∃ round proposal finPayload,
      ((net.managers a.peerId).stepEffect (S.localOf a) step).finalized = some (round, proposal) ∧
      message.2 = P.encodeRoundFinalizedPayload finPayload ∧
      S.Certified (net.managers a.peerId).session round proposal finPayload ∧
      ∀ net', (networkMachine S).Reachable net' → ∀ b ∈ S.honest,
        (net'.managers b.peerId).session.proposalOf round = some proposal →
        (∀ id, id ∈ (net'.managers b.peerId).session.equivocators ↔
          id ∈ (net.managers a.peerId).session.equivocators) →
        ∀ event, event.round = round → event.payload = message.2 →
          (net'.managers b.peerId).session.Accepts (S.localOf b) event := by
  intro net hreachable a _ step hexact message hmem htype
  obtain ⟨event, r, ack, proposal, hresumed, hcompleted, hfinalized, rfl⟩ :=
    Manager.signed_certificate hmem htype
  have htraced := Session.canonical_of_reachable hreachable a.peerId
  have hcertified := htraced.certified hexact hresumed hcompleted
  refine ⟨event.round, proposal, _, hfinalized, rfl, hcertified, ?_⟩
  intro net' hreachable' b _ hproposal hsame event' hround hpayload
  exact htraced.accepts hcertifying (Session.traced_of_reachable hreachable' b.peerId) hcertified
    rfl hround hproposal hsame hpayload

/-- The faulty member guesses the ack of the proposal that comes after it. -/
theorem certificate_valid_round_one :
    ∃ net, ((networkMachine jury).restrict jury.Exact).Reachable net ∧
      ∃ finPayload, jury.Certified (net.managers [1]).session 1 juryProposal finPayload ∧
        (net.managers [2]).session.Accepts (jury.localOf ⟨[2], [2]⟩)
          (signedEvent .roundFinalized 1 [] [1] [1] [7]
            (transparent.encodeRoundFinalizedPayload finPayload)) := by
  have hr : ((networkMachine jury).restrict jury.Exact).Reachable
      ((juryRun ⟨1, [], [], [], [1]⟩).foldl jury.exec juryStart) := by
    refine Machine.Reachable.foldl (C := jury.ExactTest) ?_ (.init rfl) (by decide +kernel)
    exact fun _ _ h => ⟨Session.exact_of_test h, Session.admits_of_test h.1, rfl⟩
  obtain ⟨net, hnet, hexact, hsigned, hfinalized, hstored, hsame⟩ : ∃ net,
      ((networkMachine jury).restrict jury.Exact).Reachable net ∧
      jury.Exact net (.honest ⟨[1], [1]⟩ (.resume 0)) ∧
      ((net.managers [1]).stepEffect (jury.localOf ⟨[1], [1]⟩) (.resume 0)).signed =
        [juryMessage ⟨1, [], [], [], [1]⟩] ∧
      ((net.managers [1]).stepEffect (jury.localOf ⟨[1], [1]⟩) (.resume 0)).finalized =
        some (1, juryProposal) ∧
      (net.managers [2]).session.proposalOf 1 = some juryProposal ∧
      (net.managers [2]).session.equivocators = (net.managers [1]).session.equivocators :=
    ⟨_, hr, Session.exact_of_test (by decide +kernel), by decide +kernel, by decide +kernel,
      by decide +kernel, by decide +kernel⟩
  obtain ⟨round, proposal, finPayload, hfinalized', hpayload, hcertified, haccepts⟩ :=
    certificate_valid transparent_certifying jury net hnet ⟨[1], [1]⟩ (by decide) (.resume 0) hexact
      (juryMessage ⟨1, [], [], [], [1]⟩) (by rw [hsigned]; exact mem_singleton_self _) rfl
  rw [hfinalized] at hfinalized'
  simp only [Option.some.injEq, Prod.mk.injEq] at hfinalized'
  obtain ⟨rfl, rfl⟩ := hfinalized'
  exact ⟨net, hnet, finPayload, hcertified, haccepts net hnet.of_restrict ⟨[2], [2]⟩ (by decide)
    hstored (fun id => by rw [hsame]) _ rfl hpayload.symm⟩

/-- The faulty member sends an ack for another hash before the proposal. The proposer counts it,
finalizes the round and publishes a certificate that the other honest member, which stores the same
proposal and has the same state, does not accept. -/
theorem certificate_with_early_ack :
    ∃ net, (networkMachine jury).Reachable net ∧
      ((net.managers [1]).stepEffect (jury.localOf ⟨[1], [1]⟩) (.resume 0)).signed =
        [juryMessage ⟨1, [], [], [9], [1]⟩] ∧
      ((net.managers [1]).stepEffect (jury.localOf ⟨[1], [1]⟩) (.resume 0)).finalized =
        some (1, juryProposal) ∧
      (net.managers [2]).session.proposalOf 1 = some juryProposal ∧
      (net.managers [2]).session.latestStateBytes = (net.managers [1]).session.latestStateBytes ∧
      (net.managers [2]).session.latestStateHash = (net.managers [1]).session.latestStateHash ∧
      (net.managers [2]).session.equivocators = (net.managers [1]).session.equivocators ∧
      ¬ (net.managers [2]).session.Accepts (jury.localOf ⟨[2], [2]⟩)
        (signedEvent .roundFinalized 1 [] [1] [1] [7] (juryMessage ⟨1, [], [], [9], [1]⟩).2) := by
  have hr : (networkMachine jury).Reachable
      ((juryRun ⟨1, [], [], [9], [1]⟩).foldl jury.exec juryStart) := by
    refine Machine.Reachable.foldl (C := jury.AdmitsTest) ?_ (.init rfl) (by decide +kernel)
    exact fun _ _ h => ⟨Session.admits_of_test h, rfl⟩
  refine ⟨_, hr, by decide +kernel, by decide +kernel, by decide +kernel, by decide +kernel,
    by decide +kernel, by decide +kernel, ?_⟩
  rintro ⟨proposal, finPayload, hproposal, hcertifies, hverifies⟩
  have hdecoded : finPayload = juryCertificate ⟨1, [], [], [9], [1]⟩ := by
    have h := hcertifies.decoded
    have hcertificate : transparent.decodeRoundFinalizedPayload
        (juryMessage ⟨1, [], [], [9], [1]⟩).2 = some (juryCertificate ⟨1, [], [], [9], [1]⟩) := by
      decide +kernel
    exact Option.some.inj (h.symm.trans hcertificate)
  have hstored : proposal = juryProposal :=
      Option.some.inj (hproposal.symm.trans (by decide +kernel))
  subst hdecoded hstored
  -- the signature of the faulty member is for another ack
  exact absurd (hverifies 0 (by decide)) (by decide +kernel)

end Aka

end Dkg
