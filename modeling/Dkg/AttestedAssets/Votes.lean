import Dkg.AttestedAssets.Network

/-! # Votes are backed by signatures

`Session.Sound` is kept by every step of a manager: for each function, what it leaves behind is
sound where the session was (`Session.SoundEffect`).
-/

namespace Dkg.Aka

open Lib List SessionState

variable {P : Primitives} {S : Session P} {unreliable : List Text} {signed signed' : Signed P}
  {me : Local} {s s' : SessionState P} {m : Manager P} {e : Effect P} {event : AKAEvent P}
  {round : ℕ} {hash : P.Hash} {id : Text} {proposal : RoundProposalPayload P.Hash}

namespace Session

/-! ## More signatures -/

section

variable (hsub : signed ⊆ signed')

include hsub

lemma Authentic.mono {sig : P.Sig} (h : S.Authentic signed sig) : S.Authentic signed' sig :=
  fun member hmember ctx payload hverify => hsub (h member hmember ctx payload hverify)

lemma Acked.mono (h : S.Acked signed id round hash) : S.Acked signed' id round hash := by
  obtain ⟨member, hmember, hid, payload, ack, hsigned, hack⟩ := h
  exact ⟨member, hmember, hid, payload, ack, hsub hsigned, hack⟩

lemma Backed.mono (h : S.Backed unreliable signed round hash) :
    S.Backed unreliable signed' round hash := by
  obtain ⟨signers, henough, hacked⟩ := h
  exact ⟨signers, henough, fun id hid => (hacked id hid).mono hsub⟩

lemma Attributed.mono (h : S.Attributed signed event) : S.Attributed signed' event := by
  obtain ⟨member, hmember, hid, hsigned⟩ := h.signed
  exact ⟨h.session, member, hmember, hid, hsub hsigned⟩

lemma SoundTask.mono {task : Task P}
    (h : S.SoundTask unreliable signed task) : S.SoundTask unreliable signed' task := by
  cases task with
  | validating event checks =>
    obtain ⟨hauthentic, hsession, hchecked⟩ := h
    exact ⟨fun sig hsig => (hauthentic sig hsig).mono hsub, hsession,
      hchecked.imp_right (Attributed.mono hsub)⟩
  | dispatching event =>
    exact ⟨fun sig hsig => (h.1 sig hsig).mono hsub, h.2.mono hsub⟩
  | verifying event finPayload expectedAck i =>
    obtain ⟨hauthentic, hexpected, henough, hacked⟩ := h
    exact ⟨fun sig hsig => (hauthentic sig hsig).mono hsub, hexpected, henough,
      fun j hj id hid => (hacked j hj id hid).mono hsub⟩
  | proposing round proposal => trivial
  | advancing round => trivial

lemma SoundSession.mono (h : S.SoundSession unreliable signed s) :
    S.SoundSession unreliable signed' s where
  config := h.config
  inactive := h.inactive
  equivocators := h.equivocators
  acks := fun round r hr entry hentry => (h.acks round r hr entry hentry).mono hsub

lemma Sound.mono (h : S.Sound unreliable signed m) : S.Sound unreliable signed' m where
  session := h.session.mono hsub
  tasks := fun task htask => (h.tasks task htask).mono hsub
  log := fun f hf => (h.log f hf).mono hsub

/-! ## The setup of a sound session -/

end

lemma signingContext_of_config (h : ∃ status, s.config = { S.config with status := status })
    (member : SessionMember) (round : ℕ) (type : AKAEventType) :
    s.signingContext (S.localOf member) round type =
      ⟨S.network, S.config.contextGraphId, S.config.sessionId, round, type⟩ := by
  obtain ⟨status, hconfig⟩ := h
  simp [signingContext, hconfig, localOf]

namespace SoundSession

variable (h : S.SoundSession unreliable signed s)

include h

lemma membership : s.config.membership = S.config.membership := by
  obtain ⟨status, hconfig⟩ := h.config
  rw [hconfig]

lemma signingContext (member : SessionMember)
    (round : ℕ) : s.signingContext (S.localOf member) round .roundAck = S.ackContext round :=
  signingContext_of_config h.config member round .roundAck

lemma of_votes (hvotes : SameVotes s s') : S.SoundSession unreliable signed s' where
  config := by
    obtain ⟨status, hconfig⟩ := h.config
    obtain ⟨status', hconfig'⟩ := hvotes.config
    exact ⟨status', by rw [hconfig', hconfig]⟩
  inactive := hvotes.inactive.trans h.inactive
  equivocators := by
    rw [hvotes.equivocators]
    exact h.equivocators
  acks := by
    intro round r' hr' entry hentry
    obtain ⟨r, hr, hentry'⟩ := hvotes.acks round r' hr' entry hentry
    exact h.acks round r hr entry hentry'

end SoundSession

end Session

/-! ## Quorums -/

lemma quorumThreshold_mono {policy : QuorumPolicy} {a b threshold : ℕ} (hab : a ≤ b)
    (h : quorumThreshold policy b = some threshold) :
    ∃ threshold', quorumThreshold policy a = some threshold' ∧ threshold' ≤ threshold := by
  unfold quorumThreshold at h ⊢
  split at h
  next => cases h
  next hpos =>
    rw [if_neg hpos]
    refine ⟨_, rfl, ?_⟩
    simp only [Option.some.injEq] at h
    rw [← h]
    have hmul : a * policy.numerator ≤ b * policy.numerator := Nat.mul_le_mul_right _ hab
    exact max_le_max (Nat.div_le_div_right (by omega)) le_rfl

namespace Session

lemma SoundSession.enough (h : S.SoundSession unreliable signed s)
    (hmajority : S.Majority unreliable) {count : ℕ}
    (hquorum : isQuorumMet s.config.quorumPolicy s.activeMemberCount count) :
    S.config.membership.length + unreliable.length < 2 * count := by
  obtain ⟨status, hconfig⟩ := h.config
  obtain ⟨threshold, hthreshold, hcount⟩ := hquorum
  have hactive : S.config.membership.length - unreliable.length ≤ s.activeMemberCount := by
    have hfew := h.equivocators.length_le
    simp only [activeMemberCount, getActiveMemberCount, h.membership, h.inactive, length_nil]
    omega
  -- the threshold that was met is at least that of the smallest count there can be
  obtain ⟨threshold', hthreshold', hle⟩ := quorumThreshold_mono hactive hthreshold
  rw [hconfig] at hthreshold'
  have hmany := hmajority threshold' hthreshold'
  omega

/-! ## Effects -/

/-- What a function leaves behind is sound. -/
structure SoundEffect (S : Session P) (unreliable : List Text) (signed : Signed P)
    (e : Effect P) : Prop where
  session : S.SoundSession unreliable signed e.session
  tasks : ∀ task ∈ e.tasks, S.SoundTask unreliable signed task
  log : ∀ f ∈ e.finalized, S.Backed unreliable signed f.1 f.2.nextStateHash

lemma soundTask_of_idle {task : Task P} (h : task.Idle) : S.SoundTask unreliable signed task := by
  cases task with
  | validating event checks | dispatching event | verifying event finPayload expectedAck i =>
    exact h.elim
  | proposing round proposal => trivial
  | advancing round => trivial

namespace SoundSession

variable (h : S.SoundSession unreliable signed s)

include h

lemma only : S.SoundEffect unreliable signed (Effect.only s) := ⟨h, nofun, nofun⟩

lemma votes (hvotes : SameVotes s s') : S.SoundEffect unreliable signed (Effect.only s') :=
  ⟨h.of_votes hvotes, nofun, nofun⟩

lemma plain {types : List AKAEventType} (hplain : e.Plain types s) :
    S.SoundEffect unreliable signed e where
  session := h.of_votes hplain.session.votes
  tasks := fun task htask => soundTask_of_idle (hplain.tasks task htask)
  log := by
    intro f hf
    rw [hplain.finalized] at hf
    cases hf

lemma acksEffect (hacks : e.Acks me s round proposal) : S.SoundEffect unreliable signed e where
  session := h.of_votes hacks.session.votes
  tasks := by
    rw [hacks.tasks]
    nofun
  log := by
    intro f hf
    rw [hacks.finalized] at hf
    cases hf

lemma applies (happlies : e.Applies s round proposal)
    (hbacked : S.Backed unreliable signed round proposal.nextStateHash) :
    S.SoundEffect unreliable signed e where
  session := h.of_votes happlies.votes
  tasks := fun task htask => soundTask_of_idle (happlies.tasks task htask)
  log := by
    intro f hf
    rw [happlies.finalized] at hf
    cases hf
    exact hbacked

lemma finalizeRound (hbacked : ∀ proposal, s.proposalOf round = some proposal →
      S.Backed unreliable signed round proposal.nextStateHash) :
    S.SoundEffect unreliable signed (s.finalizeRound round) := by
  cases hp : s.proposalOf round with
  | none =>
    rw [finalizeRound_of_none hp]
    exact h.only
  | some proposal => exact h.applies (finalizeRound_of_proposal hp) (hbacked proposal hp)

end SoundSession

/-! ## Acks of one member -/

lemma eq_of_peerId {x y : SessionMember} (hx : x ∈ S.config.membership)
    (hy : y ∈ S.config.membership) (h : x.peerId = y.peerId) : x = y :=
  inj_on_of_nodup_map S.distinct hx hy h

/-- A member that is reliable has acked one state in a round. -/
lemma Acked.unique {hash' : P.Hash} (hsingle : S.Single unreliable signed)
    (h : S.Acked signed id round hash) (h' : S.Acked signed id round hash')
    (hid : id ∉ unreliable) : hash = hash' := by
  obtain ⟨member, hmember, rfl, payload, ack, hsigned, hdecoded, rfl⟩ := h
  obtain ⟨member', hmember', heq, payload', ack', hsigned', hdecoded', rfl⟩ := h'
  obtain rfl := eq_of_peerId hmember' hmember heq
  exact hsingle member'.pubKey (S.ackContext round) payload payload' ack ack'
    ⟨member', hmember', rfl, hid⟩ rfl hsigned hsigned' hdecoded hdecoded'

lemma Acked.mem (h : S.Acked signed id round hash) :
    id ∈ S.config.membership.map SessionMember.peerId := by
  obtain ⟨member, hmember, rfl, _⟩ := h
  exact mem_map_of_mem hmember

lemma Attributed.acked {ack : RoundAckPayload P.Hash} (h : S.Attributed signed event)
    (htype : event.type = .roundAck) (hdecoded : P.decodeRoundAckPayload event.payload = some ack) :
    S.Acked signed event.signerPeerId event.round ack.nextStateHash := by
  obtain ⟨member, hmember, hid, hsigned⟩ := h.signed
  rw [h.session, htype] at hsigned
  exact ⟨member, hmember, hid, event.payload, ack, hsigned, hdecoded, rfl⟩

namespace SoundSession

/-! ## Recorded votes -/

variable {r : RoundState P} {ack : RoundAckPayload P.Hash} {member : SessionMember}
  {finPayload : RoundFinalizedPayload P.Hash P.Sig} {expectedAck : P.Payload} {i : ℕ}

section

variable (h : S.SoundSession unreliable signed s)

include h

lemma withAck (hevent : S.Attributed signed event)
    (htype : event.type = .roundAck) (hrecords : s.Records event r ack) :
    S.SoundSession unreliable signed (s.setRound event.round (withAck event r ack)) where
  config := h.config
  inactive := h.inactive
  equivocators := h.equivocators
  acks := by
    intro round₁ r₁ hr₁ entry hentry
    by_cases hround : round₁ = event.round
    · subst hround
      rw [roundStates_setRound] at hr₁
      cases hr₁
      obtain ⟨id, ack'⟩ := entry
      rcases KeyedList.mem_set hentry with ⟨rfl, rfl⟩ | ⟨_, hold⟩
      · exact hevent.acked htype hrecords.decoded
      · exact h.acks event.round r hrecords.stored _ hold
    · rw [roundStates_setRound_of_ne hround] at hr₁
      exact h.acks round₁ r₁ hr₁ entry hentry

/-- Two different acks come from a member that is not reliable. -/
lemma equivocator_mem {existing : RoundAckPayload P.Hash}
    (hsingle : S.Single unreliable signed) (hevent : S.Attributed signed event)
    (htype : event.type = .roundAck) (hr : s.roundStates event.round = some r)
    (hdecoded : P.decodeRoundAckPayload event.payload = some ack)
    (hexisting : r.acks.get event.signerPeerId = some existing)
    (hequivocation : detectEquivocation existing ack) : event.signerPeerId ∈ unreliable := by
  -- a reliable member has acked one hash, and both acks are signed
  by_contra hreliable
  have hold := h.acks event.round r hr _ (KeyedList.mem_of_get hexisting)
  exact hequivocation (hold.unique hsingle (hevent.acked htype hdecoded) hreliable)

lemma withEquivocator
    (hr : s.roundStates event.round = some r) (hmem : event.signerPeerId ∈ unreliable) :
    S.SoundSession unreliable signed (s.withEquivocator event r) where
  config := h.config
  inactive := h.inactive
  equivocators := by
    simp only [SessionState.withEquivocator, addPeer]
    split
    next => exact h.equivocators
    next hnew =>
      refine ⟨?_, ?_⟩
      · rw [← concat_eq_append]
        exact h.equivocators.nodup.concat hnew
      · exact forall_mem_append.mpr ⟨h.equivocators.subset, forall_mem_singleton.mpr hmem⟩
  acks := by
    have hvotes : SameVotes s (s.setRound event.round { r with
        acks := r.acks.erase event.signerPeerId
        ackSignatures := r.ackSignatures.erase event.signerPeerId }) :=
      sameVotes_setRound fun _ hentry => ⟨r, hr, (KeyedList.mem_erase hentry).2⟩
    exact (h.of_votes hvotes).acks

/-- The recorded votes of a round, when they are a quorum for one hash. -/
lemma backed_of_completes (hmajority : S.Majority unreliable) (hr : s.roundStates round = some r)
    (hcompletes : s.Completes me r)
    (hcounted : ∀ entry ∈ r.acks.entries, entry.2.nextStateHash = hash) :
    S.Backed unreliable signed round hash := by
  have hacked : ∀ id ∈ r.acks.keys, S.Acked signed id round hash := by
    intro id hid
    obtain ⟨entry, hentry, rfl⟩ := mem_map.mp hid
    rw [← hcounted entry hentry]
    exact h.acks round r hr entry hentry
  refine ⟨r.acks.keys, ⟨⟨r.acks.nodup, fun id hid => (hacked id hid).mem⟩, ?_⟩, hacked⟩
  have hmany := h.enough hmajority hcompletes.quorum
  simpa [KeyedList.keys, KeyedList.size] using hmany

lemma handleRoundAck (hsingle : S.Single unreliable signed) (hmajority : S.Majority unreliable)
    (hevent : S.Attributed signed event) (htype : event.type = .roundAck)
    (hcounted : ∀ proposal r ack, s.proposalOf event.round = some proposal →
      s.Records event r ack → s.Completes me (SessionState.withAck event r ack) →
      ∀ entry ∈ (SessionState.withAck event r ack).acks.entries,
        entry.2.nextStateHash = proposal.nextStateHash) :
    S.SoundEffect unreliable signed (s.handleRoundAck me event) := by
  rcases handleRoundAck_cases me s event with
    heq | ⟨r, ack, existing, hr, hdecoded, hexisting, hequivocation, heq⟩ | ⟨r, ack, hrecords⟩
  · rw [heq]
    exact h.only
  · rw [heq]
    have hmem := h.equivocator_mem hsingle hevent htype hr hdecoded hexisting hequivocation
    exact (h.withEquivocator hr hmem).only
  · rw [handleRoundAck_of_records hrecords]
    have hsound := h.withAck hevent htype hrecords
    have hstored := s.roundStates_setRound event.round (SessionState.withAck event r ack)
    rcases checkQuorumAndFinalize_cases hstored with hplain | ⟨hcompletes, proposal, hproposal⟩
    · exact hsound.plain hplain
    · have hp := proposalOf_eq_some_iff.mpr ⟨r, hrecords.stored, hproposal⟩
      refine hsound.applies (checkQuorumAndFinalize_of_completes hstored hproposal hcompletes) ?_
      exact hsound.backed_of_completes hmajority hstored hcompletes
        (hcounted proposal r ack hp hrecords (completes_setRound_iff.mp hcompletes))

/-! ## Certificates -/

lemma mem_of_memberByPeerId (hmember : s.memberByPeerId id = some member) :
    member ∈ S.config.membership ∧ member.peerId = id := by
  unfold memberByPeerId at hmember
  rw [h.membership] at hmember
  have hmem := mem_of_find?_eq_some hmember
  have hid := find?_some hmember
  exact ⟨mem_reverse.mp hmem, by simpa using hid⟩

lemma enough_of_certifies
    (hmajority : S.Majority unreliable) (hcert : s.Certifies event finPayload) :
    S.Enough unreliable finPayload.signerPeerIds := by
  refine ⟨⟨hcert.nodup, fun id hid => ?_⟩, h.enough hmajority hcert.quorum⟩
  obtain ⟨member, hmember⟩ := Option.isSome_iff_exists.mp (hcert.members id hid)
  obtain ⟨hmem, rfl⟩ := h.mem_of_memberByPeerId hmember
  exact mem_map_of_mem hmem

lemma handleRoundFinalized (hmajority : S.Majority unreliable)
    (hauthentic : ∀ sig ∈ event.signatures, S.Authentic signed sig) :
    S.SoundEffect unreliable signed (s.handleRoundFinalized event) := by
  rcases handleRoundFinalized_cases s event with heq | ⟨proposal, finPayload, hp, hcert, heq⟩
  · rw [heq]
    exact h.only
  · have henough := h.enough_of_certifies hmajority hcert
    -- A certificate without signers is no quorum.
    have hnonempty : finPayload.signerPeerIds ≠ [] := by
      intro hnil
      have hmany := henough.many
      rw [hnil, length_nil] at hmany
      omega
    rw [heq, if_neg hnonempty]
    refine ⟨h, fun task htask => ?_, nofun⟩
    rw [mem_singleton.mp htask]
    refine ⟨fun sig hsig => hauthentic sig ?_, ⟨_, rfl, rfl⟩, henough, nofun⟩
    simp [AKAEvent.signatures, hcert.decoded, hsig]

end

variable (hlawful : P.Lawful) (h : S.SoundSession unreliable signed s)
    (htask : S.SoundTask unreliable signed (.verifying event finPayload expectedAck i))

include hlawful h htask

/-- A verified signature of a certificate is an ack. -/
lemma acked_of_verifies (hverifies : s.Verifies (S.localOf member) event finPayload expectedAck i) :
    ∀ id, finPayload.signerPeerIds[i]? = some id →
      S.Acked signed id event.round finPayload.nextStateHash := by
  obtain ⟨hauthentic, ⟨ack, rfl, hnext⟩, _, _⟩ := htask
  obtain ⟨signer, signature, x, hsigner, hsignature, hx, hverify⟩ := hverifies
  obtain ⟨hmem, hxid⟩ := h.mem_of_memberByPeerId hx
  rw [h.signingContext] at hverify
  obtain ⟨ack', hdecoded, hnext'⟩ := hlawful.decode_encode ack
  intro id hid
  rw [hsigner, Option.some.injEq] at hid
  have hsigned := hauthentic signature (mem_of_getElem? hsignature) x hmem _ _ hverify
  exact ⟨x, hmem, hxid.trans hid, _, ack', hsigned, hdecoded, hnext'.trans hnext⟩

lemma verifyNext (hcounted : ∀ proposal, s.proposalOf event.round = some proposal →
      s.Verifies (S.localOf member) event finPayload expectedAck i →
      i + 1 = finPayload.signerPeerIds.length →
      finPayload.nextStateHash = proposal.nextStateHash) :
    S.SoundEffect unreliable signed
      (s.verifyNext (S.localOf member) event finPayload expectedAck i) := by
  by_cases hverifies : s.Verifies (S.localOf member) event finPayload expectedAck i
  · -- With this signature, all signers up to it have acked.
    have hacked : ∀ j < i + 1, ∀ id, finPayload.signerPeerIds[j]? = some id →
        S.Acked signed id event.round finPayload.nextStateHash := by
      intro j hj id hid
      rcases Nat.lt_succ_iff_lt_or_eq.mp hj with hj | rfl
      · exact htask.2.2.2 j hj id hid
      · exact acked_of_verifies hlawful h htask hverifies id hid
    rw [verifyNext_of_verifies hverifies]
    split
    next hlast =>
      refine h.finalizeRound fun proposal hp => ?_
      rw [← hcounted proposal hp hverifies hlast]
      refine ⟨finPayload.signerPeerIds, htask.2.2.1, fun id hid => ?_⟩
      obtain ⟨j, hj, hget⟩ := getElem_of_mem hid
      exact hacked j (by omega) id (by rw [getElem?_eq_getElem hj, hget])
    next =>
      refine ⟨h, fun task hmem => ?_, nofun⟩
      rw [mem_singleton.mp hmem]
      exact ⟨htask.1, htask.2.1, htask.2.2.1, hacked⟩
  · rw [verifyNext_of_not_verifies hverifies]
    exact h.only

end SoundSession

/-! ## Steps of a manager -/

variable {member : SessionMember}

lemma attributed_of_passes (hsession : S.SoundSession unreliable signed s)
    (hauthentic : ∀ sig ∈ event.signatures, S.Authentic signed sig)
    (hid : event.sessionId = S.config.sessionId) {v : Validator P}
    (hpass : Check.signature.passes (S.localOf member) v s event = true) :
    S.Attributed signed event := by
  obtain ⟨status, hconfig⟩ := hsession.config
  simp only [Check.passes] at hpass
  split at hpass
  next => cases hpass
  next x hx =>
    unfold findMember at hx
    rw [hsession.membership] at hx
    have hmem := mem_of_find?_eq_some hx
    have hpeer := find?_some hx
    -- the signature is one that the event carries, so it was made
    rw [hconfig] at hpass
    exact ⟨hid, x, hmem, by simpa using hpeer,
      hauthentic event.signature mem_cons_self x hmem _ _ hpass⟩

lemma Sound.validateNext {checks : List Check} (h : S.Sound unreliable signed m)
    (htask : S.SoundTask unreliable signed (.validating event checks)) :
    S.Sound unreliable signed (m.validateNext (S.localOf member) event checks) := by
  obtain ⟨hauthentic, hid, hchecked⟩ := htask
  cases checks with
  | nil =>
    exact ⟨h.session, forall_mem_append.mpr ⟨h.tasks,
      forall_mem_singleton.mpr ⟨hauthentic, hchecked.resolve_left not_mem_nil⟩⟩, h.log⟩
  | cons check rest =>
    simp only [Manager.validateNext]
    split
    next hpass =>
      refine ⟨h.session, forall_mem_append.mpr ⟨h.tasks,
        forall_mem_singleton.mpr ⟨hauthentic, hid, ?_⟩⟩, h.log⟩
      -- The check that has passed may be the one of the signature.
      rcases hchecked with hleft | hattributed
      · rcases mem_cons.mp hleft with rfl | hleft
        · exact .inr (attributed_of_passes h.session hauthentic hid hpass)
        · exact .inl hleft
      · exact .inr hattributed
    next => exact h

lemma Sound.after (h : S.Sound unreliable signed m) (he : S.SoundEffect unreliable signed e) :
    S.Sound unreliable signed (m.after e) where
  session := he.session
  tasks := by
    intro task hmem
    rcases mem_append.mp hmem with hmem | hmem
    · exact h.tasks task hmem
    · exact he.tasks task hmem
  log := by
    intro f hf
    rcases mem_append.mp hf with hf | hf
    · exact h.log f hf
    · exact he.log f (Option.mem_toList.mp hf)

/-- A task that is taken out leaves the others sound. -/
lemma Sound.eraseIdx (h : S.Sound unreliable signed m) (i : ℕ) :
    S.Sound unreliable signed { m with tasks := m.tasks.eraseIdx i } :=
  ⟨h.session, fun task hmem => h.tasks task (eraseIdx_subset hmem), h.log⟩

/-- The votes that a finalization counts are for the proposal that it applies. -/
def CountsFor (me : Local) (m : Manager P) (task : Task P) : Prop :=
  ∀ round proposal, m.session.proposalOf round = some proposal →
    task.Closes me m.session round → ∀ hash ∈ task.counted m.session, hash = proposal.nextStateHash

lemma soundEffect_dispatch (h : S.SoundSession unreliable signed s)
    (hsingle : S.Single unreliable signed) (hmajority : S.Majority unreliable)
    (hauthentic : ∀ sig ∈ event.signatures, S.Authentic signed sig)
    (hevent : S.Attributed signed event)
    (hcounts : ∀ round proposal, s.proposalOf round = some proposal →
      (Task.dispatching event).Closes (S.localOf member) s round →
      ∀ hash ∈ (Task.dispatching event).counted s, hash = proposal.nextStateHash) :
    S.SoundEffect unreliable signed (s.dispatch (S.localOf member) event) := by
  unfold dispatch
  split
  next => exact h.votes (SameRecord.votes (.of_rounds rfl rfl) ⟨⟨_, rfl⟩, rfl⟩)
  next => exact h.votes quiet_handleSessionActivated.votes
  next => exact h.votes (quiet_handleRoundStart event).votes
  next => exact h.votes (s.handleInputSubmitted_keeps event).1
  next =>
    rcases handleRoundProposal_cases (S.localOf member) s event with
      hplain | ⟨_, _, _, _, _, hacks⟩
    · exact h.plain hplain
    · exact h.acksEffect hacks
  next htype =>
    refine h.handleRoundAck hsingle hmajority hevent htype ?_
    intro proposal r ack hp hrecords hcompletes entry hentry
    refine hcounts event.round proposal hp ⟨rfl, .inl ⟨htype, r, ack, hrecords, hcompletes⟩⟩ _ ?_
    simp only [Task.counted, hrecords.stored, hrecords.decoded]
    exact mem_map_of_mem hentry
  next => exact h.handleRoundFinalized hmajority hauthentic
  next => exact h.votes (Quiet.status _).votes
  next => exact h.votes (Quiet.status _).votes
  next => exact h.only
  next => exact h.only

lemma soundEffect_taskEffect {task : Task P} (hlawful : P.Lawful)
    (h : S.SoundSession unreliable signed m.session) (hsingle : S.Single unreliable signed)
    (hmajority : S.Majority unreliable) (htask : S.SoundTask unreliable signed task)
    (hcounts : CountsFor (S.localOf member) m task) :
    S.SoundEffect unreliable signed (m.taskEffect (S.localOf member) task) := by
  cases task with
  | validating event checks => exact h.only
  | dispatching event => exact soundEffect_dispatch h hsingle hmajority htask.1 htask.2 hcounts
  | verifying event finPayload expectedAck i =>
    refine h.verifyNext hlawful htask ?_
    intro proposal hp hverifies hlast
    exact hcounts event.round proposal hp ⟨rfl, hverifies, hlast⟩ _ mem_cons_self
  | proposing round proposal => exact h.acksEffect (acks_validateAndAck _ _ round proposal)
  | advancing round => exact h.votes (quiet_advance round).votes

/-- **One step of a manager** keeps its votes and certificates backed by signatures. -/
lemma Sound.exec {step : ManagerStep P} (hlawful : P.Lawful) (h : S.Sound unreliable signed m)
    (hsingle : S.Single unreliable signed) (hmajority : S.Majority unreliable)
    (hreceive : ∀ event, step = .receive event → ∀ sig ∈ event.signatures, S.Authentic signed sig)
    (hcounts : ∀ task ∈ m.resumed step, CountsFor (S.localOf member) m task) :
    S.Sound unreliable signed (m.exec (S.localOf member) step) := by
  cases hresumed : m.resumed step with
  | some task =>
    cases step with
    | resume i =>
      have htask : m.tasks[i]? = some task := hresumed
      have hsound := h.tasks task (mem_of_getElem? htask)
      have heffect := soundEffect_taskEffect hlawful h.session hsingle hmajority hsound
        (hcounts task hresumed)
      unfold Manager.exec
      simp only [htask]
      cases task with
      | validating event checks => exact (h.eraseIdx i).validateNext hsound
      | dispatching event | verifying event finPayload expectedAck j | proposing round proposal
      | advancing round => exact (h.eraseIdx i).after heffect
    | _ => cases hresumed
  | none =>
    have hplain : S.SoundEffect unreliable signed (m.stepEffect (S.localOf member) step) :=
      h.session.plain (Manager.plain_stepEffect hresumed)
    cases step with
    | receive event =>
      unfold Manager.exec
      simp only
      split
      next hid =>
        refine h.validateNext ⟨hreceive event rfl, ?_, .inl ?_⟩
        · obtain ⟨status, hconfig⟩ := h.session.config
          rw [hid, hconfig]
        · simp [checksFor]
      next => exact h
    | resume i =>
      have htask : m.tasks[i]? = none := hresumed
      unfold Manager.exec
      simp only [htask]
      exact h
    | _ => exact h.after hplain

end Session

end Dkg.Aka
