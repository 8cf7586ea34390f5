import Dkg.AttestedAssets.Signing
import Dkg.AttestedAssets.Votes

/-! # Agreement of the members

In an orderly run, every finalized round of an honest member is backed by enough acks for the hash
of the state that it leads to. Two members with the same finalized rounds up to some round have
their last one in common, so a reliable member has acked both hashes in it, and the hashes and the
states are equal.
-/

namespace Dkg.Aka

open Lib List SessionState Function

variable {P : Primitives} {S : Session P} {unreliable : List Text} {signed : Signed P}
  {me : Local} {m : Manager P} {event : AKAEvent P}
  {net net' : Network P} {step : NetworkStep P} {key : Bytes} {ctx : SigningContext}
  {hash hash' : P.Hash} {payload : P.Payload} {round : ℕ}

/-! ## Who acks what -/

namespace Session

/-- An ack that is recorded after a step was recorded before, or the step has signed it. -/
lemma voted_of_signed (hlawful : P.Lawful)
    (hconfig : ∀ id, ∃ status, (net.managers id).session.config =
      { S.config with status := status })
    (hmem : (key, ctx, payload) ∈ (S.exec net step).signed) (htype : ctx.type = .roundAck)
    {ack : RoundAckPayload P.Hash} (hdecoded : P.decodeRoundAckPayload payload = some ack) :
    (key, ctx, payload) ∈ net.signed ∨ S.voted net step = some (key, ctx, ack.nextStateHash) := by
  cases step with
  | honest member managerStep =>
    rcases mem_append.mp hmem with hmem | hmem
    · exact .inl hmem
    · obtain ⟨message, hmessage, heq⟩ := mem_map.mp hmem
      simp only [Prod.mk.injEq] at heq
      obtain ⟨rfl, rfl, rfl⟩ := heq
      -- what an honest member signs as an ack is the ack of a proposal that it confirms
      obtain ⟨round, proposal, hconfirmed, rfl⟩ := Manager.signed_stepEffect hmessage htype
      obtain ⟨ack', hdecoded', hnext⟩ := hlawful.decode_encode
        ((net.managers member.peerId).session.ackFor round proposal)
      rw [hdecoded', Option.some.injEq] at hdecoded
      subst hdecoded
      right
      simp only [voted]
      rw [hconfirmed, signingContext_of_config (hconfig member.peerId), hnext]
      rfl
  | faulty key' ctx' payload' =>
    rcases mem_append.mp hmem with hmem | hmem
    · exact .inl hmem
    · have heq := mem_singleton.mp hmem
      simp only [Prod.mk.injEq] at heq
      obtain ⟨rfl, rfl, rfl⟩ := heq
      right
      simp only [voted]
      rw [if_pos htype, hdecoded]
      rfl

lemma signed_subset_exec : net.signed ⊆ (S.exec net step).signed := by
  cases step with
  | honest member managerStep | faulty key ctx payload => exact subset_append_left _ _

/-- A step that acks no second state with a reliable key leaves none acked. -/
lemma Single.exec (hlawful : P.Lawful) (h : S.Single unreliable net.signed)
    (hconfig : ∀ id, ∃ status, (net.managers id).session.config =
      { S.config with status := status })
    (hvotes : ∀ key ctx hash, S.voted net step = some (key, ctx, hash) → S.Reliable unreliable key →
      ∀ payload ack, (key, ctx, payload) ∈ net.signed →
        P.decodeRoundAckPayload payload = some ack → ack.nextStateHash = hash) :
    S.Single unreliable (S.exec net step).signed := by
  intro key ctx payload payload' ack ack' hreliable htype hmem hmem' hdecoded hdecoded'
  rcases voted_of_signed hlawful hconfig hmem htype hdecoded with hold | hvoted
  · rcases voted_of_signed hlawful hconfig hmem' htype hdecoded' with hold' | hvoted'
    · exact h key ctx payload payload' ack ack' hreliable htype hold hold' hdecoded hdecoded'
    · exact hvotes key ctx _ hvoted' hreliable payload ack hold hdecoded
  · rcases voted_of_signed hlawful hconfig hmem' htype hdecoded' with hold' | hvoted'
    · exact (hvotes key ctx _ hvoted hreliable payload' ack' hold' hdecoded').symm
    · -- A step signs one ack.
      rw [hvoted] at hvoted'
      simpa using hvoted'

end Session

/-! ## Records whose claims are right -/

/-- Every claim of the record is right, and its rounds are in order. -/
structure Manager.Chained (m : Manager P) : Prop where
  logged : m.Logged
  once : (m.finalizedRounds.map Prod.fst).Pairwise (· < ·)
  claims : ∀ (log : Log P) (f : ℕ × RoundProposalPayload P.Hash),
    log ++ [f] <+: m.finalizedRounds →
      P.computeStateHash (Log.state (log ++ [f])) = f.2.nextStateHash

lemma Manager.chained_start (config : SessionConfig P) : (Manager.start config).Chained where
  logged := Manager.logged_start config
  once := Pairwise.nil
  claims := by
    intro log f h
    simp [Manager.start] at h

lemma Manager.Chained.exec (h : m.Chained) {managerStep : ManagerStep P}
    (hfaithful : m.Faithful me managerStep) : (m.exec me managerStep).Chained := by
  have hlogged := h.logged.exec me managerStep
  rcases m.exec_cases me managerStep with ⟨round, proposal, hf, hlog, hbytes, _⟩ | ⟨_, hlog, _⟩
  · obtain ⟨habove, hclaim⟩ := hfaithful round proposal hf
    refine ⟨hlogged, ?_, ?_⟩
    · rw [hlog, Log.pairwise_append_iff h.once]
      exact habove
    · intro log f hprefix
      rw [hlog, prefix_concat_iff] at hprefix
      rcases hprefix with heq | hprefix
      · -- The round that is finalized now.
        obtain ⟨rfl, rfl⟩ := append_inj' heq rfl |>.imp_right singleton_inj.mp
        rw [Log.state_append, ← h.logged.bytes]
        exact hclaim
      · exact h.claims log f hprefix
  · refine ⟨hlogged, ?_, ?_⟩
    · rw [hlog]
      exact h.once
    · rw [hlog]
      exact h.claims

/-- The finalizations up to a round. -/
def Log.upTo (round : ℕ) (log : Log P) : Log P := log.filter fun f => f.1 ≤ round

lemma Log.upTo_prefix {log : Log P} (h : (log.map Prod.fst).Pairwise (· < ·)) (round : ℕ) :
    log.upTo round <+: log := by
  induction log with
  | nil => exact prefix_rfl
  | cons f rest ih =>
    rw [map_cons, pairwise_cons] at h
    by_cases hf : f.1 ≤ round
    · have hcons : Log.upTo round (f :: rest) = f :: Log.upTo round rest := by
        simp [Log.upTo, hf]
      rw [hcons]
      exact cons_prefix_cons.mpr ⟨rfl, ih h.2⟩
    · -- The later rounds are above this one.
      have hnil : Log.upTo round (f :: rest) = [] := by
        rw [Log.upTo, filter_eq_nil_iff]
        intro g hg
        rcases mem_cons.mp hg with rfl | hg
        · simpa using hf
        · have hlt := h.1 g.1 (mem_map_of_mem hg)
          simp only [decide_eq_true_eq]
          omega
      rw [hnil]
      exact nil_prefix

lemma Log.mem_upTo_iff {log : Log P} {x : ℕ} :
    x ∈ (log.upTo round).map Prod.fst ↔ x ∈ log.map Prod.fst ∧ x ≤ round := by
  simp only [Log.upTo, mem_map, mem_filter, decide_eq_true_eq]
  constructor
  · rintro ⟨f, ⟨hf, hle⟩, rfl⟩
    exact ⟨⟨f, hf, rfl⟩, hle⟩
  · rintro ⟨⟨f, hf, rfl⟩, hle⟩
    exact ⟨f, ⟨hf, hle⟩, rfl⟩

lemma Log.upTo_eq_self {log : Log P} (h : ∀ x ∈ log.map Prod.fst, x ≤ round) :
    log.upTo round = log := by
  rw [Log.upTo, filter_eq_self]
  intro f hf
  simpa using h f.1 (mem_map_of_mem hf)

/-- Records in order with the same rounds up to some round list them in the same way. -/
lemma Log.upTo_rounds_eq {log log' : Log P} (h : (log.map Prod.fst).Pairwise (· < ·))
    (h' : (log'.map Prod.fst).Pairwise (· < ·))
    (hsame : ∀ x ≤ round, x ∈ log.map Prod.fst ↔ x ∈ log'.map Prod.fst) :
    (log.upTo round).map Prod.fst = (log'.upTo round).map Prod.fst := by
  have hsorted := h.sublist ((Log.upTo_prefix h round).sublist.map Prod.fst)
  have hsorted' := h'.sublist ((Log.upTo_prefix h' round).sublist.map Prod.fst)
  refine Perm.eq_of_pairwise (fun a b _ _ hab hba => absurd hab (lt_asymm hba)) hsorted
    hsorted' ?_
  rw [perm_ext_iff_of_nodup (hsorted.imp ne_of_lt) (hsorted'.imp ne_of_lt)]
  intro x
  rw [Log.mem_upTo_iff, Log.mem_upTo_iff]
  constructor
  · rintro ⟨hx, hle⟩
    exact ⟨(hsame x hle).mp hx, hle⟩
  · rintro ⟨hx, hle⟩
    exact ⟨(hsame x hle).mpr hx, hle⟩

/-! ## Runs -/

namespace Session

/-- What every run keeps about what was signed and about every manager. -/
structure Inv (S : Session P) (unreliable : List Text) (net : Network P) : Prop where
  single : S.Single unreliable net.signed
  sound : ∀ id, S.Sound unreliable net.signed (net.managers id)
  chained : ∀ id, (net.managers id).Chained

lemma inv_init : S.Inv unreliable ⟨fun _ => Manager.start S.config, []⟩ where
  single := nofun
  sound := fun _ => ⟨⟨⟨_, rfl⟩, rfl, ⟨nodup_nil, nofun⟩, nofun⟩, nofun, nofun⟩
  chained := fun _ => Manager.chained_start S.config

section

variable (hlawful : P.Lawful) (hmajority : S.Majority unreliable)

include hlawful hmajority

lemma Sound.networkExec (h : S.Inv unreliable net) (hadmits : S.Admits net step)
    (horderly : S.Orderly unreliable net step) (id : Text) :
    S.Sound unreliable (S.exec net step).signed ((S.exec net step).managers id) := by
  have hsub : net.signed ⊆ (S.exec net step).signed := signed_subset_exec
  cases step with
  | honest member managerStep =>
    by_cases hid : id = member.peerId
    · subst hid
      have hself : (S.exec net (.honest member managerStep)).managers member.peerId =
          (net.managers member.peerId).exec (S.localOf member) managerStep :=
        update_self ..
      rw [hself]
      refine Sound.mono hsub ((h.sound member.peerId).exec hlawful h.single hmajority ?_ ?_)
      · rintro event rfl
        exact hadmits.2
      · intro task hresumed round proposal hproposal hcloses
        exact horderly.counted member managerStep rfl round proposal
          ⟨hproposal, task, hresumed, hcloses⟩ task hresumed
    · have hother : (S.exec net (.honest member managerStep)).managers id = net.managers id :=
        update_of_ne hid ..
      rw [hother]
      exact (h.sound id).mono hsub
  | faulty key ctx payload => exact (h.sound id).mono hsub

/-- **The step lemma** of the network. -/
lemma Inv.exec (h : S.Inv unreliable net) (hadmits : S.Admits net step)
    (horderly : S.Orderly unreliable net step) : S.Inv unreliable (S.exec net step) where
  single := h.single.exec hlawful (fun id => (h.sound id).session.config) horderly.votes
  sound := Sound.networkExec hlawful hmajority h hadmits horderly
  chained := by
    intro id
    cases step with
    | honest member managerStep =>
      by_cases hid : id = member.peerId
      · subst hid
        simp only [Session.exec, update_self]
        exact (h.chained member.peerId).exec (horderly.faithful member managerStep rfl)
      · simp only [Session.exec, update_of_ne hid]
        exact h.chained id
    | faulty key ctx payload => exact h.chained id

/-- **In every run** the invariant holds. -/
lemma inv_of_reachable (h : ((networkMachine S).restrict (S.Orderly unreliable)).Reachable net) :
    S.Inv unreliable net := by
  refine Machine.Reachable.invariant (P := S.Inv unreliable) ?_ ?_ h
  · rintro net rfl
    exact inv_init
  · rintro net step net' hinv ⟨horderly, hadmits, rfl⟩
    exact hinv.exec hlawful hmajority hadmits horderly

end

/-- Two backed hashes of a round are equal: the members behind them share a reliable one. -/
lemma Backed.unique (hsingle : S.Single unreliable signed)
    (h : S.Backed unreliable signed round hash) (h' : S.Backed unreliable signed round hash') :
    hash = hash' := by
  obtain ⟨signers, henough, hacked⟩ := h
  obtain ⟨signers', henough', hacked'⟩ := h'
  have hmany := henough.many
  have hmany' := henough'.many
  -- the two lists together outnumber the members and the unreliable ones
  obtain ⟨id, hid, hid', hreliable⟩ := Voters.intersect unreliable henough.voters henough'.voters
    (by rw [length_map]; omega)
  exact (hacked id hid).unique hsingle (hacked' id hid') hreliable

/-- The last claims of two records that list the same rounds are equal, and so are the states. -/
lemma Inv.eq_of_rounds (h : S.Inv unreliable net) (hlawful : P.Lawful) {a b : Text}
    {log log' : Log P} (hlog : log <+: (net.managers a).finalizedRounds)
    (hlog' : log' <+: (net.managers b).finalizedRounds)
    (hrounds : log.map Prod.fst = log'.map Prod.fst) :
    log.state = log'.state ∧
      Log.hash S.config.genesisStateHash log = Log.hash S.config.genesisStateHash log' := by
  rcases eq_nil_or_concat' log with rfl | ⟨rest, f, rfl⟩
  · rw [map_nil, eq_comm, map_eq_nil_iff] at hrounds
    rw [hrounds]
    exact ⟨rfl, rfl⟩
  rcases eq_nil_or_concat' log' with rfl | ⟨rest', f', rfl⟩
  · simp at hrounds
  -- the last round of both is the same, so both hashes are backed in one round
  have hround : f.1 = f'.1 := by
    rw [map_append, map_append] at hrounds
    simpa using (append_inj' hrounds rfl).2
  have hbacked := (h.sound a).log f (hlog.subset (by simp))
  have hbacked' := (h.sound b).log f' (hlog'.subset (by simp))
  rw [← hround] at hbacked'
  have hhash := hbacked.unique h.single hbacked'
  refine ⟨hlawful.collisionFree ?_, ?_⟩
  · rw [(h.chained a).claims rest f hlog, (h.chained b).claims rest' f' hlog', hhash]
  · rw [Log.hash_append, Log.hash_append, hhash]

lemma Inv.genesisStateHash (h : S.Inv unreliable net) (id : Text) :
    (net.managers id).session.config.genesisStateHash = S.config.genesisStateHash := by
  obtain ⟨status, hconfig⟩ := (h.sound id).session.config
  rw [hconfig]

end Session

/-! ## Runs of three members -/

def Session.OrderlyTest (S : Session P) (net : Network P) (step : NetworkStep P) : Prop :=
  (∀ v ∈ S.voted net step, ∀ entry ∈ net.signed, entry.1 = v.1 → entry.2.1 = v.2.1 →
    ∀ ack ∈ P.decodeRoundAckPayload entry.2.2, ack.nextStateHash = v.2.2) ∧
  match step with
  | .honest member managerStep =>
    let m := net.managers member.peerId
    m.RecordsFaithfully (S.localOf member) managerStep ∧
      ∀ f ∈ (m.stepEffect (S.localOf member) managerStep).finalized,
        ∀ task ∈ m.resumed managerStep, ∀ hash ∈ task.counted m.session, hash = f.2.nextStateHash
  | .faulty _ _ _ => True

instance (S : Session P) (net : Network P) (step : NetworkStep P) :
    Decidable (S.OrderlyTest net step) := by
  unfold Session.OrderlyTest
  cases step <;> infer_instance

lemma Session.orderly_of_test (h : S.OrderlyTest net step) : S.Orderly unreliable net step where
  votes := by
    intro key ctx hash hvoted _ payload ack hsigned hdecoded
    exact h.1 (key, ctx, hash) hvoted (key, ctx, payload) hsigned rfl rfl ack hdecoded
  faithful := by
    rintro member managerStep rfl
    exact Manager.faithful_of_recordsFaithfully h.2.1
  counted := by
    rintro member managerStep rfl round proposal hfinalizes task htask hash hhash
    exact h.2.2 (round, proposal) (Manager.finalized_stepEffect hfinalizes).finalized task htask
      hash hhash

lemma eventTypeCode_injective : Injective eventTypeCode := by
  intro a b h
  cases a <;> cases b <;> first | rfl | cases h

lemma bytesCode_injective : Injective (map UInt8.toNat) :=
  map_injective_iff.mpr fun _ _ => UInt8.toNat_inj.mp

lemma transparent_lawful : transparent.Lawful where
  collisionFree := bytesCode_injective
  decode_encode := fun ack => ⟨ack, rfl, rfl⟩

lemma transparentSignature_inj {ctx ctx' : SigningContext} {payload payload' : List (List ℕ)}
    {key key' : Bytes}
    (h : transparentSignature ctx payload key = transparentSignature ctx' payload' key') :
    key = key' ∧ ctx = ctx' ∧ payload = payload' := by
  obtain ⟨network, graph, session, round, type⟩ := ctx
  obtain ⟨network', graph', session', round', type'⟩ := ctx'
  simp only [transparentSignature, cons.injEq, and_true] at h
  obtain ⟨hkey, rfl, rfl, rfl, ⟨rfl, htype⟩, rfl⟩ := h
  obtain rfl := eventTypeCode_injective htype
  exact ⟨bytesCode_injective hkey, rfl, rfl⟩

/-- The signature was made. -/
def Made (signed : Signed transparent) (sig : transparent.Sig) : Prop :=
  ∃ entry ∈ signed, sig = transparentSignature entry.2.1 entry.2.2 entry.1
  deriving Decidable

lemma authentic_of_made {S : Session transparent} {signed : Signed transparent}
    {sig : transparent.Sig} (h : Made signed sig) : S.Authentic signed sig := by
  obtain ⟨entry, hentry, rfl⟩ := h
  intro member _ ctx payload hverify
  obtain ⟨hkey, hctx, hpayload⟩ := transparentSignature_inj (of_decide_eq_true hverify)
  rw [← hkey, ← hctx, ← hpayload]
  exact hentry

def Session.AdmitsTest (S : Session transparent) (net : Network transparent) :
    NetworkStep transparent → Prop
  | .honest member (.receive event) =>
    member ∈ S.honest ∧ ∀ sig ∈ event.signatures, Made net.signed sig
  | .honest member _ => member ∈ S.honest
  | .faulty key _ _ => ∀ member ∈ S.honest, member.pubKey ≠ key

instance (S : Session transparent) (net : Network transparent) (step : NetworkStep transparent) :
    Decidable (S.AdmitsTest net step) := by
  unfold Session.AdmitsTest
  split <;> infer_instance

lemma Session.admits_of_test {S : Session transparent} {net : Network transparent}
    {step : NetworkStep transparent} (h : S.AdmitsTest net step) : S.Admits net step := by
  cases step with
  | faulty key ctx payload => exact h
  | honest member managerStep =>
    cases managerStep with
    | receive event => exact ⟨h.1, fun sig hsig => authentic_of_made (h.2 sig hsig)⟩
    | _ => exact h

/-- Three members with two thirds as the quorum. The second one creates the session, proposes in
round 1, and is faulty. -/
def trio : Session transparent where
  config :=
    { sessionId := [7]
      contextGraphId := [8]
      createdBy := [3]
      membership := [⟨[1], [1]⟩, ⟨[3], [3]⟩, ⟨[2], [2]⟩]
      membershipRoot := []
      quorumPolicy := ⟨2, 3, 1⟩
      reducerVersion := []
      genesisStateHash := []
      roundTimeout := 1000
      maxRounds := none
      configHash := []
      status := .proposed }
  network := [9]
  honest := [⟨[1], [1]⟩, ⟨[2], [2]⟩]
  subset := by decide
  distinct := by decide

def trioContext (round : ℕ) (type : AKAEventType) : SigningContext := ⟨[9], [8], [7], round, type⟩

/-- The certificate of round 1, with the acks of the first member and of the faulty one. -/
def trioCertificate : List (List ℕ) :=
  let ack := transparent.encodeRoundAckPayload pairAck
  transparent.encodeRoundFinalizedPayload ⟨1, [5], [[1], [3]],
    [transparentSignature (trioContext 1 .roundAck) ack [1],
      transparentSignature (trioContext 1 .roundAck) ack [3]]⟩

/-- The proposal of round 1 with the given input, under the hashes that belong to the input 5. -/
def trioProposal (input : UInt8) : List (List ℕ) :=
  transparent.encodeRoundProposalPayload { pairProposal with includedInputs := [[input]] }

def delivered (member : SessionMember) (event : AKAEvent transparent) :
    List (NetworkStep transparent) :=
  (.receive event :: List.replicate 13 (.resume 0)).map (.honest member)

/-- Both members set up the session and get the proposal with their input; the first one acks it. -/
def trioRun (first second : UInt8) : List (NetworkStep transparent) :=
  let accepted : List (List ℕ) := [[7], []]
  let setup := [signedEvent .sessionAccepted 0 [] [1] [1] [1] accepted,
    signedEvent .sessionAccepted 0 [] [2] [2] [2] accepted,
    signedEvent .sessionActivated 0 [] [3] [3] [3] []]
  let proposal (input : UInt8) := signedEvent .roundProposal 1 [] [3] [3] [4] (trioProposal input)
  let finalized := signedEvent .roundFinalized 1 [] [3] [3] [5] trioCertificate
  [.honest ⟨[1], [1]⟩ .acceptSession, .honest ⟨[2], [2]⟩ .acceptSession,
    .faulty [3] (trioContext 0 .sessionActivated) [],
    .faulty [3] (trioContext 1 .roundProposal) (trioProposal first),
    .faulty [3] (trioContext 1 .roundProposal) (trioProposal second),
    .faulty [3] (trioContext 1 .roundAck) (transparent.encodeRoundAckPayload pairAck)] ++
  setup.flatMap (delivered ⟨[1], [1]⟩) ++ setup.flatMap (delivered ⟨[2], [2]⟩) ++
  delivered ⟨[1], [1]⟩ (proposal first) ++ delivered ⟨[2], [2]⟩ (proposal second) ++
  [.faulty [3] (trioContext 1 .roundFinalized) trioCertificate] ++
  delivered ⟨[1], [1]⟩ finalized ++ delivered ⟨[2], [2]⟩ finalized

def trioStart : Network transparent := ⟨fun _ => Manager.start trio.config, []⟩

lemma trio_majority : trio.Majority [] := by
  unfold Session.Majority
  decide

/-- **State agreement.** In every run of a session whose steps are orderly: honest members with the
same finalized rounds up to some round agree on the state and on the hash after those rounds; where
they have finalized no round above it, these are their latest state and hash. -/
theorem state_agreement (hlawful : P.Lawful) (S : Session P) (unreliable : List Text)
    (hmajority : S.Majority unreliable) :
    ∀ net, ((networkMachine S).restrict (S.Orderly unreliable)).Reachable net →
    ∀ a ∈ S.honest, ∀ b ∈ S.honest, ∀ round,
      (∀ x ≤ round, x ∈ (net.managers a.peerId).finalizedRounds.map Prod.fst ↔
        x ∈ (net.managers b.peerId).finalizedRounds.map Prod.fst) →
      (Log.state (Log.upTo round (net.managers a.peerId).finalizedRounds) =
          Log.state (Log.upTo round (net.managers b.peerId).finalizedRounds) ∧
        Log.hash S.config.genesisStateHash
            (Log.upTo round (net.managers a.peerId).finalizedRounds) =
          Log.hash S.config.genesisStateHash
            (Log.upTo round (net.managers b.peerId).finalizedRounds)) ∧
      ((∀ x ∈ (net.managers a.peerId).finalizedRounds.map Prod.fst, x ≤ round) →
        (∀ x ∈ (net.managers b.peerId).finalizedRounds.map Prod.fst, x ≤ round) →
        (net.managers a.peerId).session.latestStateBytes =
            (net.managers b.peerId).session.latestStateBytes ∧
          (net.managers a.peerId).session.latestStateHash =
            (net.managers b.peerId).session.latestStateHash) := by
  intro net hreachable a _ b _ round hsame
  have hinv := S.inv_of_reachable hlawful hmajority hreachable
  have ha := hinv.chained a.peerId
  have hb := hinv.chained b.peerId
  have hagree := hinv.eq_of_rounds hlawful (Log.upTo_prefix ha.once round)
    (Log.upTo_prefix hb.once round) (Log.upTo_rounds_eq ha.once hb.once hsame)
  refine ⟨hagree, fun hla hlb => ?_⟩
  rw [Log.upTo_eq_self hla, Log.upTo_eq_self hlb] at hagree
  refine ⟨?_, ?_⟩
  · rw [ha.logged.bytes, hb.logged.bytes, hagree.1]
  · rw [ha.logged.hash, hb.logged.hash, hinv.genesisStateHash, hinv.genesisStateHash, hagree.2]

/-- Both honest members finalize round 1 with the same input. -/
theorem state_agreement_round_one :
    ∃ net, ((networkMachine trio).restrict (trio.Orderly [])).Reachable net ∧
      (net.managers [1]).finalizedRounds.map Prod.fst = [1] ∧
      (net.managers [2]).finalizedRounds.map Prod.fst = [1] ∧
      (net.managers [1]).session.latestStateBytes = [5] ∧
      (net.managers [1]).session.latestStateBytes = (net.managers [2]).session.latestStateBytes ∧
      (net.managers [1]).session.latestStateHash = (net.managers [2]).session.latestStateHash := by
  have hr : ((networkMachine trio).restrict (trio.Orderly [])).Reachable
      ((trioRun 5 5).foldl trio.exec trioStart) := by
    refine Machine.Reachable.foldl (C := fun net step => trio.AdmitsTest net step ∧
      trio.OrderlyTest net step) ?_ (.init rfl) (by decide +kernel)
    exact fun _ _ h => ⟨Session.orderly_of_test h.2, Session.admits_of_test h.1, rfl⟩
  obtain ⟨net, hnet, hfirst, hsecond, hbytes⟩ : ∃ net,
      ((networkMachine trio).restrict (trio.Orderly [])).Reachable net ∧
      (net.managers [1]).finalizedRounds.map Prod.fst = [1] ∧
      (net.managers [2]).finalizedRounds.map Prod.fst = [1] ∧
      (net.managers [1]).session.latestStateBytes = [5] :=
    ⟨_, hr, by decide +kernel, by decide +kernel, by decide +kernel⟩
  have hagree := (state_agreement transparent_lawful trio [] trio_majority net hnet ⟨[1], [1]⟩
    (by decide) ⟨[2], [2]⟩ (by decide) 1 (by simp [hfirst, hsecond])).2
    (by simp [hfirst]) (by simp [hsecond])
  exact ⟨net, hnet, hfirst, hsecond, hbytes, hagree⟩

/-- The faulty member sends proposals with the same hashes and different inputs. One honest member
acks its proposal, and both finalize round 1 on that ack and the one of the faulty member, each
with the inputs that it was sent. -/
theorem members_apply_different_inputs :
    transparent.Lawful ∧ trio.Majority [] ∧ ¬ isQuorumMet trio.config.quorumPolicy 3 1 ∧
    ∃ net, (networkMachine trio).Reachable net ∧
      (net.managers [1]).finalizedRounds.map Prod.fst = [1] ∧
      (net.managers [2]).finalizedRounds.map Prod.fst = [1] ∧
      (net.managers [1]).session.latestStateBytes ≠
        (net.managers [2]).session.latestStateBytes := by
  have hr : (networkMachine trio).Reachable ((trioRun 5 6).foldl trio.exec trioStart) := by
    refine Machine.Reachable.foldl (C := trio.AdmitsTest) ?_ (.init rfl) (by decide +kernel)
    exact fun _ _ h => ⟨Session.admits_of_test h, rfl⟩
  exact ⟨transparent_lawful, trio_majority, by decide, _, hr, by decide +kernel,
    by decide +kernel, by decide +kernel⟩

end Dkg.Aka
