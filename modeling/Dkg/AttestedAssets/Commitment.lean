import Dkg.AttestedAssets.Effects

/-! # The state of a session and its hash

A finalization reduces the included inputs of the stored proposal and takes the hash that the
proposal claims. So the state is always what the recorded finalizations lead to
(`Manager.Logged`), but nothing makes the hash the hash of the state, and nothing keeps a round
from being finalized twice. Both hold as long as every finalization is of a round above the
earlier ones, with a proposal whose claim is right (`Manager.Faithful`): what `validateAndAck`
checks before an ack, and what nothing checks before the finalization.
-/

namespace Dkg.Aka

open Lib

variable {P : Primitives} {me : Local} {m : Manager P} {step : ManagerStep P}

/-- The finalizations of a manager, each with the proposal that it applied. -/
abbrev Log (P : Primitives) := List (ℕ × RoundProposalPayload P.Hash)

/-- The state after the finalizations, from the genesis state on. -/
def Log.state (log : Log P) : Bytes :=
  log.foldl (fun bytes f => P.reduce bytes f.2.includedInputs) P.genesisState

/-- The hash that was claimed last. -/
def Log.hash (genesisStateHash : P.Hash) (log : Log P) : P.Hash :=
  (log.getLast?.map fun f => f.2.nextStateHash).getD genesisStateHash

lemma Log.state_append (log : Log P) (f : ℕ × RoundProposalPayload P.Hash) :
    Log.state (log ++ [f]) = P.reduce log.state f.2.includedInputs := by
  simp [Log.state]

lemma Log.hash_append (h : P.Hash) (log : Log P) (f : ℕ × RoundProposalPayload P.Hash) :
    Log.hash h (log ++ [f]) = f.2.nextStateHash := by
  simp [Log.hash]

/-! ## What holds in every run -/

/-- State and hash come from the finalizations. -/
structure Manager.Logged (m : Manager P) : Prop where
  bytes : m.session.latestStateBytes = Log.state m.finalizedRounds
  hash : m.session.latestStateHash = Log.hash m.session.config.genesisStateHash m.finalizedRounds

open Manager

lemma Manager.logged_start (config : SessionConfig P) : (start config).Logged :=
  ⟨rfl, rfl⟩

lemma Manager.exec_genesisStateHash (me : Local) (m : Manager P) (step : ManagerStep P) :
    (m.exec me step).session.config.genesisStateHash = m.session.config.genesisStateHash := by
  obtain ⟨status, hconfig⟩ := (m.setup_stepEffect me step).config
  rw [(m.exec_eq me step).1, hconfig]

/-- A step finalizes a round, or leaves the state and the record as they were. -/
lemma Manager.exec_cases (me : Local) (m : Manager P) (step : ManagerStep P) :
    (∃ round proposal, m.Finalizes me step round proposal ∧
      (m.exec me step).finalizedRounds = m.finalizedRounds ++ [(round, proposal)] ∧
      (m.exec me step).session.latestStateBytes =
        P.reduce m.session.latestStateBytes proposal.includedInputs ∧
      (m.exec me step).session.latestStateHash = proposal.nextStateHash) ∨
    ((∀ round proposal, ¬ m.Finalizes me step round proposal) ∧
      (m.exec me step).finalizedRounds = m.finalizedRounds ∧
      SameState m.session (m.exec me step).session) := by
  obtain ⟨hsession, hlog⟩ := m.exec_eq me step
  by_cases h : ∃ round proposal, m.Finalizes me step round proposal
  · obtain ⟨round, proposal, h⟩ := h
    have hfinalized := finalized_stepEffect h
    rw [hfinalized.finalized] at hlog
    rw [hsession]
    exact .inl ⟨round, proposal, h, hlog, hfinalized.bytes, hfinalized.hash⟩
  · have hnone : ∀ round proposal, ¬ m.Finalizes me step round proposal :=
      fun round proposal hf => h ⟨round, proposal, hf⟩
    have hidle := idle_stepEffect hnone
    rw [hidle.finalized] at hlog
    rw [hsession]
    exact .inr ⟨hnone, hlog.trans (List.append_nil _), hidle.state⟩

lemma Manager.Logged.exec (h : m.Logged) (me : Local) (step : ManagerStep P) :
    (m.exec me step).Logged := by
  rcases m.exec_cases me step with ⟨round, proposal, _, hlog, hbytes, hhash⟩ | ⟨_, hlog, hstate⟩
  · refine ⟨?_, ?_⟩
    · rw [hbytes, hlog, Log.state_append, h.bytes]
    · rw [hhash, hlog, Log.hash_append]
  · refine ⟨?_, ?_⟩
    · rw [hstate.bytes, hlog, h.bytes]
    · rw [hstate.hash, hlog, exec_genesisStateHash, h.hash]

/-! ## What holds in faithful runs -/

/-- The hash is that of the state, the state is the fold over the finalized rounds, and the rounds
are finalized in order and once. -/
structure Manager.Committed (m : Manager P) : Prop where
  hash : m.session.latestStateHash = P.computeStateHash m.session.latestStateBytes
  bytes : m.session.latestStateBytes = Log.state m.finalizedRounds
  once : (m.finalizedRounds.map Prod.fst).Pairwise (· < ·)

/-- A step that finalizes a round does so above the rounds that are finalized already, and the
stored proposal claims the hash of the state that its inputs lead to. -/
def Manager.Faithful (me : Local) (m : Manager P) (step : ManagerStep P) : Prop :=
  ∀ round proposal, m.Finalizes me step round proposal →
    (∀ f ∈ m.finalizedRounds, f.1 < round) ∧
    P.computeStateHash (P.reduce m.session.latestStateBytes proposal.includedInputs) =
      proposal.nextStateHash

lemma Manager.committed_start_iff (config : SessionConfig P) :
    (start config).Committed ↔
      config.genesisStateHash = P.computeStateHash P.genesisState :=
  ⟨fun h => h.hash, fun h => ⟨h, rfl, List.Pairwise.nil⟩⟩

lemma Log.pairwise_append_iff {log : Log P} {f : ℕ × RoundProposalPayload P.Hash}
    (h : (log.map Prod.fst).Pairwise (· < ·)) :
    ((log ++ [f]).map Prod.fst).Pairwise (· < ·) ↔ ∀ e ∈ log, e.1 < f.1 := by
  rw [List.map_append, List.pairwise_append]
  simp [h]

/-- From a state where the commitment holds, a step keeps it exactly if it is faithful. -/
lemma Manager.committed_exec_iff (h : m.Committed) (me : Local) (step : ManagerStep P) :
    (m.exec me step).Committed ↔ m.Faithful me step := by
  rcases m.exec_cases me step with ⟨round, proposal, hf, hlog, hbytes, hhash⟩ | ⟨hf, hlog, hstate⟩
  · -- The round and the proposal of a step are determined by the state.
    have hunique : ∀ round' proposal', m.Finalizes me step round' proposal' →
        round' = round ∧ proposal' = proposal := by
      intro round' proposal' hf'
      have heq := (finalized_stepEffect hf').finalized.symm.trans
          (finalized_stepEffect hf).finalized
      simpa using heq
    constructor
    · intro hc round' proposal' hf'
      obtain ⟨rfl, rfl⟩ := hunique round' proposal' hf'
      have honce := hc.once
      rw [hlog, Log.pairwise_append_iff h.once] at honce
      exact ⟨honce, by rw [← hhash, hc.hash, hbytes]⟩
    · intro hfaithful
      obtain ⟨habove, hclaim⟩ := hfaithful round proposal hf
      refine ⟨?_, ?_, ?_⟩
      · rw [hhash, hbytes, hclaim]
      · rw [hbytes, hlog, Log.state_append, h.bytes]
      · rw [hlog, Log.pairwise_append_iff h.once]
        exact habove
  · constructor
    · intro _ round proposal hf'
      exact absurd hf' (hf round proposal)
    · intro _
      refine ⟨?_, ?_, ?_⟩
      · rw [hstate.hash, hstate.bytes, h.hash]
      · rw [hstate.bytes, hlog, h.bytes]
      · rw [hlog]
        exact h.once

/-- Under the right genesis hash, every run whose steps are faithful keeps the commitment. -/
lemma committed_of_reachable
    (h : ((managerMachine P me).restrict (Faithful me)).Reachable m)
    (hgenesis : m.session.config.genesisStateHash = P.computeStateHash P.genesisState) :
    m.Committed := by
  induction h with
  | init hinit =>
    obtain ⟨config, rfl⟩ := hinit
    exact (committed_start_iff config).mpr hgenesis
  | @step m m' step _ hstep ih =>
    obtain ⟨hfaithful, rfl⟩ := hstep
    rw [exec_genesisStateHash] at hgenesis
    exact (committed_exec_iff (ih hgenesis) me step).mpr hfaithful

/-! ## Runs of a session -/

/-- The signatures that stand one after another, each after the number of its fields. -/
def takeSignatures : ℕ → List (List ℕ) → List (List (List ℕ))
  | 0, _ => []
  | n + 1, [count] :: fields => fields.take count :: takeSignatures n (fields.drop count)
  | _ + 1, _ => []

def eventTypeCode : AKAEventType → ℕ
  | .sessionProposed => 0
  | .sessionAccepted => 1
  | .sessionActivated => 2
  | .sessionFinalized => 3
  | .sessionAborted => 4
  | .roundStart => 5
  | .inputSubmitted => 6
  | .roundProposal => 7
  | .roundAck => 8
  | .roundFinalized => 9
  | .roundTimeout => 10

def transparentSignature (ctx : SigningContext) (payload : List (List ℕ)) (key : Bytes) :
    List (List ℕ) :=
  key.map UInt8.toNat :: ctx.network :: ctx.contextGraphId :: ctx.sessionId ::
    [ctx.round, eventTypeCode ctx.type] :: payload

/-- Hashes and signatures that hide nothing, payloads that are lists of fields, and a reducer that
appends the inputs. -/
@[reducible]
def transparent : Primitives where
  Hash := List ℕ
  Sig := List (List ℕ)
  Payload := List (List ℕ)
  decHash := inferInstance
  reduce state inputs := state ++ inputs.flatten
  genesisState := []
  computeStateHash state := state.map UInt8.toNat
  computeInputSetHash inputs :=
    (inputs.map fun input => input.length :: input.map UInt8.toNat).flatten
  computeTurnCommitment _ round _ _ _ _ _ := [round]
  sha256 payload := payload.flatten
  verifyAKASignature ctx payload sig key := sig = transparentSignature ctx payload key
  signatureLength sig := 64 * sig.length
  emptySignature := []
  encodeRoundStartPayload round prevStateHash deadline := [[round], prevStateHash, [deadline]]
  encodeInputPayload input := [[input.round], input.data.map UInt8.toNat]
  encodeRoundProposalPayload p :=
    [p.round, p.includedMembers.length] :: p.prevStateHash :: p.inputSetHash :: p.nextStateHash ::
      (p.includedMembers ++ p.includedInputs.map fun input => input.map UInt8.toNat)
  encodeRoundAckPayload a :=
    [[a.round], a.prevStateHash, a.inputSetHash, a.nextStateHash, a.turnCommitment]
  encodeRoundFinalizedPayload f :=
    [9] :: [f.round, f.signerPeerIds.length] :: f.nextStateHash ::
      (f.signerPeerIds ++ (f.signatures.map fun sig => [sig.length] :: sig).flatten)
  encodeSessionAcceptedPayload sessionId configHash := [sessionId, configHash]
  encodeText t := [t]
  decodeRoundStartPayload
    | [_, _, [deadline]] => some ⟨deadline⟩
    | _ => none
  decodeInputPayload
    | [[round], data] => some ⟨round, data.map UInt8.ofNat⟩
    | _ => none
  decodeRoundProposalPayload
    | [round, n] :: prev :: input :: next :: fields =>
      some ⟨round, prev, input, next, fields.take n,
        (fields.drop n).map fun field => field.map UInt8.ofNat⟩
    | _ => none
  decodeRoundAckPayload
    | [[round], prev, input, next, turn] => some ⟨round, prev, input, next, turn⟩
    | _ => none
  decodeRoundFinalizedPayload
    | [9] :: [round, n] :: next :: fields =>
      some ⟨round, next, fields.take n, takeSignatures n (fields.drop n)⟩
    | _ => none

/-- Two members, of which the second one proposes in round 1; one signer is a quorum. -/
def pairConfig : SessionConfig transparent where
  sessionId := [7]
  contextGraphId := [8]
  createdBy := [1]
  membership := [⟨[2], [2]⟩, ⟨[1], [1]⟩]
  membershipRoot := []
  quorumPolicy := ⟨1, 2, 1⟩
  reducerVersion := []
  genesisStateHash := []
  roundTimeout := 1000
  maxRounds := none
  configHash := []
  status := .proposed

def signedEvent (type : AKAEventType) (round : ℕ) (prevStateHash signer : List ℕ) (key : Bytes)
    (nonce : List ℕ) (payload : List (List ℕ)) : AKAEvent transparent where
  mode := AKA_MODE
  type := type
  sessionId := [7]
  round := round
  prevStateHash := prevStateHash
  signerPeerId := signer
  signature := transparentSignature ⟨[9], [8], [7], round, type⟩ payload key
  timestamp := 0
  nonce := nonce
  payload := payload

def pairAck : RoundAckPayload (List ℕ) := ⟨1, [], [1, 5], [5], [1]⟩

def pairProposal : RoundProposalPayload (List ℕ) := ⟨1, [], [1, 5], [5], [[1]], [[5]]⟩

/-- The finalization of round 1, with the ack of the proposer. -/
def pairCertificate : List (List ℕ) :=
  transparent.encodeRoundFinalizedPayload ⟨1, [5], [[1]],
    [transparentSignature ⟨[9], [8], [7], 1, .roundAck⟩ (transparent.encodeRoundAckPayload pairAck)
      [1]]⟩

/-- The events that set up the session and bring the proposal of round 1. -/
def pairEvents : List (AKAEvent transparent) :=
  [signedEvent .sessionAccepted 0 [] [2] [2] [1] [],
    signedEvent .sessionActivated 0 [] [1] [1] [2] [],
    signedEvent .roundProposal 1 [] [1] [1] [3]
      (transparent.encodeRoundProposalPayload pairProposal)]

/-- An event is received and handled without another step in between. -/
def handled (event : AKAEvent transparent) : List (ManagerStep transparent) :=
  .receive event :: List.replicate 11 (.resume 0)

def pairLocal : Local := ⟨[2], [9]⟩

/-- The finalization of round 1, which may be sent with any nonce. -/
def pairFinalized (nonce : List ℕ) : AKAEvent transparent :=
  signedEvent .roundFinalized 1 [] [1] [1] nonce pairCertificate

/-- Round 1, in order. -/
def pairRun : List (ManagerStep transparent) :=
  pairEvents.flatMap handled ++ handled (pairFinalized [4]) ++ [.resume 0]

/-- Round 1, with its finalization once more under another nonce before the first one is
recorded. -/
def pairRunTwice : List (ManagerStep transparent) :=
  pairEvents.flatMap handled ++ [.receive (pairFinalized [4]), .receive (pairFinalized [5])] ++
    List.replicate 26 (.resume 0)

/-- A test for a faithful step, on what the step records. -/
def Manager.RecordsFaithfully (me : Local) (m : Manager P) (step : ManagerStep P) : Prop :=
  ∀ f ∈ (m.stepEffect me step).finalized, (∀ e ∈ m.finalizedRounds, e.1 < f.1) ∧
    P.computeStateHash (P.reduce m.session.latestStateBytes f.2.includedInputs) = f.2.nextStateHash
  deriving Decidable

lemma Manager.faithful_of_recordsFaithfully (h : m.RecordsFaithfully me step) :
    m.Faithful me step := by
  intro round proposal hf
  exact h (round, proposal) (finalized_stepEffect hf).finalized

/-- **State commitment, rounds in order and once.** In a session whose configuration claims the hash
of the genesis state, every run whose finalizations are faithful keeps the commitment in every
state; the initial state has it exactly if that claim is right, and a step keeps it exactly if it is
faithful. -/
theorem state_commitment (P : Primitives) (me : Local) :
    (∀ m, ((managerMachine P me).restrict (Manager.Faithful me)).Reachable m →
      m.session.config.genesisStateHash = P.computeStateHash P.genesisState → m.Committed) ∧
    (∀ config : SessionConfig P, (start config).Committed ↔
      config.genesisStateHash = P.computeStateHash P.genesisState) ∧
    (∀ (m : Manager P) (step : ManagerStep P), m.Committed →
      ((m.exec me step).Committed ↔ m.Faithful me step)) :=
  ⟨fun _ h hgenesis => committed_of_reachable h hgenesis, committed_start_iff,
    fun _ step h => committed_exec_iff h me step⟩

/-- Round 1 is finalized once. -/
theorem state_commitment_one_round :
    ∃ m, ((managerMachine transparent pairLocal).restrict (Manager.Faithful pairLocal)).Reachable
        m ∧
      m.finalizedRounds.map Prod.fst = [1] ∧ m.session.latestStateBytes = [5] ∧ m.Committed := by
  have hr : ((managerMachine transparent pairLocal).restrict (Manager.Faithful pairLocal)).Reachable
      (pairRun.foldl (exec pairLocal) (start pairConfig)) := by
    refine Machine.Reachable.foldl (C := Manager.RecordsFaithfully pairLocal) ?_
      (.init ⟨pairConfig, rfl⟩) (by decide +kernel)
    exact fun _ _ h => ⟨faithful_of_recordsFaithfully h, rfl⟩
  exact ⟨_, hr, by decide +kernel, by decide +kernel,
    (state_commitment transparent pairLocal).1 _ hr (by decide +kernel)⟩

/-- The finalization of round 1 comes twice, the second time with another nonce, before the first
one is recorded: the inputs are reduced twice, and the hash is not that of the state. -/
theorem round_finalized_twice :
    ∃ m, (managerMachine transparent pairLocal).Reachable m ∧
      m.session.config.genesisStateHash =
        transparent.computeStateHash transparent.genesisState ∧
      m.finalizedRounds.map Prod.fst = [1, 1] ∧
      m.session.latestStateHash ≠ transparent.computeStateHash m.session.latestStateBytes ∧
      ¬ m.Committed := by
  have hr : (managerMachine transparent pairLocal).Reachable
      (pairRunTwice.foldl (exec pairLocal) (start pairConfig)) :=
    Machine.Reachable.foldl (C := fun _ _ => True) (fun _ _ _ => rfl) (.init ⟨pairConfig, rfl⟩)
      (by decide +kernel)
  exact ⟨_, hr, by decide +kernel, by decide +kernel, by decide +kernel,
    fun hc => absurd hc.hash (by decide +kernel)⟩

end Dkg.Aka
