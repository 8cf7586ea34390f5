import Dkg.RandomSampling.Challenges
import Dkg.Staking.Effects

/-! # One proof a period

The start of the active period only moves forward, and after a call that reads it the block lies
within the period. A node's challenge carries the start of the period in which it was created: a
proof that was accepted belongs to an earlier period than the node's challenge, or the challenge is
the solved one (`PeriodInv`). So no period has two accepted proofs of a node.
-/

namespace Dkg

open Lib ProofPeriods List
open Function (update update_of_ne update_self)

/-! ## The period -/

namespace ProofPeriods

variable {p p' : ProofPeriods} {epoch number start : ℕ}

/-- Advancing by the whole periods that have passed ends in the period of the block. -/
lemma advance_bounds {start number d : ℕ} (hd : 0 < d) (h : start ≤ number) :
    start + (number - start) / d * d ≤ number ∧
      number < start + (number - start) / d * d + d := by
  have hdiv := Nat.div_add_mod (number - start) d
  have hmod := Nat.mod_lt (number - start) hd
  rw [Nat.mul_comm] at hdiv
  omega

variable (hrun : p.updateAndGetActiveProofPeriodStartBlock epoch number = .ok (start, p'))

include hrun

lemma updateAndGet_spec : ∃ d, p.getEpochProofingPeriodDurationInBlocks epoch = .ok d ∧ 0 < d ∧
      p' = { p with activeProofPeriodStartBlock := start } ∧
      p.activeProofPeriodStartBlock ≤ start ∧ number < start + d ∧
      (p.activeProofPeriodStartBlock ≤ number → start ≤ number) ∧
      (number < p.activeProofPeriodStartBlock + d → start = p.activeProofPeriodStartBlock) := by
  unfold updateAndGetActiveProofPeriodStartBlock at hrun
  obtain ⟨d, hdur, _, hpos, sum, hsum, hrun⟩ := of_bind₃ hrun
  obtain ⟨last, hlast, hrun⟩ := of_bind hrun
  obtain ⟨-, rfl⟩ := addUint_eq_ok.mp hsum
  obtain ⟨-, rfl⟩ := subUint_eq_ok.mp hlast
  have hd : 0 < d := Nat.pos_of_ne_zero (require_eq_ok.mp hpos)
  refine ⟨d, hdur, hd, ?_⟩
  by_cases hover : number > p.activeProofPeriodStartBlock + d - 1
  · rw [if_pos hover] at hrun
    obtain ⟨blocks, hblocks, passed, hpassed, new, hnew, hend⟩ := of_bind₃ hrun
    obtain ⟨hle, rfl⟩ := subUint_eq_ok.mp hblocks
    obtain ⟨-, rfl⟩ := mulUint_eq_ok.mp hpassed
    obtain ⟨-, rfl⟩ := addUint_eq_ok.mp hnew
    cases of_pure hend
    have hbounds := advance_bounds hd hle
    exact ⟨rfl, Nat.le_add_right _ _, hbounds.2, fun _ => hbounds.1, fun hlt => by omega⟩
  · rw [if_neg hover] at hrun
    cases of_pure hrun
    exact ⟨rfl, le_rfl, by omega, id, fun _ => rfl⟩

/-- A second call in the same block finds the period as the first one left it. -/
lemma updateAndGet_again {start' : ℕ} {p'' : ProofPeriods}
    (hagain : p'.updateAndGetActiveProofPeriodStartBlock epoch number = .ok (start', p'')) :
    start' = start ∧ p'' = p' := by
  obtain ⟨d, hdur, -, hp', -, hlt, -, -⟩ := updateAndGet_spec hrun
  obtain ⟨d', hdur', -, hp'', -, -, -, hsame⟩ := updateAndGet_spec hagain
  have hactive : p'.activeProofPeriodStartBlock = start := by rw [hp']
  have hd : p'.getEpochProofingPeriodDurationInBlocks epoch = .ok d := by
    rw [hp']
    exact hdur
  rw [hd] at hdur'
  cases hdur'
  have hstart : start' = start := by
    rw [hsame (by rw [hactive]; exact hlt), hactive]
  refine ⟨hstart, ?_⟩
  rw [hp'', hstart, hp']

end ProofPeriods

/-! ## The calls -/

namespace RandomSampling

variable {h : SamplingHash} {env : SamplingEnv} {c : Chronos} {b : Block} {number : ℕ}
  {w : World} {p p' : ProofPeriods} {sender : ℕ}

lemma pickWeightedChallenge_ne_zero {seed epoch : ℕ} {picked : ℕ × ℕ × ℕ}
    (hrun : _pickWeightedChallenge h env seed epoch = .ok picked) : picked.2.1 ≠ 0 := by
  unfold _pickWeightedChallenge at hrun
  obtain ⟨total, -, _, -, cg, -, hrun⟩ := of_bind₃ hrun
  obtain ⟨_, -, _, -, _, hne, hrun⟩ := of_bind₃ hrun
  obtain ⟨_, -, rfl⟩ := of_bind_pure hrun
  exact require_eq_ok.mp hne

lemma createChallenge_spec (hrun : createChallenge h env c b number w p sender = .ok p') :
    ∃ start q ch,
      p.updateAndGetActiveProofPeriodStartBlock (c.getCurrentEpoch b) number = .ok (start, q) ∧
      p' = q.setNodeChallenge (env.getIdentityId sender) ch ∧
      ch.activeProofPeriodStartBlock = start ∧ ch.solved = false ∧
      ch.knowledgeCollectionId ≠ 0 ∧
      ((p.nodesChallenges (env.getIdentityId sender)).activeProofPeriodStartBlock = start →
        (p.nodesChallenges (env.getIdentityId sender)).solved = false ∧
        (p.nodesChallenges (env.getIdentityId sender)).knowledgeCollectionId = 0) := by
  unfold createChallenge at hrun
  obtain ⟨_, -, ⟨start, q⟩, hupd, hrun⟩ := of_bind₂ hrun
  obtain ⟨_, hold, ⟨ch, q'⟩, hgen, hend⟩ := of_bind₂ hrun
  obtain rfl := of_pure hend
  unfold _generateChallenge at hgen
  obtain ⟨picked, hpicked, ⟨start', q''⟩, hagain, hgen⟩ := of_bind₂ hgen
  obtain ⟨d, -, hend⟩ := of_bind hgen
  obtain ⟨rfl, rfl⟩ := updateAndGet_again hupd hagain
  cases of_pure hend
  refine ⟨_, _, _, hupd, rfl, rfl, rfl, pickWeightedChallenge_ne_zero hpicked, ?_⟩
  intro hstart
  rw [if_pos hstart] at hold
  obtain ⟨_, hsolved, hkc⟩ := of_bind hold
  exact ⟨require_eq_ok.mp hsolved, require_eq_ok.mp hkc⟩

lemma acceptProof_spec {leaf start : ℕ} {merkleProof : List ℕ}
    (hrun : acceptProof h env c b number w p sender leaf merkleProof = .ok (start, p')) :
    ∃ q ch,
      p.updateAndGetActiveProofPeriodStartBlock (c.getCurrentEpoch b) number = .ok (start, q) ∧
      p.nodesChallenges (env.getIdentityId sender) = ch ∧
      p' = q.setNodeChallenge (env.getIdentityId sender) { ch with solved := true } ∧
      ch.activeProofPeriodStartBlock = start ∧ ch.solved = false ∧
      ch.knowledgeCollectionId ≠ 0 := by
  unfold acceptProof at hrun
  obtain ⟨_, -, _, hsolved, ⟨start', q⟩, hupd, hrun⟩ := of_bind₃ hrun
  obtain ⟨_, hactive, _, hleaf, _, -, hend⟩ := of_bind₃ hrun
  cases of_pure hend
  refine ⟨q, _, hupd, rfl, rfl, require_eq_ok.mp hactive, require_eq_ok.mp hsolved, ?_⟩
  -- the challenge of a node that never had one names no collection, and has no leaves
  intro hzero
  apply require_eq_ok.mp hleaf
  left
  rw [hzero]
  exact env.leafCount_zero

end RandomSampling

/-! ## The scores -/

namespace RandomSamplingStorage

lemma appendCheckpoint_spec {r r' : RandomSamplingStorage} {id epoch ts value : ℕ}
    (hrun : r.appendCheckpoint id epoch ts value = .ok r') :
    ∃ ei, r' = { r with nodeEpochIndex := store₂ r.nodeEpochIndex id epoch ei } := by
  unfold appendCheckpoint at hrun
  obtain ⟨_, -, ei, -, hend⟩ := of_bind₂ hrun
  exact ⟨ei, (of_pure hend).symm⟩

end RandomSamplingStorage

/-- What a proof of the node `id` writes: the counter and the index of the node's epoch, and the
score of its period. -/
structure Scored (r : RandomSamplingStorage) (id epoch period : ℕ) (r' : RandomSamplingStorage) :
    Prop where
  count : r'.epochNodeValidProofsCount = store₂ r.epochNodeValidProofsCount epoch id
    (r.epochNodeValidProofsCount epoch id + 1)
  score : ∃ score18, r'.nodeEpochProofPeriodScore = store₃ r.nodeEpochProofPeriodScore
    id epoch period (r.nodeEpochProofPeriodScore id epoch period + score18)
  index : ∃ ei, r'.nodeEpochIndex = store₂ r.nodeEpochIndex id epoch ei

variable {c : Chronos} {b : Block} {w w' : World} {p p' : ProofPeriods}

lemma World.submitProof_scored {id period : ℕ} (hrun : w.submitProof c b id period = .ok w') :
    Scored w.rss id (c.getCurrentEpoch b) period w'.rss := by
  unfold World.submitProof at hrun
  obtain ⟨_, -, _, -, r₁, h₁, hrun⟩ := of_bind₃ hrun
  obtain ⟨css, -, score18, -, r₂, h₂, hrun⟩ := of_bind₃ hrun
  obtain ⟨r₃, h₃, r₄, h₄, r₅, h₅, hend⟩ := of_bind₃ hrun
  obtain rfl := of_pure hend
  rw [inside_eq_ok] at h₁ h₂ h₃ h₄
  obtain ⟨n₁, hn₁, h₁⟩ := of_bind h₁
  obtain ⟨n₂, hn₂, h₂⟩ := of_bind h₂
  obtain ⟨n₃, -, h₃⟩ := of_bind h₃
  obtain ⟨n₄, -, h₄⟩ := of_bind h₄
  obtain ⟨-, rfl⟩ := addUint_eq_ok.mp hn₁
  obtain ⟨-, rfl⟩ := addUint_eq_ok.mp hn₂
  obtain rfl := of_pure h₁
  obtain rfl := of_pure h₂
  obtain rfl := of_pure h₃
  obtain rfl := of_pure h₄
  -- a node without effective stake gets no checkpoint
  by_cases hstake : (css.ledger id).runningNodeEffectiveStake > 0
  · rw [if_pos hstake] at h₅
    obtain ⟨scaled, -, newLast, -, h₅⟩ := of_bind₂ h₅
    obtain ⟨ei, rfl⟩ := RandomSamplingStorage.appendCheckpoint_spec (inside_eq_ok.mp h₅)
    exact ⟨rfl, ⟨score18, rfl⟩, ⟨ei, rfl⟩⟩
  · rw [if_neg hstake] at h₅
    obtain rfl := of_pure h₅
    exact ⟨rfl, ⟨score18, rfl⟩, ⟨_, (store₂_self _ _ _).symm⟩⟩

/-! ## The other transactions -/

/-- The scores that proofs write. -/
def SameScores (r r' : RandomSamplingStorage) : Prop :=
  r'.epochNodeValidProofsCount = r.epochNodeValidProofsCount ∧
  r'.nodeEpochProofPeriodScore = r.nodeEpochProofPeriodScore ∧
  r'.nodeEpochIndex = r.nodeEpochIndex

lemma SameScores.refl (r : RandomSamplingStorage) : SameScores r r := ⟨rfl, rfl, rfl⟩

/-- No transaction of the staking system other than a proof touches them. -/
lemma Effect.sameScores {op : Op} {events : List Event} (h : Effect c b w op w' events)
    (hop : op.isProof ≠ true) : SameScores w.rss w'.rss := by
  rcases h.onlySettled_or_proved with hsettled | ⟨_, _, _, _, rfl, _⟩
  · exact ⟨hsettled.validProofs, hsettled.periodScore, hsettled.index⟩
  · exact absurd rfl hop

/-! ## Steps -/

/-- The calls that bring the active period up to date. -/
def SamplingOp.ReadsPeriod : SamplingOp → Prop
  | createChallenge .. => True
  | submitProof .. => True
  | updateAndGetActiveProofPeriodStartBlock => True
  | setProofingPeriodDurationInBlocks _ => False
  | staking _ => False

/-- What a transaction does to the challenges, the scores and the log. -/
inductive ChallengeEffect (epoch : ℕ) (s s' : SamplingState) : Prop
  | quiet :
      s'.periods.nodesChallenges = s.periods.nodesChallenges → s'.log = s.log →
      SameScores s.world.rss s'.world.rss → ChallengeEffect epoch s s'
  | challenge (id : ℕ) (ch : Challenge) :
      s'.periods.nodesChallenges = update s.periods.nodesChallenges id ch →
      ch.activeProofPeriodStartBlock = s'.periods.activeProofPeriodStartBlock →
      ch.solved = false → ch.knowledgeCollectionId ≠ 0 →
      ((s.periods.nodesChallenges id).activeProofPeriodStartBlock
          = s'.periods.activeProofPeriodStartBlock →
        (s.periods.nodesChallenges id).solved = false ∧
        (s.periods.nodesChallenges id).knowledgeCollectionId = 0) →
      s'.log = s.log ++ [.challengeCreated id s'.periods.activeProofPeriodStartBlock
        ch.knowledgeCollectionId ch.chunkId] →
      SameScores s.world.rss s'.world.rss → ChallengeEffect epoch s s'
  | proof (id : ℕ) (ch : Challenge) :
      s.periods.nodesChallenges id = ch →
      s'.periods.nodesChallenges = update s.periods.nodesChallenges id { ch with solved := true } →
      ch.activeProofPeriodStartBlock = s'.periods.activeProofPeriodStartBlock →
      ch.solved = false → ch.knowledgeCollectionId ≠ 0 →
      s'.log = s.log ++ [.proofAccepted id s'.periods.activeProofPeriodStartBlock
        ch.knowledgeCollectionId ch.chunkId epoch] →
      Scored s.world.rss id epoch s'.periods.activeProofPeriodStartBlock s'.world.rss →
      ChallengeEffect epoch s s'

/-- The block lies in the active period, which has the length of the epoch. -/
def Within (p : ProofPeriods) (epoch number : ℕ) : Prop :=
  ∃ d, p.getEpochProofingPeriodDurationInBlocks epoch = .ok d ∧
    p.activeProofPeriodStartBlock ≤ number ∧ number < p.activeProofPeriodStartBlock + d

lemma ProofPeriods.updateAndGet_within {epoch number start : ℕ}
    (hrun : p.updateAndGetActiveProofPeriodStartBlock epoch number = .ok (start, p'))
    (hle : p.activeProofPeriodStartBlock ≤ number) : Within p' epoch number := by
  obtain ⟨d, hdur, -, rfl, -, hlt, hstart, -⟩ := updateAndGet_spec hrun
  exact ⟨d, hdur, hstart hle, hlt⟩

lemma ProofPeriods.setProofingPeriodDuration_spec {duration : ℕ}
    (hrun : p.setProofingPeriodDurationInBlocks c b duration = .ok p') :
    ∃ durations, p' = { p with proofingPeriodDurations := durations } := by
  unfold setProofingPeriodDurationInBlocks at hrun
  obtain ⟨_, -, effective, -, hrun⟩ := of_bind₂ hrun
  split at hrun
  next => cases hrun
  next latest _ =>
    split at hrun
    next => exact ⟨_, (of_pure hrun).symm⟩
    next => exact ⟨_, (of_pure hrun).symm⟩

/-- **What a step can do.** -/
lemma samplingStep_effect {h : SamplingHash} {s s' : SamplingState} {l : NumberedBlock × SamplingOp}
    (hstep : samplingStep h c s l s') (hactive : s.periods.activeProofPeriodStartBlock ≤ s.number) :
    s.periods.activeProofPeriodStartBlock ≤ s'.periods.activeProofPeriodStartBlock ∧
      s'.periods.activeProofPeriodStartBlock ≤ s'.number ∧
      (l.2.ReadsPeriod → Within s'.periods (c.getCurrentEpoch l.1.2) l.1.1) ∧
      ChallengeEffect (c.getCurrentEpoch l.1.2) s s' := by
  obtain ⟨⟨number, b⟩, op⟩ := l
  obtain ⟨world, periods, last, log⟩ := s
  obtain ⟨world', periods', last', log'⟩ := s'
  obtain ⟨hnumber, rfl, events, hrun, rfl⟩ := hstep
  simp only at hnumber hrun hactive ⊢
  have hle : periods.activeProofPeriodStartBlock ≤ last' := hactive.trans hnumber
  cases op with
  | createChallenge env sender =>
    obtain ⟨q, hcreate, hend⟩ := of_bind hrun
    cases of_pure hend
    obtain ⟨start, q, ch, hupd, rfl, hch, hsolved, hkc, hold⟩ :=
      RandomSampling.createChallenge_spec (inside_eq_ok.mp hcreate)
    have hwithin := updateAndGet_within hupd hle
    obtain ⟨d, -, -, rfl, hforward, -, hstart, -⟩ := updateAndGet_spec hupd
    refine ⟨hforward, hstart hle, fun _ => hwithin, .challenge _ ch rfl hch hsolved hkc hold ?_
      (.refl _)⟩
    simp [setNodeChallenge]
  | submitProof env sender leaf merkleProof =>
    obtain ⟨out, hsubmit, hend⟩ := of_bind hrun
    cases of_pure hend
    obtain ⟨⟨start, q'⟩, hacc, hsubmit⟩ := of_bind hsubmit
    obtain ⟨w₁, hscores, rfl⟩ := of_bind_pure hsubmit
    obtain ⟨q, ch, hupd, hch, rfl, hchstart, hsolved, hkc⟩ :=
      RandomSampling.acceptProof_spec (inside_eq_ok.mp hacc)
    have hwithin := updateAndGet_within hupd hle
    obtain ⟨d, -, -, rfl, hforward, -, hstart, -⟩ := updateAndGet_spec hupd
    refine ⟨hforward, hstart hle, fun _ => hwithin,
      .proof _ ch hch rfl hchstart hsolved hkc ?_ (World.submitProof_scored hscores)⟩
    simp [hch]
  | updateAndGetActiveProofPeriodStartBlock =>
    obtain ⟨⟨start, q⟩, hupd, hend⟩ := of_bind hrun
    cases of_pure hend
    rw [inside_eq_ok] at hupd
    have hwithin := updateAndGet_within hupd hle
    obtain ⟨d, -, -, rfl, hforward, -, hstart, -⟩ := updateAndGet_spec hupd
    exact ⟨hforward, hstart hle, fun _ => hwithin, .quiet rfl (append_nil _) (.refl _)⟩
  | setProofingPeriodDurationInBlocks duration =>
    obtain ⟨q, hset, hend⟩ := of_bind hrun
    cases of_pure hend
    obtain ⟨durations, rfl⟩ := setProofingPeriodDuration_spec (inside_eq_ok.mp hset)
    exact ⟨le_rfl, hle, False.elim, .quiet rfl (append_nil _) (.refl _)⟩
  | staking op =>
    simp only [SamplingOp.run] at hrun
    split at hrun
    next => cases hrun
    next hop =>
      obtain ⟨out, hop', hend⟩ := of_bind hrun
      cases of_pure hend
      exact ⟨le_rfl, hle, False.elim,
        .quiet rfl (append_nil _) ((Op.run_effect hop').sameScores hop)⟩

/-! ## The invariant -/

namespace SamplingEvent

/-- A proof of the node `id` in the period that starts at `start`. -/
def isProof (id start : ℕ) : SamplingEvent → Bool
  | .proofAccepted id' start' _ _ _ => id' = id ∧ start' = start
  | .challengeCreated .. => false

/-- A challenge of the node `id` in the period that starts at `start`. -/
def isChallenge (id start : ℕ) : SamplingEvent → Bool
  | .challengeCreated id' start' _ _ => id' = id ∧ start' = start
  | .proofAccepted .. => false

end SamplingEvent

/-- The challenges against the active period and the log. -/
structure PeriodInv (s : SamplingState) : Prop where
  active : s.periods.activeProofPeriodStartBlock ≤ s.number
  started : ∀ id, (s.periods.nodesChallenges id).activeProofPeriodStartBlock
    ≤ s.periods.activeProofPeriodStartBlock
  proved : ∀ id start kc chunk e, .proofAccepted id start kc chunk e ∈ s.log →
    start < (s.periods.nodesChallenges id).activeProofPeriodStartBlock ∨
    start = (s.periods.nodesChallenges id).activeProofPeriodStartBlock ∧
      (s.periods.nodesChallenges id).solved = true
  challenged : ∀ id start kc chunk, .challengeCreated id start kc chunk ∈ s.log →
    start < (s.periods.nodesChallenges id).activeProofPeriodStartBlock ∨
    start = (s.periods.nodesChallenges id).activeProofPeriodStartBlock ∧
      (s.periods.nodesChallenges id).knowledgeCollectionId ≠ 0
  created : ∀ id, (s.periods.nodesChallenges id).knowledgeCollectionId ≠ 0 →
    .challengeCreated id (s.periods.nodesChallenges id).activeProofPeriodStartBlock
      (s.periods.nodesChallenges id).knowledgeCollectionId
      (s.periods.nodesChallenges id).chunkId ∈ s.log

/-- What the log says: a node has one challenge and one proof in a period, and the proof is of
the challenge that was created before it. -/
structure LogInv (log : List SamplingEvent) : Prop where
  proofs : ∀ id start, log.countP (SamplingEvent.isProof id start) ≤ 1
  challenges : ∀ id start, log.countP (SamplingEvent.isChallenge id start) ≤ 1
  matched : ∀ id start kc chunk e before after,
    log = before ++ .proofAccepted id start kc chunk e :: after →
    .challengeCreated id start kc chunk ∈ before

section

variable {epoch : ℕ} {s s' : SamplingState}

variable {id next start kc chunk : ℕ} {ch : Challenge} {α : Type} {log : List α} {x : α}

section

variable (hinv : PeriodInv s)

include hinv

lemma PeriodInv.proved_before {e : ℕ}
    (hle : (s.periods.nodesChallenges id).activeProofPeriodStartBlock ≤ next)
    (hold : (s.periods.nodesChallenges id).activeProofPeriodStartBlock = next →
      (s.periods.nodesChallenges id).solved = false)
    (hmem : .proofAccepted id start kc chunk e ∈ s.log) : start < next := by
  obtain hlt | ⟨rfl, htrue⟩ := hinv.proved id start kc chunk e hmem
  · exact hlt.trans_le hle
  · apply lt_of_le_of_ne hle
    intro hsame
    rw [hold hsame] at htrue
    cases htrue

/-- A node that gets a challenge for a period had none in it. -/
lemma PeriodInv.challenged_before
    (hle : (s.periods.nodesChallenges id).activeProofPeriodStartBlock ≤ next)
    (hold : (s.periods.nodesChallenges id).activeProofPeriodStartBlock = next →
      (s.periods.nodesChallenges id).knowledgeCollectionId = 0)
    (hmem : .challengeCreated id start kc chunk ∈ s.log) : start < next := by
  obtain hlt | ⟨rfl, hne⟩ := hinv.challenged id start kc chunk hmem
  · exact hlt.trans_le hle
  · exact lt_of_le_of_ne hle fun hsame => hne (hold hsame)

variable (hforward : s.periods.activeProofPeriodStartBlock ≤ s'.periods.activeProofPeriodStartBlock)

include hforward

variable (hactive : s'.periods.activeProofPeriodStartBlock ≤ s'.number)

include hactive

lemma PeriodInv.challenge
    (hch : s'.periods.nodesChallenges = update s.periods.nodesChallenges id ch)
    (hstart : ch.activeProofPeriodStartBlock = s'.periods.activeProofPeriodStartBlock)
    (hkc : ch.knowledgeCollectionId ≠ 0)
    (hold : (s.periods.nodesChallenges id).activeProofPeriodStartBlock
        = s'.periods.activeProofPeriodStartBlock →
      (s.periods.nodesChallenges id).solved = false ∧
      (s.periods.nodesChallenges id).knowledgeCollectionId = 0)
    (hlog : s'.log = s.log ++ [.challengeCreated id s'.periods.activeProofPeriodStartBlock
      ch.knowledgeCollectionId ch.chunkId]) : PeriodInv s' := by
  have hbefore := (hinv.started id).trans hforward
  refine ⟨hactive, ?_, ?_, ?_, ?_⟩ <;> rw [hch]
  · intro id'
    by_cases hid : id' = id
    · rw [hid, update_self, hstart]
    · rw [update_of_ne hid]
      exact (hinv.started id').trans hforward
  · intro id' start kc chunk e hmem
    rw [hlog] at hmem
    have hmem : SamplingEvent.proofAccepted id' start kc chunk e ∈ s.log := by simpa using hmem
    by_cases hid : id' = id
    · rw [hid] at hmem ⊢
      rw [update_self, hstart]
      exact .inl (hinv.proved_before hbefore (fun hsame => (hold hsame).1) hmem)
    · rw [update_of_ne hid]
      exact hinv.proved id' start kc chunk e hmem
  · intro id' start kc chunk hmem
    rw [hlog, mem_append, mem_singleton] at hmem
    by_cases hid : id' = id
    · rw [hid] at hmem ⊢
      rw [update_self, hstart]
      obtain hmem | hnew := hmem
      · exact .inl (hinv.challenged_before hbefore (fun hsame => (hold hsame).2) hmem)
      · cases hnew
        exact .inr ⟨rfl, hkc⟩
    · rw [update_of_ne hid]
      obtain hmem | hnew := hmem
      · exact hinv.challenged id' start kc chunk hmem
      · cases hnew
        exact absurd rfl hid
  · intro id' hne
    rw [hlog, mem_append, mem_singleton]
    by_cases hid : id' = id
    · rw [hid, update_self, hstart]
      right
      rfl
    · rw [update_of_ne hid] at hne ⊢
      left
      exact hinv.created id' hne

lemma PeriodInv.proof (hold : s.periods.nodesChallenges id = ch) (hch : s'.periods.nodesChallenges
      = update s.periods.nodesChallenges id { ch with solved := true })
    (hstart : ch.activeProofPeriodStartBlock = s'.periods.activeProofPeriodStartBlock)
    (hlog : s'.log = s.log ++ [.proofAccepted id s'.periods.activeProofPeriodStartBlock
      ch.knowledgeCollectionId ch.chunkId epoch]) : PeriodInv s' := by
  -- the challenge keeps its period and its collection
  have hkept : ∀ id', (s'.periods.nodesChallenges id').activeProofPeriodStartBlock
      = (s.periods.nodesChallenges id').activeProofPeriodStartBlock ∧
      (s'.periods.nodesChallenges id').knowledgeCollectionId
      = (s.periods.nodesChallenges id').knowledgeCollectionId ∧
      (s'.periods.nodesChallenges id').chunkId
      = (s.periods.nodesChallenges id').chunkId := by
    intro id'
    rw [hch]
    by_cases hid : id' = id
    · rw [hid, update_self, hold]
      exact ⟨rfl, rfl, rfl⟩
    · rw [update_of_ne hid]
      exact ⟨rfl, rfl, rfl⟩
  refine ⟨hactive, ?_, ?_, ?_, ?_⟩
  · intro id'
    rw [(hkept id').1]
    exact (hinv.started id').trans hforward
  · intro id' start kc chunk e hmem
    rw [hlog, mem_append, mem_singleton] at hmem
    rw [(hkept id').1]
    obtain hmem | hnew := hmem
    · obtain hlt | ⟨heq, htrue⟩ := hinv.proved id' start kc chunk e hmem
      · exact .inl hlt
      · refine .inr ⟨heq, ?_⟩
        rw [hch]
        by_cases hid : id' = id
        · rw [hid, update_self]
        · rw [update_of_ne hid]
          exact htrue
    · cases hnew
      refine .inr ⟨?_, ?_⟩
      · rw [hold, hstart]
      · rw [hch, update_self]
  · intro id' start kc chunk hmem
    rw [(hkept id').1, (hkept id').2.1]
    rw [hlog] at hmem
    exact hinv.challenged id' start kc chunk (by simpa using hmem)
  · intro id' hne
    rw [(hkept id').2.1] at hne
    rw [(hkept id').1, (hkept id').2.1, (hkept id').2.2, hlog]
    exact mem_append_left _ (hinv.created id' hne)

/-- **The step lemma** of the proof periods. -/
lemma PeriodInv.step (heff : ChallengeEffect epoch s s') : PeriodInv s' := by
  cases heff with
  | quiet hch hlog hsame =>
    refine ⟨hactive, ?_, ?_, ?_, ?_⟩ <;> rw [hch]
    · exact fun id => (hinv.started id).trans hforward
    · rw [hlog]
      exact hinv.proved
    · rw [hlog]
      exact hinv.challenged
    · rw [hlog]
      exact hinv.created
  | challenge id ch hch hstart hsolved hkc hold hlog hsame =>
    exact hinv.challenge hforward hactive hch hstart hkc hold hlog
  | proof id ch hold hch hstart hsolved hkc hlog hscored =>
    exact hinv.proof hforward hactive hold hch hstart hlog

end

lemma countP_snoc_le_one {q : α → Bool} (hlog : log.countP q ≤ 1)
    (hx : q x = true → ∀ y ∈ log, q y = false) : (log ++ [x]).countP q ≤ 1 := by
  rw [countP_append, countP_singleton]
  split
  next hq =>
    have hzero : log.countP q = 0 := by
      rw [countP_eq_zero]
      intro y hy
      rw [hx hq y hy]
      exact Bool.false_ne_true
    omega
  next => exact hlog

lemma snoc_eq_append_cons {before after : List α} {y : α}
    (heq : log ++ [x] = before ++ y :: after) :
    (log = before ∧ x = y) ∨ ∃ after', log = before ++ y :: after' := by
  obtain rfl | ⟨after', z, rfl⟩ := eq_nil_or_concat' after
  · left
    exact append_inj' heq rfl |>.imp_right singleton_inj.mp
  · right
    rw [← cons_append, ← append_assoc] at heq
    exact ⟨after', (append_inj' heq rfl).1⟩

lemma LogInv.step (hlog : LogInv s.log) (hinv : PeriodInv s)
    (hforward : s.periods.activeProofPeriodStartBlock ≤ s'.periods.activeProofPeriodStartBlock)
    (heff : ChallengeEffect epoch s s') : LogInv s'.log := by
  cases heff with
  | quiet _ hsame _ =>
    rw [hsame]
    exact hlog
  | challenge id ch _ hstart hsolved hkc hold hnew _ =>
    rw [hnew]
    have hbefore := (hinv.started id).trans hforward
    refine ⟨?_, ?_, ?_⟩
    · intro id' start
      apply countP_snoc_le_one (hlog.proofs id' start)
      intro hq
      cases hq
    · intro id' start
      apply countP_snoc_le_one (hlog.challenges id' start)
      intro hq y hy
      obtain ⟨rfl, rfl⟩ := of_decide_eq_true hq
      cases y with
      | proofAccepted => rfl
      | challengeCreated id' start kc chunk =>
        apply decide_eq_false
        rintro ⟨rfl, rfl⟩
        exact lt_irrefl _ (hinv.challenged_before hbefore (fun hsame => (hold hsame).2) hy)
    · intro id' start kc chunk e before after heq
      obtain ⟨-, hbad⟩ | ⟨after', heq⟩ := snoc_eq_append_cons heq
      · cases hbad
      · exact hlog.matched id' start kc chunk e before after' heq
  | proof id ch hold _ hstart hsolved hkc hnew _ =>
    rw [hnew]
    refine ⟨?_, ?_, ?_⟩
    · intro id' start
      apply countP_snoc_le_one (hlog.proofs id' start)
      intro hq y hy
      obtain ⟨rfl, rfl⟩ := of_decide_eq_true hq
      cases y with
      | challengeCreated => rfl
      | proofAccepted id' start kc chunk e =>
        apply decide_eq_false
        rintro ⟨rfl, rfl⟩
        obtain hlt | ⟨-, htrue⟩ := hinv.proved _ _ kc chunk e hy
        · rw [hold, hstart] at hlt
          exact lt_irrefl _ hlt
        · rw [hold, hsolved] at htrue
          cases htrue
    · intro id' start
      apply countP_snoc_le_one (hlog.challenges id' start)
      intro hq
      cases hq
    · intro id' start kc chunk e before after heq
      obtain ⟨hlast, hbad⟩ | ⟨after', heq⟩ := snoc_eq_append_cons heq
      · cases hbad
        rw [← hlast, ← hstart, ← hold]
        exact hinv.created id (by rw [hold]; exact hkc)
      · exact hlog.matched id' start kc chunk e before after' heq

end

/-! ## Runs -/

section

variable {h : SamplingHash} {c : Chronos} {s : SamplingState}

lemma reachable_periodInv (hs : (samplingMachine h c).Reachable s) :
    PeriodInv s ∧ LogInv s.log := by
  refine Machine.Reachable.invariant (P := fun s => PeriodInv s ∧ LogInv s.log) ?_ ?_ hs
  · rintro s ⟨-, hactive, hch, hlog⟩
    constructor
    · refine ⟨?_, ?_, ?_, ?_, ?_⟩
      · rw [hactive]
        exact Nat.zero_le _
      · intro id
        rw [hch]
        exact Nat.zero_le _
      · simp [hlog]
      · simp [hlog]
      · intro id hne
        rw [hch] at hne
        exact absurd rfl hne
    · rw [hlog]
      refine ⟨?_, ?_, ?_⟩
      · simp
      · simp
      · simp
  · rintro s l s' ⟨hinv, hlog⟩ hstep
    obtain ⟨hforward, hactive, -, heff⟩ := samplingStep_effect hstep hinv.active
    exact ⟨hinv.step hforward hactive heff, hlog.step hinv hforward heff⟩

/-- A transaction between two states of a run: the period moves forward and contains the block,
and scores are written by accepted proofs only, one node and one period each. -/
structure PeriodStep (epoch number : ℕ) (op : SamplingOp) (s s' : SamplingState) : Prop where
  forward : s.periods.activeProofPeriodStartBlock ≤ s'.periods.activeProofPeriodStartBlock
  within : op.ReadsPeriod → Within s'.periods epoch number
  scores : SameScores s.world.rss s'.world.rss ∨
    ∃ id kc chunk,
      s'.log = s.log ++ [.proofAccepted id s'.periods.activeProofPeriodStartBlock kc chunk epoch] ∧
      Scored s.world.rss id epoch s'.periods.activeProofPeriodStartBlock s'.world.rss

/-- **The proof periods.** In every run, at block numbers that do not decrease and with durations
changed at any time, each transaction is a `PeriodStep`, and the log has at most one proof of a
node in a period, of the one challenge that was created for the node in this period. -/
theorem one_proof_per_period (h : SamplingHash) (c : Chronos) (s : SamplingState)
    (hs : (samplingMachine h c).Reachable s) :
    LogInv s.log ∧ ∀ l s', (samplingMachine h c).step s l s' →
      PeriodStep (c.getCurrentEpoch l.1.2) l.1.1 l.2 s s' := by
  obtain ⟨hinv, hlog⟩ := reachable_periodInv hs
  refine ⟨hlog, ?_⟩
  intro l s' hstep
  obtain ⟨hforward, -, hwithin, heff⟩ := samplingStep_effect hstep hinv.active
  refine ⟨hforward, hwithin, ?_⟩
  cases heff with
  | quiet _ _ hsame | challenge _ _ _ _ _ _ _ _ hsame => exact .inl hsame
  | proof id ch _ _ _ _ _ hnew hscored => exact .inr ⟨id, _, _, hnew, hscored⟩

/-- One context graph with the collection `3`, of two leaves; the account `n` has the identity
`n`. -/
def samplingEnv : SamplingEnv where
  getIdentityId := fun account => account
  getLatestContextGraphId := 1
  isContextGraphActive := fun _ => true
  getIsCurated := fun _ => false
  getCGValueAtEpoch := fun _ _ => pure 5
  contextGraphKCList := fun _ => [3]
  getEndEpoch := fun _ => 10
  getMerkleLeafCount := fun kc => if kc = 3 then 2 else 0
  getLatestMerkleRoot := fun _ => 12
  challengeSeed := fun _ => 0
  leafCount_zero := rfl

/-- A node with stake gets a challenge in the first period and solves it; then the duration
changes from `10` to `4` blocks, and the period of the block `33` starts at `32`. -/
theorem one_proof_per_period_longer :
    ∃ s, (samplingMachine ⟨fun seed _ => seed, fun x y => x + y⟩ hourlyChronos).Reachable s ∧
      s.log = [.challengeCreated 1 0 3 0, .proofAccepted 1 0 3 0 1] ∧
      s.periods.activeProofPeriodStartBlock = 32 ∧ LogInv s.log := by
  obtain ⟨s, hrun, htest⟩ := exists_of_succeeds
    (x := Machine.runList (samplingExec ⟨fun seed _ => seed, fun x y => x + y⟩ hourlyChronos)
      [((3, 1001), .staking (.createProfile 9 1000)),
       ((4, 1002), .staking (.createConviction 7 1 100 0)),
       ((5, 1003), .createChallenge samplingEnv 1),
       ((9, 1004), .submitProof samplingEnv 1 5 [7]),
       ((12, 1005), .setProofingPeriodDurationInBlocks 4),
       ((33, 4700), .updateAndGetActiveProofPeriodStartBlock)]
      ⟨sysStart.world, ⟨[⟨10, 1⟩], 0, fun _ => Challenge.zero⟩, 0, []⟩)
    (t := fun s => decide (s.log = [.challengeCreated 1 0 3 0, .proofAccepted 1 0 3 0 1] ∧
      s.periods.activeProofPeriodStartBlock = 32))
    (by decide +kernel)
  have hr : (samplingMachine ⟨fun seed _ => seed, fun x y => x + y⟩ hourlyChronos).Reachable s := by
    refine Machine.Reachable.runList (samplingStep_of_samplingExec _ _) (.init ?_) hrun
    exact ⟨⟨⟨10, 1⟩, by norm_num, rfl⟩, rfl, rfl, rfl⟩
  obtain ⟨hlog, hactive⟩ := of_decide_eq_true htest
  exact ⟨s, hr, hlog, hactive, (one_proof_per_period _ hourlyChronos s hr).1⟩

end

end Dkg
