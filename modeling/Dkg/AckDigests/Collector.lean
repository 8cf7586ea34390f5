import Mathlib.Data.Int.Bitwise
import Dkg.AckDigests.Agreement
import Dkg.Publisher.Terms
import Dkg.Lib.Machine

/-! # Collecting ACKs

`ACKCollector.collect` asks all connected core peers at once for a signature of the publish digest.
Each request is a task of its own: it may fail and is tried again, its answer is checked, and only
then it is compared with what the other tasks have collected so far. The tasks go on in any order;
the call returns when enough ACKs are there, or no task is left, or fails when the time is over.

What the peers answer is arbitrary. Recovery of signers and the registry of identities are
parameters.
-/

namespace Dkg.AckCollection

open Lib List

/-! ## Messages -/

/-- A `uint64` field of a message as it is decoded: a number, or two signed words. -/
inductive DecodedUint64
  | number (n : ℕ)
  | long (low high : ℤ)
  deriving DecidableEq

/-- A 32-bit word, read as a signed one. -/
def signedWord (n : ℕ) : ℤ := if n < 2 ^ 31 then n else n - 2 ^ 32

def DecodedUint64.Decodes (sent : ℕ) : DecodedUint64 → Prop
  | number n => n = sent
  | long low high => low = signedWord (sent % 2 ^ 32) ∧ high = signedWord (sent / 2 ^ 32)

/-- `BigInt(low) | (BigInt(high) << 32n)`, unless it is a number. -/
def DecodedUint64.toBigInt : DecodedUint64 → ℤ
  | number n => n
  | long low high => Int.lor low (high * 2 ^ 32)

/-- A core node's answer, as it is decoded. -/
structure StorageACKMsg where
  (merkleRoot coreNodeSignatureR coreNodeSignatureVS : List UInt8)
  nodeIdentityId : DecodedUint64
  deriving DecidableEq

/-- An answer that has passed the checks. -/
structure CollectedACK where
  peerId : List Char
  (signatureR signatureVS : List UInt8)
  nodeIdentityId : ℤ
  deriving DecidableEq

open CollectedACK

/-- The arguments of `collect` that the checks read. -/
structure CollectParams where
  merkleRoot : List UInt8
  (contextGraphId publicByteSize kaCount chainId : ℤ)
  kav10Address : List Char
  requiredACKs : Option ℕ
  (epochs tokenAmount : Option ℤ)
  merkleLeafCount : ℤ

structure ACKCollectionResult where
  acks : List CollectedACK
  merkleRoot : List UInt8
  contextGraphId : ℤ
  deriving DecidableEq

inductive CollectError
  | merkleLeafCount (got : ℤ)
  | noCorePeers
  | quorumImpossible (need connected : ℕ)
  | digest (e : AckError)
  | storageAckTimeout (got required : ℕ)
  | storageAckInsufficient (got required tried : ℕ)
  deriving DecidableEq

def DEFAULT_REQUIRED_ACKS : ℕ := 3

def MAX_RETRIES : ℕ := 3

namespace CollectParams

variable (params : CollectParams)

def required : ℕ := params.requiredACKs.getD DEFAULT_REQUIRED_ACKS

/-- The arguments of `computePublishACKDigest`. -/
def digestInput : PublishACKInput where
  chainId := params.chainId
  kav10Address := params.kav10Address
  contextGraphId := params.contextGraphId
  merkleRoot := params.merkleRoot
  kaCount := params.kaCount
  byteSize := params.publicByteSize
  epochs := params.epochs.getD 1
  tokenAmount := params.tokenAmount.getD 0
  merkleLeafCount := params.merkleLeafCount

end CollectParams

/-- An answer of `verifyIdentity`, or its failure. -/
inductive Verification
  | valid
  | notValid
  | threw
  deriving DecidableEq

/-- What the collector calls: the hash, the recovery of signers, which has no result for a malformed
signature, and, where it is there, the answers that `verifyIdentity` may give. -/
structure Deps (A : Type) where
  keccak256 : List UInt8 → Bytes32
  recoverAddress : Bytes32 → List UInt8 → List UInt8 → Option A
  verifyIdentity : Option (A → ℤ → Verification → Prop)

variable {A : Type}

/-- EIP-191. -/
def hashMessage (keccak256 : List UInt8 → Bytes32) (digest : Bytes32) : Bytes32 :=
  keccak256 ("\x19Ethereum Signed Message:\n32".toUTF8.toList ++ digest.val)

def Deps.recoverACKSigner (deps : Deps A) (ack : StorageACKMsg) (expectedDigest : Bytes32) :
    Option A :=
  deps.recoverAddress (hashMessage deps.keccak256 expectedDigest) ack.coreNodeSignatureR
    ack.coreNodeSignatureVS

/-- The ACK of a message that has been checked. -/
def StorageACKMsg.collected (ack : StorageACKMsg) (peerId : List Char) : CollectedACK where
  peerId := peerId
  signatureR := ack.coreNodeSignatureR
  signatureVS := ack.coreNodeSignatureVS
  nodeIdentityId := ack.nodeIdentityId.toBigInt

/-! ## The call -/

/-- Where the task of a peer is. -/
inductive TaskPhase
  | requesting (attempt : ℕ)
  | verifying (attempt : ℕ) (ack : StorageACKMsg)
  | returned (ack : Option CollectedACK)
  | settled
  deriving DecidableEq

/-- A message that a peer has sent, with the number in its `uint64` field. -/
structure Received where
  peerId : List Char
  sentIdentityId : ℕ
  ack : StorageACKMsg
  deriving DecidableEq

/-- The variables of a call of `collect`, and all messages that it has received. -/
structure Collection where
  ackDigest : Bytes32
  phase : ℕ → TaskPhase
  collected : List CollectedACK
  seenPeers : List (List Char)
  seenIdentityIds : List ℤ
  quorum : Bool
  outcome : Option (Except CollectError ACKCollectionResult)
  received : List Received

/-- No task is started when no ACK is required. -/
def Collection.start (params : CollectParams) (ackDigest : Bytes32) : Collection where
  ackDigest := ackDigest
  phase := fun _ => if 0 ≥ params.required then .settled else .requesting 0
  collected := []
  seenPeers := []
  seenIdentityIds := []
  quorum := false
  outcome := none
  received := []

section

variable (deps : Deps A) (params : CollectParams) (corePeers : List (List Char))

/-- The call up to its first `await`. -/
def startCollect : Except CollectError Collection :=
  if params.merkleLeafCount < 1 then .error (.merkleLeafCount params.merkleLeafCount)
  else if corePeers.length = 0 then .error .noCorePeers
  else if corePeers.length < params.required then
    .error (.quorumImpossible params.required corePeers.length)
  else
    match computePublishACKDigest deps.keccak256 params.digestInput with
    | .error e => .error (.digest e)
    | .ok ackDigest => .ok (.start params ackDigest)

namespace Collection

variable (s : Collection)

def setPhase (i : ℕ) (phase : TaskPhase) : Collection :=
  { s with phase := Function.update s.phase i phase }

/-- The `catch` of an attempt. -/
def retry (i attempt : ℕ) : Collection :=
  s.setPhase i (if attempt + 1 < MAX_RETRIES then .requesting (attempt + 1) else .returned none)

/-- An answer is decoded and its signature and Merkle root are checked. -/
def answer (i attempt : ℕ) (msg : Received) : Collection :=
  { s.setPhase i
      (if deps.recoverACKSigner msg.ack s.ackDigest = none then .returned none
      else if msg.ack.merkleRoot ≠ params.merkleRoot then .returned none
      else if deps.verifyIdentity = none then .returned (some (msg.ack.collected msg.peerId))
      else .verifying attempt msg.ack) with
    received := s.received ++ [msg] }

/-- The identity is verified, or not. -/
def conclude (i attempt : ℕ) (ack : CollectedACK) : Verification → Collection
  | .valid => s.setPhase i (.returned (some ack))
  | .notValid => s.setPhase i (.returned none)
  | .threw => s.retry i attempt

/-- The task goes on after `requestACK`. -/
def settle (i : ℕ) : Option CollectedACK → Collection
  | none => s.setPhase i .settled
  | some ack =>
    if ack.peerId ∉ s.seenPeers ∧ ack.nodeIdentityId ∉ s.seenIdentityIds then
      { s.setPhase i .settled with
        collected := s.collected ++ [ack]
        seenPeers := ack.peerId :: s.seenPeers
        seenIdentityIds := ack.nodeIdentityId :: s.seenIdentityIds
        quorum := s.quorum || decide (s.collected.length + 1 ≥ params.required) }
    else s.setPhase i .settled

/-- `collect` goes on after its `await`. -/
def finish : Collection :=
  { s with
    outcome := some (if s.collected.length < params.required then
        .error (.storageAckInsufficient s.collected.length params.required corePeers.length)
      else .ok ⟨s.collected.take params.required, params.merkleRoot, params.contextGraphId⟩) }

def timeout : Collection :=
  { s with
    outcome := some (.error (.storageAckTimeout s.collected.length params.required)) }

end Collection

inductive CollectEvent
  | failed (i : ℕ)
  | answered (i : ℕ) (msg : Received)
  | verified (i : ℕ) (verification : Verification)
  | admitted (i : ℕ)
  | finished
  | timedOut

/-- What may happen next. A message comes from the peer of its task, and its field is decoded. -/
inductive CollectStep : Collection → CollectEvent → Collection → Prop
  | failed (s : Collection) (i attempt : ℕ) (hphase : s.phase i = .requesting attempt) :
      CollectStep s (.failed i) (s.retry i attempt)
  | answered (s : Collection) (i attempt : ℕ) (msg : Received)
      (hphase : s.phase i = .requesting attempt) (hpeer : corePeers[i]? = some msg.peerId)
      (hsent : msg.sentIdentityId < 2 ^ 64)
      (hdecoded : msg.ack.nodeIdentityId.Decodes msg.sentIdentityId) :
      CollectStep s (.answered i msg) (s.answer deps params i attempt msg)
  | verified (s : Collection) (i attempt : ℕ) (ack : StorageACKMsg) (peerId : List Char)
      (signer : A) (answers : A → ℤ → Verification → Prop) (verification : Verification)
      (hphase : s.phase i = .verifying attempt ack) (hpeer : corePeers[i]? = some peerId)
      (hsigner : deps.recoverACKSigner ack s.ackDigest = some signer)
      (hverify : deps.verifyIdentity = some answers)
      (hanswer : answers signer ack.nodeIdentityId.toBigInt verification) :
      CollectStep s (.verified i verification)
        (s.conclude i attempt (ack.collected peerId) verification)
  | admitted (s : Collection) (i : ℕ) (ack : Option CollectedACK)
      (hphase : s.phase i = .returned ack) :
      CollectStep s (.admitted i) (s.settle params i ack)
  | finished (s : Collection) (hrunning : s.outcome = none)
      (hready : s.quorum = true ∨ ∀ i < corePeers.length, s.phase i = .settled) :
      CollectStep s .finished (s.finish params corePeers)
  | timedOut (s : Collection) (hrunning : s.outcome = none) :
      CollectStep s .timedOut (s.timeout params)

/-- A call of `collect`. -/
def collector : Machine Collection CollectEvent where
  init s := startCollect deps params corePeers = .ok s
  step := CollectStep deps params corePeers

end

/-! ## Identity ids -/

lemma lor_nonneg {x y : ℤ} (h : 0 ≤ Int.lor x y) : 0 ≤ x ∧ 0 ≤ y := by
  cases x with
  | negSucc x => cases y <;> cases h
  | ofNat x =>
    cases y with
    | negSucc y => cases h
    | ofNat y => exact ⟨Int.natCast_nonneg x, Int.natCast_nonneg y⟩

lemma signedWord_nonneg {n : ℕ} (hn : n < 2 ^ 32) (h : 0 ≤ signedWord n) : signedWord n = n := by
  unfold signedWord at h ⊢
  split
  · rfl
  · rename_i hlarge
    rw [if_neg hlarge] at h
    omega

/-- **An identity id that is not negative** is the number that was sent: the sign of a word would
make it negative. -/
lemma DecodedUint64.toBigInt_eq {sent : ℕ} {field : DecodedUint64} (hsent : sent < 2 ^ 64)
    (hdecoded : field.Decodes sent) (h : 0 ≤ field.toBigInt) : field.toBigInt = sent := by
  cases field with
  | number n => exact congrArg Int.ofNat hdecoded
  | long low high =>
    rcases hdecoded with ⟨rfl, rfl⟩
    have hwords := lor_nonneg h
    have hlow : signedWord (sent % 2 ^ 32) = (sent % 2 ^ 32 : ℕ) :=
      signedWord_nonneg (Nat.mod_lt _ (by norm_num)) hwords.1
    have hhigh : signedWord (sent / 2 ^ 32) = (sent / 2 ^ 32 : ℕ) := by
      apply signedWord_nonneg
      · omega
      · have := hwords.2
        omega
    show Int.lor (signedWord (sent % 2 ^ 32)) (signedWord (sent / 2 ^ 32) * 2 ^ 32) = sent
    rw [hlow, hhigh]
    have hparts : sent % 2 ^ 32 ||| sent / 2 ^ 32 * 2 ^ 32 = sent := by
      rw [Nat.lor_comm, Nat.mul_comm, ← Nat.two_pow_add_eq_or_of_lt (Nat.mod_lt _ (by norm_num))]
      exact Nat.div_add_mod sent (2 ^ 32)
    show ((sent % 2 ^ 32 ||| sent / 2 ^ 32 * 2 ^ 32 : ℕ) : ℤ) = sent
    rw [hparts]

/-! ## Invariant -/

section

variable (deps : Deps A) (params : CollectParams) (corePeers : List (List Char))

/-- The ACK is in a message that was received from its peer, and has passed all checks. -/
def Checked (s : Collection) (ack : CollectedACK) : Prop :=
  ∃ msg ∈ s.received, ack = msg.ack.collected msg.peerId ∧
    ∃ signer, deps.recoverACKSigner msg.ack s.ackDigest = some signer ∧
      ∀ answers, deps.verifyIdentity = some answers →
        answers signer msg.ack.nodeIdentityId.toBigInt .valid

/-- What is known of a task in a phase. -/
def PhaseOk (s : Collection) (i : ℕ) : TaskPhase → Prop
  | .verifying _ ack => ∃ msg ∈ s.received, msg.ack = ack ∧ corePeers[i]? = some msg.peerId
  | .returned (some ack) => Checked deps s ack
  | _ => True

/-- What every collection keeps: what is collected has passed the checks, and no peer and no
identity is counted twice. -/
structure Collection.Inv (s : Collection) : Prop where
  digest : computePublishACKDigest deps.keccak256 params.digestInput = .ok s.ackDigest
  received : ∀ msg ∈ s.received, msg.peerId ∈ corePeers ∧ msg.sentIdentityId < 2 ^ 64 ∧
    msg.ack.nodeIdentityId.Decodes msg.sentIdentityId
  phases : ∀ i, PhaseOk deps corePeers s i (s.phase i)
  checked : ∀ ack ∈ s.collected, Checked deps s ack
  seenPeers : ∀ ack ∈ s.collected, ack.peerId ∈ s.seenPeers
  seenIdentityIds : ∀ ack ∈ s.collected, ack.nodeIdentityId ∈ s.seenIdentityIds
  peers : (s.collected.map peerId).Nodup
  identities : (s.collected.map nodeIdentityId).Nodup
  outcome : ∀ result, s.outcome = some (.ok result) →
    result.acks.Sublist s.collected ∧ result.acks.length = params.required

variable {deps} {params} {corePeers} {s s' : Collection} {i : ℕ}

lemma startCollect_eq_ok :
    startCollect deps params corePeers = .ok s ↔
      1 ≤ params.merkleLeafCount ∧ corePeers ≠ [] ∧ params.required ≤ corePeers.length ∧
        ∃ ackDigest, computePublishACKDigest deps.keccak256 params.digestInput = .ok ackDigest ∧
          s = .start params ackDigest := by
  unfold startCollect
  by_cases hleaves : params.merkleLeafCount < 1
  · rw [if_pos hleaves]
    exact iff_of_false nofun fun h => absurd h.1 (by omega)
  by_cases hnone : corePeers.length = 0
  · rw [if_neg hleaves, if_pos hnone]
    exact iff_of_false nofun fun h => h.2.1 (length_eq_zero_iff.mp hnone)
  by_cases hfew : corePeers.length < params.required
  · rw [if_neg hleaves, if_neg hnone, if_pos hfew]
    exact iff_of_false nofun fun h => absurd h.2.2.1 (by omega)
  rw [if_neg hleaves, if_neg hnone, if_neg hfew]
  have hne : corePeers ≠ [] := fun h => hnone (length_eq_zero_iff.mpr h)
  cases hdigest : computePublishACKDigest deps.keccak256 params.digestInput with
  | error e => exact iff_of_false nofun (by rintro ⟨_, _, _, _, hok, _⟩; cases hok)
  | ok ackDigest =>
    constructor
    · intro h
      cases h
      exact ⟨by omega, hne, by omega, ackDigest, rfl, rfl⟩
    · rintro ⟨_, _, _, d, hok, rfl⟩
      cases hok
      rfl

lemma Collection.inv_start (h : startCollect deps params corePeers = .ok s) :
    s.Inv deps params corePeers := by
  rcases startCollect_eq_ok.mp h with ⟨_, _, _, ackDigest, hdigest, rfl⟩
  refine ⟨hdigest, nofun, ?_, nofun, nofun, nofun, nodup_nil, nodup_nil, nofun⟩
  intro i
  unfold Collection.start
  by_cases hzero : 0 ≥ params.required
  · rw [if_pos hzero]
    trivial
  · rw [if_neg hzero]
    trivial

namespace Collection.Inv

variable (h : s.Inv deps params corePeers)

include h

lemma setPhase {phase : TaskPhase} (hphase : PhaseOk deps corePeers s i phase) :
    (s.setPhase i phase).Inv deps params corePeers where
  digest := h.digest
  received := h.received
  phases := by
    intro j
    show PhaseOk deps corePeers s j (Function.update s.phase i phase j)
    by_cases hj : j = i
    · subst hj
      rw [Function.update_self]
      exact hphase
    · rw [Function.update_of_ne hj]
      exact h.phases j
  checked := h.checked
  seenPeers := h.seenPeers
  seenIdentityIds := h.seenIdentityIds
  peers := h.peers
  identities := h.identities
  outcome := h.outcome

lemma retry (attempt : ℕ) : (s.retry i attempt).Inv deps params corePeers := by
  apply h.setPhase
  by_cases hmore : attempt + 1 < MAX_RETRIES
  · rw [if_pos hmore]
    trivial
  · rw [if_neg hmore]
    trivial

lemma receive {msg : Received} (hpeer : msg.peerId ∈ corePeers)
    (hsent : msg.sentIdentityId < 2 ^ 64)
    (hdecoded : msg.ack.nodeIdentityId.Decodes msg.sentIdentityId) :
    Collection.Inv deps params corePeers { s with received := s.received ++ [msg] } := by
  have hchecked : ∀ {ack}, Checked deps s ack →
      Checked deps { s with received := s.received ++ [msg] } ack := by
    rintro ack ⟨msg', hmsg', hack⟩
    exact ⟨msg', mem_append_left _ hmsg', hack⟩
  refine ⟨h.digest, ?_, ?_, fun ack hack => hchecked (h.checked ack hack), h.seenPeers,
    h.seenIdentityIds, h.peers, h.identities, h.outcome⟩
  · intro msg' hmsg'
    rcases mem_append.mp hmsg' with hmsg' | hmsg'
    · exact h.received msg' hmsg'
    · rw [mem_singleton.mp hmsg']
      exact ⟨hpeer, hsent, hdecoded⟩
  · intro j
    have hold := h.phases j
    show PhaseOk deps corePeers { s with received := s.received ++ [msg] } j (s.phase j)
    cases hphase : s.phase j with
    | requesting attempt => trivial
    | settled => trivial
    | verifying attempt ack =>
      rw [hphase] at hold
      rcases hold with ⟨msg', hmsg', hack⟩
      exact ⟨msg', mem_append_left _ hmsg', hack⟩
    | returned ack =>
      cases ack with
      | none => trivial
      | some ack =>
        rw [hphase] at hold
        exact hchecked hold

lemma answer {attempt : ℕ} {msg : Received}
    (hpeer : corePeers[i]? = some msg.peerId) (hsent : msg.sentIdentityId < 2 ^ 64)
    (hdecoded : msg.ack.nodeIdentityId.Decodes msg.sentIdentityId) :
    (s.answer deps params i attempt msg).Inv deps params corePeers := by
  have hmem : msg ∈ s.received ++ [msg] := by simp
  apply (h.receive (mem_of_getElem? hpeer) hsent hdecoded).setPhase
  cases hsigner : deps.recoverACKSigner msg.ack s.ackDigest with
  | none =>
    rw [if_pos rfl]
    trivial
  | some signer =>
    rw [if_neg (by simp)]
    by_cases hroot : msg.ack.merkleRoot ≠ params.merkleRoot
    · rw [if_pos hroot]
      trivial
    · rw [if_neg hroot]
      by_cases hverify : deps.verifyIdentity = none
      · rw [if_pos hverify]
        refine ⟨msg, hmem, rfl, signer, hsigner, fun answers hanswers => ?_⟩
        rw [hverify] at hanswers
        cases hanswers
      · rw [if_neg hverify]
        exact ⟨msg, hmem, rfl, hpeer⟩

lemma conclude {attempt : ℕ} {ack : StorageACKMsg}
    {peerId : List Char} {signer : A} {answers : A → ℤ → Verification → Prop}
    {verification : Verification} (hphase : s.phase i = .verifying attempt ack)
    (hpeer : corePeers[i]? = some peerId)
    (hsigner : deps.recoverACKSigner ack s.ackDigest = some signer)
    (hverify : deps.verifyIdentity = some answers)
    (hanswer : answers signer ack.nodeIdentityId.toBigInt verification) :
    (s.conclude i attempt (ack.collected peerId) verification).Inv deps params corePeers := by
  cases verification with
  | threw => exact h.retry attempt
  | notValid => exact h.setPhase trivial
  | valid =>
    have hknown := h.phases i
    rw [hphase] at hknown
    rcases hknown with ⟨msg, hmsg, rfl, hpeer'⟩
    rw [hpeer, Option.some.injEq] at hpeer'
    subst hpeer'
    refine h.setPhase ⟨msg, hmsg, rfl, signer, hsigner, fun answers' hanswers' => ?_⟩
    rw [hverify, Option.some.injEq] at hanswers'
    exact hanswers' ▸ hanswer

/-- An ACK is added only when its peer and its identity are new. -/
lemma settle {ack : Option CollectedACK}
    (hphase : s.phase i = .returned ack) : (s.settle params i ack).Inv deps params corePeers := by
  have hsettled : (s.setPhase i .settled).Inv deps params corePeers := h.setPhase trivial
  cases ack with
  | none => exact hsettled
  | some ack =>
    have hchecked := h.phases i
    rw [hphase] at hchecked
    unfold Collection.settle
    simp only
    split_ifs with hnew
    · have hfresh : ∀ {α : Type} {f : CollectedACK → α} {seen : List α},
          (∀ ack ∈ s.collected, f ack ∈ seen) → (s.collected.map f).Nodup → f ack ∉ seen →
          ((s.collected ++ [ack]).map f).Nodup := by
        intro α f seen hseen hnodup hnot
        rw [map_append, nodup_append]
        refine ⟨hnodup, nodup_singleton _, ?_⟩
        intro a ha b hb heq
        rcases mem_map.mp ha with ⟨old, hold, rfl⟩
        rw [map_singleton, mem_singleton] at hb
        rw [hb] at heq
        exact hnot (heq ▸ hseen old hold)
      have hall : ∀ {P : CollectedACK → Prop}, (∀ a ∈ s.collected, P a) → P ack →
          ∀ a ∈ s.collected ++ [ack], P a :=
        fun hold hack => forall_mem_append.mpr ⟨hold, forall_mem_singleton.mpr hack⟩
      refine ⟨h.digest, h.received, hsettled.phases, hall h.checked hchecked, ?_, ?_,
        hfresh h.seenPeers h.peers hnew.1, hfresh h.seenIdentityIds h.identities hnew.2, ?_⟩
      · exact hall (fun a ha => mem_cons_of_mem _ (h.seenPeers a ha)) mem_cons_self
      · exact hall (fun a ha => mem_cons_of_mem _ (h.seenIdentityIds a ha)) mem_cons_self
      · intro result hresult
        have hold := h.outcome result hresult
        exact ⟨hold.1.trans (sublist_append_left _ _), hold.2⟩
    · exact hsettled

lemma finish : (s.finish params corePeers).Inv deps params corePeers := by
  refine ⟨h.digest, h.received, h.phases, h.checked, h.seenPeers, h.seenIdentityIds, h.peers,
    h.identities, ?_⟩
  intro result hresult
  rw [Collection.finish, Option.some.injEq] at hresult
  split_ifs at hresult with hfew
  cases hresult
  refine ⟨take_sublist _ _, ?_⟩
  rw [length_take]
  omega

lemma timeout : (s.timeout params).Inv deps params corePeers := by
  refine ⟨h.digest, h.received, h.phases, h.checked, h.seenPeers, h.seenIdentityIds, h.peers,
    h.identities, ?_⟩
  intro result hresult
  cases hresult

end Collection.Inv

lemma Collection.inv (hr : (collector deps params corePeers).Reachable s) :
    s.Inv deps params corePeers := by
  apply hr.invariant (P := fun s => s.Inv deps params corePeers)
  · exact fun s h => Collection.inv_start h
  · intro s e s' h hstep
    cases hstep with
    | failed i attempt => exact h.retry attempt
    | answered i attempt msg _ hpeer hsent hdecoded => exact h.answer hpeer hsent hdecoded
    | verified i attempt ack peerId signer answers verification hphase hpeer hsigner hverify
        hanswer =>
        exact h.conclude hphase hpeer hsigner hverify hanswer
    | admitted i ack hphase => exact h.settle hphase
    | finished => exact h.finish
    | timedOut => exact h.timeout

end

/-! ## The quorum -/

/-- `verifyIdentity` says so only of a registered identity, which is no negative number. -/
def Truthful (answers : A → ℤ → Verification → Prop) (Registered : A → ℕ → Prop) : Prop :=
  ∀ signer identityId, answers signer identityId .valid →
    ∃ id : ℕ, identityId = id ∧ Registered signer id

/-- The contract's hash of the publish: what `toEthSignedMessageHash` gives for its digest. -/
def publishHash (keccak256 : List UInt8 → Bytes32) (f : PublishAckFields) : Bytes32 :=
  hashMessage keccak256 (keccak256 ((DigestFields.publishACK f).encoded keccak256))

/-- The digest of a call is the contract's, for the same publish. -/
lemma ackDigest_eq {keccak256 : List UInt8 → Bytes32} {params : CollectParams}
    {ackDigest : Bytes32} {f : PublishAckFields}
    (hdigest : computePublishACKDigest keccak256 params.digestInput = .ok ackDigest)
    (hsame : (DigestInput.publishACK params.digestInput).StandsFor (.publishACK f)) :
    ackDigest = keccak256 ((DigestFields.publishACK f).encoded keccak256) := by
  have hpacked : params.digestInput.packed =
      .ok ((DigestFields.publishACK f).encoded keccak256) := hsame.packed keccak256
  rw [computePublishACKDigest, hpacked] at hdigest
  exact (Except.ok.inj hdigest).symm

/-- **ACK quorum.** For all core peers and whatever they answer, in every order, and with every
failure and delay: if `collect` returns, it returns as many ACKs as are required, of different
peers, different identities and different signers; the identity of each is the number that its peer
has sent, and its signature is of a key of that identity, over the digest that the contract computes
for the same publish. -/
theorem collect_quorum (deps : Deps A) (Signed : A → Bytes32 → List UInt8 → List UInt8 → Prop)
    (hrecover : ∀ hash r vs signer, deps.recoverAddress hash r vs = some signer →
      Signed signer hash r vs) (Registered : A → ℕ → Prop) {answers : A → ℤ → Verification → Prop}
    (hverify : deps.verifyIdentity = some answers) (htruthful : Truthful answers Registered)
    (hunique : ∀ key id id', Registered key id → Registered key id' → id = id')
    (params : CollectParams) (corePeers : List (List Char)) {s : Collection}
    (hr : (collector deps params corePeers).Reachable s) {result : ACKCollectionResult}
    (hreturned : s.outcome = some (.ok result)) :
    result.acks.length = params.required ∧
      (result.acks.map peerId).Nodup ∧
      (result.acks.map nodeIdentityId).Nodup ∧
      ∃ signer : CollectedACK → Option A, (result.acks.map signer).Nodup ∧
        ∀ ack ∈ result.acks, ack.peerId ∈ corePeers ∧
          ∃ msg ∈ s.received, ack = msg.ack.collected msg.peerId ∧
            ack.nodeIdentityId = msg.sentIdentityId ∧
            ∃ key, signer ack = some key ∧ Registered key msg.sentIdentityId ∧
              ∀ f, (DigestInput.publishACK params.digestInput).StandsFor (.publishACK f) →
                Signed key (publishHash deps.keccak256 f) ack.signatureR ack.signatureVS := by
  have h := Collection.inv hr
  rcases h.outcome result hreturned with ⟨hsub, hlength⟩
  have hidentities : (result.acks.map nodeIdentityId).Nodup := h.identities.sublist (hsub.map _)
  let signer : CollectedACK → Option A := fun ack =>
    deps.recoverAddress (hashMessage deps.keccak256 s.ackDigest) ack.signatureR ack.signatureVS
  have hacks : ∀ ack ∈ result.acks, ∃ msg ∈ s.received, ack = msg.ack.collected msg.peerId ∧
      ack.nodeIdentityId = msg.sentIdentityId ∧
      ∃ key, signer ack = some key ∧ Registered key msg.sentIdentityId := by
    intro ack hack
    rcases h.checked ack (hsub.subset hack) with ⟨msg, hmsg, rfl, key, hkey, hvalid⟩
    rcases htruthful key _ (hvalid answers hverify) with ⟨id, hid, hregistered⟩
    have hsent := h.received msg hmsg
    have heq := DecodedUint64.toBigInt_eq hsent.2.1 hsent.2.2 (hid ▸ Int.natCast_nonneg id)
    have hsame : id = msg.sentIdentityId := by
      rw [hid] at heq
      exact Int.ofNat.inj heq
    exact ⟨msg, hmsg, rfl, heq, key, hkey, hsame ▸ hregistered⟩
  refine ⟨hlength, h.peers.sublist (hsub.map _), hidentities, signer, ?_, ?_⟩
  · -- a key of two ACKs is a key of both identities, which are then one
    apply List.Nodup.map_on _ hidentities.of_map
    intro ack hack ack' hack' heq
    rcases hacks ack hack with ⟨msg, _, _, hid, key, hkey, hregistered⟩
    rcases hacks ack' hack' with ⟨msg', _, _, hid', key', hkey', hregistered'⟩
    rw [hkey, hkey', Option.some.injEq] at heq
    have hsame := hunique _ _ _ hregistered (heq ▸ hregistered')
    apply inj_on_of_nodup_map hidentities hack hack'
    rw [hid, hid', hsame]
  · intro ack hack
    rcases hacks ack hack with ⟨msg, hmsg, hack', hid, key, hkey, hregistered⟩
    have hpeer : ack.peerId ∈ corePeers := hack' ▸ (h.received msg hmsg).1
    refine ⟨hpeer, msg, hmsg, hack', hid, key, hkey, hregistered, fun f hsame => ?_⟩
    rw [publishHash, ← ackDigest_eq h.digest hsame]
    exact hrecover _ _ _ _ hkey

/-! ### Two core peers -/

/-- The identity `n` has the key `n`, whose signatures start with the byte `n`. -/
def twoKeys : Deps ℕ where
  keccak256 := fun _ => ⟨List.replicate 32 0, rfl⟩
  recoverAddress := fun _ r _ => r.head?.map UInt8.toNat
  verifyIdentity := some fun signer identityId verification =>
    verification = if identityId = signer then .valid else .notValid

def twoRequired : CollectParams where
  merkleRoot := List.replicate 32 7
  contextGraphId := 1
  publicByteSize := 100
  kaCount := 1
  chainId := 1
  kav10Address := someAddress
  requiredACKs := some 2
  epochs := none
  tokenAmount := none
  merkleLeafCount := 4

def twoPeers : List (List Char) := [['p'], ['q']]

def answerOf (peerId : List Char) (identityId : ℕ) : Received where
  peerId := peerId
  sentIdentityId := identityId
  ack := ⟨List.replicate 32 7, [UInt8.ofNat identityId], [0], .long identityId 0⟩

/-- The second peer is first, and the first one fails once. -/
theorem collect_quorum_two :
    ∃ s, (collector twoKeys twoRequired twoPeers).Reachable s ∧ ∃ result,
      s.outcome = some (.ok result) ∧ result.acks.map peerId = [['q'], ['p']] ∧
        result.acks.length = 2 ∧ (result.acks.map nodeIdentityId).Nodup := by
  obtain ⟨d, hdigest, -⟩ := exists_of_succeeds
    (x := computePublishACKDigest twoKeys.keccak256 twoRequired.digestInput) (t := fun _ => true)
    (by decide +kernel)
  let s₀ := Collection.start twoRequired d
  let s₁ := s₀.answer twoKeys twoRequired 1 0 (answerOf ['q'] 2)
  let s₂ := s₁.retry 0 0
  let s₃ := s₂.conclude 1 0 ((answerOf ['q'] 2).ack.collected ['q']) .valid
  let s₄ := s₃.answer twoKeys twoRequired 0 1 (answerOf ['p'] 1)
  let s₅ := s₄.settle twoRequired 1 (some ((answerOf ['q'] 2).ack.collected ['q']))
  let s₆ := s₅.conclude 0 1 ((answerOf ['p'] 1).ack.collected ['p']) .valid
  let s₇ := s₆.settle twoRequired 0 (some ((answerOf ['p'] 1).ack.collected ['p']))
  let s₈ := s₇.finish twoRequired twoPeers
  have h₀ : (collector twoKeys twoRequired twoPeers).Reachable s₀ :=
    .init (startCollect_eq_ok.mpr ⟨by decide, by decide, by decide, d, hdigest, rfl⟩)
  have h₁ := h₀.step (CollectStep.answered s₀ 1 0 (answerOf ['q'] 2) rfl rfl (by decide) ⟨rfl, rfl⟩)
  have h₂ := h₁.step (CollectStep.failed s₁ 0 0 rfl)
  have h₃ := h₂.step (CollectStep.verified s₂ 1 0 (answerOf ['q'] 2).ack ['q'] 2 _ .valid rfl rfl
    rfl rfl (by decide))
  have h₄ := h₃.step (CollectStep.answered s₃ 0 1 (answerOf ['p'] 1) rfl rfl (by decide) ⟨rfl, rfl⟩)
  have h₅ := h₄.step (CollectStep.admitted s₄ 1 _ rfl)
  have h₆ := h₅.step (CollectStep.verified s₅ 0 1 (answerOf ['p'] 1).ack ['p'] 1 _ .valid rfl rfl
    rfl rfl (by decide))
  have h₇ := h₆.step (CollectStep.admitted s₆ 0 _ rfl)
  have h₈ := h₇.step (CollectStep.finished s₇ rfl (.inl rfl))
  refine ⟨s₈, h₈, _, rfl, rfl, ?_⟩
  have hall := collect_quorum twoKeys
    (fun signer _ r _ => r.head?.map UInt8.toNat = some signer) (fun _ _ _ _ h => h)
    (fun key id => key = id) rfl (fun signer identityId h => ?_)
    (fun _ _ _ h h' => h.symm.trans h') twoRequired twoPeers h₈ rfl
  · exact ⟨hall.1, hall.2.2.1⟩
  · by_cases heq : identityId = signer
    · exact ⟨signer, heq, rfl⟩
    · have hvalid : Verification.valid =
          if identityId = (signer : ℤ) then Verification.valid else Verification.notValid := h
      rw [if_neg heq] at hvalid
      cases hvalid

end Dkg.AckCollection
