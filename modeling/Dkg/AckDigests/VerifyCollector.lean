import Dkg.AckDigests.Collector

/-! # Collecting approvals

`VerifyCollector.collect` asks all participant peers at once to approve a proposal, and returns as
many approvals as are missing beside the proposer's own signature. An approval counts for the
address that its signature recovers to. The addresses are compared with each other only, neither
with the proposer's nor with those of the participants.

What the peers answer, and in which order, is arbitrary.
-/

namespace Dkg

open List
open AckCollection (hashMessage)

namespace VerifyCollection

/-! ## Messages -/

def computeACKDigest (keccak256 : List UInt8 → Bytes32) (contextGraphId : ℤ)
    (merkleRoot : List UInt8) : Except AckError Bytes32 :=
  if merkleRoot.length ≠ 32 then .error (.merkleRootLength merkleRoot.length)
  else (packFields 64 [(uint256ToBytes contextGraphId, 32), (merkleRoot, 32)]).map keccak256

structure VerifyApprovalMsg where
  (agentSignatureR agentSignatureVS : List UInt8)

/-- An approval that has passed the checks. -/
structure CollectedApproval (A : Type) where
  peerId : List Char
  (signatureR signatureVS : List UInt8)
  approverAddress : A
  identityId : ℕ

structure VerifyCollectionResult (A : Type) where
  approvals : List (CollectedApproval A)
  merkleRoot : List UInt8
  contextGraphId : List Char
  verifiedMemoryId : ℕ

inductive VerifyError
  | noPeers
  | insufficientPeers (need connected : ℕ)
  | digest (e : AckError)
  | timeout (got required : ℕ)
  | insufficient (got required tried : ℕ)

/-- The hash, and the recovery of signers, which has no result for a malformed signature. -/
structure Deps (A : Type) where
  keccak256 : List UInt8 → Bytes32
  recoverAddress : Bytes32 → List UInt8 → List UInt8 → Option A

variable {A : Type}

def Deps.recoverSigner (deps : Deps A) (signatureR signatureVS : List UInt8) (digest : Bytes32) :
    Option A :=
  deps.recoverAddress (hashMessage deps.keccak256 digest) signatureR signatureVS

def MAX_RETRIES : ℕ := 2

/-- The attempts of one peer, `none` for one that throws: the first other one decides. -/
def requestApproval (deps : Deps A) (digest : Bytes32) (peerId : List Char)
    (attempts : List (Option VerifyApprovalMsg)) : Option (CollectedApproval A) := do
  let approval ← (attempts.take (MAX_RETRIES + 1)).findSome? id
  let recovered ← deps.recoverSigner approval.agentSignatureR approval.agentSignatureVS digest
  return {
    peerId := peerId
    signatureR := approval.agentSignatureR
    signatureVS := approval.agentSignatureVS
    approverAddress := recovered
    identityId := 0 }

/-! ## The call -/

/-- The task of an approval goes on: `seenAddresses` has the addresses of what is collected. -/
def settle [DecidableEq A] (collected : List (CollectedApproval A)) :
    Option (CollectedApproval A) → List (CollectedApproval A)
  | none => collected
  | some approval =>
    if approval.approverAddress ∈ collected.map CollectedApproval.approverAddress then collected
    else collected ++ [approval]

structure CollectParams where
  contextGraphId : List Char
  contextGraphIdOnChain : ℤ
  verifiedMemoryId : ℕ
  merkleRoot : List UInt8
  requiredSignatures : ℕ

/-- A call of `collect`: its peers, and what each one answers to the attempts. -/
structure Call (A : Type) where
  deps : Deps A
  params : CollectParams
  peers : List (List Char)
  answers : ℕ → List (Option VerifyApprovalMsg)

namespace Call

variable (c : Call A)

def remoteRequired : ℕ := c.params.requiredSignatures - 1

def digest : Except AckError Bytes32 :=
  computeACKDigest c.deps.keccak256 c.params.contextGraphIdOnChain c.params.merkleRoot

/-- What the task of a peer ends with. -/
def approval (digest : Bytes32) (i : ℕ) : Option (CollectedApproval A) :=
  c.peers[i]?.bind fun peerId => requestApproval c.deps digest peerId (c.answers i)

variable [DecidableEq A]

def collected (digest : Bytes32) (order : List ℕ) : List (CollectedApproval A) :=
  order.foldl (fun collected i => settle collected (c.approval digest i)) []

/-- `collect`, where `order` are the tasks that end before the call goes on. No task returns early,
since all of them start before any approval is there. -/
def collect (order : List ℕ) (timedOut : Bool) : Except VerifyError (VerifyCollectionResult A) :=
  if 0 < c.remoteRequired ∧ c.peers.length = 0 then .error .noPeers
  else if c.peers.length < c.remoteRequired then
    .error (.insufficientPeers c.remoteRequired c.peers.length)
  else if c.remoteRequired = 0 then
    .ok ⟨[], c.params.merkleRoot, c.params.contextGraphId, c.params.verifiedMemoryId⟩
  else
    match c.digest with
    | .error e => .error (.digest e)
    | .ok digest =>
      let collected := c.collected digest order
      if timedOut then .error (.timeout collected.length c.remoteRequired)
      else if collected.length < c.remoteRequired then
        .error (.insufficient collected.length c.remoteRequired c.peers.length)
      else .ok ⟨collected.take c.remoteRequired, c.params.merkleRoot, c.params.contextGraphId,
        c.params.verifiedMemoryId⟩

/-- An order in which tasks can end before the call goes on: every task ends at most once, and there
is a quorum, or no task left, or no time. -/
structure IsOrder (order : List ℕ) (timedOut : Bool) : Prop where
  nodup : order.Nodup
  tasks : ∀ i ∈ order, i < c.peers.length
  ready : timedOut = true ∨ order.length = c.peers.length ∨
    ∀ digest, c.digest = .ok digest → c.remoteRequired ≤ (c.collected digest order).length

/-- The addresses that the answers of the peers recover to. -/
def signers : Finset A :=
  match c.digest with
  | .error _ => ∅
  | .ok digest => ((List.range c.peers.length).filterMap fun i =>
      (c.approval digest i).map CollectedApproval.approverAddress).toFinset

omit [DecidableEq A] in
/-- The proposer and the approvals are as many authorized signers as are required. -/
structure IsQuorum (proposer : A) (keyOf : ℕ → A) (result : VerifyCollectionResult A) : Prop where
  count : result.approvals.length + 1 = c.params.requiredSignatures
  distinct : (proposer :: result.approvals.map CollectedApproval.approverAddress).Nodup
  authorized : ∀ approval ∈ result.approvals, approval.approverAddress = proposer ∨
    ∃ i < c.peers.length, keyOf i = approval.approverAddress
  signed : ∀ approval ∈ result.approvals, ∃ digest, c.digest = .ok digest ∧
    c.deps.recoverSigner approval.signatureR approval.signatureVS digest =
      some approval.approverAddress

/-! ## What the tasks collect -/

variable {c} {order : List ℕ} {i : ℕ} {digest : Bytes32} {timedOut : Bool}
variable {result : VerifyCollectionResult A} {approval : CollectedApproval A}

/-- The approvals are those of the tasks so far, one for each address. -/
structure Collects (c : Call A) (digest : Bytes32) (order : List ℕ)
    (collected : List (CollectedApproval A)) : Prop where
  source : ∀ approval ∈ collected, ∃ i, c.approval digest i = some approval
  distinct : (collected.map CollectedApproval.approverAddress).Nodup
  complete : ∀ i ∈ order, ∀ approval, c.approval digest i = some approval →
    approval.approverAddress ∈ collected.map CollectedApproval.approverAddress

lemma Collects.settle {collected : List (CollectedApproval A)}
    (h : Collects c digest order collected) (i : ℕ) :
    Collects c digest (order ++ [i]) (settle collected (c.approval digest i)) := by
  have hlast : ∀ {j : ℕ}, j ∈ order ++ [i] → j ∈ order ∨ j = i := by simp
  cases hi : c.approval digest i with
  | none =>
    refine ⟨h.source, h.distinct, fun j hj a ha => ?_⟩
    rcases hlast hj with hj | rfl
    · exact h.complete j hj a ha
    · rw [hi] at ha
      cases ha
  | some approval =>
    unfold VerifyCollection.settle
    simp only
    split
    next hseen =>
      refine ⟨h.source, h.distinct, fun j hj a ha => ?_⟩
      rcases hlast hj with hj | rfl
      · exact h.complete j hj a ha
      · rw [hi] at ha
        cases ha
        exact hseen
    next hseen =>
      constructor
      · exact forall_mem_append.mpr ⟨h.source, forall_mem_singleton.mpr ⟨i, hi⟩⟩
      · rw [map_append]
        exact h.distinct.append (nodup_singleton _) fun a ha hnew =>
          hseen (mem_singleton.mp hnew ▸ ha)
      · intro j hj a ha
        rw [map_append, mem_append]
        rcases hlast hj with hj | rfl
        · exact .inl (h.complete j hj a ha)
        · rw [hi] at ha
          cases ha
          exact .inr (mem_singleton_self _)

lemma collects (c : Call A) (digest : Bytes32) (order : List ℕ) :
    Collects c digest order (c.collected digest order) := by
  induction order using reverseRecOn with
  | nil => exact ⟨by simp [collected], nodup_nil, by simp⟩
  | append_singleton order i ih =>
    rw [collected, foldl_append]
    exact ih.settle i

lemma settle_prefix (collected : List (CollectedApproval A)) (order : List ℕ) :
    collected <+: order.foldl (fun s i => settle s (c.approval digest i)) collected := by
  induction order generalizing collected with
  | nil => exact prefix_rfl
  | cons i order ih =>
    refine IsPrefix.trans ?_ (ih _)
    show collected <+: settle collected (c.approval digest i)
    cases c.approval digest i with
    | none => exact prefix_rfl
    | some approval =>
      simp only [settle]
      split
      · exact prefix_rfl
      · exact prefix_append _ _

/-! ## Quorums -/

omit [DecidableEq A] in
lemma approval_spec (h : c.approval digest i = some approval) :
    i < c.peers.length ∧
      c.deps.recoverSigner approval.signatureR approval.signatureVS digest =
        some approval.approverAddress := by
  rcases Option.bind_eq_some_iff.mp h with ⟨peerId, hpeer, h⟩
  rcases Option.bind_eq_some_iff.mp h with ⟨msg, -, h⟩
  rcases Option.bind_eq_some_iff.mp h with ⟨recovered, hrecovered, h⟩
  cases h
  exact ⟨(List.getElem?_eq_some_iff.mp hpeer).1, hrecovered⟩

lemma mem_signers (hdigest : c.digest = .ok digest) {a : A} :
    a ∈ c.signers ↔ ∃ i approval, c.approval digest i = some approval ∧
      approval.approverAddress = a := by
  simp only [signers, hdigest, mem_toFinset, mem_filterMap, mem_range, Option.map_eq_some_iff]
  constructor
  · rintro ⟨i, -, approval, h⟩
    exact ⟨i, approval, h⟩
  · rintro ⟨i, approval, h⟩
    exact ⟨i, (approval_spec h.1).1, approval, h⟩

lemma mem_signers_of_collected (hdigest : c.digest = .ok digest)
    (h : approval ∈ c.collected digest order) : approval.approverAddress ∈ c.signers := by
  obtain ⟨i, hi⟩ := (collects c digest order).source approval h
  exact (mem_signers hdigest).mpr ⟨i, approval, hi, rfl⟩

/-- The number of approvals is the number of their addresses. -/
lemma length_collected : (c.collected digest order).length =
    ((c.collected digest order).map CollectedApproval.approverAddress).toFinset.card := by
  rw [toFinset_card_of_nodup (collects c digest order).distinct, length_map]

lemma length_collected_le (hdigest : c.digest = .ok digest) :
    (c.collected digest order).length ≤ c.signers.card := by
  rw [length_collected]
  refine Finset.card_le_card fun a ha => ?_
  obtain ⟨approval, h, rfl⟩ := mem_map.mp (mem_toFinset.mp ha)
  exact mem_signers_of_collected hdigest h

/-- With all tasks ended there is an approval of every signer. -/
lemma card_signers_le (hdigest : c.digest = .ok digest) (horder : ∀ i < c.peers.length, i ∈ order) :
    c.signers.card ≤ (c.collected digest order).length := by
  rw [length_collected]
  refine Finset.card_le_card fun a ha => ?_
  obtain ⟨i, approval, hi, rfl⟩ := (mem_signers hdigest).mp ha
  exact mem_toFinset.mpr
    ((collects c digest order).complete i (horder i (approval_spec hi).1) approval hi)

lemma collect_self (hzero : c.remoteRequired = 0) : c.collect order timedOut =
    .ok ⟨[], c.params.merkleRoot, c.params.contextGraphId, c.params.verifiedMemoryId⟩ := by
  unfold collect
  rw [if_neg (by omega), if_neg (by omega), if_pos hzero]

/-- A call that needs approvals returns when it has collected enough in time. -/
lemma collect_ok_iff (hrequired : 0 < c.remoteRequired) :
    c.collect order timedOut = .ok result ↔ c.remoteRequired ≤ c.peers.length ∧
      timedOut = false ∧ ∃ digest, c.digest = .ok digest ∧
        c.remoteRequired ≤ (c.collected digest order).length ∧
        ⟨(c.collected digest order).take c.remoteRequired, c.params.merkleRoot,
          c.params.contextGraphId, c.params.verifiedMemoryId⟩ = result := by
  unfold collect
  by_cases hpeers : c.peers.length < c.remoteRequired
  · split
    · simp [hpeers]
    · simp [hpeers]
  · rw [if_neg (by omega), if_neg hpeers, if_neg hrequired.ne']
    cases c.digest with
    | error e => simp
    | ok digest =>
      cases timedOut with
      | true => simp
      | false =>
        by_cases hfew : (c.collected digest order).length < c.remoteRequired
        · simp [hfew]
        · simp [hfew, not_lt.mp hfew, not_lt.mp hpeers]

/-- **When approvals make a quorum**: in every order of the answers, if and only if none is
required, or too few signers answer, or every signer is a participant and not the proposer. -/
theorem returns_quorum_iff (c : Call A) (proposer : A) (keyOf : ℕ → A) :
    (∀ order timedOut result, c.IsOrder order timedOut →
      c.collect order timedOut = .ok result → c.IsQuorum proposer keyOf result) ↔
    c.params.requiredSignatures = 1 ∨ (2 ≤ c.params.requiredSignatures ∧
      (c.signers.card < c.params.requiredSignatures - 1 ∨
        ∀ a ∈ c.signers, a ≠ proposer ∧ ∃ i < c.peers.length, keyOf i = a)) := by
  have hrequired : c.remoteRequired = c.params.requiredSignatures - 1 := rfl
  constructor
  · intro h
    rcases Nat.lt_or_ge c.params.requiredSignatures 2 with hfew | htwo
    · -- The call returns at once, with one signature.
      have hreturns := h [] true _ ⟨nodup_nil, by simp, .inl rfl⟩ (collect_self (by omega))
      exact .inl hreturns.count.symm
    · refine .inr ⟨htwo, (Nat.lt_or_ge _ _).imp_right fun henough a ha => ?_⟩
      cases hdigest : c.digest with
      | error e =>
        simp only [signers, hdigest] at ha
        cases ha
      | ok digest =>
        -- The task of this signer ends first, the others after it.
        obtain ⟨i, approval, hi, rfl⟩ := (mem_signers hdigest).mp ha
        have hlt := (approval_spec hi).1
        have hperm : (i :: (List.range c.peers.length).erase i).Perm (List.range c.peers.length) :=
          (perm_cons_erase (mem_range.mpr hlt)).symm
        have hcollected := henough.trans (card_signers_le hdigest fun j hj =>
          hperm.mem_iff.mpr (mem_range.mpr hj))
        have hpeers : c.remoteRequired ≤ c.peers.length := by
          refine henough.trans ?_
          simp only [signers, hdigest]
          refine (toFinset_card_le _).trans ((length_filterMap_le _ _).trans ?_)
          rw [length_range]
        have hquorum := h _ false _ ⟨hperm.nodup_iff.mpr nodup_range,
            fun j hj => mem_range.mp (hperm.mem_iff.mp hj),
            .inr (.inl (hperm.length_eq.trans length_range))⟩
          ((collect_ok_iff (by omega)).mpr ⟨hpeers, rfl, digest, hdigest, hcollected, rfl⟩)
        have hfirst :
            [approval] <+: c.collected digest (i :: (List.range c.peers.length).erase i) := by
          rw [collected, foldl_cons, hi]
          exact settle_prefix _ _
        obtain ⟨rest, hrest⟩ := hfirst
        have hmem : approval ∈ ([approval] ++ rest).take c.remoteRequired := by
          obtain ⟨n, hn⟩ := Nat.exists_eq_succ_of_ne_zero (show c.remoteRequired ≠ 0 by omega)
          rw [hn]
          exact mem_cons_self
        rw [hrest] at hmem
        have hne : approval.approverAddress ≠ proposer := by
          rintro rfl
          exact (nodup_cons.mp hquorum.distinct).1 (mem_map_of_mem hmem)
        exact ⟨hne, (hquorum.authorized approval hmem).resolve_left hne⟩
  · rintro (hone | ⟨htwo, hcondition⟩) order timedOut result - hresult
    · rw [collect_self (by omega)] at hresult
      cases hresult
      exact ⟨hone.symm, nodup_singleton _, by simp, by simp⟩
    · obtain ⟨-, -, digest, hdigest, henough, rfl⟩ := (collect_ok_iff (by omega)).mp hresult
      have hgood := hcondition.resolve_left
        (not_lt.mpr (henough.trans (length_collected_le hdigest)))
      have hmem : ∀ approval ∈ (c.collected digest order).take c.remoteRequired,
          approval ∈ c.collected digest order := fun _ h => mem_of_mem_take h
      exact {
        count := by
          show ((c.collected digest order).take c.remoteRequired).length + 1 = _
          rw [length_take]
          omega
        distinct := by
          have hdistinct := (collects c digest order).distinct
          refine nodup_cons.mpr ⟨fun h => ?_, hdistinct.sublist ((take_sublist _ _).map _)⟩
          obtain ⟨approval, h, heq⟩ := List.mem_map.mp h
          exact (hgood _ (mem_signers_of_collected hdigest (hmem _ h))).1 heq
        authorized := fun _ h =>
          .inr (hgood _ (mem_signers_of_collected hdigest (hmem _ h))).2
        signed := by
          intro approval h
          obtain ⟨i, hi⟩ := (collects c digest order).source approval (hmem _ h)
          exact ⟨digest, hdigest, (approval_spec hi).2⟩ }

end Call

/-! ## An echo -/

/-- Two signatures are required, and the only peer answers with the proposer's own. -/
def echo : Call ℕ where
  deps := ⟨fun _ => ⟨replicate 32 1, rfl⟩, fun _ signatureR _ => some signatureR.length⟩
  params := ⟨['g'], 1, 1, replicate 32 0, 2⟩
  peers := [['p']]
  answers := fun _ => [some ⟨[], []⟩]

/-- It is enough for the collector, although one signer is not two. -/
theorem echo_counts : echo.IsOrder [0] false ∧ ∃ result, echo.collect [0] false = .ok result ∧
    ¬ echo.IsQuorum 0 (fun i => i + 1) result := by
  obtain ⟨digest, hdigest, -⟩ :=
    exists_of_succeeds (x := echo.digest) (t := fun _ => true) (by decide +kernel)
  refine ⟨⟨nodup_singleton 0, by decide, .inr (.inl rfl)⟩, _,
    (Call.collect_ok_iff (by decide)).mpr ⟨by decide, rfl, digest, hdigest, le_rfl, rfl⟩, ?_⟩
  intro hquorum
  have hdistinct : (0 :: [0]).Nodup := hquorum.distinct
  cases (nodup_cons.mp hdistinct).1 mem_cons_self

end VerifyCollection

end Dkg
