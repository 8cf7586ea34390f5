import Mathlib.Tactic

/-! # Contract calls

A call of a contract function either returns or reverts. `Tx` is the result of a call; a revert
carries its reason and leaves no effect. Solidity 0.8 arithmetic is checked (`addUint`, `subUint`
and `addInt` revert with a panic outside the type's range), while an explicit cast truncates
(`uint32`, `uint40`, `uint96`, `int96`).
-/

namespace Dkg

/-- Why a call reverts. The name is the text or the custom error of the source. -/
inductive Revert
  /-- `Panic(0x11)` or `Panic(0x32)`: arithmetic out of range, or an index out of bounds. -/
  | panic
  /-- The ABI decoder rejects an argument that does not fit its type. -/
  | abiDecode
  -- ConvictionStakingStorage
  | invalidTier
  | tierInactive
  | tierExists
  | tierZeroMustBeRest
  | nonZeroTierNeedsDuration
  | nonZeroTierNeedsBoost
  | alreadyInactive
  | zeroDrop
  | expiryInPast
  | cancelGtScheduled
  | negRunningStake
  | zeroNode
  | positionExists
  | zeroRaw
  | preGenesisCreate
  | noPosition
  | sameNode
  | newTokenUsed
  | sameTokenId
  | identityMismatch
  | insufficientRaw
  | rawOverflow
  | crcOverflow
  | expiryOverflow
  -- StakingV10 and DKGStakingConvictionNFT
  | zeroAmount
  | profileDoesNotExist
  | maxStakeExceeded
  | positionNotFound
  | unclaimedEpochs
  | lockStillActive
  | sameIdentity
  | noRaw
  | rewardOverflow
  | noV8StakeToConvert
  | zeroTokenAmount
  | amountExceedsOperatorFeeBalance
  | withdrawalWasntInitiated
  | withdrawalPeriodPending
  | onlyProfileAdminFunction
  | invalidLockTier
  | invalidIdentityId
  | notPositionOwner
  -- RandomSampling and RandomSamplingStorage
  | nodeDoesntExist
  | checkpointOverflow
  | nonMonotonicTs
  -- Profile and ProfileStorage
  | operatorFeeNotClaimed
  | invalidOperatorFee
  | operatorFeeOutOfRange
  | noPendingOperatorFee
  -- Token
  | insufficientBalance
  | nonexistentToken
  | invalidReceiver
  | incorrectOwner
  -- ContextGraphValueStorage
  | zeroLifetime
  | zeroValue
  | negativeCumulative
  | backfillForbidden
  | futureOrCurrentEpoch
  | safeCastOverflowedUintToInt
  -- DKGPublishingConvictionNFT and ERC-721
  | noConvictionAccount
  | onlyKnowledgeAssetsV10
  | notAccountOwner
  | insufficientAllowance
  | accountExpired
  | invalidAmount
  | zeroAgentAddress
  | agentAlreadyRegistered
  | agentNotRegistered
  | agentCapReached
  | insufficientApproval
  | invalidSender
  | invalidApprover
  | invalidOperator
  -- ShardingTable; a loop that does not end within the gas of the transaction
  | outOfGas
  | nodeAlreadyInTheShardingTable
  | invalidIndexWithRespectToPreviousNode
  | invalidIndexWithRespectToNextNode
  -- RandomSampling, createChallenge and submitProof
  | profileDoesntExist
  | zeroDurationInBlocks
  | noApplicableDuration
  | zeroActiveDuration
  | challengeAlreadySolved
  | unsolvedChallengeExists
  | alreadySolved
  | challengeNoLongerActive
  | merkleRootMismatch
  | noEligibleContextGraph
  | noEligibleKnowledgeCollection
  -- Identity, IdentityStorage and Profile
  | operationalAddressZero
  | adminAddressZero
  | adminEqualsOperational
  | keyIsEmpty
  | operationalKeyTaken
  | keyAlreadyAttached
  | keyNotAttached
  | cannotDeleteOnlyAdminKey
  | cannotDeleteOnlyOperationalKey
  | adminFunctionOnly
  | indexOutOfBounds
  | identityAlreadyExists
  | tooManyOperationalWallets
  | emptyNodeName
  | nodeNameAlreadyExists
  | emptyNodeId
  | nodeIdAlreadyExists
  | onlyWhitelistedAddresses
  -- KnowledgeAssetsV10, KnowledgeCollectionStorage and Paymaster
  | signaturesSignersMismatch
  | minSignaturesRequirementNotMet
  | insufficientUniqueIdentities
  | invalidSignature
  | signerIsNotNodeOperator
  | signerHasNoStake
  | zeroContextGraphId
  | zeroEpochs
  | invalidTokenAmount
  | unauthorizedPublisher
  | cannotUpdateImmutableKnowledgeCollection
  | knowledgeCollectionExpired
  | missingContextGraphBinding
  | cannotShrinkTokenAmount
  | noRemainingLifetimeForDelta
  | safeCastOverflowedUintDowncast
  | tooLowAllowance
  | tooLowBalance
  | notAllowed
  | exceededKnowledgeCollectionMaxSize
  | mintZeroQuantity
  | notPartOfKnowledgeCollection
  | mintToZeroAddress
  | mintTooManyTokens
  | burnFromNonOwner
  | burnFromZeroAddress
  | invalidContextGraphConfig
  | contextGraphNotActive
  | kcAlreadyRegisteredToContextGraph
  -- ContextGraphStorage, the reasons of InvalidContextGraphConfig
  | zeroAddressOwner
  | emptyHostingNodes
  | hostingNodesCap
  | agentsCap
  | invalidThreshold
  | invalidPublishPolicy
  | zeroHostingNodeId
  | hostingNodesUnsortedOrDuplicate
  | curatedRequiresPublishAuthority
  | openPolicyZeroAuthorityRequired
  | openPolicyZeroAccountIdRequired
  | openPolicyClearAuthority
  | setHostingNodesWouldBreakQuorum
  | zeroParticipantAgent
  | zeroKcId
  -- ContextGraphStorage and ContextGraphs
  | agentParticipantAlreadyExists
  | agentParticipantNotFound
  | notContextGraphOwner
  | notContextGraphOwnerOrAuthority
  | pcaNotResolvable
  | pcaAccountDoesNotExist
  | pcaAuthorityMismatch
  -- UnorderedNamedContractDynamicSet and Hub
  | emptyName
  | zeroAddress
  | contractAlreadyExists
  | addressAlreadyInSet
  | contractDoesNotExist
  | addressDoesNotExist
  | invalidTargetContract
  | contractNotRegistered
  | targetCallReverted
  -- ERC1155Delta
  | transferCallerNotOwnerNorApproved
  | transferToZeroAddress
  | transferFromIncorrectOwnerOrInvalidAmount
  | inputLengthMismatch
  | approvalForSelf
  | invalidQueryRange
  deriving DecidableEq, Repr

/-- The result of a call: a value, or the reason of the revert. -/
abbrev Tx (α : Type) := Except Revert α

/-- `require(c, e)`. -/
def require (c : Prop) [Decidable c] (e : Revert) : Tx Unit :=
  if c then .ok () else .error e

variable {e : Revert} {ε α β : Type} {x : Except ε α} {f : α → Except ε β} {w a b c n : ℕ}

lemma require_eq_ok {c : Prop} [Decidable c] {u : Unit} : require c e = .ok u ↔ c := by
  by_cases h : c <;> simp [require, h]

lemma require_pos {c : Prop} [Decidable c] (h : c) (e : Revert) : require c e = .ok () :=
  if_pos h

lemma require_eq_error {c : Prop} [Decidable c] {e' : Revert} :
    require c e = .error e' ↔ ¬ c ∧ e = e' := by
  by_cases h : c <;> simp [require, h]

lemma ok_bind (a : α) (f : α → Except ε β) : (Except.ok a >>= f) = f a := rfl

lemma bind_eq_ok {b : β} : (x >>= f) = .ok b ↔ ∃ a, x = .ok a ∧ f a = .ok b := by
  cases x with
  | error e | ok a => simp [bind, Except.bind]

lemma of_bind {b : β} (h : (x >>= f) = .ok b) : ∃ a, x = .ok a ∧ f a = .ok b := bind_eq_ok.mp h

lemma of_bind₂ {γ : Type} {y : α → Except ε β} {f : α → β → Except ε γ} {c : γ}
    (h : (x >>= fun a => y a >>= f a) = .ok c) :
    ∃ a, x = .ok a ∧ ∃ b, y a = .ok b ∧ f a b = .ok c := by
  obtain ⟨a, hx, h⟩ := of_bind h
  exact ⟨a, hx, of_bind h⟩

lemma of_bind₃ {γ δ : Type} {y : α → Except ε β} {z : α → β → Except ε γ}
    {f : α → β → γ → Except ε δ} {d : δ}
    (h : (x >>= fun a => y a >>= fun b => z a b >>= f a b) = .ok d) :
    ∃ a, x = .ok a ∧ ∃ b, y a = .ok b ∧ ∃ c, z a b = .ok c ∧ f a b c = .ok d := by
  obtain ⟨a, hx, h⟩ := of_bind h
  exact ⟨a, hx, of_bind₂ h⟩

lemma of_require {c : Prop} [Decidable c] {r : Revert} {f : Unit → Except Revert β} {b : β}
    (h : (require c r >>= f) = .ok b) : c ∧ f () = .ok b := by
  obtain ⟨_, hc, h⟩ := of_bind h
  exact ⟨require_eq_ok.mp hc, h⟩

lemma of_require₂ {c d : Prop} [Decidable c] [Decidable d] {r t : Revert}
    {f : Unit → Unit → Except Revert β} {b : β}
    (h : (require c r >>= fun u => require d t >>= f u) = .ok b) : c ∧ d ∧ f () () = .ok b := by
  obtain ⟨hc, h⟩ := of_require h
  exact ⟨hc, of_require h⟩

/-- A sequence of two calls reverts when the first does, or the second does after it. -/
lemma bind_eq_error {e : ε} :
    (x >>= f) = .error e ↔ x = .error e ∨ ∃ a, x = .ok a ∧ f a = .error e := by
  cases x with
  | error e | ok a => simp [bind, Except.bind]

lemma pure_eq_ok {a b : α} : (pure a : Except ε α) = .ok b ↔ a = b := by
  simp [pure, Except.pure]

lemma of_pure {a b : α} (h : (pure a : Except ε α) = .ok b) : a = b :=
  pure_eq_ok.mp h

lemma of_bind_pure {g : α → β} {b : β} (h : (x >>= fun a => pure (g a)) = .ok b) :
    ∃ a, x = .ok a ∧ g a = b := by
  obtain ⟨a, hx, h⟩ := of_bind h
  exact ⟨a, hx, of_pure h⟩

lemma pure_ne_error {a : α} {e : ε} : (pure a : Except ε α) ≠ .error e := by
  simp [pure, Except.pure]

/-- The call returns, and its result passes the test `t`. -/
def succeeds {ε α : Type} (x : Except ε α) (t : α → Bool) : Bool :=
  match x with
  | .ok a => t a
  | .error _ => false

lemma exists_of_succeeds {t : α → Bool} (h : succeeds x t = true) :
    ∃ a, x = .ok a ∧ t a = true := by
  cases x with
  | error e => cases h
  | ok a => exact ⟨a, rfl, h⟩

/-- The call returns the value that it is tested for. -/
lemma eq_ok_of_succeeds [DecidableEq α] {v : α} (h : succeeds x (fun a => decide (a = v)) = true) :
    x = .ok v := by
  obtain ⟨a, hx, ha⟩ := exists_of_succeeds h
  rw [hx, of_decide_eq_true ha]

/-- The call reverts with `e`. -/
def fails {ε α : Type} [DecidableEq ε] (x : Except ε α) (e : ε) : Bool :=
  match x with
  | .ok _ => false
  | .error e' => e' = e

lemma eq_error_of_fails [DecidableEq ε] {e : ε} (h : fails x e = true) : x = .error e := by
  cases x with
  | error e' => rw [of_decide_eq_true h]
  | ok a => cases h

/-! ## Checked arithmetic -/

/-- Checked addition on `uint<w>`. -/
def addUint (w a b : ℕ) : Tx ℕ := if a + b < 2 ^ w then .ok (a + b) else .error .panic

/-- Checked subtraction on an unsigned type. -/
def subUint (a b : ℕ) : Tx ℕ := if b ≤ a then .ok (a - b) else .error .panic

/-- Checked addition on `int<w>`. -/
def addInt (w : ℕ) (a b : ℤ) : Tx ℤ :=
  if -2 ^ (w - 1) ≤ a + b ∧ a + b < 2 ^ (w - 1) then .ok (a + b) else .error .panic

/-- Checked multiplication on `uint<w>`. -/
def mulUint (w a b : ℕ) : Tx ℕ := if a * b < 2 ^ w then .ok (a * b) else .error .panic

/-- Division on an unsigned type; a zero divisor panics. -/
def divUint (a b : ℕ) : Tx ℕ := if b ≠ 0 then .ok (a / b) else .error .panic

lemma addUint_eq_ok : addUint w a b = .ok c ↔ a + b < 2 ^ w ∧ c = a + b := by
  by_cases h : a + b < 2 ^ w <;> simp [addUint, h, eq_comm]

lemma addUint_eq_error : addUint w a b = .error e ↔ 2 ^ w ≤ a + b ∧ e = .panic := by
  by_cases h : a + b < 2 ^ w
  · simp [addUint, h]
  · simp [addUint, h, eq_comm, Nat.not_lt.mp h]

lemma subUint_eq_ok : subUint a b = .ok c ↔ b ≤ a ∧ c = a - b := by
  by_cases h : b ≤ a <;> simp [subUint, h, eq_comm]

lemma mulUint_eq_ok : mulUint w a b = .ok c ↔ a * b < 2 ^ w ∧ c = a * b := by
  by_cases h : a * b < 2 ^ w <;> simp [mulUint, h, eq_comm]

lemma divUint_eq_ok : divUint a b = .ok c ↔ b ≠ 0 ∧ c = a / b := by
  by_cases h : b = 0 <;> simp [divUint, h, eq_comm]

lemma addInt_eq_ok {a b c : ℤ} :
    addInt w a b = .ok c ↔ (-2 ^ (w - 1) ≤ a + b ∧ a + b < 2 ^ (w - 1)) ∧ c = a + b := by
  by_cases h : -2 ^ (w - 1) ≤ a + b ∧ a + b < 2 ^ (w - 1)
  · simp [addInt, h, eq_comm]
  · rw [addInt, if_neg h]
    simp [h]

lemma addInt_eq_error {a b : ℤ} :
    addInt w a b = .error e ↔
      ¬ (-2 ^ (w - 1) ≤ a + b ∧ a + b < 2 ^ (w - 1)) ∧ e = .panic := by
  by_cases h : -2 ^ (w - 1) ≤ a + b ∧ a + b < 2 ^ (w - 1)
  · rw [addInt, if_pos h]
    simp [h]
  · rw [addInt, if_neg h]
    simp [h, eq_comm]

/-! ## Storage -/

/-- Writing a nested mapping at one pair of keys. -/
def store₂ {α : Type} (m : ℕ → ℕ → α) (a b : ℕ) (v : α) : ℕ → ℕ → α :=
  fun x y => if x = a ∧ y = b then v else m x y

/-- Writing a mapping nested twice. -/
def store₃ {α : Type} (m : ℕ → ℕ → ℕ → α) (a b c : ℕ) (v : α) : ℕ → ℕ → ℕ → α :=
  fun x y z => if x = a ∧ y = b ∧ z = c then v else m x y z

lemma store₂_row (m : ℕ → ℕ → α) (x y : ℕ) (v : α) :
    store₂ m x y v x = Function.update (m x) y v := by
  funext y'
  unfold store₂
  by_cases hy : y' = y
  · rw [if_pos ⟨rfl, hy⟩, hy, Function.update_self]
  · rw [if_neg (fun h => hy h.2), Function.update_of_ne hy]

lemma store₂_other_row (m : ℕ → ℕ → α) {x x' : ℕ} (y : ℕ) (v : α) (h : x' ≠ x) :
    store₂ m x y v x' = m x' := by
  funext y'
  exact if_neg fun hboth => h hboth.1

lemma store₂_self (m : ℕ → ℕ → α) (x y : ℕ) : store₂ m x y (m x y) = m := by
  funext x' y'
  unfold store₂
  split
  next h =>
    obtain ⟨rfl, rfl⟩ := h
    rfl
  next => rfl

lemma store₃_self (m : ℕ → ℕ → ℕ → α) (x y z : ℕ) : store₃ m x y z (m x y z) = m := by
  funext x' y' z'
  unfold store₃
  split
  next h =>
    obtain ⟨rfl, rfl, rfl⟩ := h
    rfl
  next => rfl

/-! ## Truncating casts -/

/-- `uint32(n)`. -/
def uint32 (n : ℕ) : ℕ := n % 2 ^ 32

/-- `uint40(n)`. -/
def uint40 (n : ℕ) : ℕ := n % 2 ^ 40

/-- `uint96(n)`. -/
def uint96 (n : ℕ) : ℕ := n % 2 ^ 96

/-- `uint96(z)` of a signed argument. -/
def uint96OfInt (z : ℤ) : ℕ := (z % 2 ^ 96).toNat

/-- `int<w>(n)` of an unsigned argument of the same width: the two's complement reading. -/
def intOfUint (w n : ℕ) : ℤ := Int.bmod n (2 ^ w)

/-- `int96(n)` of an unsigned argument. -/
def int96 (n : ℕ) : ℤ := intOfUint 96 n

lemma uint32_of_lt (h : n < 2 ^ 32) : uint32 n = n := Nat.mod_eq_of_lt h

lemma uint40_of_lt (h : n < 2 ^ 40) : uint40 n = n := Nat.mod_eq_of_lt h

lemma uint96_of_lt (h : n < 2 ^ 96) : uint96 n = n := Nat.mod_eq_of_lt h

lemma uint96OfInt_of_nonneg {z : ℤ} (h0 : 0 ≤ z) (h : z < 2 ^ 96) : (uint96OfInt z : ℤ) = z := by
  rw [uint96OfInt, Int.emod_eq_of_lt h0 h, Int.toNat_of_nonneg h0]

lemma intOfUint_of_lt (h : n < 2 ^ w) : intOfUint (w + 1) n = n := by
  have h' : (n : ℤ) < 2 ^ w := by exact_mod_cast h
  rw [intOfUint]
  apply Int.bmod_eq_of_le
  · rw [Nat.pow_succ]; push_cast; omega
  · rw [Nat.pow_succ]; push_cast; omega

lemma int96_of_lt (h : n < 2 ^ 95) : int96 n = n := intOfUint_of_lt h

end Dkg
