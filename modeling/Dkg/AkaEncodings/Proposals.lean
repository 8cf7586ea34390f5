import Dkg.AkaEncodings.Messages

/-! # Proposals of sessions

`createSession` and `handleSessionProposed` of `attested-assets/src/session-manager.ts`, with the
encoding of a configuration in `proto/aka-events.ts`. The creator of a session hashes the
configuration that it has in memory; the others hash the one that they decode. The two agree exactly
if the numbers of the configuration survive the encoding (`computeConfigHash_received_iff`).

The protobuf library, the hash and signature functions and the order of `localeCompare` are
parameters, `Platform`. The library is taken to give back every message of the declared types, and
to convert numbers to such of 32 bits as `>>> 0` does.
-/

namespace Dkg.Aka.Encoding

open Lib Option

/-! ## Configurations -/

/-- A member; the decoder does not check the role. -/
structure SessionMember where
  peerId : Utf16
  pubKey : Bytes
  (displayName role : Utf16)
  deriving DecidableEq

structure QuorumPolicy where
  type : Utf16
  (numerator denominator minSigners : JsNumber)
  deriving DecidableEq

structure ReducerConfig where
  (name version hash : Utf16)
  deriving DecidableEq

/-- A configuration before it has a hash. -/
structure ConfigWithoutHash where
  (sessionId contextGraphId appId createdBy createdAt : Utf16)
  membership : List SessionMember
  membershipRoot : Utf16
  quorumPolicy : QuorumPolicy
  reducer : ReducerConfig
  genesisStateHash : Utf16
  roundTimeout : JsNumber
  maxRounds : Option JsNumber
  deriving DecidableEq

structure SessionConfig extends ConfigWithoutHash where
  (status configHash : Utf16)
  deriving DecidableEq

/-! ## Messages -/

abbrev Uint32 := Fin (2 ^ 32)

structure QuorumPolicyMessage where
  type : Utf16
  (numerator denominator minSigners : Uint32)

/-- The fields of `SessionConfigSchema`. -/
structure SessionConfigMessage where
  (sessionId contextGraphId appId createdBy createdAt : Utf16)
  membership : List SessionMember
  membershipRoot : Utf16
  quorumPolicy : QuorumPolicyMessage
  reducer : ReducerConfig
  genesisStateHash : Utf16
  (roundTimeout maxRounds : Uint32)
  (status configHash : Utf16)

/-- What the source gets from elsewhere. -/
structure Platform where
  sha256 : Sha256
  ed25519Sign : Bytes → Bytes → Bytes
  ed25519Verify : Bytes → Bytes → Bytes → Bool
  localeCompareLe : Utf16 → Utf16 → Bool
  encode : SessionConfigMessage → Bytes
  decode : Bytes → Option SessionConfigMessage
  decode_encode : ∀ message, decode (encode message) = some message

/-- `>>> 0`. -/
def toUint32 : JsNumber → Uint32
  | .finite x =>
    let truncated := if 0 ≤ x.value then ⌊x.value⌋ else ⌈x.value⌉
    ⟨(truncated % 2 ^ 32).toNat, by omega⟩
  | _ => 0

def ofUint32 (n : Uint32) : JsNumber := JsNumber.ofNat n.val (by omega)

/-- `maxRounds ?? 0`. -/
def sentMaxRounds (maxRounds : Option JsNumber) : Uint32 := maxRounds.elim 0 toUint32

def readMaxRounds (n : Uint32) : Option JsNumber := if n.val = 0 then none else some (ofUint32 n)

variable (platform : Platform)

def encodeSessionConfig (config : SessionConfig) : Bytes :=
  platform.encode {
    sessionId := config.sessionId
    contextGraphId := config.contextGraphId
    appId := config.appId
    createdBy := config.createdBy
    createdAt := config.createdAt
    membership := config.membership
    membershipRoot := config.membershipRoot
    quorumPolicy := {
      type := config.quorumPolicy.type
      numerator := toUint32 config.quorumPolicy.numerator
      denominator := toUint32 config.quorumPolicy.denominator
      minSigners := toUint32 config.quorumPolicy.minSigners }
    reducer := config.reducer
    genesisStateHash := config.genesisStateHash
    roundTimeout := toUint32 config.roundTimeout
    maxRounds := sentMaxRounds config.maxRounds
    status := config.status
    configHash := config.configHash }

def decodeSessionConfig (buf : Bytes) : Option SessionConfig :=
  (platform.decode buf).map fun raw => {
    sessionId := raw.sessionId
    contextGraphId := raw.contextGraphId
    appId := raw.appId
    createdBy := raw.createdBy
    createdAt := raw.createdAt
    membership := raw.membership
    membershipRoot := raw.membershipRoot
    quorumPolicy := {
      type := raw.quorumPolicy.type
      numerator := ofUint32 raw.quorumPolicy.numerator
      denominator := ofUint32 raw.quorumPolicy.denominator
      minSigners := ofUint32 raw.quorumPolicy.minSigners }
    reducer := raw.reducer
    genesisStateHash := raw.genesisStateHash
    roundTimeout := ofUint32 raw.roundTimeout
    maxRounds := readMaxRounds raw.maxRounds
    status := raw.status
    configHash := raw.configHash }

/-! ## Hashes of a configuration -/

def memberValue (m : SessionMember) : JsValue :=
  .object [
    (literal "displayName", .string m.displayName),
    (literal "peerId", .string m.peerId),
    (literal "pubKey", bytesValue m.pubKey),
    (literal "role", .string m.role)]

def quorumPolicyPairs (policy : QuorumPolicy) : List (Utf16 × JsValue) := [
  (literal "type", .string policy.type),
  (literal "numerator", .number policy.numerator),
  (literal "denominator", .number policy.denominator),
  (literal "minSigners", .number policy.minSigners)]

def reducerValue (reducer : ReducerConfig) : JsValue :=
  .object [
    (literal "name", .string reducer.name),
    (literal "version", .string reducer.version),
    (literal "hash", .string reducer.hash)]

def maxRoundsValue (maxRounds : Option JsNumber) : JsValue := maxRounds.elim .null .number

def hashablePairs (config : ConfigWithoutHash) : List (Utf16 × JsValue) := [
  (literal "sessionId", .string config.sessionId),
  (literal "contextGraphId", .string config.contextGraphId),
  (literal "appId", .string config.appId),
  (literal "createdBy", .string config.createdBy),
  (literal "createdAt", .string config.createdAt),
  (literal "membership", .array (config.membership.map memberValue)),
  (literal "membershipRoot", .string config.membershipRoot),
  (literal "quorumPolicy", .object (quorumPolicyPairs config.quorumPolicy)),
  (literal "reducer", reducerValue config.reducer),
  (literal "genesisStateHash", .string config.genesisStateHash),
  (literal "roundTimeout", .number config.roundTimeout),
  (literal "maxRounds", maxRoundsValue config.maxRounds)]

/-- What `computeConfigHash` encodes. -/
def hashable (config : ConfigWithoutHash) : JsValue := .object (hashablePairs config)

def configBytes (config : ConfigWithoutHash) : Bytes :=
  encodeText (utf16 (canonicalJsonEncode (hashable config)))

def computeConfigHash (config : ConfigWithoutHash) : Utf16 :=
  sha256Hex platform.sha256 (configBytes config)

def computeMembershipRoot (members : List SessionMember) : Utf16 :=
  let sorted := members.mergeSort fun a b => platform.localeCompareLe a.peerId b.peerId
  sha256String platform.sha256 (utf16 (canonicalJsonEncode (.array (sorted.map memberValue))))

def computeSessionId (contextGraphId creatorPeerId createdAt nonce : Utf16) : Utf16 :=
  sha256String platform.sha256 (contextGraphId ++ creatorPeerId ++ createdAt ++ nonce)

def computeStateHash (stateBytes : Bytes) : Utf16 := sha256Hex platform.sha256 stateBytes

/-! ## Reducers -/

structure ReducerModule where
  hash : Utf16
  genesisState : List SessionMember → Bytes

/-- The registered reducers, by name and version. -/
abbrev ReducerRegistry := KeyedList Utf16 ReducerModule

def ReducerRegistry.resolve (registry : ReducerRegistry) (config : ReducerConfig) :
    Option ReducerModule :=
  (registry.get (config.name ++ literal "@" ++ config.version)).filter fun reducer =>
    decide (reducer.hash = config.hash)

/-! ## Creation -/

/-- What a manager knows of itself. -/
structure SessionManager where
  localPeerId : Utf16
  secretKey : Bytes
  network : Utf16
  reducerRegistry : ReducerRegistry

structure AKAEvent where
  mode : Utf16
  type : AKAEventType
  sessionId : Utf16
  round : JsNumber
  (prevStateHash signerPeerId : Utf16)
  signature : Bytes
  timestamp : JsNumber
  nonce : Utf16
  payload : Bytes

/-- The clock and the random numbers that a call reads. -/
structure Clock where
  (createdAt nonce : Utf16)
  now : Binary64

def buildEvent (manager : SessionManager) (now : Binary64) (contextGraphId : Utf16)
    (type : AKAEventType) (sessionId : Utf16) (round : Binary64) (prevStateHash : Utf16)
    (payload : Bytes) : AKAEvent where
  mode := literal "AKA"
  type := type
  sessionId := sessionId
  round := .finite round
  prevStateHash := prevStateHash
  signerPeerId := manager.localPeerId
  signature := platform.ed25519Sign (buildSigningPayload {
    domain := literal "AKA-v1"
    network := manager.network
    contextGraphId := contextGraphId
    sessionId := sessionId
    round := .finite round
    type := type } (bytesValue payload)) manager.secretKey
  timestamp := .finite now
  nonce := manager.localPeerId ++ literal "-" ++ sessionId.take 8 ++ literal "-" ++
    literal (eventTypeName type) ++ literal "-" ++ utf16 round.toText ++ literal "-" ++
    utf16 now.toText
  payload := payload

/-- The arguments of `createSession`. -/
structure SessionArgs where
  (contextGraphId appId : Utf16)
  membership : List SessionMember
  quorumPolicy : QuorumPolicy
  reducerConfig : ReducerConfig
  roundTimeout : JsNumber
  maxRounds : Option JsNumber

/-- `createSession`: the configuration, and the event that is broadcast. -/
def createSession (manager : SessionManager) (clock : Clock) (args : SessionArgs) :
    Except Utf16 (SessionConfig × AKAEvent) :=
  let peerIds := args.membership.map SessionMember.peerId
  if args.membership.length < 2 then
    .error (literal "membership must have at least 2 members")
  else if ¬ peerIds.Nodup then .error (literal "duplicate peerId in membership")
  else if manager.localPeerId ∉ peerIds then
    .error (literal "localPeerId must be included in membership")
  else
    match manager.reducerRegistry.resolve args.reducerConfig with
    | none =>
      .error (literal "reducer " ++ args.reducerConfig.name ++ literal "@" ++
        args.reducerConfig.version ++ literal " not found or hash mismatch")
    | some reducer =>
      let sessionId := computeSessionId platform args.contextGraphId manager.localPeerId
        clock.createdAt clock.nonce
      let genesisStateHash := computeStateHash platform (reducer.genesisState args.membership)
      let configWithoutHash : ConfigWithoutHash := {
        sessionId := sessionId
        contextGraphId := args.contextGraphId
        appId := args.appId
        createdBy := manager.localPeerId
        createdAt := clock.createdAt
        membership := args.membership
        membershipRoot := computeMembershipRoot platform args.membership
        quorumPolicy := args.quorumPolicy
        reducer := args.reducerConfig
        genesisStateHash := genesisStateHash
        roundTimeout := args.roundTimeout
        maxRounds := args.maxRounds }
      let sessionConfig : SessionConfig := {
        configWithoutHash with
        status := literal "proposed"
        configHash := computeConfigHash platform configWithoutHash }
      .ok (sessionConfig, buildEvent platform manager clock.now args.contextGraphId
        .sessionProposed sessionId (Binary64.ofNat 0 (by omega)) genesisStateHash
        (encodeSessionConfig platform sessionConfig))

/-! ## Reception -/

/-- `handleSessionProposed`: the configuration and the first state of the session that is set up, or
nothing where the proposal is dropped. -/
def handleSessionProposed (manager : SessionManager) (event : AKAEvent) :
    Option (SessionConfig × Bytes) :=
  match decodeSessionConfig platform event.payload with
  | none => none
  | some config =>
    if computeConfigHash platform config.toConfigWithoutHash ≠ config.configHash then none
    else if config.sessionId ≠ event.sessionId then none
    else if event.signerPeerId ≠ config.createdBy then none
    else
      match config.membership.find? fun m => m.peerId = event.signerPeerId with
      | none => none
      | some creator =>
        let message := buildSigningPayload {
          domain := literal "AKA-v1"
          network := manager.network
          contextGraphId := config.contextGraphId
          sessionId := config.sessionId
          round := .finite (Binary64.ofNat 0 (by omega))
          type := .sessionProposed } (bytesValue event.payload)
        if platform.ed25519Verify event.signature message creator.pubKey = false then none
        else if manager.localPeerId ∉ config.membership.map SessionMember.peerId then none
        else
          (manager.reducerRegistry.resolve config.reducer).map fun reducer =>
            (config, reducer.genesisState config.membership)

/-! ## What the others decode -/

/-- A configuration after its way through the encoding. -/
def received (config : SessionConfig) : SessionConfig :=
  { config with
    quorumPolicy := {
      type := config.quorumPolicy.type
      numerator := ofUint32 (toUint32 config.quorumPolicy.numerator)
      denominator := ofUint32 (toUint32 config.quorumPolicy.denominator)
      minSigners := ofUint32 (toUint32 config.quorumPolicy.minSigners) }
    roundTimeout := ofUint32 (toUint32 config.roundTimeout)
    maxRounds := readMaxRounds (sentMaxRounds config.maxRounds) }

lemma decode_encodeSessionConfig (config : SessionConfig) :
    decodeSessionConfig platform (encodeSessionConfig platform config) =
        some (received config) := by
  simp only [decodeSessionConfig, encodeSessionConfig, platform.decode_encode, map_some]
  rfl

/-! ## Numbers of 32 bits -/

/-- An integer of 32 bits without sign. -/
def JsNumber.IsUint32 (x : JsNumber) : Prop := ∃ n : ℕ, n < 2 ^ 32 ∧ x.value = some (n : ℚ)

variable {x : JsNumber} {n : ℕ} {pairs pairs' : List (Utf16 × JsValue)} {config : SessionConfig}
  {manager : SessionManager} {event : AKAEvent}

lemma toUint32_of_value (hn : n < 2 ^ 32) (h : x.value = some (n : ℚ)) : (toUint32 x).val = n := by
  cases x with
  | nan | infinity negative => simp [JsNumber.value] at h
  | negativeZero =>
    have hzero : (n : ℚ) = 0 := by simpa [JsNumber.value] using h.symm
    have : n = 0 := by exact_mod_cast hzero
    simp [toUint32, this]
  | finite b =>
    have hb : b.value = n := by simpa [JsNumber.value] using h
    simp only [toUint32, hb]
    rw [if_pos (Nat.cast_nonneg n), Int.floor_natCast]
    omega

lemma numberJson_eq_iff (hn : n < 2 ^ 53) :
    JsValue.numberJson x = JsValue.numberJson (JsNumber.ofNat n hn) ↔ x.value = some (n : ℚ) := by
  cases x with
  | nan | infinity negative => simp [JsValue.numberJson, JsNumber.ofNat, JsNumber.value]
  | negativeZero =>
    simp only [JsValue.numberJson, JsNumber.ofNat, JsNumber.value, Json.number.injEq,
      Option.some.injEq]
    constructor
    · intro h
      have := congrArg Binary64.value h
      simpa using this
    · intro h
      exact Binary64.ext (by simpa using h)
  | finite b =>
    simp only [JsValue.numberJson, JsNumber.ofNat, JsNumber.value, Json.number.injEq,
      Option.some.injEq]
    exact ⟨fun h => by rw [h, Binary64.ofNat_value], fun h => Binary64.ext h⟩

/-- A number is hashed alike on both sides exactly if it is an integer of 32 bits. -/
lemma numberJson_received_iff :
    JsValue.numberJson (ofUint32 (toUint32 x)) = JsValue.numberJson x ↔ x.IsUint32 := by
  rw [eq_comm, ofUint32, numberJson_eq_iff]
  constructor
  · exact fun h => ⟨_, (toUint32 x).isLt, h⟩
  · rintro ⟨n, hn, h⟩
    rw [toUint32_of_value hn h, h]

/-- A maximum of rounds that is hashed alike on both sides; zero is read as no maximum. -/
def JsNumber.IsMaxRounds (x : JsNumber) : Prop :=
  x.value = none ∨ x.IsUint32 ∧ x.value ≠ some 0

lemma json_readMaxRounds (n : Uint32) :
    (maxRoundsValue (readMaxRounds n)).json =
      if n.val = 0 then .null else JsValue.numberJson (ofUint32 n) := by
  unfold readMaxRounds
  split
  · rfl
  · rfl

lemma maxRoundsJson_received_iff {maxRounds : Option JsNumber} :
    (maxRoundsValue (readMaxRounds (sentMaxRounds maxRounds))).json =
      (maxRoundsValue maxRounds).json ↔ ∀ x ∈ maxRounds, x.IsMaxRounds := by
  rw [json_readMaxRounds]
  cases maxRounds with
  | none => simp [sentMaxRounds, maxRoundsValue, JsValue.json]
  | some x =>
    show (if (toUint32 x).val = 0 then Json.null else JsValue.numberJson (ofUint32 (toUint32 x))) =
      JsValue.numberJson x ↔ _
    simp only [mem_some_iff, forall_eq']
    by_cases hzero : (toUint32 x).val = 0
    · rw [if_pos hzero]
      constructor
      · intro h
        refine .inl ?_
        cases x <;> simp [JsValue.numberJson, JsNumber.value] at h ⊢
      · rintro (hnone | ⟨⟨n, hn, h⟩, hne⟩)
        · cases x <;> simp [JsValue.numberJson, JsNumber.value] at hnone ⊢
        · rw [toUint32_of_value hn h] at hzero
          exact absurd h (by simpa [hzero] using hne)
    · rw [if_neg hzero, numberJson_received_iff, JsNumber.IsMaxRounds]
      constructor
      · rintro ⟨n, hn, h⟩
        rw [toUint32_of_value hn h] at hzero
        refine .inr ⟨⟨n, hn, h⟩, ?_⟩
        rw [h]
        simpa using hzero
      · rintro (hnone | ⟨h, _⟩)
        · exact absurd (by cases x <;> simp_all [toUint32, JsNumber.value]) hzero
        · exact h

/-! ## Configurations that survive -/

/-- The numbers of a configuration are of 32 bits, and its maximum of rounds is not zero. -/
structure Fits (quorumPolicy : QuorumPolicy) (roundTimeout : JsNumber)
    (maxRounds : Option JsNumber) : Prop where
  numerator : quorumPolicy.numerator.IsUint32
  denominator : quorumPolicy.denominator.IsUint32
  minSigners : quorumPolicy.minSigners.IsUint32
  roundTimeout : roundTimeout.IsUint32
  maxRounds : ∀ x ∈ maxRounds, x.IsMaxRounds

/-- One key with one JSON value. -/
def SamePair (p p' : Utf16 × JsValue) : Prop :=
  p.1 = p'.1 ∧ p.2.isUndefined = p'.2.isUndefined ∧ p.2.json = p'.2.json

lemma samePair_refl (p : Utf16 × JsValue) : SamePair p p := ⟨rfl, rfl, rfl⟩

lemma json_object_congr (h : List.Forall₂ SamePair pairs pairs') :
    (JsValue.object pairs).json = (JsValue.object pairs').json := by
  have hjson : JsValue.jsonPairs pairs = JsValue.jsonPairs pairs' := by
    induction h with
    | nil => rfl
    | cons hpair _ ih =>
      obtain ⟨hkey, hdefined, hvalue⟩ := hpair
      rw [JsValue.jsonPairs, JsValue.jsonPairs, hkey, hdefined, hvalue, ih]
  rw [JsValue.json, JsValue.json, hjson]

lemma json_eq_of_key {key : Utf16} {v v' : JsValue}
    (h : (JsValue.object pairs).json = (JsValue.object pairs').json)
    (hnodup : (pairs'.map Prod.fst).Nodup) (hv : (key, v) ∈ pairs) (hv' : (key, v') ∈ pairs')
    (hdefined : v.isUndefined = false) : v.json = v'.json := by
  simp only [JsValue.json, Json.object.injEq] at h
  have hmem : (key, v.json) ∈ definedPairs (JsValue.jsonPairs pairs) :=
    JsValue.mem_definedPairs.mpr (JsValue.mem_jsonPairs.mpr ⟨v, hv, hdefined, rfl⟩)
  rw [h, JsValue.mem_definedPairs] at hmem
  obtain ⟨w, hw, _, hjson⟩ := JsValue.mem_jsonPairs.mp hmem
  calc v.json = w.json := hjson.symm
    _ = v'.json := by rw [JsValue.value_inj_of_nodup hnodup hw hv']

lemma hashable_plain (config : ConfigWithoutHash) : (hashable config).Plain := by
  have hmember : ∀ m, (memberValue m).Plain := fun m =>
    ⟨trivial, trivial, (bytesValue_isJson m.pubKey).plain, trivial, trivial⟩
  have hmembership : (JsValue.array (config.membership.map memberValue)).Plain := by
    refine JsValue.plainItems_iff.mpr fun v hv => ?_
    obtain ⟨m, _, rfl⟩ := List.mem_map.mp hv
    exact hmember m
  have hmaxRounds : (maxRoundsValue config.maxRounds).Plain := by
    cases config.maxRounds <;> trivial
  exact ⟨trivial, trivial, trivial, trivial, trivial, hmembership, trivial,
    ⟨trivial, trivial, trivial, trivial, trivial⟩, ⟨trivial, trivial, trivial, trivial⟩, trivial,
    trivial, hmaxRounds, trivial⟩

lemma nodup_hashablePairs (config : ConfigWithoutHash) :
    ((hashablePairs config).map Prod.fst).Nodup := by
  simp [hashablePairs, literal_injective.eq_iff]

lemma nodup_quorumPolicyPairs (policy : QuorumPolicy) :
    ((quorumPolicyPairs policy).map Prod.fst).Nodup := by
  simp [quorumPolicyPairs, literal_injective.eq_iff]

lemma maxRoundsValue_defined (maxRounds : Option JsNumber) :
    (maxRoundsValue maxRounds).isUndefined = false := by
  cases maxRounds <;> rfl

/-- The two sides encode one JSON value exactly if the numbers survive. -/
lemma hashable_json_iff :
    (hashable (received config).toConfigWithoutHash).json =
      (hashable config.toConfigWithoutHash).json ↔
        Fits config.quorumPolicy config.roundTimeout config.maxRounds := by
  constructor
  · intro h
    have hvalue : ∀ key v v', (key, v) ∈ hashablePairs (received config).toConfigWithoutHash →
        (key, v') ∈ hashablePairs config.toConfigWithoutHash → v.isUndefined = false →
        v.json = v'.json := fun key v v' hv hv' =>
      json_eq_of_key h (nodup_hashablePairs _) hv hv'
    have hpolicy : (JsValue.object (quorumPolicyPairs (received config).quorumPolicy)).json =
        (JsValue.object (quorumPolicyPairs config.quorumPolicy)).json :=
      hvalue (literal "quorumPolicy") _ _ (by simp [hashablePairs]) (by simp [hashablePairs]) rfl
    have hnumber : ∀ key x, (key, .number (ofUint32 (toUint32 x))) ∈
        quorumPolicyPairs (received config).quorumPolicy →
        (key, .number x) ∈ quorumPolicyPairs config.quorumPolicy → x.IsUint32 :=
      fun key x hx hx' => numberJson_received_iff.mp
        (json_eq_of_key hpolicy (nodup_quorumPolicyPairs _) hx hx' rfl)
    have htimeout : (JsValue.number (ofUint32 (toUint32 config.roundTimeout))).json =
        (JsValue.number config.roundTimeout).json :=
      hvalue (literal "roundTimeout") _ _ (by simp [hashablePairs, received])
        (by simp [hashablePairs]) rfl
    have hmaxRounds : (maxRoundsValue (readMaxRounds (sentMaxRounds config.maxRounds))).json =
        (maxRoundsValue config.maxRounds).json :=
      hvalue (literal "maxRounds") _ _ (by simp [hashablePairs, received])
        (by simp [hashablePairs]) (maxRoundsValue_defined _)
    exact ⟨hnumber (literal "numerator") _ (by simp [quorumPolicyPairs, received])
        (by simp [quorumPolicyPairs]),
      hnumber (literal "denominator") _ (by simp [quorumPolicyPairs, received])
        (by simp [quorumPolicyPairs]),
      hnumber (literal "minSigners") _ (by simp [quorumPolicyPairs, received])
        (by simp [quorumPolicyPairs]),
      numberJson_received_iff.mp htimeout, maxRoundsJson_received_iff.mp hmaxRounds⟩
  · intro h
    have hpolicy : (JsValue.object (quorumPolicyPairs (received config).quorumPolicy)).json =
        (JsValue.object (quorumPolicyPairs config.quorumPolicy)).json :=
      json_object_congr <|
        .cons (samePair_refl _) <|
        .cons ⟨rfl, rfl, numberJson_received_iff.mpr h.numerator⟩ <|
        .cons ⟨rfl, rfl, numberJson_received_iff.mpr h.denominator⟩ <|
        .cons ⟨rfl, rfl, numberJson_received_iff.mpr h.minSigners⟩ .nil
    have hmaxRounds : SamePair (literal "maxRounds", maxRoundsValue (received config).maxRounds)
        (literal "maxRounds", maxRoundsValue config.maxRounds) :=
      ⟨rfl, by rw [maxRoundsValue_defined, maxRoundsValue_defined],
        maxRoundsJson_received_iff.mpr h.maxRounds⟩
    exact json_object_congr <|
      .cons (samePair_refl _) <| .cons (samePair_refl _) <| .cons (samePair_refl _) <|
      .cons (samePair_refl _) <| .cons (samePair_refl _) <| .cons (samePair_refl _) <|
      .cons (samePair_refl _) <| .cons ⟨rfl, rfl, hpolicy⟩ <| .cons (samePair_refl _) <|
      .cons (samePair_refl _) <|
      .cons ⟨rfl, rfl, numberJson_received_iff.mpr h.roundTimeout⟩ <|
      .cons hmaxRounds .nil

/-- Two configurations that are hashed to one value though they are encoded to different bytes. -/
def Platform.Collides (data data' : Bytes) : Prop :=
  data ≠ data' ∧ platform.sha256 data = platform.sha256 data'

lemma computeConfigHash_received_iff (config : SessionConfig) :
    computeConfigHash platform (received config).toConfigWithoutHash =
        computeConfigHash platform config.toConfigWithoutHash ↔
      Fits config.quorumPolicy config.roundTimeout config.maxRounds ∨
        platform.Collides (configBytes (received config).toConfigWithoutHash)
          (configBytes config.toConfigWithoutHash) := by
  have hbytes : configBytes (received config).toConfigWithoutHash =
      configBytes config.toConfigWithoutHash ↔
        Fits config.quorumPolicy config.roundTimeout config.maxRounds := by
    rw [← hashable_json_iff, ← JsValue.canonicalJsonEncode_eq_iff_json (hashable_plain _)
      (hashable_plain _)]
    exact ⟨encodeText_utf16, fun h => by rw [configBytes, h, configBytes]⟩
  rw [computeConfigHash, computeConfigHash, sha256Hex_eq_iff, Platform.Collides, ← hbytes]
  by_cases heq : configBytes (received config).toConfigWithoutHash =
      configBytes config.toConfigWithoutHash
  · simp [heq]
  · simp [heq]

/-! ## Proposals -/

/-- What a call of `createSession` that succeeds has made. -/
lemma createSession_ok {clock : Clock} {args : SessionArgs}
    (h : createSession platform manager clock args = .ok (config, event)) :
    config.configHash = computeConfigHash platform config.toConfigWithoutHash ∧
      event.payload = encodeSessionConfig platform config ∧
      event.sessionId = config.sessionId ∧ event.signerPeerId = config.createdBy ∧
      config.quorumPolicy = args.quorumPolicy ∧ config.roundTimeout = args.roundTimeout ∧
      config.maxRounds = args.maxRounds := by
  unfold createSession at h
  simp only at h
  split_ifs at h
  split at h
  · cases h
  · cases h
    exact ⟨rfl, rfl, rfl, rfl, rfl, rfl, rfl⟩

/-- The proposal is well signed, and the manager is a member of the session and has its reducer. -/
structure SessionManager.Invited (manager : SessionManager) (event : AKAEvent)
    (config : SessionConfig) : Prop where
  signed : ∃ creator, config.membership.find? (fun m => m.peerId = event.signerPeerId) =
    some creator ∧ platform.ed25519Verify event.signature (buildSigningPayload {
      domain := literal "AKA-v1"
      network := manager.network
      contextGraphId := config.contextGraphId
      sessionId := config.sessionId
      round := .finite (Binary64.ofNat 0 (by omega))
      type := .sessionProposed } (bytesValue event.payload)) creator.pubKey = true
  member : manager.localPeerId ∈ config.membership.map SessionMember.peerId
  reducer : (manager.reducerRegistry.resolve config.reducer).isSome

variable {platform}

/-- An invited manager drops a proposal only because of its hash. -/
lemma SessionManager.Invited.accepts_iff (h : manager.Invited platform event config)
    (hdecode : decodeSessionConfig platform event.payload = some config)
    (hsession : config.sessionId = event.sessionId)
    (hcreator : event.signerPeerId = config.createdBy) :
    (handleSessionProposed platform manager event).isSome ↔
      computeConfigHash platform config.toConfigWithoutHash = config.configHash := by
  obtain ⟨creator, hfind, hverify⟩ := h.signed
  obtain ⟨reducer, hreducer⟩ := isSome_iff_exists.mp h.reducer
  by_cases hhash : computeConfigHash platform config.toConfigWithoutHash = config.configHash
  · refine iff_of_true ?_ hhash
    simp only [handleSessionProposed, hdecode]
    rw [if_neg (not_not.mpr hhash), if_neg (not_not.mpr hsession), if_neg (not_not.mpr hcreator),
      hfind]
    simp only
    rw [hverify, if_neg (by simp), if_neg (not_not.mpr h.member), hreducer]
    rfl
  · simp [handleSessionProposed, hdecode, hhash]

/-! ## A session of two -/

abbrev MessageFields := (Utf16 × Utf16 × Utf16 × Utf16 × Utf16) ×
  List (Utf16 × List ℕ × Utf16 × Utf16) × Utf16 × (Utf16 × Uint32 × Uint32 × Uint32) ×
  (Utf16 × Utf16 × Utf16) × Utf16 × Uint32 × Uint32 × Utf16 × Utf16

def SessionConfigMessage.fields (m : SessionConfigMessage) : MessageFields :=
  ((m.sessionId, m.contextGraphId, m.appId, m.createdBy, m.createdAt),
    m.membership.map fun p => (p.peerId, p.pubKey.map UInt8.toNat, p.displayName, p.role),
    m.membershipRoot,
    (m.quorumPolicy.type, m.quorumPolicy.numerator, m.quorumPolicy.denominator,
      m.quorumPolicy.minSigners),
    (m.reducer.name, m.reducer.version, m.reducer.hash),
    m.genesisStateHash, m.roundTimeout, m.maxRounds, m.status, m.configHash)

def SessionConfigMessage.ofFields : MessageFields → SessionConfigMessage
  | ((sessionId, contextGraphId, appId, createdBy, createdAt), members, membershipRoot,
      (type, numerator, denominator, minSigners), (name, version, hash), genesisStateHash,
      roundTimeout, maxRounds, status, configHash) => {
    sessionId, contextGraphId, appId, createdBy, createdAt
    membership := members.map fun p => ⟨p.1, p.2.1.map UInt8.ofNat, p.2.2.1, p.2.2.2⟩
    membershipRoot
    quorumPolicy := ⟨type, numerator, denominator, minSigners⟩
    reducer := ⟨name, version, hash⟩
    genesisStateHash, roundTimeout, maxRounds, status, configHash }

lemma SessionConfigMessage.ofFields_fields (m : SessionConfigMessage) : ofFields m.fields = m := by
  cases m
  simp [ofFields, fields, Function.comp_def]

/-- A platform that hashes nothing, signs with the key alone, and sends a message as a number. -/
def plainPlatform : Platform where
  sha256 := id
  ed25519Sign := fun _ secretKey => secretKey
  ed25519Verify := fun signature _ publicKey => signature = publicKey
  localeCompareLe := fun a b => a ≤ b
  encode := fun m => List.replicate (Encodable.encode m.fields) 0
  decode := fun bytes => (Encodable.decode bytes.length).map SessionConfigMessage.ofFields
  decode_encode := by
    intro m
    rw [List.length_replicate, Encodable.encodek, map_some, SessionConfigMessage.ofFields_fields]

def pairRegistry : ReducerRegistry :=
  KeyedList.empty.set (literal "count" ++ literal "@" ++ literal "1")
    { hash := literal "h", genesisState := fun _ => [] }

def pairManager (localPeerId : String) : SessionManager where
  localPeerId := literal localPeerId
  secretKey := [1]
  network := literal "test"
  reducerRegistry := pairRegistry

def pairClock : Clock where
  createdAt := literal "2026-01-01T00:00:00.000Z"
  nonce := literal "1767225600000-abc"
  now := Binary64.ofNat 1767225600000 (by norm_num)

/-- Two members, both of which sign by one key. -/
def pairArgs (maxRounds : Option JsNumber) : SessionArgs where
  contextGraphId := literal "graph"
  appId := literal "app"
  membership := [⟨literal "first", [1], literal "First", literal "creator"⟩,
    ⟨literal "second", [1], literal "Second", literal "member"⟩]
  quorumPolicy := ⟨literal "THRESHOLD", JsNumber.ofNat 2 (by norm_num),
    JsNumber.ofNat 3 (by norm_num), JsNumber.ofNat 2 (by norm_num)⟩
  reducerConfig := ⟨literal "count", literal "1", literal "h"⟩
  roundTimeout := JsNumber.ofNat 30000 (by norm_num)
  maxRounds := maxRounds

lemma pair_created (maxRounds : Option JsNumber) : ∃ config event,
    createSession plainPlatform (pairManager "first") pairClock (pairArgs maxRounds) =
      .ok (config, event) := by
  have hresolve : pairRegistry.resolve ⟨literal "count", literal "1", literal "h"⟩ =
      some { hash := literal "h", genesisState := fun _ => [] } := by
    simp [ReducerRegistry.resolve, pairRegistry, KeyedList.get_set_self]
  simp [createSession, pairArgs, pairManager, hresolve, literal_injective.eq_iff]

lemma isUint32_ofNat (h : n < 2 ^ 53) (hn : n < 2 ^ 32) :
    (JsNumber.ofNat n h).IsUint32 := ⟨n, hn, rfl⟩

/-! ## The encodings -/

/-- **The configuration hash and the signed messages.** -/
theorem config_hash_and_signed_messages (platform : Platform) :
    (∀ (manager : SessionManager) (clock : Clock) (args : SessionArgs)
      (config : SessionConfig) (event : AKAEvent),
      createSession platform manager clock args = .ok (config, event) →
      ∃ decoded, decodeSessionConfig platform event.payload = some decoded ∧
        let survives := Fits args.quorumPolicy args.roundTimeout args.maxRounds ∨
          platform.Collides (configBytes decoded.toConfigWithoutHash)
            (configBytes config.toConfigWithoutHash)
        (computeConfigHash platform decoded.toConfigWithoutHash = config.configHash ↔ survives) ∧
        ∀ peer : SessionManager, peer.Invited platform event decoded →
          ((handleSessionProposed platform peer event).isSome ↔ survives)) ∧
    (∀ v w : JsValue, v.IsJson → w.IsJson →
      (canonicalJsonEncode v = canonicalJsonEncode w ↔ v.Same w)) ∧
    (∀ (context context' : SigningContext) (payload payload' : Bytes),
      context.round.value.isSome → context'.round.value.isSome →
      buildSigningPayload context (bytesValue payload) =
        buildSigningPayload context' (bytesValue payload') →
      context.domain = context'.domain ∧ context.network = context'.network ∧
        context.contextGraphId = context'.contextGraphId ∧
        context.sessionId = context'.sessionId ∧ context.round.value = context'.round.value ∧
        context.type = context'.type ∧ payload = payload') := by
  refine ⟨?_, fun v w hv hw => JsValue.canonicalJsonEncode_eq_iff hv hw,
    fun _ _ _ _ hround hround' h => buildSigningPayload_injective hround hround' h⟩
  intro manager clock args config event hok
  obtain ⟨hhash, hpayload, hsession, hcreator, hpolicy, htimeout, hmaxRounds⟩ :=
    createSession_ok platform hok
  have hdecode : decodeSessionConfig platform event.payload = some (received config) := by
    rw [hpayload, decode_encodeSessionConfig]
  have hiff := computeConfigHash_received_iff platform config
  rw [← hhash, hpolicy, htimeout, hmaxRounds] at hiff
  refine ⟨received config, hdecode, hiff, fun peer hinvited => ?_⟩
  rw [hinvited.accepts_iff hdecode hsession.symm hcreator]
  exact hiff

/-- The session of two without a maximum of rounds, and two values. -/
theorem config_hash_and_signed_messages_pair :
    (∃ config event decoded, createSession plainPlatform (pairManager "first") pairClock
        (pairArgs none) = .ok (config, event) ∧
      decodeSessionConfig plainPlatform event.payload = some decoded ∧
      computeConfigHash plainPlatform decoded.toConfigWithoutHash = config.configHash) ∧
    canonicalJsonEncode (.array []) ≠ canonicalJsonEncode .null := by
  obtain ⟨hconfig, hvalues, _⟩ := config_hash_and_signed_messages plainPlatform
  obtain ⟨config, event, hok⟩ := pair_created none
  obtain ⟨decoded, hdecode, hhash, _⟩ := hconfig _ _ _ _ _ hok
  have hfits : Fits (pairArgs none).quorumPolicy (pairArgs none).roundTimeout none :=
    ⟨isUint32_ofNat _ (by norm_num), isUint32_ofNat _ (by norm_num),
      isUint32_ofNat _ (by norm_num), isUint32_ofNat _ (by norm_num), by simp⟩
  refine ⟨⟨config, event, decoded, hok, hdecode, hhash.mpr (.inl hfits)⟩, fun heq => ?_⟩
  have hsame := (hvalues (.array []) .null trivial trivial).mp heq
  simp [JsValue.Same] at hsame

/-- With a maximum of zero rounds, the creator's own proposal is dropped by the other member. -/
theorem maxRounds_zero_dropped : ∃ config event decoded,
    createSession plainPlatform (pairManager "first") pairClock
      (pairArgs (some (JsNumber.ofNat 0 (Nat.two_pow_pos 53)))) = .ok (config, event) ∧
    decodeSessionConfig plainPlatform event.payload = some decoded ∧
    computeConfigHash plainPlatform decoded.toConfigWithoutHash ≠ config.configHash ∧
    handleSessionProposed plainPlatform (pairManager "second") event = none := by
  obtain ⟨config, event, hok⟩ := pair_created (some (JsNumber.ofNat 0 (Nat.two_pow_pos 53)))
  obtain ⟨hhash, hpayload, _, _, _, _, hmaxRounds⟩ := createSession_ok plainPlatform hok
  have hdecode : decodeSessionConfig plainPlatform event.payload = some (received config) := by
    rw [hpayload, decode_encodeSessionConfig]
  have hne : computeConfigHash plainPlatform (received config).toConfigWithoutHash ≠
      config.configHash := by
    rw [hhash, Ne, computeConfigHash_received_iff]
    rintro (hfits | ⟨hne, heq⟩)
    · have hzero := hfits.maxRounds (JsNumber.ofNat 0 (Nat.two_pow_pos 53))
          (by rw [hmaxRounds]; rfl)
      simp [JsNumber.IsMaxRounds, JsNumber.ofNat, JsNumber.value] at hzero
    · exact hne heq
  refine ⟨config, event, received config, hok, hdecode, hne, ?_⟩
  have hne' : computeConfigHash plainPlatform (received config).toConfigWithoutHash ≠
      (received config).configHash := hne
  simp [handleSessionProposed, hdecode, hne']

end Dkg.Aka.Encoding
