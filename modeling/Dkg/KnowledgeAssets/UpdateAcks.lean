import Dkg.KnowledgeAssets.Conservation

/-! # The ACKs of an update are used once

The digest that the nodes sign for an update has the number of Merkle roots that the collection
had before it. Every update appends a root and nothing removes one, so after an update the digest
that its ACKs signed does not come up again; and the digest determines everything else that an
update writes.

The hashes are the same in every transaction of a run (`Signing`) and injective, and a signature
is good for one digest only, among the wallets that hold an operational key.
-/

namespace Dkg

open Lib KnowledgeAssetsV10 KnowledgeCollectionStorage AssetsOp Function

/-! ## The number of Merkle roots -/

namespace KnowledgeCollectionStorage

variable {s s' : KnowledgeCollectionStorage} {b : Block}

def rootCount (s : KnowledgeCollectionStorage) (id : ℕ) : ℕ :=
  (s.knowledgeCollections id).merkleRoots.length

/-- The roots of all collections but `id` are as before, and `id` has `n` more. -/
structure RootsAdded (s : KnowledgeCollectionStorage) (id n : ℕ)
    (s' : KnowledgeCollectionStorage) : Prop where
  added : s'.rootCount id = s.rootCount id + n
  other : ∀ i, i ≠ id → s'.rootCount i = s.rootCount i

variable {id n amount publisher root byteSize leaves mint : ℕ} {burn : List ℕ}

lemma RootsAdded.le (h : RootsAdded s id n s') (i : ℕ) : s.rootCount i ≤ s'.rootCount i := by
  by_cases hi : i = id
  · rw [hi, h.added]
    omega
  · rw [h.other i hi]

lemma RootsAdded.setCollection {kc : KnowledgeCollection}
    (hset : s'.knowledgeCollections = update s.knowledgeCollections id kc)
    (hkc : kc.merkleRoots.length = s.rootCount id + n) : RootsAdded s id n s' := by
  constructor
  · unfold rootCount
    rw [hset, update_self, hkc]
    rfl
  · intro i hi
    unfold rootCount
    rw [hset, update_of_ne hi]

lemma RootsAdded.trans {s'' : KnowledgeCollectionStorage} {m : ℕ} (h : RootsAdded s id m s')
    (h' : RootsAdded s' id n s'') : RootsAdded s id (m + n) s'' := by
  refine ⟨?_, fun i hi => (h'.other i hi).trans (h.other i hi)⟩
  rw [h'.added, h.added]
  omega

lemma mint_roots {receiver : ℕ} (hrun : s.mintKnowledgeAssetsTokens id receiver amount = .ok s') :
    RootsAdded s id 0 s' := by
  obtain ⟨-, rfl⟩ := mintKnowledgeAssetsTokens_ok hrun
  exact .setCollection rfl rfl

lemma burn_roots {holder : ℕ} {tokenIds : List ℕ}
    (hrun : s.burnKnowledgeAssetsTokens id holder tokenIds = .ok s') : RootsAdded s id 0 s' := by
  obtain ⟨-, rfl⟩ := burnKnowledgeAssetsTokens_ok hrun
  exact .setCollection rfl rfl

lemma create_roots {assets start last : ℕ} {immutable : Bool}
    (hrun : s.createKnowledgeCollection b publisher root assets byteSize start last amount
      immutable leaves = .ok (id, s')) : RootsAdded s id 1 s' := by
  unfold createKnowledgeCollection at hrun
  obtain ⟨next, -, s₁, hmint, hend⟩ := of_bind₂ hrun
  cases of_pure hend
  refine RootsAdded.trans (n := 0) (RootsAdded.setCollection rfl ?_) (mint_roots hmint)
  simp [rootCount]

section

variable (hrun : s.updateKnowledgeCollection b publisher id root mint burn byteSize amount leaves =
    .ok s')

include hrun

lemma update_roots : RootsAdded s id 1 s' := by
  unfold updateKnowledgeCollection at hrun
  obtain ⟨s₁, hburn, hrun⟩ := of_bind hrun
  have hminted : RootsAdded s₁ id 0 s' := by
    split at hrun
    next => exact mint_roots hrun
    next =>
      obtain rfl := of_pure hrun
      exact ⟨rfl, fun _ _ => rfl⟩
  refine (RootsAdded.trans (n := 0) (RootsAdded.setCollection rfl ?_) (burn_roots hburn)).trans
    hminted
  simp [rootCount]

lemma update_amounts
    : s'.tokenAmounts = update s.tokenAmounts id amount ∧ s'.endEpochs = s.endEpochs := by
  unfold updateKnowledgeCollection at hrun
  obtain ⟨s₁, hburn, hrun⟩ := of_bind hrun
  have hburned := burnKnowledgeAssetsTokens_same hburn
  have hminted : SameAmounts s₁ s' := by
    split at hrun
    next => exact mintKnowledgeAssetsTokens_same hrun
    next =>
      obtain rfl := of_pure hrun
      exact SameAmounts.refl _
  have hall := hburned.trans hminted
  rw [hall.amounts, hall.ends]
  refine ⟨tokenAmounts_setCollection _ _ _, (endEpochs_setCollection _ _ _).trans ?_⟩
  exact update_eq_self id s.endEpochs

end

lemma setTokenAmount_roots {newEnd : ℕ}
    (hrun : (s.setEndEpoch id newEnd).setTokenAmount id amount = .ok s') :
    RootsAdded s id 0 s' := by
  unfold setTokenAmount at hrun
  obtain ⟨rest, -, total, -, hend⟩ := of_bind₂ hrun
  obtain rfl := of_pure hend
  have hend : RootsAdded s id 0 (s.setEndEpoch id newEnd) := .setCollection rfl rfl
  exact hend.trans (n := 0) (.setCollection rfl rfl)

end KnowledgeCollectionStorage

/-! ## Transactions -/

def AssetsOp.update? : AssetsOp → Option (AssetsEnv × UpdateParams)
  | .update env _ p => some (env, p)
  | .updateDirect env _ p _ => some (env, p)
  | _ => none

/-- What a transaction reads. -/
def AssetsOp.env? : AssetsOp → Option AssetsEnv
  | .publish env .. | .publishDirect env .. | .update env .. | .updateDirect env ..
  | .extendKnowledgeCollectionLifetime env .. => some env
  | _ => none

section

variable {c : Chronos} {b : Block} {w w' : AssetsWorld} {op : AssetsOp} {events : List AssetsEvent}

lemma payDirect_kcs {env : AssetsEnv} {sender amount paymaster epochs e : ℕ} {ds : List Deposit}
    (hrun : payDirect c b env w sender amount paymaster epochs e = .ok (w', ds)) :
    w'.kcs = w.kcs := by
  unfold payDirect at hrun
  obtain ⟨trac, -, pools, -, hrun⟩ := of_bind₂ hrun
  cases of_pure hrun
  rfl

/-- An update has passed the check of its ACKs, and has written the collection. -/
lemma AssetsOp.update_ok {env : AssetsEnv} {p : UpdateParams} (hop : op.update? = some (env, p))
    (hrun : op.run c b w = .ok (w', events)) :
    verifyAcks env p.identityIds (updateAckDigest env w p) p.r p.vs = .ok () ∧
      (w.kcs.knowledgeCollections p.id).tokenAmount ≤ p.newTokenAmount ∧
      ∃ sender, w.kcs.updateKnowledgeCollection b sender p.id p.newMerkleRoot
        p.mintKnowledgeAssetsAmount p.knowledgeAssetsToBurn p.newByteSize p.newTokenAmount
        p.newMerkleLeafCount = .ok w'.kcs := by
  cases op with
  | update env' sender p' =>
    cases hop
    obtain ⟨out, hupdate, hend⟩ := of_bind hrun
    cases of_pure hend
    unfold KnowledgeAssetsV10.update at hupdate
    obtain ⟨⟨delta, remaining, e, w₁⟩, hcore, hupdate⟩ := of_bind hupdate
    obtain ⟨hacks, -, -, hle, -, -, hkcs⟩ := executeUpdateCore_ok hcore
    refine ⟨hacks, hle, sender, ?_⟩
    split at hupdate
    next =>
      obtain ⟨covered, -, rfl⟩ := of_bind_pure hupdate
      exact hkcs
    next =>
      cases of_pure hupdate
      exact hkcs
  | updateDirect env' sender p' paymaster =>
    cases hop
    obtain ⟨out, hupdate, hend⟩ := of_bind hrun
    cases of_pure hend
    unfold KnowledgeAssetsV10.updateDirect at hupdate
    obtain ⟨⟨delta, remaining, e, w₁⟩, hcore, hupdate⟩ := of_bind hupdate
    obtain ⟨hacks, -, -, hle, -, -, hkcs⟩ := executeUpdateCore_ok hcore
    refine ⟨hacks, hle, sender, ?_⟩
    split at hupdate
    next =>
      rw [payDirect_kcs hupdate]
      exact hkcs
    next =>
      cases of_pure hupdate
      exact hkcs
  | publish env' sender p' | publishDirect env' sender p' paymaster
  | extendKnowledgeCollectionLifetime env' sender id epochs amount paymaster | conviction op
  | transfer sender receiver amount => cases hop

lemma AssetsOp.run_roots (hrun : op.run c b w = .ok (w', events)) (id : ℕ) :
    w.kcs.rootCount id ≤ w'.kcs.rootCount id := by
  cases op with
  | publish env sender p =>
    obtain ⟨out, hpublish, hend⟩ := of_bind hrun
    cases of_pure hend
    unfold KnowledgeAssetsV10.publish at hpublish
    obtain ⟨⟨e, kcId, w₁⟩, hcore, hpublish⟩ := of_bind hpublish
    obtain ⟨covered, -, rfl⟩ := of_bind_pure hpublish
    obtain ⟨-, -, last, hcreated⟩ := executePublishCore_ok hcore
    exact (create_roots hcreated).le id
  | publishDirect env sender p paymaster =>
    obtain ⟨out, hpublish, hend⟩ := of_bind hrun
    cases of_pure hend
    unfold KnowledgeAssetsV10.publishDirect at hpublish
    obtain ⟨⟨e, kcId, w₁⟩, hcore, hpublish⟩ := of_bind hpublish
    obtain ⟨paid, hpaid, rfl⟩ := of_bind_pure hpublish
    obtain ⟨-, -, last, hcreated⟩ := executePublishCore_ok hcore
    rw [payDirect_kcs hpaid]
    exact (create_roots hcreated).le id
  | update env sender p =>
    have hop : (update env sender p).update? = some (env, p) := rfl
    obtain ⟨-, -, _, hkcs⟩ := update_ok hop hrun
    exact (update_roots hkcs).le id
  | updateDirect env sender p paymaster =>
    have hop : (updateDirect env sender p paymaster).update? = some (env, p) := rfl
    obtain ⟨-, -, _, hkcs⟩ := update_ok hop hrun
    exact (update_roots hkcs).le id
  | extendKnowledgeCollectionLifetime env sender kcId epochs amount paymaster =>
    obtain ⟨out, hextend, hend⟩ := of_bind hrun
    cases of_pure hend
    unfold KnowledgeAssetsV10.extendKnowledgeCollectionLifetime at hextend
    obtain ⟨_, -, newEnd, -, newAmount, -, hextend⟩ := of_bind₃ hextend
    obtain ⟨kcs, hkcs, _, -, pools, -, hextend⟩ := of_bind₃ hextend
    obtain ⟨trac, -, values, -, hend⟩ := of_bind₂ hextend
    cases of_pure hend
    exact (setTokenAmount_roots hkcs).le id
  | conviction op =>
    obtain ⟨_, -, out, -, hend⟩ := of_bind₂ hrun
    cases of_pure hend
    exact le_rfl
  | transfer sender receiver amount =>
    obtain ⟨trac, -, hend⟩ := of_bind hrun
    cases of_pure hend
    exact le_rfl

end

/-! ## Signatures -/

/-- The hashes, and the recovery of a signer. -/
structure Signing where
  keccak256 : ℕ → ℕ
  keccakPacked : List ℕ → ℕ
  ethSigned : ℕ → ℕ
  tryRecover : ℕ → ℕ → ℕ → ℕ

/-- The hashes do not collide, and a signature is good for one digest among the wallets that
`Holder` names. -/
structure Signing.Ideal (σ : Signing) (Holder : ℕ → Prop) : Prop where
  packed : Function.Injective σ.keccakPacked
  eth : Function.Injective σ.ethSigned
  signature : ∀ digest digest' r vs, Holder (σ.tryRecover digest r vs) →
    Holder (σ.tryRecover digest' r vs) → digest = digest'

/-- The transaction uses the hashes of `σ`, and every operational key is that of a holder. -/
def AssetsOp.Under (σ : Signing) (Holder : ℕ → Prop) (op : AssetsOp) : Prop :=
  ∀ env, op.env? = some env →
    (⟨env.keccak256, env.keccakPacked, env.ethSigned, env.tryRecover⟩ : Signing) = σ ∧
    ∀ id wallet, env.identityStorage.keyHasPurpose id (σ.keccak256 wallet)
      IdentityLib.OPERATIONAL_KEY → Holder wallet

/-- The ACKs of an update. -/
def UpdateParams.acks (p : UpdateParams) : List (ℕ × ℕ) := p.r.zip p.vs

/-- Two updates of one collection that write the same. -/
structure UpdateParams.SameContent (p q : UpdateParams) : Prop where
  id : p.id = q.id
  root : p.newMerkleRoot = q.newMerkleRoot
  byteSize : p.newByteSize = q.newByteSize
  tokenAmount : p.newTokenAmount = q.newTokenAmount
  mint : p.mintKnowledgeAssetsAmount = q.mintKnowledgeAssetsAmount
  burn : p.knowledgeAssetsToBurn = q.knowledgeAssetsToBurn
  leaves : p.newMerkleLeafCount = q.newMerkleLeafCount

lemma signaturesLoop_ack {keccak256 : ℕ → ℕ} {tryRecover : ℕ → ℕ → ℕ → ℕ} {ids : IdentityStorage}
    {nodeStakeV10 : ℕ → ℕ} {messageHash : ℕ} {identityIds r vs : List ℕ} {u : Unit}
    {ack : ℕ × ℕ} (hr : r.length = identityIds.length)
    (hrun : signaturesLoop keccak256 tryRecover ids nodeStakeV10 messageHash identityIds r vs =
      .ok u)
    (hack : ack ∈ r.zip vs) :
    ∃ id, ids.keyHasPurpose id (keccak256 (tryRecover messageHash ack.1 ack.2))
      IdentityLib.OPERATIONAL_KEY := by
  induction identityIds generalizing r vs with
  | nil =>
    rw [List.length_eq_zero_iff.mp hr] at hack
    cases hack
  | cons id identityIds ih =>
    cases r with
    | nil => cases hr
    | cons r₀ r =>
      cases vs with
      | nil => cases hack
      | cons vs₀ vs =>
        obtain ⟨signer, hsig, hrun⟩ := of_bind hrun
        simp only [List.zip_cons_cons, List.mem_cons] at hack
        rcases hack with rfl | hack
        · unfold _verifySignature at hsig
          obtain ⟨_, -, _, hkey, -⟩ := of_bind₂ hsig
          exact ⟨id, require_eq_ok.mp hkey⟩
        · simp only [List.length_cons, Nat.add_right_cancel_iff] at hr
          exact ih hr hrun hack

lemma verifyAcks_ack {env : AssetsEnv} {identityIds r vs : List ℕ} {digest : ℕ} {ack : ℕ × ℕ}
    (hrun : verifyAcks env identityIds digest r vs = .ok ()) (hack : ack ∈ r.zip vs) :
    ∃ id, env.identityStorage.keyHasPurpose id
      (env.keccak256 (env.tryRecover (env.ethSigned digest) ack.1 ack.2))
      IdentityLib.OPERATIONAL_KEY := by
  unfold verifyAcks _verifySignatures at hrun
  obtain ⟨hlen, hrun⟩ := of_require hrun
  obtain ⟨_, -, _, -, hrun⟩ := of_bind₂ hrun
  simp only [ne_eq, not_or, not_not] at hlen
  exact signaturesLoop_ack hlen.1 hrun hack

section

variable {c : Chronos} {σ : Signing} {Holder : ℕ → Prop}

/-- The runs in which every transaction uses `σ`. -/
def signedMachine (c : Chronos) (σ : Signing) (Holder : ℕ → Prop) :
    Machine AssetsState (Block × AssetsOp) :=
  (assetsMachine c).restrict fun _ l => l.2.Under σ Holder

/-- `s` goes to `s'` by an update with the parameters `p`. -/
def UpdatedBy (c : Chronos) (σ : Signing) (Holder : ℕ → Prop) (p : UpdateParams)
    (s s' : AssetsState) : Prop :=
  ∃ l env, l.2.update? = some (env, p) ∧ (signedMachine c σ Holder).step s l s'

variable {p : UpdateParams} {ack : ℕ × ℕ} {s s' : AssetsState}

lemma AssetsOp.ack_holder {b : Block} {op : AssetsOp} {env : AssetsEnv} {w w' : AssetsWorld}
    {events : List AssetsEvent} (hop : op.update? = some (env, p)) (hunder : op.Under σ Holder)
    (hrun : op.run c b w = .ok (w', events)) (hack : ack ∈ p.acks) :
    env.keccakPacked = σ.keccakPacked ∧
      Holder (σ.tryRecover (σ.ethSigned (updateAckDigest env w p)) ack.1 ack.2) := by
  have henv : op.env? = some env := by
    cases op <;> simp_all [update?, env?]
  obtain ⟨rfl, hkeys⟩ := hunder env henv
  obtain ⟨hacks, -, -⟩ := update_ok hop hrun
  obtain ⟨id, hkey⟩ := verifyAcks_ack hacks hack
  exact ⟨rfl, hkeys id _ hkey⟩

/-- An ACK that two updates accept was signed for the same collection, with the same number of
roots, and the same content. -/
lemma UpdatedBy.shared {s₁ t t₁ : AssetsState} {q : UpdateParams} (hideal : σ.Ideal Holder)
    (hp : UpdatedBy c σ Holder p s s₁) (hq : UpdatedBy c σ Holder q t t₁) (hackp : ack ∈ p.acks)
    (hackq : ack ∈ q.acks) :
    p.SameContent q ∧ s.world.kcs.rootCount p.id = t.world.kcs.rootCount p.id := by
  obtain ⟨⟨b, op⟩, env, hop, hunder, -, -, events, hrun, -⟩ := hp
  obtain ⟨⟨b', op'⟩, env', hop', hunder', -, -, events', hrun', -⟩ := hq
  obtain ⟨hpacked, hholds⟩ := ack_holder hop hunder hrun hackp
  obtain ⟨hpacked', hholds'⟩ := ack_holder hop' hunder' hrun' hackq
  have hdigest := hideal.eth (hideal.signature _ _ _ _ hholds hholds')
  unfold updateAckDigest at hdigest
  rw [hpacked, hpacked'] at hdigest
  have hfields := hideal.packed hdigest
  simp only [List.cons.injEq, and_true] at hfields
  obtain ⟨-, -, -, hid, hcount, hroot, hsize, htokens, hmint, hburn, hleaves⟩ := hfields
  refine ⟨⟨hid, hroot, hsize, htokens, hmint, hideal.packed hburn, hleaves⟩, ?_⟩
  rw [← hid] at hcount
  exact hcount

lemma UpdatedBy.effect (h : UpdatedBy c σ Holder p s s') :
    s'.world.kcs.rootCount p.id = s.world.kcs.rootCount p.id + 1 ∧
      (∀ id, s.world.kcs.tokenAmounts id ≤ s'.world.kcs.tokenAmounts id) ∧
      ∀ id, s.world.kcs.endEpochs id ≤ s'.world.kcs.endEpochs id := by
  obtain ⟨⟨b, op⟩, env, hop, -, -, -, events, hrun, -⟩ := h
  obtain ⟨-, hle, sender, hkcs⟩ := update_ok hop hrun
  obtain ⟨hamounts, hends⟩ := update_amounts hkcs
  refine ⟨(update_roots hkcs).added, ?_, ?_⟩
  · intro id
    rw [hamounts]
    by_cases hid : id = p.id
    · rw [hid, update_self]
      exact hle
    · rw [update_of_ne hid]
  · intro id
    rw [hends]

lemma steps_roots (hs : (signedMachine c σ Holder).Steps s s') (id : ℕ) :
    s.world.kcs.rootCount id ≤ s'.world.kcs.rootCount id := by
  induction hs with
  | refl => exact le_rfl
  | tail _ hstep ih =>
    obtain ⟨-, -, -, events, hrun, -⟩ := hstep
    exact le_trans ih (run_roots hrun id)

/-- **Single use of update ACKs.** In every run, from any state: an ACK accepted for an update is
accepted for no later update, of any collection; for another update of the same state it is
accepted only with the same content; and an update adds one Merkle root and lowers no token amount
and no end epoch. -/
theorem update_acks_single_use (c : Chronos) {σ : Signing} {Holder : ℕ → Prop}
    (hideal : σ.Ideal Holder) {s s₁ : AssetsState} {p : UpdateParams}
    (hp : UpdatedBy c σ Holder p s s₁) :
    (∀ t t₁ q, (signedMachine c σ Holder).Steps s₁ t → UpdatedBy c σ Holder q t t₁ →
      ∀ ack ∈ p.acks, ack ∉ q.acks) ∧
    (∀ t₁ q, UpdatedBy c σ Holder q s t₁ → ∀ ack ∈ p.acks, ack ∈ q.acks → p.SameContent q) ∧
    s₁.world.kcs.rootCount p.id = s.world.kcs.rootCount p.id + 1 ∧
    (∀ id, s.world.kcs.tokenAmounts id ≤ s₁.world.kcs.tokenAmounts id) ∧
    (∀ id, s.world.kcs.endEpochs id ≤ s₁.world.kcs.endEpochs id) := by
  obtain ⟨hadded, hamounts, hends⟩ := hp.effect
  refine ⟨?_, ?_, hadded, hamounts, hends⟩
  · intro t t₁ q hsteps hq ack hackp hackq
    obtain ⟨-, hcount⟩ := hp.shared hideal hq hackp hackq
    have hle := steps_roots hsteps p.id
    omega
  · intro t₁ q hq ack hackp hackq
    exact (hp.shared hideal hq hackp hackq).1

end

/-! ## A run -/

/-- A hash without collisions; a signature is the digest, and the wallet `9` signs. -/
def signingByNine : Signing where
  keccak256 := fun x => x
  keccakPacked := Encodable.encode
  ethSigned := fun digest => digest
  tryRecover := fun digest r _ => if r = digest then 9 else 0

lemma signingByNine_ideal : signingByNine.Ideal (· = 9) where
  packed := Encodable.encode_injective
  eth := fun _ _ h => h
  signature := by
    intro digest digest' r vs h h'
    simp only [signingByNine] at h h'
    split at h
    next hr =>
      split at h'
      next hr' => exact hr.symm.trans hr'
      next => cases h'
    next => cases h

def signedEnv : AssetsEnv :=
  { assetsEnv with
    keccakPacked := signingByNine.keccakPacked
    tryRecover := signingByNine.tryRecover }

/-- The only operational key is that of the wallet `9`. -/
lemma signedEnv_under {op : AssetsOp} (hop : op.env? = some signedEnv ∨ op.env? = none) :
    op.Under signingByNine (· = 9) := by
  intro env henv
  obtain rfl : env = signedEnv := by
    rcases hop with hop | hop
    · rw [hop] at henv
      exact (Option.some.inj henv).symm
    · rw [hop] at henv
      cases henv
  refine ⟨rfl, ?_⟩
  intro id wallet hkey
  by_contra hne
  have hnone : (signedEnv.identityStorage.keys id wallet).purpose = 0 := by
    simp [signedEnv, assetsEnv, IdentityStorage.addKey, IdentityStorage.empty, store₂, hne,
      Key.zero]
  rw [IdentityStorage.keyHasPurpose] at hkey
  exact absurd (hnone.symm.trans hkey) (by decide)

def signedPublish : PublishParams :=
  { publishParams 103 with
    publisherNodeR := Encodable.encode [31337, 5, 1, 3, 77]
    r := [Encodable.encode [31337, 5, 3, 77, 2, 1024, 2, 103, 4]] }

/-- The update of the collection `1`, which has one root. -/
def signedUpdate : UpdateParams :=
  { updateParams 153 with
    publisherNodeR := Encodable.encode [31337, 5, 1, 3, 78]
    r := [Encodable.encode [31337, 5, 3, 1, 1, 78, 1024, 153, 1, Encodable.encode [2], 5]] }

/-- A collection is published and updated: it has two roots, and the ACK of the update is not
accepted again. -/
theorem update_acks_single_use_once : ∃ s s₁,
    (signedMachine hourlyChronos signingByNine (· = 9)).Reachable s ∧
    UpdatedBy hourlyChronos signingByNine (· = 9) signedUpdate s s₁ ∧
    signedUpdate.acks ≠ [] ∧ s₁.world.kcs.rootCount 1 = 2 ∧
    ∀ t t₁ q, (signedMachine hourlyChronos signingByNine (· = 9)).Steps s₁ t →
      UpdatedBy hourlyChronos signingByNine (· = 9) q t t₁ → ∀ ack ∈ signedUpdate.acks,
        ack ∉ q.acks := by
  obtain ⟨s, hrun, hnext⟩ := exists_of_succeeds
    (x := assetsExec hourlyChronos assetsStart
      (1900, .publishDirect signedEnv 7 signedPublish 0))
    (t := fun s => succeeds (assetsExec hourlyChronos s
        (4700, .updateDirect signedEnv 7 signedUpdate 0))
      fun s₁ => decide (s₁.world.kcs.rootCount 1 = 2))
    (by decide +kernel)
  obtain ⟨s₁, hupdate, hcount⟩ := exists_of_succeeds hnext
  have hstart : (signedMachine hourlyChronos signingByNine (· = 9)).Reachable assetsStart :=
    .init (assetsStart_init hourlyChronos)
  have hr : (signedMachine hourlyChronos signingByNine (· = 9)).Reachable s :=
    hstart.step ⟨signedEnv_under (.inl rfl), assetsStep_of_exec hourlyChronos _ _ _ hrun⟩
  have hupdated : UpdatedBy hourlyChronos signingByNine (· = 9) signedUpdate s s₁ :=
    ⟨_, signedEnv, rfl, signedEnv_under (.inl rfl),
      assetsStep_of_exec hourlyChronos _ _ _ hupdate⟩
  exact ⟨s, s₁, hr, hupdated, by decide, of_decide_eq_true hcount,
    (update_acks_single_use hourlyChronos signingByNine_ideal hupdated).1⟩

end Dkg
