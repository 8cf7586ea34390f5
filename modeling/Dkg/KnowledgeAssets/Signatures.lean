import Dkg.Identity.Keys

/-! # The quorum of ACK signatures

`KnowledgeAssetsV10._verifySignatures`: the identity ids are counted without repetitions, only up
to the required number, and every signature is checked against the keys and the stake of the
identity at the same place. That the signers are as many wallets as identities is not checked; it
follows from the key invariant of the identities.

Recovery of the signer is a parameter, `tryRecover`, which returns the zero address for a
signature that is not valid.
-/

namespace Dkg

open Lib IdentityLib List Finset

variable (keccak256 : ℕ → ℕ) (tryRecover : ℕ → ℕ → ℕ → ℕ)

namespace KnowledgeAssetsV10

variable (ids : IdentityStorage) (nodeStakeV10 : ℕ → ℕ)

def _verifySignature (identityId messageHash r vs : ℕ) : Tx ℕ := do
  let signer := tryRecover messageHash r vs
  require (signer ≠ 0) .invalidSignature
  require (ids.keyHasPurpose identityId (keccak256 signer) OPERATIONAL_KEY) .signerIsNotNodeOperator
  require (nodeStakeV10 identityId > 0) .signerHasNoStake
  pure signer

/-- The counting loop of `_verifySignatures`, which stops at `minSigs`; `before` are the ids it
has passed. -/
def uniqueLoop (minSigs : ℕ) : List ℕ → List ℕ → ℕ → ℕ
  | _, [], uniqueCount => uniqueCount
  | before, identityId :: rest, uniqueCount =>
    if identityId ∈ before then uniqueLoop minSigs (before ++ [identityId]) rest uniqueCount
    else if uniqueCount + 1 ≥ minSigs then uniqueCount + 1
    else uniqueLoop minSigs (before ++ [identityId]) rest (uniqueCount + 1)

def signaturesLoop (messageHash : ℕ) : List ℕ → List ℕ → List ℕ → Tx Unit
  | identityId :: identityIds, r :: rs, vs :: vss => do
      let _ ← _verifySignature keccak256 tryRecover ids nodeStakeV10 identityId messageHash r vs
      signaturesLoop messageHash identityIds rs vss
  | _, _, _ => pure ()

def _verifySignatures (minSigs : ℕ) (identityIds : List ℕ) (messageHash : ℕ) (r vs : List ℕ) :
    Tx Unit := do
  require (¬ (r.length ≠ identityIds.length ∨ r.length ≠ vs.length)) .signaturesSignersMismatch
  require (¬ r.length < minSigs) .minSignaturesRequirementNotMet
  let uniqueCount := uniqueLoop minSigs [] identityIds 0
  require (uniqueCount ≥ minSigs) .insufficientUniqueIdentities
  signaturesLoop keccak256 tryRecover ids nodeStakeV10 messageHash identityIds r vs

end KnowledgeAssetsV10

open KnowledgeAssetsV10

/-- At least `minSigs` staked identities among `identityIds`, each with an operational wallet of
its own that signed the digest. -/
def AckQuorum (ids : IdentityStorage) (nodeStakeV10 : ℕ → ℕ) (Signed : ℕ → ℕ → Prop)
    (minSigs : ℕ) (identityIds : List ℕ) (digest : ℕ) : Prop :=
  ∃ (S : Finset ℕ) (wallet : ℕ → ℕ), minSigs ≤ S.card ∧ Set.InjOn wallet S ∧
    ∀ id ∈ S, id ∈ identityIds ∧ 0 < nodeStakeV10 id ∧
      ids.keyHasPurpose id (keccak256 (wallet id)) OPERATIONAL_KEY ∧ Signed (wallet id) digest

variable {keccak256 tryRecover} {ids : IdentityStorage} {nodeStakeV10 : ℕ → ℕ}

lemma uniqueLoop_le (minSigs : ℕ) (before rest : List ℕ) (count : ℕ) :
    uniqueLoop minSigs before rest count ≤ count + (rest.toFinset \ before.toFinset).card := by
  induction rest generalizing before count with
  | nil => simp [uniqueLoop]
  | cons id rest ih =>
    rw [uniqueLoop]
    have hstep := ih (before ++ [id])
    have hbefore : (before ++ [id]).toFinset = insert id before.toFinset := by
      rw [toFinset_append, toFinset_cons, toFinset_nil, union_comm]
      rfl
    rw [hbefore] at hstep
    by_cases hdup : id ∈ before
    · rw [if_pos hdup]
      have hmem : id ∈ before.toFinset := mem_toFinset.mpr hdup
      rw [insert_eq_of_mem hmem] at hstep
      rw [toFinset_cons, insert_sdiff_of_mem _ hmem]
      exact hstep count
    · rw [if_neg hdup]
      have hmem : id ∉ before.toFinset := fun h => hdup (mem_toFinset.mp h)
      -- the new identity is one of the rest, apart from those counted later
      have hcard : (rest.toFinset \ insert id before.toFinset).card + 1
          ≤ ((id :: rest).toFinset \ before.toFinset).card := by
        rw [← card_insert_of_notMem (a := id) (by simp)]
        apply card_le_card
        intro x hx
        rcases mem_insert.mp hx with rfl | hx
        · simp [hdup]
        · simp only [mem_sdiff, mem_insert, not_or, mem_toFinset] at hx
          simp [hx.1, hx.2.2]
      split
      · omega
      · have := hstep (count + 1)
        omega

lemma signaturesLoop_ok {messageHash : ℕ} {identityIds r vs : List ℕ} {u : Unit}
    (hr : r.length = identityIds.length) (hvs : r.length = vs.length)
    (hrun : signaturesLoop keccak256 tryRecover ids nodeStakeV10 messageHash identityIds r vs =
      .ok u)
    {id : ℕ} (hid : id ∈ identityIds) :
    ∃ ri vsi, tryRecover messageHash ri vsi ≠ 0 ∧
      ids.keyHasPurpose id (keccak256 (tryRecover messageHash ri vsi)) OPERATIONAL_KEY ∧
      0 < nodeStakeV10 id := by
  induction identityIds generalizing r vs with
  | nil => cases hid
  | cons x identityIds ih =>
    cases r with
    | nil => cases hr
    | cons r₀ r =>
      cases vs with
      | nil => cases hvs
      | cons vs₀ vs =>
        obtain ⟨signer, hsig, hrun⟩ := of_bind hrun
        rcases mem_cons.mp hid with rfl | hid
        · unfold _verifySignature at hsig
          obtain ⟨_, hsigner, _, hkey, _, hstake, -⟩ := of_bind₃ hsig
          exact ⟨r₀, vs₀, require_eq_ok.mp hsigner, require_eq_ok.mp hkey, require_eq_ok.mp hstake⟩
        · simp only [length_cons, Nat.add_right_cancel_iff] at hr hvs
          exact ih hr hvs hrun hid

/-- Accepted signatures are a quorum, for keys that meet the invariant. -/
lemma IdentityKeyInv.ackQuorum (h : IdentityKeyInv ids) {Signed : ℕ → ℕ → Prop}
    (hrecover : ∀ digest r vs, tryRecover digest r vs ≠ 0 →
      Signed (tryRecover digest r vs) digest) {minSigs digest : ℕ} {identityIds r vs : List ℕ}
    (hrun : _verifySignatures keccak256 tryRecover ids nodeStakeV10 minSigs identityIds digest r vs
      = .ok ()) : AckQuorum keccak256 ids nodeStakeV10 Signed minSigs identityIds digest := by
  unfold _verifySignatures at hrun
  obtain ⟨hlen, hrun⟩ := of_require hrun
  obtain ⟨_, -, hrun⟩ := of_bind hrun
  obtain ⟨hunique, hrun⟩ := of_require hrun
  simp only [ne_eq, not_or, not_not] at hlen
  have hcount := uniqueLoop_le minSigs [] identityIds 0
  rw [toFinset_nil, sdiff_empty, Nat.zero_add] at hcount
  -- a wallet for each identity: the signer recovered at one of its places
  have hwallet : ∀ id, ∃ wallet, id ∈ identityIds → 0 < nodeStakeV10 id ∧
      ids.keyHasPurpose id (keccak256 wallet) OPERATIONAL_KEY ∧ Signed wallet digest := by
    intro id
    by_cases hid : id ∈ identityIds
    · obtain ⟨ri, vsi, hsigner, hkey, hstake⟩ := signaturesLoop_ok hlen.1 hlen.2 hrun hid
      exact ⟨_, fun _ => ⟨hstake, hkey, hrecover _ _ _ hsigner⟩⟩
    · exact ⟨0, fun hmem => absurd hmem hid⟩
  choose wallet hwallet using hwallet
  refine ⟨identityIds.toFinset, wallet, le_trans hunique hcount, ?_, ?_⟩
  · intro i hi j hj hij
    have hkeyi := (hwallet i (mem_toFinset.mp hi)).2.1
    have hkeyj := (hwallet j (mem_toFinset.mp hj)).2.1
    rw [hij] at hkeyi
    exact h.unique hkeyi hkeyj
  · intro id hid
    have hmem := mem_toFinset.mp hid
    exact ⟨hmem, hwallet id hmem⟩

/-- **The ACK quorum.** In every run of the identity and profile contracts in which no identity
with operational keys is deleted and the counter of identities does not wrap, signatures that
`_verifySignatures` accepts come from at least `minSigs` distinct staked identities, each through
an operational wallet of its own that signed the digest. -/
theorem accepted_acks_are_quorum (keccak256 : ℕ → ℕ) (tryRecover : ℕ → ℕ → ℕ → ℕ)
    (Signed : ℕ → ℕ → Prop) (hrecover : ∀ digest r vs, tryRecover digest r vs ≠ 0 →
      Signed (tryRecover digest r vs) digest) {w : IdentityWorld}
    (hr : ((identityMachine keccak256).restrict IdentityOp.Safe).Reachable w)
    (nodeStakeV10 : ℕ → ℕ) (minSigs : ℕ) (identityIds : List ℕ) (digest : ℕ) (r vs : List ℕ)
    (hrun : _verifySignatures keccak256 tryRecover w.ids nodeStakeV10 minSigs identityIds digest
      r vs = .ok ()) : AckQuorum keccak256 w.ids nodeStakeV10 Signed minSigs identityIds digest :=
  (IdentityWorld.keys hr).ackQuorum hrecover hrun

/-- A recovery that knows the signatures of the wallets `7` and `8`. -/
def recoverSevenOrEight (_digest r _vs : ℕ) : ℕ := if r = 1 then 7 else if r = 2 then 8 else 0

/-- The wallets `7` and `8` create profiles, and both sign. -/
theorem accepted_acks_are_quorum_two : ∃ w,
    ((identityMachine id).restrict IdentityOp.Safe).Reachable w ∧
    _verifySignatures id recoverSevenOrEight w.ids (fun _ => 100) 2 [1, 2] 55 [1, 2] [3, 3]
      = .ok () ∧
    AckQuorum id w.ids (fun _ => 100) (fun wallet _ => wallet = 7 ∨ wallet = 8) 2 [1, 2] 55 := by
  obtain ⟨w, hrun, hverify⟩ := exists_of_succeeds
    (x := Machine.runList (safeExec id)
      [.createProfile openProfiles 7 20 [] [1] [1] 0, .createProfile openProfiles 8 20 [] [2] [2] 0]
      IdentityWorld.empty)
    (t := fun w => decide (_verifySignatures id recoverSevenOrEight w.ids (fun _ => 100) 2 [1, 2]
      55 [1, 2] [3, 3] = .ok ()))
    (by decide +kernel)
  have hr := Machine.Reachable.runList (safeStep_of_exec id) (.init rfl) hrun
  have hok := of_decide_eq_true hverify
  refine ⟨w, hr, hok, accepted_acks_are_quorum id recoverSevenOrEight _ ?_ hr _ _ _ _ _ _ hok⟩
  intro digest r vs hsigner
  unfold recoverSevenOrEight at hsigner ⊢
  split
  · exact .inl rfl
  · split
    · exact .inr rfl
    · simp_all

/-! ## One wallet for two identities -/

/-- A recovery that knows the signature of the wallet `7` alone. -/
def recoverSeven (_digest r _vs : ℕ) : ℕ := if r = 1 then 7 else 0

/-- The wallet `7` creates the identity `1`, which is deleted, and then the identity `2`. It is
operational for both, and its one signature is accepted as a quorum of two. -/
theorem deleted_identity_keeps_keys :
    (∀ digest r vs, recoverSeven digest r vs ≠ 0 → recoverSeven digest r vs = 7) ∧
    ∃ w, (identityMachine id).Reachable w ∧
    _verifySignatures id recoverSeven w.ids (fun _ => 100) 2 [1, 2] 55 [1, 1] [3, 3] = .ok () ∧
    ¬ AckQuorum id w.ids (fun _ => 100) (fun wallet _ => wallet = 7) 2 [1, 2] 55 := by
  constructor
  · intro digest r vs hsigner
    unfold recoverSeven at hsigner ⊢
    split
    · rfl
    · simp_all
  obtain ⟨w, hrun, hverify⟩ := exists_of_succeeds
    (x := Machine.runList (fun w op => IdentityOp.run id w op)
      [.createProfile openProfiles 7 20 [] [1] [1] 0, .deleteIdentity 1,
       .createProfile openProfiles 7 20 [] [2] [2] 0]
      IdentityWorld.empty)
    (t := fun w => decide (_verifySignatures id recoverSeven w.ids (fun _ => 100) 2 [1, 2] 55
      [1, 1] [3, 3] = .ok ()))
    (by decide +kernel)
  refine ⟨w, Machine.Reachable.runList (fun _ _ _ h => h) (.init rfl) hrun,
    of_decide_eq_true hverify, ?_⟩
  -- two identities would need two wallets, and only `7` signed
  rintro ⟨S, wallet, hcard, hinj, hS⟩
  have hone : S.card ≤ 1 := by
    apply card_le_one.mpr
    intro i hi j hj
    apply hinj hi hj
    rw [(hS i hi).2.2.2, (hS j hj).2.2.2]
  omega

end Dkg
