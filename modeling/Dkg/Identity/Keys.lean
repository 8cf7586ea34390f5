import Dkg.Identity.Operations

/-! # One identity for an operational key

`IdentityKeyInv` is what keeps a wallet from standing for two identities: a key that is operational
for an identity is mapped to that identity by `identityIds`. Every operation keeps it but one. The
deletion of an identity clears `identityIds` and leaves the keys, so a wallet of a deleted
identity can be registered again and is then operational for both. `Safe` excludes that step, and
the wrap-around of the counter of identities.
-/

namespace Dkg

open Lib IdentityLib

/-- An operational key is mapped to its identity, and the identity `0` has no keys. -/
structure IdentityKeyInv (ids : IdentityStorage) : Prop where
  operational : ∀ i k, ids.keyHasPurpose i k OPERATIONAL_KEY → ids.identityIds k = i
  zero : ∀ k, (ids.keys 0 k).purpose = 0

/-- No identity that has operational keys is deleted, and the counter does not wrap. -/
def IdentityOp.Safe (w : IdentityWorld) : IdentityOp → Prop
  | createProfile .. => w.ids.lastIdentityId + 1 < 2 ^ 72
  | deleteIdentity identityId => w.ids.keysByPurpose identityId OPERATIONAL_KEY = []
  | _ => True

instance (w : IdentityWorld) : (op : IdentityOp) → Decidable (op.Safe w)
  | .createProfile .. => inferInstanceAs (Decidable (_ < _))
  | .deleteIdentity .. => inferInstanceAs (Decidable (_ = _))
  | .addOperationalWallets .. | .addKey .. | .removeKey .. => isTrue trivial

/-- A safe step as a function. -/
def safeExec (keccak256 : ℕ → ℕ) (w : IdentityWorld) (op : IdentityOp) : Tx IdentityWorld :=
  if op.Safe w then op.run keccak256 w else .error .abiDecode

lemma safeStep_of_exec (keccak256 : ℕ → ℕ) (w : IdentityWorld) (op : IdentityOp)
    (w' : IdentityWorld) (hexec : safeExec keccak256 w op = .ok w') :
    ((identityMachine keccak256).restrict IdentityOp.Safe).step w op w' := by
  unfold safeExec at hexec
  split at hexec
  next hsafe => exact ⟨hsafe, hexec⟩
  next => cases hexec

variable {keccak256 : ℕ → ℕ} {ids ids' : IdentityStorage}

namespace IdentityKeyInv

lemma empty : IdentityKeyInv IdentityStorage.empty where
  operational := by
    intro i k hop
    cases hop
  zero := fun _ => rfl

variable {i k identityId key purpose type : ℕ}

section

variable (h : IdentityKeyInv ids)

include h

lemma unique {j : ℕ} (hi : ids.keyHasPurpose i k OPERATIONAL_KEY)
    (hj : ids.keyHasPurpose j k OPERATIONAL_KEY) : i = j :=
  (h.operational i k hi).symm.trans (h.operational j k hj)

lemma not_operational (hk : ids.identityIds k = 0) : ¬ ids.keyHasPurpose i k OPERATIONAL_KEY := by
  intro hop
  have hi := h.operational i k hop
  rw [hk] at hi
  subst hi
  have hzero := h.zero k
  unfold IdentityStorage.keyHasPurpose at hop
  rw [hzero] at hop
  cases hop

lemma ne_zero_of_admin (hadmin : ids.keyHasPurpose i k ADMIN_KEY) : i ≠ 0 := by
  rintro rfl
  unfold IdentityStorage.keyHasPurpose at hadmin
  rw [h.zero k] at hadmin
  cases hadmin

lemma generateIdentityId : IdentityKeyInv ids.generateIdentityId.2 :=
  ⟨h.operational, h.zero⟩

lemma addOther (hid : identityId ≠ 0) (hpurpose : purpose ≠ OPERATIONAL_KEY) :
    IdentityKeyInv (ids.addKey identityId key purpose type) := by
  constructor
  · intro i k hop
    by_cases hik : i = identityId ∧ k = key
    · simp only [IdentityStorage.keyHasPurpose, IdentityStorage.addKey, store₂, if_pos hik] at hop
      exact absurd hop hpurpose
    · simp only [IdentityStorage.keyHasPurpose, IdentityStorage.addKey, store₂, if_neg hik] at hop
      exact h.operational i k hop
  · intro k
    have hne : ¬ (0 = identityId ∧ k = key) := fun heq => hid heq.1.symm
    simp only [IdentityStorage.addKey, store₂, if_neg hne]
    exact h.zero k

lemma addOperational (hid : identityId ≠ 0) (hfree : ids.identityIds key = 0) :
    IdentityKeyInv ((ids.setOperationalKeyIdentityId key identityId).addKey identityId key
      OPERATIONAL_KEY type) := by
  constructor
  · intro i k hop
    by_cases hk : k = key
    · subst hk
      by_cases hi : i = identityId
      · rw [hi]
        exact Function.update_self _ _ _
      · simp only [IdentityStorage.keyHasPurpose, IdentityStorage.addKey, store₂,
          IdentityStorage.setOperationalKeyIdentityId, and_true, if_neg hi] at hop
        exact absurd hop (h.not_operational hfree)
    · simp only [IdentityStorage.keyHasPurpose, IdentityStorage.addKey, store₂,
        IdentityStorage.setOperationalKeyIdentityId,
        if_neg (fun heq : i = identityId ∧ k = key => hk heq.2)] at hop
      exact (Function.update_of_ne hk _ _).trans (h.operational i k hop)
  · intro k
    have hne : ¬ (0 = identityId ∧ k = key) := fun heq => hid heq.1.symm
    simp only [IdentityStorage.addKey, store₂, if_neg hne]
    exact h.zero k

lemma attach (hid : identityId ≠ 0) (hfree : purpose = OPERATIONAL_KEY → ids.identityIds key = 0) :
    IdentityKeyInv (ids.attach identityId key purpose type) := by
  unfold IdentityStorage.attach
  by_cases hop : purpose = OPERATIONAL_KEY
  · rw [if_pos hop, hop]
    exact h.addOperational hid (hfree hop)
  · rw [if_neg hop]
    exact h.addOther hid hop

lemma detach (identityId key : ℕ) (rest : List ℕ) :
    IdentityKeyInv (ids.detach identityId key rest) := by
  -- what is still operational was so before, and is another identity or another key
  have hkept : ∀ i k, (store₂ ids.keys identityId key Key.zero i k).purpose = OPERATIONAL_KEY →
      ids.keyHasPurpose i k OPERATIONAL_KEY ∧ ¬ (i = identityId ∧ k = key) := by
    intro i k hop
    by_cases hik : i = identityId ∧ k = key
    · simp only [store₂, if_pos hik] at hop
      cases hop
    · simp only [store₂, if_neg hik] at hop
      exact ⟨hop, hik⟩
  constructor
  · intro i k hop
    obtain ⟨hbefore, hik⟩ := hkept i k hop
    have hsame := h.operational i k hbefore
    simp only [IdentityStorage.detach]
    split
    next hpurpose =>
      have hne : k ≠ key := by
        rintro rfl
        exact hik ⟨h.unique hbefore hpurpose, rfl⟩
      rw [Function.update_of_ne hne, hsame]
    next => exact hsame
  · intro k
    simp only [IdentityStorage.detach, store₂]
    split
    · rfl
    · exact h.zero k

/-! ## The operations -/

lemma createIdentity {operational admin : ℕ} {out : ℕ × IdentityStorage}
    (hfree : ids.identityIds (keccak256 operational) = 0) (hwrap : ids.lastIdentityId + 1 < 2 ^ 72)
    (hrun : Identity.createIdentity keccak256 ids operational admin = .ok out) :
    IdentityKeyInv out.2 ∧ out.1 ≠ 0 := by
  obtain ⟨-, hnew, hout⟩ := Identity.createIdentity_ok hrun
  have hid : out.1 ≠ 0 := by
    rw [hnew]
    simp only [IdentityStorage.generateIdentityId, Nat.mod_eq_of_lt hwrap]
    exact Nat.succ_ne_zero _
  rw [hout]
  have hadmin : IdentityKeyInv
      (ids.generateIdentityId.2.attach out.1 (keccak256 admin) ADMIN_KEY ECDSA) :=
    h.generateIdentityId.addOther hid (by decide)
  exact ⟨hadmin.attach hid fun _ => hfree, hid⟩

end

lemma addOperationalWallets (identityId : ℕ) (hid : identityId ≠ 0) (wallets : List ℕ)
    (h : IdentityKeyInv ids)
    (hrun : Identity.addOperationalWallets keccak256 identityId ids wallets = .ok ids') :
    IdentityKeyInv ids' := by
  induction wallets generalizing ids with
  | nil =>
    obtain rfl := of_pure hrun
    exact h
  | cons wallet wallets ih =>
    obtain ⟨ids₁, hwallet, hrun⟩ := of_bind hrun
    obtain ⟨hfree, -, rfl⟩ := Identity.addOperationalWallet_ok hwallet
    exact ih (h.attach hid fun _ => hfree) hrun

end IdentityKeyInv

lemma IdentityOp.run_keys {w w' : IdentityWorld} {op : IdentityOp} (h : IdentityKeyInv w.ids)
    (hsafe : op.Safe w) (hrun : op.run keccak256 w = .ok w') : IdentityKeyInv w'.ids := by
  cases op with
  | createProfile params sender adminWallet wallets nodeName nodeId fee =>
    obtain ⟨hfree, created, hcreate, hwallets⟩ := Profile.createProfile_ok hrun
    obtain ⟨hcreated, hid⟩ := h.createIdentity hfree hsafe hcreate
    exact IdentityKeyInv.addOperationalWallets created.1 hid wallets hcreated hwallets
  | addOperationalWallets params sender identityId wallets =>
    obtain ⟨hadmin, toAdd, hwallets⟩ := Profile.addOperationalWallets_ok hrun
    exact IdentityKeyInv.addOperationalWallets identityId (h.ne_zero_of_admin hadmin) toAdd h
      hwallets
  | addKey sender identityId key keyPurpose keyType =>
    obtain ⟨ids, hadd, rfl⟩ := of_bind_pure hrun
    obtain ⟨hadmin, hfree, -, rfl⟩ := Identity.addKey_ok hadd
    exact h.attach (h.ne_zero_of_admin hadmin) hfree
  | removeKey sender identityId key =>
    obtain ⟨ids, hremove, rfl⟩ := of_bind_pure hrun
    obtain ⟨-, -, -, rest, -, rfl⟩ := Identity.removeKey_ok hremove
    exact h.detach identityId key rest
  | deleteIdentity identityId =>
    obtain rfl := of_pure hrun
    have hnone : w.ids.keysByPurpose identityId OPERATIONAL_KEY = [] := hsafe
    have hsame : w.ids.deleteIdentity identityId = w.ids := by
      unfold IdentityStorage.deleteIdentity
      rw [hnone, List.foldl_nil]
    simp only [hsame]
    exact h

lemma IdentityWorld.keys {w : IdentityWorld}
    (hr : ((identityMachine keccak256).restrict IdentityOp.Safe).Reachable w) : IdentityKeyInv
      w.ids := by
  apply hr.invariant (P := fun w => IdentityKeyInv w.ids)
  · rintro w rfl
    exact IdentityKeyInv.empty
  · rintro w op w' h ⟨hsafe, hrun⟩
    exact IdentityOp.run_keys h hsafe hrun

end Dkg
