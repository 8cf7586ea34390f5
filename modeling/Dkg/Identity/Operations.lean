import Dkg.Identity.Model

/-! # What the operations write

All writes of `Identity.sol` and `Profile.sol` to the keys but one come down to two: `attach`,
which adds a key that the identity does not have, with its entry in `identityIds` when it is
operational, and `detach`, which takes a key away. The `_ok` lemmas say so for each operation,
with the checks that it has passed. The one other write is the deletion of an identity.
-/

namespace Dkg

open Lib IdentityLib

variable {keccak256 : ℕ → ℕ} {ids ids' : IdentityStorage} {identityId key purpose type : ℕ}

def IdentityStorage.attach (ids : IdentityStorage) (identityId key purpose type : ℕ) :
    IdentityStorage :=
  (if purpose = OPERATIONAL_KEY then ids.setOperationalKeyIdentityId key identityId
    else ids).addKey identityId key purpose type

namespace IdentityStorage

@[simp] lemma attach_keys :
    (ids.attach identityId key purpose type).keys =
      store₂ ids.keys identityId key ⟨purpose, type, key⟩ := by
  unfold attach
  split
  · rfl
  · rfl

@[simp] lemma attach_keysByPurpose :
    (ids.attach identityId key purpose type).keysByPurpose =
      store₂ ids.keysByPurpose identityId purpose
          (ids.keysByPurpose identityId purpose ++ [key]) := by
  unfold attach
  split
  · rfl
  · rfl

@[simp] lemma attach_lastIdentityId :
    (ids.attach identityId key purpose type).lastIdentityId = ids.lastIdentityId := by
  unfold attach
  split
  · rfl
  · rfl

lemma attach_identityIds :
    (ids.attach identityId key purpose type).identityIds =
      if purpose = OPERATIONAL_KEY then Function.update ids.identityIds key identityId
      else ids.identityIds := by
  unfold attach
  split
  · rfl
  · rfl

end IdentityStorage

/-! ## What the operations do -/

lemma Identity.createIdentity_ok {operational admin : ℕ} {out : ℕ × IdentityStorage}
    (hrun : Identity.createIdentity keccak256 ids operational admin = .ok out) :
    admin ≠ operational ∧ out.1 = ids.generateIdentityId.1 ∧
      out.2 = (ids.generateIdentityId.2.attach out.1 (keccak256 admin) ADMIN_KEY ECDSA).attach out.1
        (keccak256 operational) OPERATIONAL_KEY ECDSA := by
  unfold Identity.createIdentity at hrun
  obtain ⟨_, -, _, -, _, hne, hrun⟩ := of_bind₃ hrun
  obtain rfl := of_pure hrun
  exact ⟨require_eq_ok.mp hne, rfl, rfl⟩

lemma Identity.addOperationalWallet_ok {wallet : ℕ}
    (hrun : Identity.addOperationalWallet keccak256 ids identityId wallet = .ok ids') :
    ids.identityIds (keccak256 wallet) = 0 ∧
      (ids.keys identityId (keccak256 wallet)).key ≠ keccak256 wallet ∧
      ids' = ids.attach identityId (keccak256 wallet) OPERATIONAL_KEY ECDSA := by
  unfold Identity.addOperationalWallet at hrun
  obtain ⟨_, -, _, -, _, hfree, hrun⟩ := of_bind₃ hrun
  obtain ⟨_, hnew, rfl⟩ := of_bind_pure hrun
  exact ⟨require_eq_ok.mp hfree, require_eq_ok.mp hnew, rfl⟩

variable {sender : ℕ} {params : ProfileParameters} {w w' : IdentityWorld} {wallets : List ℕ}

lemma Identity.addKey_ok
    (hrun : Identity.addKey keccak256 ids sender identityId key purpose type = .ok ids') :
    ids.keyHasPurpose identityId (keccak256 sender) ADMIN_KEY ∧
      (purpose = OPERATIONAL_KEY → ids.identityIds key = 0) ∧
      (ids.keys identityId key).key ≠ key ∧ ids' = ids.attach identityId key purpose type := by
  unfold Identity.addKey Identity.checkAdmin at hrun
  obtain ⟨hadmin, hrun⟩ := of_require hrun
  obtain ⟨_, -, ids₁, hset, hrun⟩ := of_bind₂ hrun
  obtain ⟨hnew, hrun⟩ := of_require hrun
  obtain rfl := of_pure hrun
  unfold IdentityStorage.attach
  by_cases hop : purpose = OPERATIONAL_KEY
  · rw [if_pos hop] at hset
    obtain ⟨_, hfree, rfl⟩ := of_bind_pure hset
    rw [if_pos hop]
    exact ⟨hadmin, fun _ => require_eq_ok.mp hfree, hnew, rfl⟩
  · rw [if_neg hop] at hset
    obtain rfl := of_pure hset
    rw [if_neg hop]
    exact ⟨hadmin, fun h => absurd h hop, hnew, rfl⟩

def IdentityStorage.detach (ids : IdentityStorage) (identityId key : ℕ) (rest : List ℕ) :
    IdentityStorage :=
  { ids with
    keysByPurpose := store₂ ids.keysByPurpose identityId (ids.keys identityId key).purpose rest
    keys := store₂ ids.keys identityId key Key.zero
    identityIds := if (ids.keys identityId key).purpose = OPERATIONAL_KEY
      then Function.update ids.identityIds key 0 else ids.identityIds }

lemma Identity.removeKey_ok
    (hrun : Identity.removeKey keccak256 ids sender identityId key = .ok ids') :
    key ≠ 0 ∧ (ids.keys identityId key).key = key ∧
      (∀ p, p = ADMIN_KEY ∨ p = OPERATIONAL_KEY → (ids.keysByPurpose identityId p).length = 1 →
        (ids.keys identityId key).purpose ≠ p) ∧
      ∃ rest, IdentityStorage.removeByIndex
          (ids.keysByPurpose identityId (ids.keys identityId key).purpose)
          (IdentityStorage.indexOf key
            (ids.keysByPurpose identityId (ids.keys identityId key).purpose)) = .ok rest ∧
        ids' = ids.detach identityId key rest := by
  unfold Identity.removeKey IdentityStorage.removeKey at hrun
  obtain ⟨_, -, hrun⟩ := of_bind hrun
  obtain ⟨hkey, hattached, hrun⟩ := of_require₂ hrun
  obtain ⟨hadmin, hop, hrun⟩ := of_require₂ hrun
  obtain ⟨ids₁, hremove, hrun⟩ := of_bind hrun
  obtain ⟨rest, hrest, rfl⟩ := of_bind_pure hremove
  obtain rfl := of_pure hrun
  refine ⟨hkey, hattached, ?_, rest, hrest, ?_⟩
  · rintro p (rfl | rfl) hlen hpurpose
    · exact hadmin ⟨hlen, hpurpose⟩
    · exact hop ⟨hlen, hpurpose⟩
  · unfold IdentityStorage.detach
    split
    · rfl
    · rfl

lemma Profile.createProfile_ok {adminWallet : ℕ} {nodeName nodeId : List UInt8} {fee : ℕ}
    (hrun : Profile.createProfile keccak256 params w sender adminWallet wallets nodeName nodeId fee
      = .ok w') :
    w.ids.identityIds (keccak256 sender) = 0 ∧
      ∃ created, Identity.createIdentity keccak256 w.ids sender adminWallet = .ok created ∧
        Identity.addOperationalWallets keccak256 created.1 created.2 wallets = .ok w'.ids := by
  unfold Profile.createProfile at hrun
  obtain ⟨_, -, _, hfree, _, -, hrun⟩ := of_bind₃ hrun
  obtain ⟨_, -, _, -, _, -, hrun⟩ := of_bind₃ hrun
  obtain ⟨_, -, _, -, created, hcreate, hrun⟩ := of_bind₃ hrun
  obtain ⟨ids, hwallets, rfl⟩ := of_bind_pure hrun
  exact ⟨require_eq_ok.mp hfree, created, hcreate, hwallets⟩

lemma Profile.addOperationalWallets_ok
    (hrun : Profile.addOperationalWallets keccak256 params w sender identityId wallets = .ok w') :
    w.ids.keyHasPurpose identityId (keccak256 sender) ADMIN_KEY ∧
      ∃ toAdd, Identity.addOperationalWallets keccak256 identityId w.ids toAdd = .ok w'.ids := by
  unfold Profile.addOperationalWallets at hrun
  obtain ⟨_, hadmin, _, -, toAdd, -, hrun⟩ := of_bind₃ hrun
  refine ⟨require_eq_ok.mp hadmin, ?_⟩
  by_cases hnone : toAdd = []
  · rw [if_pos hnone] at hrun
    obtain rfl := of_pure hrun
    exact ⟨[], rfl⟩
  · rw [if_neg hnone] at hrun
    obtain ⟨_, -, ids, hwallets, hrun⟩ := of_bind₂ hrun
    obtain rfl := of_pure hrun
    exact ⟨toAdd, hwallets⟩

end Dkg
