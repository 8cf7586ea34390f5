import Dkg.Identity.Keys
import Dkg.Lib.IndexedList

/-! # The key store and the map of the operational keys

Two tables say which keys an identity has: the keys themselves, with their lists by purpose, and
`identityIds`, which goes from an operational key back to its identity. `KeyTable` says that they
agree, and that a list has exactly the attached keys of its purpose; `attach` and `detach` keep
it. A history remembers which identities were created and which were deleted.

The deletion of an identity clears `identityIds` and leaves the keys, so after it the two tables
disagree and a deleted identity still has its keys.
-/

namespace Dkg

open Function (Injective injective_id update update_of_ne update_self)

open Lib IdentityLib List IdentityStorage

variable {keccak256 : ℕ → ℕ} {ids ids' : IdentityStorage} {identityId key purpose type : ℕ}

/-- The lists and the maps agree. -/
structure KeyTable (ids : IdentityStorage) : Prop extends IdentityKeyInv ids where
  nodup : ∀ i p, (ids.keysByPurpose i p).Nodup
  listed : ∀ i p k, k ∈ ids.keysByPurpose i p → (ids.keys i k).purpose = p ∧ (ids.keys i k).key = k
  attached : ∀ i k, ids.keys i k ≠ Key.zero → k ∈ ids.keysByPurpose i (ids.keys i k).purpose
  mapped : ∀ k, ids.identityIds k ≠ 0 → ids.keyHasPurpose (ids.identityIds k) k OPERATIONAL_KEY
  fresh : ∀ i p, ids.lastIdentityId < i → ids.keysByPurpose i p = []

namespace KeyTable

lemma empty : KeyTable IdentityStorage.empty where
  toIdentityKeyInv := IdentityKeyInv.empty
  nodup := fun _ _ => nodup_nil
  listed := by simp [IdentityStorage.empty]
  attached := by simp [IdentityStorage.empty]
  mapped := by simp [IdentityStorage.empty]
  fresh := fun _ _ _ => rfl

variable {i k : ℕ} {rest : List ℕ}

variable (h : KeyTable ids)

include h

lemma mem_of_purpose {p : ℕ} (hp : p ≠ 0) (hk : ids.keyHasPurpose i k p) :
    k ∈ ids.keysByPurpose i p := by
  have hkey : ids.keys i k ≠ Key.zero := by
    intro hzero
    unfold keyHasPurpose at hk
    rw [hzero] at hk
    exact hp hk.symm
  have hmem := h.attached i k hkey
  rw [hk] at hmem
  exact hmem

lemma not_mem (hk : (ids.keys i k).key ≠ k) (p : ℕ) : k ∉ ids.keysByPurpose i p := by
  intro hmem
  exact hk (h.listed i p k hmem).2

lemma identityIds_iff (i k : ℕ) :
    (ids.identityIds k = i ∧ i ≠ 0) ↔ ids.keyHasPurpose i k OPERATIONAL_KEY := by
  constructor
  · rintro ⟨rfl, hne⟩
    exact h.mapped k hne
  · intro hop
    have hi := h.operational i k hop
    refine ⟨hi, ?_⟩
    rintro rfl
    exact h.not_operational hi hop

lemma generateIdentityId (hwrap : ids.lastIdentityId + 1 < 2 ^ 72) :
    KeyTable ids.generateIdentityId.2 where
  toIdentityKeyInv := h.toIdentityKeyInv.generateIdentityId
  nodup := h.nodup
  listed := h.listed
  attached := h.attached
  mapped := h.mapped
  fresh := by
    intro i p hi
    simp only [IdentityStorage.generateIdentityId, Nat.mod_eq_of_lt hwrap] at hi
    exact h.fresh i p (by omega)

lemma attach (hid : identityId ≠ 0) (hlast : identityId ≤ ids.lastIdentityId)
    (hfree : purpose = OPERATIONAL_KEY → ids.identityIds key = 0)
    (hnew : ∀ p, key ∉ ids.keysByPurpose identityId p) :
    KeyTable (ids.attach identityId key purpose type) where
  toIdentityKeyInv := h.toIdentityKeyInv.attach hid hfree
  nodup := by
    intro i p
    rw [attach_keysByPurpose]
    unfold store₂
    split
    next =>
      rw [← concat_eq_append]
      exact (h.nodup identityId purpose).concat (hnew purpose)
    next => exact h.nodup i p
  listed := by
    intro i p k hk
    rw [attach_keysByPurpose] at hk
    rw [attach_keys]
    by_cases hip : i = identityId ∧ p = purpose
    · obtain ⟨rfl, rfl⟩ := hip
      simp only [store₂, and_self, if_true, mem_append, mem_singleton] at hk
      by_cases hkey : k = key
      · simp [store₂, hkey]
      · simp only [store₂, hkey, and_false, if_false]
        exact h.listed i p k (hk.resolve_right hkey)
    · simp only [store₂, if_neg hip] at hk
      have hne : ¬ (i = identityId ∧ k = key) := by
        rintro ⟨rfl, rfl⟩
        exact hnew p hk
      simp only [store₂, if_neg hne]
      exact h.listed i p k hk
  attached := by
    intro i k hk
    rw [attach_keys] at hk ⊢
    rw [attach_keysByPurpose]
    by_cases hik : i = identityId ∧ k = key
    · simp [store₂, hik]
    · simp only [store₂, if_neg hik] at hk ⊢
      have hmem := h.attached i k hk
      split
      next hip =>
        obtain ⟨rfl, hp⟩ := hip
        rw [hp] at hmem
        exact mem_append_left _ hmem
      next => exact hmem
  mapped := by
    intro k hk
    rw [attach_identityIds] at hk ⊢
    unfold keyHasPurpose
    rw [attach_keys]
    split at hk
    next hop =>
      rw [if_pos hop]
      by_cases hkey : k = key
      · simp [store₂, hkey, hop]
      · rw [update_of_ne hkey] at hk ⊢
        simp only [store₂, hkey, and_false, if_false]
        exact h.mapped k hk
    next hop =>
      rw [if_neg hop]
      have hmem := h.mem_of_purpose (by decide) (h.mapped k hk)
      have hne : ¬ (ids.identityIds k = identityId ∧ k = key) := by
        rintro ⟨hi, rfl⟩
        rw [hi] at hmem
        exact hnew _ hmem
      simp only [store₂, if_neg hne]
      exact h.mapped k hk
  fresh := by
    intro i p hi
    rw [attach_lastIdentityId] at hi
    rw [attach_keysByPurpose, store₂_other_row _ _ _ (by omega)]
    exact h.fresh i p hi

omit h in
lemma removed_list {keys : List ℕ} (hnodup : keys.Nodup) (hmem : key ∈ keys)
    (hrest : removeByIndex keys (indexOf key keys) = .ok rest) :
    rest.Nodup ∧ (∀ k, k ∈ rest ↔ k ∈ keys ∧ k ≠ key) ∧ rest.length + 1 = keys.length := by
  have hindexed := Indexed.of_nodup hnodup
  obtain ⟨hlt, hrest⟩ := of_require hrest
  obtain rfl := of_pure hrest
  have hslot : keys[indexOf key keys]? = some key := by
    unfold indexOf
    rw [if_pos hmem]
    exact hindexed.listed hmem
  have hpos := length_pos_of_mem hmem
  have hlast : keys[keys.length - 1]? = some (keys.getD (keys.length - 1) 0) := by
    rw [getD_eq_getElem?_getD, getElem?_eq_getElem (by omega)]
    rfl
  obtain ⟨hnodup, hkeys⟩ := hindexed.remove_slot hslot hlast
  refine ⟨hnodup, hkeys, ?_⟩
  rw [length_dropLast, length_set]
  omega

/-- The lists after the removal of a key: those from before, without the key. -/
lemma mem_detach_iff (hkeys : ∀ k, k ∈ rest ↔
      k ∈ ids.keysByPurpose identityId (ids.keys identityId key).purpose ∧ k ≠ key) (i p k : ℕ) :
    k ∈ (ids.detach identityId key rest).keysByPurpose i p ↔
      k ∈ ids.keysByPurpose i p ∧ ¬ (i = identityId ∧ k = key) := by
  simp only [detach, store₂]
  split
  next hip =>
    obtain ⟨rfl, rfl⟩ := hip
    rw [hkeys]
    simp
  next hip =>
    refine ⟨fun hk => ⟨hk, ?_⟩, fun hk => hk.1⟩
    rintro ⟨rfl, rfl⟩
    exact hip ⟨rfl, (h.listed i p k hk).1.symm⟩

lemma detach (hkey : key ≠ 0) (hattached : (ids.keys identityId key).key = key)
    (hrest : removeByIndex
      (ids.keysByPurpose identityId (ids.keys identityId key).purpose)
      (indexOf key
        (ids.keysByPurpose identityId (ids.keys identityId key).purpose)) = .ok rest) :
    KeyTable (ids.detach identityId key rest) := by
  have hzero : ids.keys identityId key ≠ Key.zero := by
    intro hzero
    rw [hzero] at hattached
    exact hkey hattached.symm
  have hmem := h.attached identityId key hzero
  obtain ⟨hnodup, hkeys, -⟩ := removed_list (h.nodup _ _) hmem hrest
  have hlist := h.mem_detach_iff hkeys
  refine ⟨h.toIdentityKeyInv.detach identityId key rest, ?_, ?_, ?_, ?_, ?_⟩
  · intro i p
    simp only [IdentityStorage.detach, store₂]
    split
    next => exact hnodup
    next => exact h.nodup i p
  · intro i p k hk
    obtain ⟨hold, hne⟩ := (hlist i p k).mp hk
    simp only [IdentityStorage.detach, store₂, if_neg hne]
    exact h.listed i p k hold
  · intro i k hk
    rw [hlist]
    simp only [IdentityStorage.detach, store₂] at hk ⊢
    by_cases hik : i = identityId ∧ k = key
    · rw [if_pos hik] at hk
      exact absurd rfl hk
    · rw [if_neg hik] at hk ⊢
      exact ⟨h.attached i k hk, hik⟩
  · -- The entry of an operational key goes with it; any other key has none to lose.
    intro k hk
    simp only [IdentityStorage.detach] at hk ⊢
    unfold keyHasPurpose
    split at hk
    next hop =>
      have hne : k ≠ key := by
        rintro rfl
        rw [update_self] at hk
        exact hk rfl
      rw [if_pos hop]
      rw [update_of_ne hne] at hk ⊢
      simp only [store₂, hne, and_false, if_false]
      exact h.mapped k hk
    next hop =>
      rw [if_neg hop]
      have hmapped := h.mapped k hk
      have hne : ¬ (ids.identityIds k = identityId ∧ k = key) := by
        rintro ⟨hi, rfl⟩
        rw [hi] at hmapped
        exact hop hmapped
      simp only [store₂, if_neg hne]
      exact hmapped
  · intro i p hi
    have hold := h.fresh i p hi
    apply eq_nil_iff_forall_not_mem.mpr
    intro k hk
    have hbefore := ((hlist i p k).mp hk).1
    rw [hold] at hbefore
    cases hbefore

lemma le_last_of_admin (hadmin : ids.keyHasPurpose identityId k ADMIN_KEY) :
    identityId ≤ ids.lastIdentityId := by
  by_contra hlt
  have hmem := h.mem_of_purpose (by decide) hadmin
  rw [h.fresh identityId ADMIN_KEY (by omega)] at hmem
  cases hmem

end KeyTable

/-! ## The lists of one identity -/

/-- The lists of the other identities are as before, and no list of the identity became empty. -/
structure ListsGrown (identityId : ℕ) (ids ids' : IdentityStorage) : Prop where
  other : ∀ i p, i ≠ identityId → ids'.keysByPurpose i p = ids.keysByPurpose i p
  kept : ∀ p, ids.keysByPurpose identityId p ≠ [] → ids'.keysByPurpose identityId p ≠ []

namespace ListsGrown

lemma refl (identityId : ℕ) (ids : IdentityStorage) : ListsGrown identityId ids ids :=
  ⟨fun _ _ _ => rfl, fun _ h => h⟩

lemma trans {ids'' : IdentityStorage} (h : ListsGrown identityId ids ids')
    (h' : ListsGrown identityId ids' ids'') : ListsGrown identityId ids ids'' :=
  ⟨fun i p hi => (h'.other i p hi).trans (h.other i p hi), fun p hp => h'.kept p (h.kept p hp)⟩

lemma attach : ListsGrown identityId ids (ids.attach identityId key purpose type) := by
  constructor
  · intro i p hi
    rw [attach_keysByPurpose, store₂_other_row _ _ _ hi]
  · intro p hp
    rw [attach_keysByPurpose]
    unfold store₂
    split
    · simp
    · exact hp

end ListsGrown

lemma KeyTable.addOperationalWallets {wallets : List ℕ} (h : KeyTable ids) (hid : identityId ≠ 0)
    (hlast : identityId ≤ ids.lastIdentityId)
    (hrun : Identity.addOperationalWallets keccak256 identityId ids wallets = .ok ids') :
    KeyTable ids' ∧ ListsGrown identityId ids ids' := by
  induction wallets generalizing ids with
  | nil =>
    obtain rfl := of_pure hrun
    exact ⟨h, .refl _ _⟩
  | cons wallet wallets ih =>
    obtain ⟨ids₁, hwallet, hrun⟩ := of_bind hrun
    obtain ⟨hfree, hnew, rfl⟩ := Identity.addOperationalWallet_ok hwallet
    have hattach :
        KeyTable (ids.attach identityId (keccak256 wallet) OPERATIONAL_KEY ECDSA) :=
      h.attach hid hlast (fun _ => hfree) (h.not_mem hnew)
    have hlast' : identityId ≤
        (ids.attach identityId (keccak256 wallet) OPERATIONAL_KEY ECDSA).lastIdentityId := by
      rw [attach_lastIdentityId]
      exact hlast
    obtain ⟨htable, hgrown⟩ := ih hattach hlast' hrun
    exact ⟨htable, ListsGrown.attach.trans hgrown⟩

lemma KeyTable.createIdentity (hkeccak : Injective keccak256) (h : KeyTable ids)
    {operational admin : ℕ} {out : ℕ × IdentityStorage}
    (hfree : ids.identityIds (keccak256 operational) = 0) (hwrap : ids.lastIdentityId + 1 < 2 ^ 72)
    (hrun : Identity.createIdentity keccak256 ids operational admin = .ok out) :
    KeyTable out.2 ∧ out.1 ≠ 0 ∧ out.1 ≤ out.2.lastIdentityId ∧ ListsGrown out.1 ids out.2 ∧
      out.2.keysByPurpose out.1 ADMIN_KEY ≠ [] ∧
          out.2.keysByPurpose out.1 OPERATIONAL_KEY ≠ [] := by
  obtain ⟨hne, hnew, hout⟩ := Identity.createIdentity_ok hrun
  have hid : out.1 = ids.lastIdentityId + 1 := by
    rw [hnew]
    exact Nat.mod_eq_of_lt hwrap
  have hlast : ids.generateIdentityId.2.lastIdentityId = ids.lastIdentityId + 1 :=
    Nat.mod_eq_of_lt hwrap
  have hempty : ∀ p, ids.generateIdentityId.2.keysByPurpose out.1 p = [] := by
    intro p
    exact h.fresh out.1 p (by omega)
  have hadmin : KeyTable
      (ids.generateIdentityId.2.attach out.1 (keccak256 admin) ADMIN_KEY ECDSA) := by
    refine (h.generateIdentityId hwrap).attach (by omega) (by omega) ?_ ?_
    · intro heq
      exact absurd heq (by decide)
    · intro p
      simp [hempty p]
  have hop : KeyTable
      ((ids.generateIdentityId.2.attach out.1 (keccak256 admin) ADMIN_KEY ECDSA).attach out.1
        (keccak256 operational) OPERATIONAL_KEY ECDSA) := by
    refine hadmin.attach (by omega) ?_ (fun _ => hfree) ?_
    · rw [attach_lastIdentityId]
      omega
    · intro p
      rw [attach_keysByPurpose]
      unfold store₂
      rw [hempty]
      split
      · simpa using fun heq => hne (hkeccak heq).symm
      · rw [hempty]
        simp
  rw [hout]
  refine ⟨hop, by omega, ?_, ?_, ?_, ?_⟩
  · rw [attach_lastIdentityId, attach_lastIdentityId]
    omega
  · have hgen : ListsGrown out.1 ids ids.generateIdentityId.2 :=
      ⟨fun _ _ _ => rfl, fun _ hp => hp⟩
    exact (hgen.trans .attach).trans .attach
  · apply ListsGrown.attach.kept
    simp [store₂]
  · simp [store₂]

/-! ## Histories -/

inductive IdentityStatus
  | absent
  | existing
  | deleted
  deriving DecidableEq, Repr

/-- The contracts, and what happened to every identity. -/
structure IdentityHistory where
  world : IdentityWorld
  status : ℕ → IdentityStatus

def IdentityOp.mark (s : IdentityHistory) : IdentityOp → ℕ → IdentityStatus
  | createProfile .. => update s.status s.world.ids.generateIdentityId.1 .existing
  | deleteIdentity identityId => update s.status identityId .deleted
  | _ => s.status

/-- A transaction, recorded. -/
def IdentityHistory.exec (keccak256 : ℕ → ℕ) (s : IdentityHistory) (op : IdentityOp) :
    Tx IdentityHistory := do
  let world ← op.run keccak256 s.world
  pure ⟨world, op.mark s⟩

/-- The runs of the contracts, recorded. -/
def identityHistory (keccak256 : ℕ → ℕ) : Machine IdentityHistory IdentityOp where
  init s := s = ⟨IdentityWorld.empty, fun _ => .absent⟩
  step s op s' := s.exec keccak256 op = .ok s'

/-- The table of the identities agrees with the operational keys, and an identity has keys as long
as it exists. -/
structure IdentityHistory.KeysInStep (s : IdentityHistory) : Prop where
  identityIds_iff : ∀ i k, (s.world.ids.identityIds k = i ∧ i ≠ 0) ↔
    s.world.ids.keyHasPurpose i k OPERATIONAL_KEY
  existing_has_keys : ∀ i, s.status i = .existing →
    (∃ k, s.world.ids.keyHasPurpose i k ADMIN_KEY) ∧
      ∃ k, s.world.ids.keyHasPurpose i k OPERATIONAL_KEY
  deleted_has_none : ∀ i, s.status i = .deleted → ∀ p, s.world.ids.keysByPurpose i p = [] ∧
    (p ≠ 0 → ∀ k, ¬ s.world.ids.keyHasPurpose i k p)

/-- What the steps of a history keep. -/
structure IdentityHistory.Inv (s : IdentityHistory) : Prop where
  table : KeyTable s.world.ids
  existing : ∀ i, s.status i = .existing → s.world.ids.keysByPurpose i ADMIN_KEY ≠ [] ∧
    s.world.ids.keysByPurpose i OPERATIONAL_KEY ≠ []
  other : ∀ i, s.status i ≠ .existing → ∀ p, s.world.ids.keysByPurpose i p = []

namespace IdentityHistory.Inv

variable {s : IdentityHistory}

lemma keysInStep (h : s.Inv) : s.KeysInStep where
  identityIds_iff := h.table.identityIds_iff
  existing_has_keys := by
    intro i hi
    obtain ⟨hadmin, hop⟩ := h.existing i hi
    obtain ⟨a, ha⟩ := exists_mem_of_ne_nil _ hadmin
    obtain ⟨o, ho⟩ := exists_mem_of_ne_nil _ hop
    exact ⟨⟨a, (h.table.listed i _ a ha).1⟩, o, (h.table.listed i _ o ho).1⟩
  deleted_has_none := by
    intro i hi p
    have hnone := h.other i (by simp [hi]) p
    refine ⟨hnone, ?_⟩
    intro hp k hk
    have hmem := h.table.mem_of_purpose hp hk
    rw [hnone] at hmem
    cases hmem

lemma existing_of_admin (h : s.Inv) {i k : ℕ} (hadmin : s.world.ids.keyHasPurpose i k ADMIN_KEY) :
    s.status i = .existing := by
  by_contra hne
  have hmem := h.table.mem_of_purpose (by decide) hadmin
  rw [h.other i hne] at hmem
  cases hmem

lemma grown (h : s.Inv) {w' : IdentityWorld} {i : ℕ} (hi : s.status i = .existing)
    (htable : KeyTable w'.ids) (hgrown : ListsGrown i s.world.ids w'.ids) :
    IdentityHistory.Inv ⟨w', s.status⟩ where
  table := htable
  existing := by
    intro j hj
    obtain ⟨hadmin, hop⟩ := h.existing j hj
    by_cases hji : j = i
    · subst hji
      exact ⟨hgrown.kept _ hadmin, hgrown.kept _ hop⟩
    · simp only [hgrown.other j _ hji]
      exact ⟨hadmin, hop⟩
  other := by
    intro j hj p
    have hji : j ≠ i := by
      rintro rfl
      exact hj hi
    exact (hgrown.other j p hji).trans (h.other j hj p)

lemma createProfile (hkeccak : Injective keccak256) (h : s.Inv)
    {params : ProfileParameters} {w' : IdentityWorld} {sender adminWallet : ℕ}
    {wallets : List ℕ} {nodeName nodeId : List UInt8} {fee : ℕ}
    (hwrap : s.world.ids.lastIdentityId + 1 < 2 ^ 72)
    (hrun : Profile.createProfile keccak256 params s.world sender adminWallet wallets nodeName
      nodeId fee = .ok w') :
    IdentityHistory.Inv
      ⟨w', update s.status s.world.ids.generateIdentityId.1 .existing⟩ := by
  obtain ⟨hfree, created, hcreate, hwallets⟩ := Profile.createProfile_ok hrun
  obtain ⟨htable, hid, hlast, hgrown, hadmin, hop⟩ :=
    h.table.createIdentity hkeccak hfree hwrap hcreate
  obtain ⟨htable', hgrown'⟩ := htable.addOperationalWallets hid hlast hwallets
  have hall := hgrown.trans hgrown'
  rw [← (Identity.createIdentity_ok hcreate).2.1]
  refine ⟨htable', ?_, ?_⟩
  · intro j hj
    by_cases hji : j = created.1
    · subst hji
      exact ⟨hgrown'.kept _ hadmin, hgrown'.kept _ hop⟩
    · simp only [update_of_ne hji] at hj
      simp only [hall.other j _ hji]
      exact h.existing j hj
  · intro j hj p
    have hji : j ≠ created.1 := by
      rintro rfl
      exact hj (update_self _ _ _)
    simp only [update_of_ne hji] at hj
    exact (hall.other j p hji).trans (h.other j hj p)

/-- The last admin key and the last operational key stay. -/
lemma removeKey (h : s.Inv) {ids' : IdentityStorage} {sender : ℕ}
    (hrun : Identity.removeKey keccak256 s.world.ids sender identityId key = .ok ids') :
    IdentityHistory.Inv ⟨{ s.world with ids := ids' }, s.status⟩ := by
  obtain ⟨hkey, hattached, hguard, rest, hrest, rfl⟩ := Identity.removeKey_ok hrun
  have hzero : s.world.ids.keys identityId key ≠ Key.zero := by
    intro hzero
    rw [hzero] at hattached
    exact hkey hattached.symm
  have hmem := h.table.attached identityId key hzero
  obtain ⟨-, -, hlen⟩ := KeyTable.removed_list (h.table.nodup _ _) hmem hrest
  have hexisting : s.status identityId = .existing := by
    by_contra hne
    rw [h.other identityId hne] at hmem
    cases hmem
  have htable := h.table.detach hkey hattached hrest
  refine ⟨htable, ?_, ?_⟩
  · -- a list that lost its key had another one
    have hkept : ∀ j p, p = ADMIN_KEY ∨ p = OPERATIONAL_KEY →
        s.world.ids.keysByPurpose j p ≠ [] →
        (s.world.ids.detach identityId key rest).keysByPurpose j p ≠ [] := by
      intro j p hp hlist
      simp only [detach, store₂]
      split
      next hjp =>
        obtain ⟨rfl, hpurpose⟩ := hjp
        intro hnil
        rw [hnil, length_nil, ← hpurpose] at hlen
        exact hguard p hp hlen.symm hpurpose.symm
      next => exact hlist
    intro j hj
    obtain ⟨hadmin, hop⟩ := h.existing j hj
    exact ⟨hkept j _ (.inl rfl) hadmin, hkept j _ (.inr rfl) hop⟩
  · intro j hj p
    have hji : j ≠ identityId := by
      rintro rfl
      exact hj hexisting
    simp only [detach, store₂_other_row _ _ _ hji]
    exact h.other j hj p

lemma exec (hkeccak : Injective keccak256) (h : s.Inv) {op : IdentityOp}
    {s' : IdentityHistory} (hsafe : op.Safe s.world) (hexec : s.exec keccak256 op = .ok s') :
    s'.Inv := by
  obtain ⟨w', hrun, rfl⟩ := of_bind_pure hexec
  cases op with
  | createProfile params sender adminWallet wallets nodeName nodeId fee =>
    exact h.createProfile hkeccak hsafe hrun
  | addOperationalWallets params sender identityId wallets =>
    obtain ⟨hadmin, toAdd, hwallets⟩ := Profile.addOperationalWallets_ok hrun
    obtain ⟨htable, hgrown⟩ := h.table.addOperationalWallets (h.table.ne_zero_of_admin hadmin)
      (h.table.le_last_of_admin hadmin) hwallets
    exact h.grown (h.existing_of_admin hadmin) htable hgrown
  | addKey sender identityId key keyPurpose keyType =>
    obtain ⟨ids, hadd, rfl⟩ := of_bind_pure hrun
    obtain ⟨hadmin, hfree, hnew, rfl⟩ := Identity.addKey_ok hadd
    refine h.grown (h.existing_of_admin hadmin) ?_ ListsGrown.attach
    exact h.table.attach (h.table.ne_zero_of_admin hadmin) (h.table.le_last_of_admin hadmin) hfree
      (h.table.not_mem hnew)
  | removeKey sender identityId key =>
    obtain ⟨ids, hremove, rfl⟩ := of_bind_pure hrun
    exact h.removeKey hremove
  | deleteIdentity identityId =>
    obtain rfl := of_pure hrun
    have hnone : s.world.ids.keysByPurpose identityId OPERATIONAL_KEY = [] := hsafe
    have hsame : s.world.ids.deleteIdentity identityId = s.world.ids := by
      unfold deleteIdentity
      rw [hnone, foldl_nil]
    have habsent : s.status identityId ≠ .existing := by
      intro hexisting
      exact (h.existing identityId hexisting).2 hnone
    simp only [hsame]
    refine ⟨h.table, ?_, ?_⟩
    · intro j hj
      by_cases hji : j = identityId
      · subst hji
        simp [IdentityOp.mark] at hj
      · simp only [IdentityOp.mark, update_of_ne hji] at hj
        exact h.existing j hj
    · intro j hj p
      by_cases hji : j = identityId
      · rw [hji]
        exact h.other identityId habsent p
      · simp only [IdentityOp.mark, update_of_ne hji] at hj
        exact h.other j hj p

end IdentityHistory.Inv

/-- **Key tables in step.** In every run in which no identity with operational keys is deleted and
the counter of identities does not wrap, `identityIds` finds exactly the operational keys, every
existing identity has an admin key and an operational key, and a deleted one has no key. -/
theorem identity_keys_in_step {keccak256 : ℕ → ℕ} (hkeccak : Injective keccak256)
    {s : IdentityHistory}
    (hr : ((identityHistory keccak256).restrict fun s op => op.Safe s.world).Reachable s) :
    s.KeysInStep := by
  have hinv : s.Inv := by
    apply hr.invariant (P := IdentityHistory.Inv)
    · rintro s rfl
      exact ⟨KeyTable.empty, by simp, fun _ _ _ => rfl⟩
    · rintro s op s' h ⟨hsafe, hrun⟩
      exact h.exec hkeccak hsafe hrun
  exact hinv.keysInStep

/-- The wallet `7` creates a profile with the admin `20`, who adds a wallet and removes the
first. -/
theorem identity_keys_in_step_rotated : ∃ s,
    ((identityHistory id).restrict fun s op => op.Safe s.world).Reachable s ∧
    s.status 1 = .existing ∧ s.world.ids.keysByPurpose 1 OPERATIONAL_KEY = [8] ∧
    s.KeysInStep := by
  obtain ⟨s, hrun, hs⟩ := exists_of_succeeds
    (x := Machine.runList (Machine.guarded (fun (s : IdentityHistory) op => op.Safe s.world)
      Revert.abiDecode (IdentityHistory.exec id))
      [.createProfile openProfiles 7 20 [] [1] [1] 0,
       .addOperationalWallets openProfiles 20 1 [8], .removeKey 20 1 7]
      ⟨IdentityWorld.empty, fun _ => .absent⟩)
    (t := fun s => decide (s.status 1 = .existing ∧
      s.world.ids.keysByPurpose 1 OPERATIONAL_KEY = [8]))
    (by decide +kernel)
  have hr := Machine.Reachable.runList
    (Machine.restrict_of_guarded (M := identityHistory id) fun _ _ _ h => h) (.init rfl) hrun
  obtain ⟨hstatus, hkeys⟩ := of_decide_eq_true hs
  exact ⟨s, hr, hstatus, hkeys, identity_keys_in_step injective_id hr⟩

/-- The wallet `7` creates the identity `1`, which is then deleted: it keeps its operational key,
which `identityIds` does not find any more. -/
theorem deleted_identity_out_of_step : ∃ s,
    (identityHistory id).Reachable s ∧ s.status 1 = .deleted ∧
    s.world.ids.keyHasPurpose 1 7 OPERATIONAL_KEY ∧ s.world.ids.identityIds 7 = 0 ∧
    ¬ s.KeysInStep := by
  obtain ⟨s, hrun, hs⟩ := exists_of_succeeds
    (x := Machine.runList (IdentityHistory.exec id)
      [.createProfile openProfiles 7 20 [] [1] [1] 0, .deleteIdentity 1]
      ⟨IdentityWorld.empty, fun _ => .absent⟩)
    (t := fun s => decide (s.status 1 = .deleted ∧
      s.world.ids.keyHasPurpose 1 7 OPERATIONAL_KEY ∧ s.world.ids.identityIds 7 = 0))
    (by decide +kernel)
  have hr : (identityHistory id).Reachable s :=
    Machine.Reachable.runList (fun _ _ _ h => h) (.init rfl) hrun
  obtain ⟨hstatus, hkey, hids⟩ := of_decide_eq_true hs
  refine ⟨s, hr, hstatus, hkey, hids, ?_⟩
  intro hstep
  exact (hstep.deleted_has_none 1 hstatus OPERATIONAL_KEY).2 (by decide) 7 hkey

end Dkg
