import Dkg.AckDigests.Model
import Dkg.Evm

/-! # The two encoders agree in range

On arguments in the range of the contract's types the two byte strings are equal, and a byte
string determines the values it was made of. The kinds have different lengths: 276, 340 and 125
bytes. Out of range, `uint72ToBytes` throws and `uint256ToBytes` does not: it drops what does not
fit in 32 bytes, and it does not know the narrower types of the contract at all.

The burn list enters the update digest through its hash, so two update encodings with different
burn lists are equal exactly when the packed lists are a collision of `keccak256`.
-/

namespace Dkg

open Lib List

/-! ## Addresses -/

lemma hexDigit_lt {c : Char} {d : ℕ} (h : hexDigit c = some d) : d < 16 := by
  unfold hexDigit at h
  split at h
  next hc =>
    obtain rfl := Option.some.inj h
    have := hc.2
    have : c.toNat ≤ 57 := this
    omega
  next =>
    split at h
    next hc =>
      obtain rfl := Option.some.inj h
      have : c.toNat ≤ 102 := hc.2
      omega
    next =>
      split at h
      next hc =>
        obtain rfl := Option.some.inj h
        have : c.toNat ≤ 70 := hc.2
        omega
      next => cases h

lemma hexDigit_getD_lt (c : Char) : (hexDigit c).getD 0 < 16 := by
  cases h : hexDigit c with
  | none => simp
  | some d => simpa using hexDigit_lt h

lemma parseHex_concat (s : List Char) (c : Char) :
    parseHex (s ++ [c]) = 16 * parseHex s + (hexDigit c).getD 0 := by
  simp [parseHex]

lemma parseHex_lt (s : List Char) : parseHex s < 16 ^ s.length := by
  induction s using reverseRecOn with
  | nil => simp [parseHex]
  | append_singleton s c ih =>
    have := hexDigit_getD_lt c
    rw [parseHex_concat, length_append, length_singleton, pow_succ]
    omega

lemma parseHex_pair (s : List Char) (a b : Char) :
    parseHex (s ++ [a, b]) = 256 * parseHex s + parseHex [a, b] := by
  have happend : s ++ [a, b] = (s ++ [a]) ++ [b] := by simp
  have hpair : parseHex [a, b] = 16 * (hexDigit a).getD 0 + (hexDigit b).getD 0 := by
    simp [parseHex]
  rw [happend, parseHex_concat, parseHex_concat, hpair]
  omega

lemma hexBytes_eq (n : ℕ) (s : List Char) (hs : s.length = 2 * n) :
    (range n).map (fun i => UInt8.ofNat (parseHex ((s.drop (2 * i)).take 2))) =
      bigEndian n (parseHex s) := by
  induction n generalizing s with
  | zero => rfl
  | succ n ih =>
    -- the last two digits are the last byte
    obtain ⟨a, b, hab⟩ : ∃ a b, s.drop (2 * n) = [a, b] := by
      apply length_eq_two.mp
      rw [length_drop]
      omega
    have hfirst := ih (s.take (2 * n)) (by rw [length_take]; omega)
    have hvalue : parseHex s =
        256 * parseHex (s.take (2 * n)) + parseHex [a, b] := by
      rw [← parseHex_pair, ← hab, take_append_drop]
    have hlow : parseHex [a, b] < 256 := parseHex_lt [a, b]
    have hdiv : ((parseHex s : ℕ) : ℤ) / 256 = (parseHex (s.take (2 * n)) : ℕ) := by omega
    have hmod : (((parseHex s : ℕ) : ℤ) % 256).toNat = parseHex [a, b] := by omega
    rw [range_succ, map_append, bigEndian, hdiv, hmod, ← hfirst]
    congr 1
    · apply map_congr_left
      intro i hi
      rw [mem_range] at hi
      congr 2
      rw [drop_take, take_take]
      congr 1
      omega
    · simp [hab]

variable {address : List Char} {bytes : List UInt8} {w : ℕ} {v : ℤ} {x : BitVec w}
  {burn : List (BitVec 256)} {f g : DigestFields}

lemma addressToBytes_ok (h : IsAddress address) :
    addressToBytes address = .ok (bigEndian 20 (parseHex (address.drop 2))) := by
  have hformat : ¬ (address.length ≠ 42 ∨ address.take 2 ≠ ['0', 'x']) := by
    simp [h.length, h.start]
  have hhex : (address.drop 2).all (fun c => (hexDigit c).isSome) = true :=
    all_eq_true.mpr h.hex
  unfold addressToBytes
  rw [if_neg hformat]
  simp only [hhex, if_true]
  rw [hexBytes_eq 20]
  rw [length_drop, h.length]

lemma isAddress_of_ok (h : addressToBytes address = .ok bytes) : IsAddress address := by
  unfold addressToBytes at h
  split at h
  next => cases h
  next hformat =>
    simp only [not_or, ne_eq, not_not] at hformat
    dsimp only at h
    split at h
    next hhex => exact ⟨hformat.1, hformat.2, all_eq_true.mp hhex⟩
    next => cases h

/-! ## Values of the contract's types -/

/-- The range of `uint<w>`. -/
def InUint (w : ℕ) (v : ℤ) : Prop := 0 ≤ v ∧ v < 2 ^ w

lemma inUint_iff : InUint w v ↔ ∃ x : BitVec w, Same v x := by
  constructor
  · rintro ⟨hnonneg, hlt⟩
    have hnat : v.toNat < 2 ^ w := by
      rw [← Int.ofNat_lt, Int.toNat_of_nonneg hnonneg]
      exact_mod_cast hlt
    refine ⟨BitVec.ofNat w v.toNat, ?_⟩
    unfold Same
    rw [BitVec.toNat_ofNat, Nat.mod_eq_of_lt hnat, Int.toNat_of_nonneg hnonneg]
  · rintro ⟨x, hx⟩
    have hlt := x.isLt
    rw [hx]
    exact ⟨Int.natCast_nonneg _, by exact_mod_cast hlt⟩

/-- An address is in the range of its type. -/
lemma exists_sameAddress (h : IsAddress address) : ∃ x, SameAddress address x := by
  have hlt := parseHex_lt (address.drop 2)
  rw [length_drop, h.length] at hlt
  refine ⟨BitVec.ofNat 160 (parseHex (address.drop 2)), h, ?_⟩
  rw [BitVec.toNat_ofNat, Nat.mod_eq_of_lt]
  calc
    parseHex (address.drop 2) < 16 ^ (42 - 2) := hlt
    _ = 2 ^ 160 := by norm_num

lemma length_encodePacked (x : BitVec w) : (encodePacked x).length = w / 8 :=
  length_bigEndian _ _

lemma encodePacked_inj {n : ℕ} {x y : BitVec (8 * n)} (h : encodePacked x = encodePacked y) :
    x = y := by
  have hpow : (256 : ℤ) ^ (8 * n / 8) = 2 ^ (8 * n) := by
    rw [Nat.mul_div_cancel_left n (by omega), pow_mul]
    norm_num
  have hx : (x.toNat : ℤ) < 2 ^ (8 * n) := by exact_mod_cast x.isLt
  have hy : (y.toNat : ℤ) < 2 ^ (8 * n) := by exact_mod_cast y.isLt
  have heq := bigEndian_inj ⟨Int.natCast_nonneg _, hpow ▸ hx⟩ ⟨Int.natCast_nonneg _, hpow ▸ hy⟩ h
  exact BitVec.eq_of_toNat_eq (by exact_mod_cast heq)

lemma uint256_toNat (hw : w ≤ 256) (x : BitVec w) : (uint256 x).toNat = x.toNat := by
  unfold uint256
  rw [BitVec.toNat_setWidth]
  exact Nat.mod_eq_of_lt (lt_of_lt_of_le x.isLt (Nat.pow_le_pow_right (by omega) hw))

lemma encodePacked_uint256_inj (hw : w ≤ 256) {y : BitVec w}
    (h : encodePacked (uint256 x) = encodePacked (uint256 y)) : x = y := by
  have heq : uint256 x = uint256 y := encodePacked_inj (n := 32) h
  apply BitVec.eq_of_toNat_eq
  rw [← uint256_toNat hw x, ← uint256_toNat hw y, heq]

lemma uint256ToBytes_same {x : BitVec 256} (h : Same v x) : uint256ToBytes v = encodePacked x := by
  unfold uint256ToBytes encodePacked
  rw [h]

lemma uint256ToBytes_widened (hw : w ≤ 256) (h : Same v x) :
    uint256ToBytes v = encodePacked (uint256 x) := by
  unfold uint256ToBytes encodePacked
  rw [h, uint256_toNat hw]

lemma uint72ToBytes_ok (h : InUint 72 v) : uint72ToBytes v = .ok (bigEndian 9 v) := by
  unfold uint72ToBytes
  apply if_neg
  have := h.1
  have := h.2
  omega

lemma inUint_of_uint72ToBytes (h : uint72ToBytes v = .ok bytes) : InUint 72 v := by
  unfold uint72ToBytes at h
  split at h
  next => cases h
  next hrange => exact ⟨by omega, by omega⟩

/-! ## The buffer -/

lemma packFields_eq {length : ℕ} {fields : List (List UInt8 × ℕ)}
    (hwidth : ∀ f ∈ fields, f.1.length = f.2) (hlen : length = (fields.map Prod.snd).sum) :
    packFields length fields = .ok (fields.map Prod.fst).flatten := by
  have hset : setFields (replicate length 0) 0 fields =
      some ((replicate length 0).take 0 ++ (fields.map Prod.fst).flatten) := by
    apply setFields_eq hwidth
    rw [length_replicate, hlen, Nat.zero_add]
  unfold packFields
  rw [hset]
  simp

/-! ## When the encoder throws -/

/-- Every check of the encoder passes: the root has 32 bytes, the address is one, and the identity
id of a publisher digest is a `uint72`. -/
def DigestInput.Accepted : DigestInput → Prop
  | publishACK x => x.merkleRoot.length = 32 ∧ IsAddress x.kav10Address
  | updateACK x => x.newMerkleRoot.length = 32 ∧ IsAddress x.kav10Address
  | publishPublisher x => x.merkleRoot.length = 32 ∧ IsAddress x.kav10Address ∧
      InUint 72 x.publisherNodeIdentityId

/-- The numbers that go through `uint256ToBytes` are in the range of the contract's types. -/
def DigestInput.NumbersInRange : DigestInput → Prop
  | publishACK x => InUint 256 x.chainId ∧ InUint 256 x.contextGraphId ∧ InUint 256 x.kaCount ∧
      InUint 88 x.byteSize ∧ InUint 40 x.epochs ∧ InUint 96 x.tokenAmount ∧
      InUint 32 x.merkleLeafCount
  | updateACK x => InUint 256 x.chainId ∧ InUint 256 x.contextGraphId ∧ InUint 256 x.kcId ∧
      InUint 256 x.preUpdateMerkleRootCount ∧ InUint 88 x.newByteSize ∧
      InUint 96 x.newTokenAmount ∧ InUint 256 x.mintAmount ∧
      (∀ v ∈ x.burnTokenIds, InUint 256 v) ∧ InUint 32 x.newMerkleLeafCount
  | publishPublisher x => InUint 256 x.chainId ∧ InUint 256 x.contextGraphId

lemma length_uint256ToBytes (v : ℤ) : (uint256ToBytes v).length = 32 := length_bigEndian 32 v

lemma burnPacked_ok (ids : List ℤ) :
    packFields (ids.length * 32) (ids.map fun id => (uint256ToBytes id, 32)) =
      .ok (ids.map uint256ToBytes).flatten := by
  rw [packFields_eq]
  · simp [Function.comp_def]
  · intro f hf
    obtain ⟨v, -, rfl⟩ := mem_map.mp hf
    exact length_uint256ToBytes v
  · simp [Function.comp_def]

/-! ## What is packed -/

lemma PublishACKInput.packed_ok {x : PublishACKInput} (hroot : x.merkleRoot.length = 32)
    (haddress : IsAddress x.kav10Address) :
    x.packed = .ok [uint256ToBytes x.chainId, bigEndian 20 (parseHex (x.kav10Address.drop 2)),
      uint256ToBytes x.contextGraphId, x.merkleRoot, uint256ToBytes x.kaCount,
      uint256ToBytes x.byteSize, uint256ToBytes x.epochs, uint256ToBytes x.tokenAmount,
      uint256ToBytes x.merkleLeafCount].flatten := by
  unfold PublishACKInput.packed
  rw [if_neg (not_not.mpr hroot), addressToBytes_ok haddress, ok_bind, packFields_eq]
  · simp only [map_cons, map_nil]
  · simp [length_uint256ToBytes, hroot]
  · rfl

lemma UpdateACKInput.packed_ok (keccak256 : List UInt8 → Bytes32) {x : UpdateACKInput}
    (hroot : x.newMerkleRoot.length = 32) (haddress : IsAddress x.kav10Address) :
    x.packed keccak256 = .ok [uint256ToBytes x.chainId,
      bigEndian 20 (parseHex (x.kav10Address.drop 2)), uint256ToBytes x.contextGraphId,
      uint256ToBytes x.kcId, uint256ToBytes x.preUpdateMerkleRootCount, x.newMerkleRoot,
      uint256ToBytes x.newByteSize, uint256ToBytes x.newTokenAmount, uint256ToBytes x.mintAmount,
      (keccak256 (x.burnTokenIds.map uint256ToBytes).flatten).val,
      uint256ToBytes x.newMerkleLeafCount].flatten := by
  have hhash := (keccak256 (x.burnTokenIds.map uint256ToBytes).flatten).property
  unfold UpdateACKInput.packed
  rw [if_neg (not_not.mpr hroot), addressToBytes_ok haddress, ok_bind, burnPacked_ok, ok_bind]
  generalize keccak256 (x.burnTokenIds.map uint256ToBytes).flatten = burnHash at hhash ⊢
  rw [packFields_eq]
  · simp only [map_cons, map_nil]
  · simp [length_uint256ToBytes, hroot, hhash]
  · simp

lemma PublishPublisherInput.packed_ok {x : PublishPublisherInput} (hroot : x.merkleRoot.length = 32)
    (haddress : IsAddress x.kav10Address) (hid : InUint 72 x.publisherNodeIdentityId) :
    x.packed = .ok [uint256ToBytes x.chainId, bigEndian 20 (parseHex (x.kav10Address.drop 2)),
      bigEndian 9 x.publisherNodeIdentityId, uint256ToBytes x.contextGraphId,
      x.merkleRoot].flatten := by
  unfold PublishPublisherInput.packed
  rw [if_neg (not_not.mpr hroot), addressToBytes_ok haddress, ok_bind, uint72ToBytes_ok hid,
      ok_bind,
    packFields_eq]
  · simp only [map_cons, map_nil]
  · simp [length_uint256ToBytes, hroot]
  · rfl

variable (keccak256 : List UInt8 → Bytes32)

/-- The encoder throws exactly when one of its checks fails. -/
lemma DigestInput.packed_ok_iff (x : DigestInput) :
    (∃ bytes, x.packed keccak256 = .ok bytes) ↔ x.Accepted := by
  constructor
  · rintro ⟨bytes, h⟩
    cases x with
    | publishACK x =>
      change x.packed = _ at h
      unfold PublishACKInput.packed at h
      split at h
      next => cases h
      next hroot =>
        obtain ⟨_, haddress, -⟩ := of_bind h
        exact ⟨not_not.mp hroot, isAddress_of_ok haddress⟩
    | updateACK x =>
      change x.packed keccak256 = _ at h
      unfold UpdateACKInput.packed at h
      split at h
      next => cases h
      next hroot =>
        obtain ⟨_, haddress, -⟩ := of_bind h
        exact ⟨not_not.mp hroot, isAddress_of_ok haddress⟩
    | publishPublisher x =>
      change x.packed = _ at h
      unfold PublishPublisherInput.packed at h
      split at h
      next => cases h
      next hroot =>
        obtain ⟨_, haddress, _, hid, -⟩ := of_bind₂ h
        exact ⟨not_not.mp hroot, isAddress_of_ok haddress, inUint_of_uint72ToBytes hid⟩
  · intro haccepted
    cases x with
    | publishACK x => exact ⟨_, x.packed_ok haccepted.1 haccepted.2⟩
    | updateACK x => exact ⟨_, x.packed_ok keccak256 haccepted.1 haccepted.2⟩
    | publishPublisher x => exact ⟨_, x.packed_ok haccepted.1 haccepted.2.1 haccepted.2.2⟩

/-! ## Agreement in range -/

lemma sameAddress_bytes {x : BitVec 160} (h : SameAddress address x) :
    bigEndian 20 (parseHex (address.drop 2)) = encodePacked x := by
  unfold encodePacked
  rw [h.2]

lemma burned_bytes {ids : List ℤ} (h : Forall₂ (fun v n => Same v n) ids burn) :
    ids.map uint256ToBytes = burn.map encodePacked := by
  induction h with
  | nil => rfl
  | cons hv _ ih => rw [map_cons, map_cons, uint256ToBytes_same hv, ih]

/-- In range the encoder packs what the contract packs. -/
lemma DigestInput.StandsFor.packed {x : DigestInput} (h : x.StandsFor f) :
    x.packed keccak256 = .ok (f.encoded keccak256) := by
  cases x with
  | publishACK x =>
    cases f with
    | publishACK f =>
      obtain ⟨hchain, haddress, hcg, hroot, hamount, hsize, hepochs, htokens, hleaves⟩ := h
      have hlen : x.merkleRoot.length = 32 := hroot ▸ f.merkleRoot.property
      refine (x.packed_ok hlen haddress.1).trans ?_
      rw [uint256ToBytes_same hchain, sameAddress_bytes haddress, uint256ToBytes_same hcg, hroot,
        uint256ToBytes_same hamount, uint256ToBytes_widened (by omega) hsize,
        uint256ToBytes_widened (by omega) hepochs, uint256ToBytes_widened (by omega) htokens,
        uint256ToBytes_widened (by omega) hleaves]
      rfl
    | updateACK f => cases h
    | publishPublisher f => cases h
  | updateACK x =>
    cases f with
    | publishACK f => cases h
    | updateACK f =>
      obtain ⟨hchain, haddress, hcg, hkc, hcount, hroot, hsize, htokens, hmint, hburn, hleaves⟩ := h
      have hlen : x.newMerkleRoot.length = 32 := hroot ▸ f.newMerkleRoot.property
      have hburned := burned_bytes hburn
      refine (x.packed_ok keccak256 hlen haddress.1).trans ?_
      rw [uint256ToBytes_same hchain, sameAddress_bytes haddress, uint256ToBytes_same hcg,
        uint256ToBytes_same hkc, uint256ToBytes_same hcount, hroot,
        uint256ToBytes_widened (by omega) hsize, uint256ToBytes_widened (by omega) htokens,
        uint256ToBytes_same hmint, hburned, uint256ToBytes_widened (by omega) hleaves]
      rfl
    | publishPublisher f => cases h
  | publishPublisher x =>
    cases f with
    | publishACK f => cases h
    | updateACK f => cases h
    | publishPublisher f =>
      obtain ⟨hchain, haddress, hid, hcg, hroot⟩ := h
      have hlen : x.merkleRoot.length = 32 := hroot ▸ f.merkleRoot.property
      refine (x.packed_ok hlen haddress.1 (inUint_iff.mpr ⟨_, hid⟩)).trans ?_
      rw [uint256ToBytes_same hchain, sameAddress_bytes haddress, uint256ToBytes_same hcg, hroot,
        hid]
      rfl

/-- A call is in range when the checks pass and the other numbers are in range too. -/
lemma DigestInput.exists_standsFor_iff (x : DigestInput) :
    (∃ f, x.StandsFor f) ↔ x.Accepted ∧ x.NumbersInRange := by
  constructor
  · rintro ⟨f, h⟩
    have hpacked := h.packed fun _ => ⟨replicate 32 0, rfl⟩
    refine ⟨(x.packed_ok_iff _).mp ⟨_, hpacked⟩, ?_⟩
    cases x with
    | publishACK x =>
      cases f with
      | publishACK f =>
        obtain ⟨hchain, -, hcg, -, hamount, hsize, hepochs, htokens, hleaves⟩ := h
        simp only [NumbersInRange, inUint_iff]
        exact ⟨⟨_, hchain⟩, ⟨_, hcg⟩, ⟨_, hamount⟩, ⟨_, hsize⟩, ⟨_, hepochs⟩, ⟨_, htokens⟩,
          _, hleaves⟩
      | updateACK f => cases h
      | publishPublisher f => cases h
    | updateACK x =>
      cases f with
      | publishACK f => cases h
      | updateACK f =>
        obtain ⟨hchain, -, hcg, hkc, hcount, -, hsize, htokens, hmint, hburn, hleaves⟩ := h
        simp only [NumbersInRange, inUint_iff]
        refine ⟨⟨_, hchain⟩, ⟨_, hcg⟩, ⟨_, hkc⟩, ⟨_, hcount⟩, ⟨_, hsize⟩, ⟨_, htokens⟩,
          ⟨_, hmint⟩, ?_, _, hleaves⟩
        intro v hv
        obtain ⟨i, hi, rfl⟩ := getElem_of_mem hv
        exact ⟨_, hburn.get hi (hburn.length_eq ▸ hi)⟩
      | publishPublisher f => cases h
    | publishPublisher x =>
      cases f with
      | publishACK f => cases h
      | updateACK f => cases h
      | publishPublisher f =>
        obtain ⟨hchain, -, -, hcg, -⟩ := h
        exact ⟨inUint_iff.mpr ⟨_, hchain⟩, inUint_iff.mpr ⟨_, hcg⟩⟩
  · rintro ⟨haccepted, hrange⟩
    cases x with
    | publishACK x =>
      obtain ⟨hroot, haddress⟩ := haccepted
      simp only [NumbersInRange, inUint_iff] at hrange
      obtain ⟨⟨chain, hchain⟩, ⟨cg, hcg⟩, ⟨amount, hamount⟩, ⟨size, hsize⟩, ⟨epochs, hepochs⟩,
        ⟨tokens, htokens⟩, leaves, hleaves⟩ := hrange
      obtain ⟨this, hthis⟩ := exists_sameAddress haddress
      exact ⟨.publishACK ⟨chain, this, cg, ⟨x.merkleRoot, hroot⟩, amount, size, epochs, tokens,
        leaves⟩, hchain, hthis, hcg, rfl, hamount, hsize, hepochs, htokens, hleaves⟩
    | updateACK x =>
      obtain ⟨hroot, haddress⟩ := haccepted
      simp only [NumbersInRange, inUint_iff] at hrange
      obtain ⟨⟨chain, hchain⟩, ⟨cg, hcg⟩, ⟨kc, hkc⟩, ⟨count, hcount⟩, ⟨size, hsize⟩,
        ⟨tokens, htokens⟩, ⟨mint, hmint⟩, hburn, leaves, hleaves⟩ := hrange
      obtain ⟨this, hthis⟩ := exists_sameAddress haddress
      obtain ⟨burn, hburn⟩ : ∃ burn : List (BitVec 256),
          Forall₂ (fun v n => Same v n) x.burnTokenIds burn := by
        choose! value hvalue using hburn
        refine ⟨x.burnTokenIds.map value, ?_⟩
        rw [forall₂_map_right_iff]
        exact forall₂_same.mpr hvalue
      exact ⟨.updateACK ⟨chain, this, cg, kc, count, ⟨x.newMerkleRoot, hroot⟩, size, tokens, mint,
        burn, leaves⟩, hchain, hthis, hcg, hkc, hcount, rfl, hsize, htokens, hmint, hburn, hleaves⟩
    | publishPublisher x =>
      obtain ⟨hroot, haddress, hid⟩ := haccepted
      simp only [NumbersInRange, inUint_iff] at hrange
      obtain ⟨⟨chain, hchain⟩, cg, hcg⟩ := hrange
      obtain ⟨node, hnode⟩ := inUint_iff.mp hid
      obtain ⟨this, hthis⟩ := exists_sameAddress haddress
      exact ⟨.publishPublisher ⟨chain, this, node, cg, ⟨x.merkleRoot, hroot⟩⟩, hchain, hthis,
        hnode, hcg, rfl⟩

/-! ## Unambiguous encodings -/

variable {keccak256}

def BurnCollision (keccak256 : List UInt8 → Bytes32) : DigestFields → DigestFields → Prop
  | .updateACK f, .updateACK g =>
    f.burnPacked ≠ g.burnPacked ∧ keccak256 f.burnPacked = keccak256 g.burnPacked
  | _, _ => False

/-- The parts of a digest of one kind have the same lengths. -/
def DigestKind.widths : DigestKind → List ℕ
  | publishACK => [32, 20, 32, 32, 32, 32, 32, 32, 32]
  | updateACK => [32, 20, 32, 32, 32, 32, 32, 32, 32, 32, 32]
  | publishPublisher => [32, 20, 9, 32, 32]

lemma DigestFields.parts_widths (f : DigestFields) :
    (f.parts keccak256).map length = f.kind.widths := by
  cases f with
  | publishACK f =>
    simp [parts, kind, PublishAckFields.parts, DigestKind.widths, length_encodePacked,
      f.merkleRoot.property]
  | updateACK f =>
    have hhash := (keccak256 f.burnPacked).property
    simp [parts, kind, UpdateAckFields.parts, DigestKind.widths, length_encodePacked,
      f.newMerkleRoot.property, hhash]
  | publishPublisher f =>
    simp [parts, kind, PublisherFields.parts, DigestKind.widths, length_encodePacked,
      f.merkleRoot.property]

lemma DigestFields.length_encoded (keccak256 : List UInt8 → Bytes32) (f : DigestFields) :
    (f.encoded keccak256).length = f.kind.widths.sum := by
  unfold encoded
  rw [length_flatten, f.parts_widths]

lemma DigestKind.eq_of_sum {k l : DigestKind} (h : k.widths.sum = l.widths.sum) : k = l := by
  revert h
  cases k <;> cases l <;> decide

lemma DigestFields.kind_eq (h : f.encoded keccak256 = g.encoded keccak256) : f.kind = g.kind := by
  apply DigestKind.eq_of_sum
  rw [← f.length_encoded keccak256, h, g.length_encoded]

lemma DigestFields.parts_eq (h : f.encoded keccak256 = g.encoded keccak256) :
    f.parts keccak256 = g.parts keccak256 := by
  apply (eq_iff_flatten_eq).mpr
  refine ⟨h, ?_⟩
  rw [f.parts_widths, g.parts_widths, kind_eq h]

/-- The packed burn list determines the list: every id takes 32 bytes. -/
lemma burn_eq_of_packed {burn' : List (BitVec 256)}
    (h : (burn.map encodePacked).flatten = (burn'.map encodePacked).flatten) : burn = burn' := by
  have hwidths : ∀ l : List (BitVec 256),
      (l.map encodePacked).map length = replicate l.length 32 := by
    intro l
    induction l with
    | nil => rfl
    | cons x l ih => simp [length_encodePacked, replicate_succ, ih]
  have hlen : burn.length = burn'.length := by
    have hbytes := congrArg length h
    rw [length_flatten, length_flatten, hwidths, hwidths] at hbytes
    simp only [sum_replicate, smul_eq_mul] at hbytes
    omega
  have hparts : burn.map encodePacked = burn'.map encodePacked := by
    apply (eq_iff_flatten_eq).mpr
    rw [hwidths, hwidths, hlen]
    exact ⟨h, rfl⟩
  exact map_injective_iff.mpr (fun _ _ heq => encodePacked_inj (n := 32) heq) hparts

lemma PublishAckFields.eq_of_parts {f g : PublishAckFields} (h : f.parts = g.parts) : f = g := by
  obtain ⟨chainid, this, cg, root, amount, size, epochs, tokens, leaves⟩ := f
  obtain ⟨chainid', this', cg', root', amount', size', epochs', tokens', leaves'⟩ := g
  simp only [parts, cons.injEq, and_true] at h
  obtain ⟨hchain, hthis, hcg, hroot, hamount, hsize, hepochs, htokens, hleaves⟩ := h
  have hchain := encodePacked_inj (n := 32) hchain
  have hthis := encodePacked_inj (n := 20) hthis
  have hcg := encodePacked_inj (n := 32) hcg
  have hroot := Subtype.ext hroot
  have hamount := encodePacked_inj (n := 32) hamount
  have hsize := encodePacked_uint256_inj (by omega) hsize
  have hepochs := encodePacked_uint256_inj (by omega) hepochs
  have htokens := encodePacked_uint256_inj (by omega) htokens
  have hleaves := encodePacked_uint256_inj (by omega) hleaves
  rw [hchain, hthis, hcg, hroot, hamount, hsize, hepochs, htokens, hleaves]

lemma PublisherFields.eq_of_parts {f g : PublisherFields} (h : f.parts = g.parts) : f = g := by
  obtain ⟨chainid, this, node, cg, root⟩ := f
  obtain ⟨chainid', this', node', cg', root'⟩ := g
  simp only [parts, cons.injEq, and_true] at h
  obtain ⟨hchain, hthis, hnode, hcg, hroot⟩ := h
  have hchain := encodePacked_inj (n := 32) hchain
  have hthis := encodePacked_inj (n := 20) hthis
  have hnode := encodePacked_inj (n := 9) hnode
  have hcg := encodePacked_inj (n := 32) hcg
  have hroot := Subtype.ext hroot
  rw [hchain, hthis, hnode, hcg, hroot]

/-- The burn lists apart: they are equal when their hashes are no collision. -/
lemma UpdateAckFields.eq_of_parts {f g : UpdateAckFields}
    (h : f.parts keccak256 = g.parts keccak256) :
    keccak256 f.burnPacked = keccak256 g.burnPacked ∧ (f.burnPacked = g.burnPacked → f = g) := by
  obtain ⟨chainid, this, cg, id, count, root, size, tokens, mint, burn, leaves⟩ := f
  obtain ⟨chainid', this', cg', id', count', root', size', tokens', mint', burn', leaves'⟩ := g
  simp only [parts, cons.injEq, and_true] at h
  obtain ⟨hchain, hthis, hcg, hid, hcount, hroot, hsize, htokens, hmint, hburn, hleaves⟩ := h
  refine ⟨Subtype.ext hburn, ?_⟩
  intro hpacked
  have hchain := encodePacked_inj (n := 32) hchain
  have hthis := encodePacked_inj (n := 20) hthis
  have hcg := encodePacked_inj (n := 32) hcg
  have hid := encodePacked_inj (n := 32) hid
  have hcount := encodePacked_inj (n := 32) hcount
  have hroot := Subtype.ext hroot
  have hsize := encodePacked_uint256_inj (by omega) hsize
  have htokens := encodePacked_uint256_inj (by omega) htokens
  have hmint := encodePacked_inj (n := 32) hmint
  have hleaves := encodePacked_uint256_inj (by omega) hleaves
  have hburn : burn = burn' := burn_eq_of_packed hpacked
  rw [hchain, hthis, hcg, hid, hcount, hroot, hsize, htokens, hmint, hburn, hleaves]

/-- Equal byte strings come from equal values, unless two burn lists collide. -/
lemma DigestFields.eq_or_collision (h : f.encoded keccak256 = g.encoded keccak256) :
    f = g ∨ BurnCollision keccak256 f g := by
  have hkind := kind_eq h
  have hparts := parts_eq h
  cases f with
  | publishACK f =>
    cases g with
    | publishACK g => exact .inl (congrArg _ (PublishAckFields.eq_of_parts hparts))
    | updateACK g => cases hkind
    | publishPublisher g => cases hkind
  | updateACK f =>
    cases g with
    | publishACK g => cases hkind
    | updateACK g =>
      obtain ⟨hhash, heq⟩ := UpdateAckFields.eq_of_parts hparts
      by_cases hpacked : f.burnPacked = g.burnPacked
      · exact .inl (congrArg _ (heq hpacked))
      · exact .inr ⟨hpacked, hhash⟩
    | publishPublisher g => cases hkind
  | publishPublisher f =>
    cases g with
    | publishACK g => cases hkind
    | updateACK g => cases hkind
    | publishPublisher g => exact .inl (congrArg _ (PublisherFields.eq_of_parts hparts))

/-! ## The two encoders -/

/-- In range, the encoder and the contract hash the same bytes; out of range, the encoder throws. -/
def DigestInput.Faithful (keccak256 : List UInt8 → Bytes32) (x : DigestInput) : Prop :=
  (∀ f, x.StandsFor f → x.packed keccak256 = .ok (f.encoded keccak256)) ∧
    ((¬ ∃ f, x.StandsFor f) → ∃ e, x.packed keccak256 = .error e)

/-- **The digest encodings.** A call of the encoder is faithful exactly when the numbers that go
through `uint256ToBytes` are in the range of the contract's types, or the call fails one of the
checks. The encodings of the contract determine their values, up to a collision of the hash on the
burn list, and those of different kinds are different. -/
theorem ack_digest_encodings (keccak256 : List UInt8 → Bytes32) :
    (∀ x : DigestInput, x.Faithful keccak256 ↔ (x.Accepted → x.NumbersInRange)) ∧
    (∀ f g : DigestFields, f.encoded keccak256 = g.encoded keccak256 →
      f = g ∨ BurnCollision keccak256 f g) ∧
    (∀ f g : DigestFields, f.kind ≠ g.kind → f.encoded keccak256 ≠ g.encoded keccak256) := by
  refine ⟨?_, fun f g h => DigestFields.eq_or_collision h, ?_⟩
  · intro x
    constructor
    · rintro ⟨-, hfails⟩ haccepted
      by_contra hrange
      have hnone : ¬ ∃ f, x.StandsFor f := by
        intro h
        exact hrange (x.exists_standsFor_iff.mp h).2
      obtain ⟨e, he⟩ := hfails hnone
      obtain ⟨bytes, hok⟩ := (x.packed_ok_iff keccak256).mpr haccepted
      rw [hok] at he
      cases he
    · intro hrange
      refine ⟨fun f h => h.packed keccak256, ?_⟩
      intro hnone
      cases hpacked : x.packed keccak256 with
      | error e => exact ⟨e, rfl⟩
      | ok bytes =>
        have haccepted := (x.packed_ok_iff keccak256).mp ⟨bytes, hpacked⟩
        exact absurd (x.exists_standsFor_iff.mpr ⟨haccepted, hrange haccepted⟩) hnone
  · intro f g hkind heq
    exact hkind (DigestFields.kind_eq heq)

def someAddress : List Char := "0x00000000000000000000000000000000000000aB".toList

def publishIn (contextGraphId : ℤ) : PublishACKInput where
  chainId := 1
  kav10Address := someAddress
  contextGraphId := contextGraphId
  merkleRoot := List.replicate 32 7
  kaCount := 1
  byteSize := 100
  epochs := 2
  tokenAmount := 1000
  merkleLeafCount := 4

/-- There is no context graph `2 ^ 256 + 1`, and its digest is that of the context graph `1`. -/
theorem publish_ack_digest_wraps :
    (¬ ∃ f, (DigestInput.publishACK (publishIn (2 ^ 256 + 1))).StandsFor f) ∧
    (publishIn (2 ^ 256 + 1)).packed = (publishIn 1).packed ∧
    ∃ bytes, (publishIn (2 ^ 256 + 1)).packed = .ok bytes := by
  refine ⟨?_, by decide +kernel, ?_⟩
  · intro h
    have hcg := ((DigestInput.exists_standsFor_iff _).mp h).2.2.1
    have hlt : (2 : ℤ) ^ 256 + 1 < 2 ^ 256 := hcg.2
    omega
  · obtain ⟨bytes, hbytes, -⟩ := exists_of_succeeds (x := (publishIn (2 ^ 256 + 1)).packed)
      (t := fun _ => true) (by decide +kernel)
    exact ⟨bytes, hbytes⟩

end Dkg
