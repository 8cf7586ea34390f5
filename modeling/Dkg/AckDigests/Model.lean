import Dkg.Lib.BigEndian

/-! # The digests that nodes sign

A publish or an update is signed off chain and verified on chain, so the same digest is computed
twice: by `packages/core/src/crypto/ack.ts`, which writes big integers into a byte buffer by hand,
and by `KnowledgeAssetsV10.sol`, which hashes an `abi.encodePacked` of typed values. This file has
the byte strings of both, before the hash; `keccak256` is a parameter, and matters here because the
burn list of an update is hashed inside the digest.
-/

namespace Dkg

open Lib

/-- `bytes32`. -/
abbrev Bytes32 := { b : List UInt8 // b.length = 32 }

/-! ## The encoder of `ack.ts` -/

/-- What the encoder throws. -/
inductive AckError
  /-- `merkleRoot must be 32 bytes, got …`, or `newMerkleRoot` of an update. -/
  | merkleRootLength (got : ℕ)
  /-- `kav10Address must be a 0x-prefixed 20-byte hex string, got: …`. -/
  | addressFormat (got : List Char)
  /-- `kav10Address contains non-hex characters: …`. -/
  | addressNonHex (got : List Char)
  /-- `identityId must fit in uint72, got: …`. -/
  | identityIdRange (got : ℤ)
  /-- The `RangeError` of a copy behind the end of the buffer. -/
  | offsetOutOfBounds
  deriving DecidableEq, Repr

/-- The loop fills the buffer from its last byte, with `v & 0xff` and `v >>= 8`; whatever is left
of `v` after 32 bytes is dropped. -/
def uint256ToBytes (value : ℤ) : List UInt8 := bigEndian 32 value

def uint72ToBytes (value : ℤ) : Except AckError (List UInt8) :=
  if value < 0 ∨ value > 2 ^ 72 - 1 then .error (.identityIdRange value)
  else .ok (bigEndian 9 value)

/-- The value of a character of `[0-9a-fA-F]`. -/
def hexDigit (c : Char) : Option ℕ :=
  if '0' ≤ c ∧ c ≤ '9' then some (c.toNat - 48)
  else if 'a' ≤ c ∧ c ≤ 'f' then some (c.toNat - 87)
  else if 'A' ≤ c ∧ c ≤ 'F' then some (c.toNat - 55)
  else none

/-- `parseInt(s, 16)` of hex digits. -/
def parseHex (s : List Char) : ℕ := s.foldl (fun n c => 16 * n + (hexDigit c).getD 0) 0

/-- The strings that `addressToBytes` does not throw on. -/
structure IsAddress (address : List Char) : Prop where
  length : address.length = 42
  start : address.take 2 = ['0', 'x']
  hex : ∀ c ∈ address.drop 2, (hexDigit c).isSome

def addressToBytes (address : List Char) : Except AckError (List UInt8) :=
  if address.length ≠ 42 ∨ address.take 2 ≠ ['0', 'x'] then .error (.addressFormat address)
  else
    let hex := address.drop 2
    if hex.all fun c => (hexDigit c).isSome then
      .ok ((List.range 20).map fun i => UInt8.ofNat (parseHex ((hex.drop (2 * i)).take 2)))
    else .error (.addressNonHex address)

/-- `const packed = new Uint8Array(length)` and the sequence of `packed.set(bytes, offset)` and
`offset += width`. -/
def packFields (length : ℕ) (fields : List (List UInt8 × ℕ)) : Except AckError (List UInt8) :=
  match setFields (List.replicate length 0) 0 fields with
  | some packed => .ok packed
  | none => .error .offsetOutOfBounds

/-- The arguments of `computePublishACKDigest`. -/
structure PublishACKInput where
  chainId : ℤ
  kav10Address : List Char
  contextGraphId : ℤ
  merkleRoot : List UInt8
  (kaCount byteSize epochs tokenAmount merkleLeafCount : ℤ)

/-- The arguments of `computeUpdateACKDigest`. -/
structure UpdateACKInput where
  chainId : ℤ
  kav10Address : List Char
  (contextGraphId kcId preUpdateMerkleRootCount : ℤ)
  newMerkleRoot : List UInt8
  (newByteSize newTokenAmount mintAmount : ℤ)
  burnTokenIds : List ℤ
  newMerkleLeafCount : ℤ

/-- The arguments of `computePublishPublisherDigest`. -/
structure PublishPublisherInput where
  chainId : ℤ
  kav10Address : List Char
  (publisherNodeIdentityId contextGraphId : ℤ)
  merkleRoot : List UInt8

variable (keccak256 : List UInt8 → Bytes32)

/-- The bytes that `computePublishACKDigest` hashes. -/
def PublishACKInput.packed (x : PublishACKInput) : Except AckError (List UInt8) := do
  if x.merkleRoot.length ≠ 32 then .error (.merkleRootLength x.merkleRoot.length)
  let addrBytes ← addressToBytes x.kav10Address
  packFields 276 [
    (uint256ToBytes x.chainId, 32), (addrBytes, 20), (uint256ToBytes x.contextGraphId, 32),
    (x.merkleRoot, 32), (uint256ToBytes x.kaCount, 32), (uint256ToBytes x.byteSize, 32),
    (uint256ToBytes x.epochs, 32), (uint256ToBytes x.tokenAmount, 32),
    (uint256ToBytes x.merkleLeafCount, 32)]

def computePublishACKDigest (x : PublishACKInput) : Except AckError Bytes32 :=
  keccak256 <$> x.packed

/-- The bytes that `computeUpdateACKDigest` hashes. -/
def UpdateACKInput.packed (x : UpdateACKInput) : Except AckError (List UInt8) := do
  if x.newMerkleRoot.length ≠ 32 then .error (.merkleRootLength x.newMerkleRoot.length)
  let addrBytes ← addressToBytes x.kav10Address
  let burnPacked ← packFields (x.burnTokenIds.length * 32)
    (x.burnTokenIds.map fun id => (uint256ToBytes id, 32))
  let burnHash := keccak256 burnPacked
  packFields 340 [
    (uint256ToBytes x.chainId, 32), (addrBytes, 20), (uint256ToBytes x.contextGraphId, 32),
    (uint256ToBytes x.kcId, 32), (uint256ToBytes x.preUpdateMerkleRootCount, 32),
    (x.newMerkleRoot, 32), (uint256ToBytes x.newByteSize, 32),
    (uint256ToBytes x.newTokenAmount, 32), (uint256ToBytes x.mintAmount, 32),
    (burnHash.val, 32), (uint256ToBytes x.newMerkleLeafCount, 32)]

def computeUpdateACKDigest (x : UpdateACKInput) : Except AckError Bytes32 :=
  keccak256 <$> x.packed keccak256

/-- The bytes that `computePublishPublisherDigest` hashes. -/
def PublishPublisherInput.packed (x : PublishPublisherInput) : Except AckError (List UInt8) := do
  if x.merkleRoot.length ≠ 32 then .error (.merkleRootLength x.merkleRoot.length)
  let addrBytes ← addressToBytes x.kav10Address
  let idBytes ← uint72ToBytes x.publisherNodeIdentityId
  packFields 125 [
    (uint256ToBytes x.chainId, 32), (addrBytes, 20), (idBytes, 9),
    (uint256ToBytes x.contextGraphId, 32), (x.merkleRoot, 32)]

def computePublishPublisherDigest (x : PublishPublisherInput) : Except AckError Bytes32 :=
  keccak256 <$> x.packed

/-- A call of one of the three functions. -/
inductive DigestInput
  | publishACK (x : PublishACKInput)
  | updateACK (x : UpdateACKInput)
  | publishPublisher (x : PublishPublisherInput)

/-- The bytes that the call hashes. -/
def DigestInput.packed : DigestInput → Except AckError (List UInt8)
  | publishACK x => x.packed
  | updateACK x => x.packed keccak256
  | publishPublisher x => x.packed

/-! ## The digests of `KnowledgeAssetsV10.sol` -/

/-- `abi.encodePacked` of one value of an unsigned type or an address. -/
def encodePacked {w : ℕ} (x : BitVec w) : List UInt8 := bigEndian (w / 8) x.toNat

/-- The cast `uint256(x)`. -/
def uint256 {w : ℕ} (x : BitVec w) : BitVec 256 := x.setWidth 256

/-- The values of the publish ACK digest of `_executePublishCore`. -/
structure PublishAckFields where
  chainid : BitVec 256
  this : BitVec 160
  contextGraphId : BitVec 256
  merkleRoot : Bytes32
  knowledgeAssetsAmount : BitVec 256
  byteSize : BitVec 88
  epochs : BitVec 40
  tokenAmount : BitVec 96
  merkleLeafCount : BitVec 32

/-- The values of the update ACK digest of `_executeUpdateCore`. -/
structure UpdateAckFields where
  chainid : BitVec 256
  this : BitVec 160
  (contextGraphId id preUpdateMerkleRootCount : BitVec 256)
  newMerkleRoot : Bytes32
  newByteSize : BitVec 88
  newTokenAmount : BitVec 96
  mintKnowledgeAssetsAmount : BitVec 256
  knowledgeAssetsToBurn : List (BitVec 256)
  newMerkleLeafCount : BitVec 32

/-- The values of the publisher digest; both cores have the same. -/
structure PublisherFields where
  chainid : BitVec 256
  this : BitVec 160
  publisherNodeIdentityId : BitVec 72
  contextGraphId : BitVec 256
  merkleRoot : Bytes32

/-- The arguments of the `abi.encodePacked` of the publish ACK digest. -/
def PublishAckFields.parts (f : PublishAckFields) : List (List UInt8) :=
  [encodePacked f.chainid, encodePacked f.this, encodePacked f.contextGraphId, f.merkleRoot.val,
   encodePacked f.knowledgeAssetsAmount, encodePacked (uint256 f.byteSize),
   encodePacked (uint256 f.epochs), encodePacked (uint256 f.tokenAmount),
   encodePacked (uint256 f.merkleLeafCount)]

/-- `abi.encodePacked(p.knowledgeAssetsToBurn)`. -/
def UpdateAckFields.burnPacked (f : UpdateAckFields) : List UInt8 :=
  (f.knowledgeAssetsToBurn.map encodePacked).flatten

/-- The arguments of the `abi.encodePacked` of the update ACK digest. -/
def UpdateAckFields.parts (f : UpdateAckFields) : List (List UInt8) :=
  [encodePacked f.chainid, encodePacked f.this, encodePacked f.contextGraphId, encodePacked f.id,
   encodePacked f.preUpdateMerkleRootCount, f.newMerkleRoot.val,
   encodePacked (uint256 f.newByteSize), encodePacked (uint256 f.newTokenAmount),
   encodePacked f.mintKnowledgeAssetsAmount, (keccak256 f.burnPacked).val,
   encodePacked (uint256 f.newMerkleLeafCount)]

/-- The arguments of the `abi.encodePacked` of the publisher digest. -/
def PublisherFields.parts (f : PublisherFields) : List (List UInt8) :=
  [encodePacked f.chainid, encodePacked f.this, encodePacked f.publisherNodeIdentityId,
   encodePacked f.contextGraphId, f.merkleRoot.val]

inductive DigestFields
  | publishACK (f : PublishAckFields)
  | updateACK (f : UpdateAckFields)
  | publishPublisher (f : PublisherFields)

inductive DigestKind
  | publishACK
  | updateACK
  | publishPublisher
  deriving DecidableEq, Repr

namespace DigestFields

def kind : DigestFields → DigestKind
  | publishACK _ => .publishACK
  | updateACK _ => .updateACK
  | publishPublisher _ => .publishPublisher

def parts : DigestFields → List (List UInt8)
  | publishACK f => f.parts
  | updateACK f => f.parts keccak256
  | publishPublisher f => f.parts

/-- The byte string that the contract hashes. -/
def encoded (f : DigestFields) : List UInt8 := (f.parts keccak256).flatten

end DigestFields

/-! ## The same values on both sides -/

/-- A big integer stands for the value of a contract type. -/
def Same (v : ℤ) {w : ℕ} (x : BitVec w) : Prop := v = x.toNat

/-- A string stands for an address. -/
def SameAddress (address : List Char) (x : BitVec 160) : Prop :=
  IsAddress address ∧ parseHex (address.drop 2) = x.toNat

/-- The arguments of a call stand for the values of a digest of the same kind. A call is in range
when it stands for some values. -/
def DigestInput.StandsFor : DigestInput → DigestFields → Prop
  | publishACK x, .publishACK f =>
    Same x.chainId f.chainid ∧ SameAddress x.kav10Address f.this ∧
    Same x.contextGraphId f.contextGraphId ∧ x.merkleRoot = f.merkleRoot.val ∧
    Same x.kaCount f.knowledgeAssetsAmount ∧ Same x.byteSize f.byteSize ∧
    Same x.epochs f.epochs ∧ Same x.tokenAmount f.tokenAmount ∧
    Same x.merkleLeafCount f.merkleLeafCount
  | updateACK x, .updateACK f =>
    Same x.chainId f.chainid ∧ SameAddress x.kav10Address f.this ∧
    Same x.contextGraphId f.contextGraphId ∧ Same x.kcId f.id ∧
    Same x.preUpdateMerkleRootCount f.preUpdateMerkleRootCount ∧
    x.newMerkleRoot = f.newMerkleRoot.val ∧ Same x.newByteSize f.newByteSize ∧
    Same x.newTokenAmount f.newTokenAmount ∧ Same x.mintAmount f.mintKnowledgeAssetsAmount ∧
    List.Forall₂ (fun v n => Same v n) x.burnTokenIds f.knowledgeAssetsToBurn ∧
    Same x.newMerkleLeafCount f.newMerkleLeafCount
  | publishPublisher x, .publishPublisher f =>
    Same x.chainId f.chainid ∧ SameAddress x.kav10Address f.this ∧
    Same x.publisherNodeIdentityId f.publisherNodeIdentityId ∧
    Same x.contextGraphId f.contextGraphId ∧ x.merkleRoot = f.merkleRoot.val
  | _, _ => False

end Dkg
