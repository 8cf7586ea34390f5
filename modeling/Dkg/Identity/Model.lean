import Dkg.Evm
import Dkg.Lib.Machine

/-! # Identities and their keys

`storage/IdentityStorage.sol` with its two writers, `Identity.sol` and `Profile.sol`. An identity
has keys, each with one purpose, and the list of its keys for every purpose; `identityIds` finds
the identity of an operational key. A key is the hash of a wallet address, so `keccak256` is a
parameter of everything here.

Of `ProfileStorage` the names and node ids are modelled, which `createProfile` checks.
-/

namespace Dkg

open Function (update)
open Lib

/-- `IERC734Extended.Key`. -/
structure Key where
  (purpose keyType key : ℕ)
  deriving DecidableEq, Repr

def Key.zero : Key := ⟨0, 0, 0⟩

/-- `IdentityStorage`; the two mappings of an `Identity` are keyed by the identity id first. -/
structure IdentityStorage where
  lastIdentityId : ℕ
  identityIds : ℕ → ℕ
  keys : ℕ → ℕ → Key
  keysByPurpose : ℕ → ℕ → List ℕ

namespace IdentityLib

def ADMIN_KEY : ℕ := 1

def OPERATIONAL_KEY : ℕ := 2

def ECDSA : ℕ := 1

end IdentityLib

open IdentityLib

namespace IdentityStorage

/-- The storage of a fresh contract. -/
def empty : IdentityStorage where
  lastIdentityId := 0
  identityIds := fun _ => 0
  keys := fun _ _ => Key.zero
  keysByPurpose := fun _ _ => []

variable (ids : IdentityStorage)

/-- `deleteIdentity`. An `Identity` has two mappings and nothing else, and `delete` does not reach
into a mapping: `delete identities[identityId]` leaves the keys where they are. -/
def deleteIdentity (identityId : ℕ) : IdentityStorage :=
  { ids with
    identityIds := (ids.keysByPurpose identityId OPERATIONAL_KEY).foldl
      (fun identityIds key => update identityIds key 0) ids.identityIds }

def addKey (identityId key purpose type : ℕ) : IdentityStorage :=
  { ids with
    keys := store₂ ids.keys identityId key ⟨purpose, type, key⟩
    keysByPurpose := store₂ ids.keysByPurpose identityId purpose
      (ids.keysByPurpose identityId purpose ++ [key]) }

/-- `ByteArr.indexOf`. -/
def indexOf (item : ℕ) (self : List ℕ) : ℕ :=
  if item ∈ self then self.idxOf item else 0

/-- `ByteArr.removeByIndex`: the last entry takes the slot. -/
def removeByIndex (self : List ℕ) (index : ℕ) : Tx (List ℕ) := do
  require (index < self.length) .indexOutOfBounds
  pure (self.set index (self.getD (self.length - 1) 0)).dropLast

def removeKey (identityId key : ℕ) : Tx IdentityStorage := do
  let purpose := (ids.keys identityId key).purpose
  let keysOfPurpose := ids.keysByPurpose identityId purpose
  let rest ← removeByIndex keysOfPurpose (indexOf key keysOfPurpose)
  pure { ids with
    keysByPurpose := store₂ ids.keysByPurpose identityId purpose rest
    keys := store₂ ids.keys identityId key Key.zero }

def keyHasPurpose (identityId key purpose : ℕ) : Prop :=
  (ids.keys identityId key).purpose = purpose
  deriving Decidable

def setOperationalKeyIdentityId (operationalKey identityId : ℕ) : IdentityStorage :=
  { ids with identityIds := update ids.identityIds operationalKey identityId }

def removeOperationalKeyIdentityId (operationalKey : ℕ) : IdentityStorage :=
  { ids with identityIds := update ids.identityIds operationalKey 0 }

/-- `generateIdentityId`; the increment is unchecked. -/
def generateIdentityId : ℕ × IdentityStorage :=
  ((ids.lastIdentityId + 1) % 2 ^ 72,
    { ids with lastIdentityId := (ids.lastIdentityId + 1) % 2 ^ 72 })

end IdentityStorage

variable (keccak256 : ℕ → ℕ)

namespace Identity

open IdentityStorage

variable (ids : IdentityStorage)

def createIdentity (operational admin : ℕ) : Tx (ℕ × IdentityStorage) := do
  require (operational ≠ 0) .operationalAddressZero
  require (admin ≠ 0) .adminAddressZero
  require (admin ≠ operational) .adminEqualsOperational
  let generated := ids.generateIdentityId
  let identityId := generated.1
  let ids := generated.2.addKey identityId (keccak256 admin) ADMIN_KEY ECDSA
  let ids := ids.addKey identityId (keccak256 operational) OPERATIONAL_KEY ECDSA
  pure (identityId, ids.setOperationalKeyIdentityId (keccak256 operational) identityId)

/-- `_checkAdmin`. -/
def checkAdmin (sender identityId : ℕ) : Tx Unit :=
  require (ids.keyHasPurpose identityId (keccak256 sender) ADMIN_KEY) .adminFunctionOnly

def addKey (sender identityId key keyPurpose keyType : ℕ) : Tx IdentityStorage := do
  checkAdmin keccak256 ids sender identityId
  require (key ≠ 0) .keyIsEmpty
  let ids ← (if keyPurpose = OPERATIONAL_KEY then do
      require (ids.identityIds key = 0) .operationalKeyTaken
      pure (ids.setOperationalKeyIdentityId key identityId)
    else pure ids)
  require ((ids.keys identityId key).key ≠ key) .keyAlreadyAttached
  pure (ids.addKey identityId key keyPurpose keyType)

def removeKey (sender identityId key : ℕ) : Tx IdentityStorage := do
  checkAdmin keccak256 ids sender identityId
  require (key ≠ 0) .keyIsEmpty
  let purpose := (ids.keys identityId key).purpose
  require ((ids.keys identityId key).key = key) .keyNotAttached
  require (¬ ((ids.keysByPurpose identityId ADMIN_KEY).length = 1 ∧
    ids.keyHasPurpose identityId key ADMIN_KEY)) .cannotDeleteOnlyAdminKey
  require (¬ ((ids.keysByPurpose identityId OPERATIONAL_KEY).length = 1 ∧
    ids.keyHasPurpose identityId key OPERATIONAL_KEY)) .cannotDeleteOnlyOperationalKey
  let ids ← ids.removeKey identityId key
  pure (if purpose = OPERATIONAL_KEY then ids.removeOperationalKeyIdentityId key else ids)

/-- One round of the loop of `addOperationalWallets`. -/
def addOperationalWallet (identityId wallet : ℕ) : Tx IdentityStorage := do
  require (wallet ≠ 0) .operationalAddressZero
  let operationalKey := keccak256 wallet
  require (operationalKey ≠ 0) .keyIsEmpty
  require (ids.identityIds operationalKey = 0) .operationalKeyTaken
  let ids := ids.setOperationalKeyIdentityId operationalKey identityId
  require ((ids.keys identityId operationalKey).key ≠ operationalKey) .keyAlreadyAttached
  pure (ids.addKey identityId operationalKey OPERATIONAL_KEY ECDSA)

def addOperationalWallets (identityId : ℕ) :
    IdentityStorage → List ℕ → Tx IdentityStorage
  | ids, [] => pure ids
  | ids, wallet :: wallets => do
      let ids ← addOperationalWallet keccak256 ids identityId wallet
      addOperationalWallets identityId ids wallets

end Identity

/-- The names and node ids of `ProfileStorage`. -/
structure NodeProfiles where
  (name nodeId : ℕ → List UInt8)
  (isNameTaken nodeIdsList : List UInt8 → Bool)

/-- `ProfileStorage.createProfile`; it does not write `isNameTaken`. -/
def NodeProfiles.createProfile (p : NodeProfiles) (identityId : ℕ) (nodeName nodeId : List UInt8) :
    NodeProfiles :=
  { p with
    name := update p.name identityId nodeName
    nodeId := update p.nodeId identityId nodeId
    nodeIdsList := update p.nodeIdsList nodeId true }

structure IdentityWorld where
  ids : IdentityStorage
  profiles : NodeProfiles

/-- What `Profile` reads from the parameters and the whitelist. -/
structure ProfileParameters where
  (opWalletsLimitOnProfileCreation maxOperatorFee : ℕ)
  whitelisted : ℕ → Bool

/-- Parameters under which any wallet may create a profile. -/
def openProfiles : ProfileParameters := ⟨10, 10000, fun _ => true⟩

namespace Profile

variable (params : ProfileParameters) (w : IdentityWorld)

def createProfile (sender adminWallet : ℕ) (operationalWallets : List ℕ)
    (nodeName nodeId : List UInt8) (initialOperatorFee : ℕ) : Tx IdentityWorld := do
  require (params.whitelisted sender = true) .onlyWhitelistedAddresses
  require (w.ids.identityIds (keccak256 sender) = 0) .identityAlreadyExists
  require (operationalWallets.length ≤ params.opWalletsLimitOnProfileCreation)
    .tooManyOperationalWallets
  require (nodeName ≠ []) .emptyNodeName
  require (w.profiles.isNameTaken nodeName = false) .nodeNameAlreadyExists
  require (nodeId ≠ []) .emptyNodeId
  require (w.profiles.nodeIdsList nodeId = false) .nodeIdAlreadyExists
  require (initialOperatorFee ≤ params.maxOperatorFee) .operatorFeeOutOfRange
  let created ← Identity.createIdentity keccak256 w.ids sender adminWallet
  let identityId := created.1
  let ids ← Identity.addOperationalWallets keccak256 identityId created.2 operationalWallets
  pure ⟨ids, w.profiles.createProfile identityId nodeName nodeId⟩

/-- The loop of `addOperationalWallets`: the wallets the identity does not have yet, each once. -/
def walletsToAdd (identityId : ℕ) : List ℕ → List ℕ → Tx (List ℕ)
  | [], toAdd => pure toAdd
  | wallet :: wallets, toAdd => do
      require (wallet ≠ 0) .operationalAddressZero
      let operationalKey := keccak256 wallet
      require (¬ w.ids.keyHasPurpose identityId operationalKey ADMIN_KEY) .adminEqualsOperational
      let existingIdentityId := w.ids.identityIds operationalKey
      if existingIdentityId = identityId then walletsToAdd identityId wallets toAdd
      else do
        require (existingIdentityId = 0) .operationalKeyTaken
        walletsToAdd identityId wallets (if wallet ∈ toAdd then toAdd else toAdd ++ [wallet])

def addOperationalWallets (sender identityId : ℕ) (operationalWallets : List ℕ) :
    Tx IdentityWorld := do
  require (w.ids.keyHasPurpose identityId (keccak256 sender) ADMIN_KEY) .onlyProfileAdminFunction
  require (w.profiles.nodeId identityId ≠ []) .profileDoesntExist
  let toAdd ← walletsToAdd keccak256 w identityId operationalWallets []
  if toAdd = [] then pure w
  else do
    let total := (w.ids.keysByPurpose identityId OPERATIONAL_KEY).length + toAdd.length
    let additional := if total = 0 then 0 else total - 1
    require (additional ≤ params.opWalletsLimitOnProfileCreation) .tooManyOperationalWallets
    let ids ← Identity.addOperationalWallets keccak256 identityId w.ids toAdd
    pure { w with ids := ids }

end Profile

/-! ## Runs -/

/-- A transaction. `deleteIdentity` comes from a contract of the Hub. -/
inductive IdentityOp
  | createProfile (params : ProfileParameters) (sender adminWallet : ℕ)
      (operationalWallets : List ℕ) (nodeName nodeId : List UInt8) (initialOperatorFee : ℕ)
  | addOperationalWallets (params : ProfileParameters) (sender identityId : ℕ)
      (operationalWallets : List ℕ)
  | addKey (sender identityId key keyPurpose keyType : ℕ)
  | removeKey (sender identityId key : ℕ)
  | deleteIdentity (identityId : ℕ)

def IdentityOp.run (w : IdentityWorld) : IdentityOp → Tx IdentityWorld
  | createProfile params sender adminWallet operationalWallets nodeName nodeId fee =>
    Profile.createProfile keccak256 params w sender adminWallet operationalWallets nodeName
      nodeId fee
  | addOperationalWallets params sender identityId operationalWallets =>
    Profile.addOperationalWallets keccak256 params w sender identityId operationalWallets
  | addKey sender identityId key keyPurpose keyType => do
      let ids ← Identity.addKey keccak256 w.ids sender identityId key keyPurpose keyType
      pure { w with ids := ids }
  | removeKey sender identityId key => do
      let ids ← Identity.removeKey keccak256 w.ids sender identityId key
      pure { w with ids := ids }
  | deleteIdentity identityId => pure { w with ids := w.ids.deleteIdentity identityId }

/-- The fresh contracts. -/
def IdentityWorld.empty : IdentityWorld where
  ids := IdentityStorage.empty
  profiles := ⟨fun _ => [], fun _ => [], fun _ => false, fun _ => false⟩

/-- The contracts and their runs. -/
def identityMachine : Machine IdentityWorld IdentityOp where
  init w := w = IdentityWorld.empty
  step w op w' := op.run keccak256 w = .ok w'

end Dkg
