import Dkg.Evm
import Dkg.Lib.Machine

/-! # The Hub and its registries

`libraries/UnorderedNamedContractDynamicSet.sol` and `storage/Hub.sol`. A registry is a list of
named contracts with two tables of positions, by name and by address; `0` is both the first
position and the value of an entry that was never written. The Hub keeps two registries, of
contracts and of asset storages, and tells a contract when it is registered (`setStatus`).

The calls are those of an owner of the Hub: the check of the sender is left out, and so are the
events. A contract outside the Hub is what the Hub can see of it, `Deployed`, and its status.
-/

namespace Dkg

open Lib

/-- `UnorderedNamedContractDynamicSet.Contract`; a string is its bytes. -/
structure NamedContract where
  name : List UInt8
  addr : ℕ
  deriving DecidableEq, Repr

/-- `UnorderedNamedContractDynamicSet.Set`. -/
structure NamedContractSet where
  stringIndexPointers : List UInt8 → ℕ
  addressIndexPointers : ℕ → ℕ
  contractList : List NamedContract

namespace NamedContractSet

def empty : NamedContractSet := ⟨fun _ => 0, fun _ => 0, []⟩

variable (keccak256 : List UInt8 → List UInt8) (self : NamedContractSet)

def size : ℕ := self.contractList.length

/-- `contractList[i]`; an index past the end panics. -/
def entry (i : ℕ) : Tx NamedContract :=
  match self.contractList[i]? with
  | some c => pure c
  | none => .error .panic

/-- `exists` of a name. -/
def existsName (name : List UInt8) : Tx Bool :=
  if self.size = 0 then pure false
  else do
    let c ← self.entry (self.stringIndexPointers name)
    pure (keccak256 c.name = keccak256 name)

/-- `exists` of an address. -/
def existsAddress (addr : ℕ) : Tx Bool :=
  if self.size = 0 then pure false
  else do
    let c ← self.entry (self.addressIndexPointers addr)
    pure (addr = c.addr)

def addressInSet (addr : ℕ) : Prop :=
  ∃ first, self.contractList[0]? = some first ∧
    (self.addressIndexPointers addr ≠ 0 ∨ first.addr = addr)

instance (addr : ℕ) : Decidable (self.addressInSet addr) :=
  match h : self.contractList[0]? with
  | none => isFalse (by simp [addressInSet, h])
  | some first =>
    decidable_of_iff (self.addressIndexPointers addr ≠ 0 ∨ first.addr = addr)
      (by simp [addressInSet, h])

def append (name : List UInt8) (addr : ℕ) : Tx NamedContractSet := do
  require (keccak256 name ≠ keccak256 []) .emptyName
  require (addr ≠ 0) .zeroAddress
  let known ← self.existsName keccak256 name
  require (known = false) .contractAlreadyExists
  require (¬ self.addressInSet addr) .addressAlreadyInSet
  pure {
    stringIndexPointers := Function.update self.stringIndexPointers name self.size
    addressIndexPointers := Function.update self.addressIndexPointers addr self.size
    contractList := self.contractList ++ [⟨name, addr⟩] }

def update (name : List UInt8) (addr : ℕ) : Tx NamedContractSet := do
  require (addr ≠ 0) .zeroAddress
  let known ← self.existsName keccak256 name
  require (known = true) .contractDoesNotExist
  let current ← self.entry (self.stringIndexPointers name)
  if current.addr = addr then pure self
  else do
    require (¬ self.addressInSet addr) .addressAlreadyInSet
    let cleared := Function.update self.addressIndexPointers current.addr 0
    pure { self with
      addressIndexPointers := Function.update cleared addr (self.stringIndexPointers name)
      contractList := self.contractList.set (self.stringIndexPointers name)
        { current with addr := addr } }

/-- `remove` by name. -/
def removeName (name : List UInt8) : Tx NamedContractSet := do
  let known ← self.existsName keccak256 name
  require (known = true) .contractDoesNotExist
  let contractToRemoveIndex := self.stringIndexPointers name
  let removed ← self.entry contractToRemoveIndex
  let addresses := Function.update self.addressIndexPointers removed.addr 0
  let last ← subUint self.size 1
  let contractToMove ← self.entry last
  let names :=
    Function.update self.stringIndexPointers contractToMove.name contractToRemoveIndex
  pure {
    stringIndexPointers := Function.update names name 0
    addressIndexPointers := Function.update addresses contractToMove.addr contractToRemoveIndex
    contractList := (self.contractList.set contractToRemoveIndex contractToMove).dropLast }

/-- `remove` by address. -/
def removeAddress (addr : ℕ) : Tx NamedContractSet := do
  let known ← self.existsAddress addr
  require (known = true) .addressDoesNotExist
  let contractToRemoveIndex := self.addressIndexPointers addr
  let removed ← self.entry contractToRemoveIndex
  let names := Function.update self.stringIndexPointers removed.name 0
  let last ← subUint self.size 1
  let contractToMove ← self.entry last
  let addresses :=
    Function.update self.addressIndexPointers contractToMove.addr contractToRemoveIndex
  pure {
    stringIndexPointers := Function.update names contractToMove.name contractToRemoveIndex
    addressIndexPointers := Function.update addresses addr 0
    contractList := (self.contractList.set contractToRemoveIndex contractToMove).dropLast }

/-- `get` of a name. -/
def getName (name : List UInt8) : Tx NamedContract := do
  let known ← self.existsName keccak256 name
  require (known = true) .contractDoesNotExist
  self.entry (self.stringIndexPointers name)

/-- `get` of an address. -/
def getAddress (addr : ℕ) : Tx NamedContract := do
  let known ← self.existsAddress addr
  require (known = true) .addressDoesNotExist
  self.entry (self.addressIndexPointers addr)

end NamedContractSet

inductive NamedSetOp
  | append (name : List UInt8) (addr : ℕ)
  | update (name : List UInt8) (addr : ℕ)
  | removeName (name : List UInt8)
  | removeAddress (addr : ℕ)
  deriving DecidableEq

def NamedSetOp.run (keccak256 : List UInt8 → List UInt8) (self : NamedContractSet) :
    NamedSetOp → Tx NamedContractSet
  | append name addr => self.append keccak256 name addr
  | update name addr => self.update keccak256 name addr
  | removeName name => self.removeName keccak256 name
  | removeAddress addr => self.removeAddress addr

def namedSetMachine (keccak256 : List UInt8 → List UInt8) :
    Machine NamedContractSet NamedSetOp where
  init s := s = NamedContractSet.empty
  step s op s' := op.run keccak256 s = .ok s'

/-! ## The Hub -/

/-- What the Hub finds at the addresses it calls: whether there is code, whether the code takes
`setStatus` from the Hub, and whether its `initialize` returns. -/
structure Deployed where
  (hasCode takesStatus initializes : ℕ → Bool)

/-- The registries of the Hub, and the status of the contracts. -/
structure HubWorld where
  (contractSet assetStorageSet : NamedContractSet)
  status : ℕ → Bool

/-- Calldata that the Hub forwards: `setStatus`, or a function that does not touch the status,
with whether it returns. -/
inductive ForwardedCall
  | setStatus (status : Bool)
  | other (success : Bool)
  deriving DecidableEq, Repr

/-- `HubLib.ForwardCallInputArgs`. -/
structure ForwardCallInputArgs where
  contractName : List UInt8
  encodedData : List ForwardedCall
  deriving DecidableEq, Repr

namespace HubWorld

def empty : HubWorld := ⟨NamedContractSet.empty, NamedContractSet.empty, fun _ => false⟩

variable (keccak256 : List UInt8 → List UInt8) (env : Deployed) (w : HubWorld)

/-- `try IContractStatus(addr).setStatus(status)` behind `_isContract(addr)`. -/
def trySetStatus (addr : ℕ) (status : Bool) : HubWorld :=
  if env.hasCode addr = true ∧ env.takesStatus addr = true then
    { w with status := Function.update w.status addr status }
  else w

def _setContractAddress (contractName : List UInt8) (newContractAddress : ℕ) : Tx HubWorld := do
  let known ← w.contractSet.existsName keccak256 contractName
  let w ← (if known = true then do
      let contractSet ← w.contractSet.update keccak256 contractName newContractAddress
      let w := { w with contractSet := contractSet }
      let old ← w.contractSet.getName keccak256 contractName
      pure (w.trySetStatus env old.addr false)
    else do
      let contractSet ← w.contractSet.append keccak256 contractName newContractAddress
      pure { w with contractSet := contractSet })
  pure (w.trySetStatus env newContractAddress true)

def _setAssetStorageAddress (assetStorageName : List UInt8) (assetStorageAddress : ℕ) :
    Tx HubWorld := do
  let known ← w.assetStorageSet.existsName keccak256 assetStorageName
  let assetStorageSet ←
    (if known = true then w.assetStorageSet.update keccak256 assetStorageName assetStorageAddress
    else w.assetStorageSet.append keccak256 assetStorageName assetStorageAddress)
  pure { w with assetStorageSet := assetStorageSet }

def removeContractByName (contractName : List UInt8) : Tx HubWorld := do
  let known ← w.contractSet.existsName keccak256 contractName
  if known = true then do
    let _ ← w.contractSet.getName keccak256 contractName
    let contractSet ← w.contractSet.removeName keccak256 contractName
    pure { w with contractSet := contractSet }
  else pure w

def removeContractByAddress (contractAddress : ℕ) : Tx HubWorld := do
  let known ← w.contractSet.existsAddress contractAddress
  if known = true then do
    let _ ← w.contractSet.getAddress contractAddress
    let contractSet ← w.contractSet.removeAddress contractAddress
    pure { w with contractSet := contractSet }
  else pure w

def removeAssetStorageByName (assetStorageName : List UInt8) : Tx HubWorld := do
  let known ← w.assetStorageSet.existsName keccak256 assetStorageName
  if known = true then do
    let _ ← w.assetStorageSet.getName keccak256 assetStorageName
    let assetStorageSet ← w.assetStorageSet.removeName keccak256 assetStorageName
    pure { w with assetStorageSet := assetStorageSet }
  else pure w

def removeAssetStorageByAddress (assetStorageAddress : ℕ) : Tx HubWorld := do
  let known ← w.assetStorageSet.existsAddress assetStorageAddress
  if known = true then do
    let _ ← w.assetStorageSet.getAddress assetStorageAddress
    let assetStorageSet ← w.assetStorageSet.removeAddress assetStorageAddress
    pure { w with assetStorageSet := assetStorageSet }
  else pure w

def isContract (addr : ℕ) : Tx Bool := w.contractSet.existsAddress addr

/-- `forwardCall`. A call to an address without code returns and does nothing. -/
def forwardCall (target : ℕ) (data : ForwardedCall) : Tx HubWorld := do
  let registered ← w.contractSet.existsAddress target
  let registered ←
    (if registered = true then pure true else w.assetStorageSet.existsAddress target)
  require (registered = true) .invalidTargetContract
  if env.hasCode target = true then
    match data with
    | .setStatus status =>
      if env.takesStatus target = true then
        pure { w with status := Function.update w.status target status }
      else .error .targetCallReverted
    | .other success => if success = true then pure w else .error .targetCallReverted
  else pure w

def _setContracts : HubWorld → List NamedContract → Tx HubWorld
  | w, [] => pure w
  | w, c :: rest => do
      let w ← w._setContractAddress keccak256 env c.name c.addr
      _setContracts w rest

def _setAssetStorageContracts : HubWorld → List NamedContract → Tx HubWorld
  | w, [] => pure w
  | w, c :: rest => do
      let w ← w._setAssetStorageAddress keccak256 c.name c.addr
      _setAssetStorageContracts w rest

/-- `_reinitializeContracts`: the functions `initialize` read the Hub and write their own
contract. -/
def _reinitializeContracts : List ℕ → Tx Unit
  | [] => pure ()
  | addr :: rest => do
      require (env.initializes addr = true) .targetCallReverted
      _reinitializeContracts rest

/-- The inner loop of `_forwardCalls`. -/
def forwardAll (target : ℕ) : HubWorld → List ForwardedCall → Tx HubWorld
  | w, [] => pure w
  | w, data :: rest => do
      let w ← w.forwardCall env target data
      forwardAll target w rest

/-- The address that `_forwardCalls` finds for a name, among the contracts and then among the asset
storages. -/
def forwardTarget (name : List UInt8) : Tx ℕ :=
  match w.contractSet.getName keccak256 name with
  | .ok c => pure c.addr
  | .error _ =>
    match w.assetStorageSet.getName keccak256 name with
    | .ok c => pure c.addr
    | .error _ => .error .contractNotRegistered

def _forwardCalls : HubWorld → List ForwardCallInputArgs → Tx HubWorld
  | w, [] => pure w
  | w, args :: rest => do
      let target ← w.forwardTarget keccak256 args.contractName
      let w ← forwardAll env target w args.encodedData
      _forwardCalls w rest

def setAndReinitializeContracts (newContracts newAssetStorageContracts : List NamedContract)
    (reinitializedContracts : List ℕ) (forwardCallsData : List ForwardCallInputArgs) :
    Tx HubWorld := do
  let w ← _setContracts keccak256 env w newContracts
  let w ← _setAssetStorageContracts keccak256 w newAssetStorageContracts
  _reinitializeContracts env reinitializedContracts
  _forwardCalls keccak256 env w forwardCallsData

end HubWorld

inductive HubOp
  | setContractAddress (env : Deployed) (contractName : List UInt8) (newContractAddress : ℕ)
  | setAssetStorageAddress (assetStorageName : List UInt8) (assetStorageAddress : ℕ)
  | removeContractByName (contractName : List UInt8)
  | removeContractByAddress (contractAddress : ℕ)
  | removeAssetStorageByName (assetStorageName : List UInt8)
  | removeAssetStorageByAddress (assetStorageAddress : ℕ)
  | forwardCall (env : Deployed) (target : ℕ) (data : ForwardedCall)
  | setAndReinitializeContracts (env : Deployed)
      (newContracts newAssetStorageContracts : List NamedContract)
      (reinitializedContracts : List ℕ) (forwardCallsData : List ForwardCallInputArgs)

namespace HubOp

def run (keccak256 : List UInt8 → List UInt8) (w : HubWorld) : HubOp → Tx HubWorld
  | setContractAddress env name addr => w._setContractAddress keccak256 env name addr
  | setAssetStorageAddress name addr => w._setAssetStorageAddress keccak256 name addr
  | removeContractByName name => w.removeContractByName keccak256 name
  | removeContractByAddress addr => w.removeContractByAddress addr
  | removeAssetStorageByName name => w.removeAssetStorageByName keccak256 name
  | removeAssetStorageByAddress addr => w.removeAssetStorageByAddress addr
  | forwardCall env target data => w.forwardCall env target data
  | setAndReinitializeContracts env contracts assets reinitialize calls =>
    w.setAndReinitializeContracts keccak256 env contracts assets reinitialize calls

def registers : HubOp → List NamedContract
  | setContractAddress _ name addr => [⟨name, addr⟩]
  | setAndReinitializeContracts _ contracts _ _ _ => contracts
  | _ => []

end HubOp

/-- The Hub, and the addresses that were ever registered as contracts. -/
structure HubHistory where
  world : HubWorld
  everRegistered : List ℕ

/-- A call, and what it registers. -/
def HubHistory.exec (keccak256 : List UInt8 → List UInt8) (h : HubHistory) (op : HubOp) :
    Tx HubHistory := do
  let world ← op.run keccak256 h.world
  pure ⟨world, h.everRegistered ++ op.registers.map NamedContract.addr⟩

def hubMachine (keccak256 : List UInt8 → List UInt8) : Machine HubHistory HubOp where
  init h := h = ⟨HubWorld.empty, []⟩
  step h op h' := h.exec keccak256 op = .ok h'

end Dkg
