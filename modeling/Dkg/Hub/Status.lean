import Dkg.Hub.Registry

/-! # The status of the registered contracts

`_setContractAddress` activates the contract it registers. For a name that is known it first
updates the registry and only then reads the address to deactivate, so it finds the new address
again: the new contract is deactivated and activated, and the replaced one stays active.
`setContractAddress_cases` says what the registry and the statuses are after the call, in each of
its three cases. The statuses follow the registry as long as no address is replaced.
-/

namespace Dkg

open Function (Injective injective_id update update_idem update_of_ne update_self)

open Lib NamedContractSet HubWorld List

variable {keccak256 : List UInt8 → List UInt8} {env : Deployed} {w w' : HubWorld}
  {name : List UInt8} {addr : ℕ}

/-! ## One registration -/

/-- There is code at the address, and it takes `setStatus`. -/
def Deployed.Implements (env : Deployed) (addr : ℕ) : Prop :=
  env.hasCode addr = true ∧ env.takesStatus addr = true
  deriving Decidable

variable {s s' : NamedContractSet} {c : NamedContract} {a : ℕ} {contracts : List NamedContract}

lemma NamedContractSet.getName_ok (h : s.getName keccak256 name = .ok c) :
    s.contractList[s.stringIndexPointers name]? = some c := by
  obtain ⟨_, -, _, -, h⟩ := of_bind₂ h
  exact entry_ok h

/-- What a registration does to the registry: nothing, another address for the name, or a new
entry. -/
inductive Registration (name : List UInt8) (addr : ℕ) (s : NamedContractSet) :
    NamedContractSet → Prop
  | kept (h : ⟨name, addr⟩ ∈ s.contractList) : Registration name addr s s
  | replaced {i : ℕ} {c : NamedContract} (hc : s.contractList[i]? = some c) (hname : c.name = name)
      (hother : c.addr ≠ addr) (hfree : addr ∉ s.addresses) :
      Registration name addr s (s.readdressed i c addr)
  | added (hname : name ∉ s.names) (hfree : addr ∉ s.addresses) :
      Registration name addr s (s.appended name addr)

/-- After a call that returns the contract is registered and active, and no other status is
changed. -/
lemma setContractAddress_cases (h : w.Registered) (hkeccak : Injective keccak256)
    (hstatus : env.Implements addr)
    (hrun : w._setContractAddress keccak256 env name addr = .ok w') :
    Registration name addr w.contractSet w'.contractSet ∧
    w'.status = update w.status addr true := by
  have htry : ∀ (v : HubWorld) b, (v.trySetStatus env addr b).status =
      update v.status addr b := by
    intro v b
    simp [trySetStatus, hstatus.1, hstatus.2]
  obtain ⟨set, hset, -, ⟨-, hupdate, old, hold, rfl⟩ | ⟨happend, rfl⟩⟩ :=
    _setContractAddress_ok hrun
  · rw [hset]
    obtain ⟨c, hc, hname, hcase⟩ := h.contracts.update_ok hkeccak hupdate
    have hslot := getName_ok hold
    -- either way the entry that is read back has the new address
    have hread : old.addr = addr ∧ Registration name addr w.contractSet set := by
      obtain ⟨hsame, rfl⟩ | ⟨hother, hfree, rfl⟩ := hcase
      · have hold' : old = c := Option.some.inj (hslot.symm.trans hc)
        refine ⟨by rw [hold', hsame], .kept ?_⟩
        rw [← hsame, ← hname]
        exact mem_of_getElem? hc
      · have hlt := (List.getElem?_eq_some_iff.mp hc).1
        have hnew : (w.contractSet.readdressed (w.contractSet.stringIndexPointers name) c
            addr).contractList[w.contractSet.stringIndexPointers name]? =
            some { c with addr := addr } := getElem?_set_self hlt
        have hold' := Option.some.inj (hslot.symm.trans hnew)
        exact ⟨by rw [hold'], .replaced hc hname hother hfree⟩
    refine ⟨hread.2, ?_⟩
    rw [htry, hread.1, htry, update_idem]
  · rw [hset]
    obtain ⟨-, -, hname, hfree, rfl⟩ := (h.contracts.append_ok_iff hkeccak).mp happend
    exact ⟨.added hname hfree, htry _ _⟩

lemma mem_addresses_appended :
    a ∈ (s.appended name addr).addresses ↔ a ∈ s.addresses ∨ a = addr := by
  simp [addresses, appended, or_comm]

lemma mem_addresses_readdressed {i : ℕ} (h : s.Pointed) (hc : s.contractList[i]? = some c)
    (hfree : addr ∉ s.addresses) :
    a ∈ (s.readdressed i c addr).addresses ↔ a = addr ∨ a ∈ s.addresses ∧ a ≠ c.addr := by
  have haddresses : (s.readdressed i c addr).addresses = s.addresses.set i addr := by
    simp [addresses, readdressed, map_set]
  rw [haddresses]
  exact (h.byAddress.replace (getElem?_addresses hc) hfree).2 a

/-- The new address is registered, and nothing else is new. -/
lemma Registration.addresses (hs : s.Pointed) (h : Registration name addr s s') :
    addr ∈ s'.addresses ∧ ∀ a ∈ s'.addresses, a ∈ s.addresses ∨ a = addr := by
  cases h with
  | kept hmem => exact ⟨mem_map_of_mem hmem, fun a ha => .inl ha⟩
  | replaced hc hname hother hfree =>
    refine ⟨(mem_addresses_readdressed hs hc hfree).mpr (.inl rfl), fun a ha => ?_⟩
    rcases (mem_addresses_readdressed hs hc hfree).mp ha with rfl | ⟨hmem, -⟩
    · exact .inr rfl
    · exact .inl hmem
  | added hname hfree =>
    exact ⟨mem_addresses_appended.mpr (.inr rfl), fun a ha => mem_addresses_appended.mp ha⟩

/-- The name is not registered with another address. -/
def NamedContractSet.Agrees (s : NamedContractSet) (c : NamedContract) : Prop :=
  ∀ d ∈ s.contractList, d.name = c.name → d.addr = c.addr

lemma NamedContractSet.Pointed.eq_of_name {d : NamedContract} (h : s.Pointed)
    (hc : c ∈ s.contractList) (hd : d ∈ s.contractList) (hname : c.name = d.name) : c = d := by
  obtain ⟨i, hi⟩ := getElem?_of_mem hc
  obtain ⟨j, hj⟩ := getElem?_of_mem hd
  have hij : i = j := by
    rw [← h.byName i _ (getElem?_names hi), hname, h.byName j _ (getElem?_names hj)]
  rw [hij] at hi
  exact Option.some.inj (hi.symm.trans hj)

/-- Without a replacement the list only grows, by the new entry. -/
lemma Registration.grows (h : Registration name addr s s') (hagrees : s.Agrees ⟨name, addr⟩) :
    ∀ d, d ∈ s'.contractList ↔ d ∈ s.contractList ∨ d = ⟨name, addr⟩ := by
  intro d
  cases h with
  | kept hmem =>
    constructor
    · exact .inl
    · rintro (hd | rfl)
      · exact hd
      · exact hmem
  | replaced hc hname hother hfree =>
    exact absurd (hagrees _ (mem_of_getElem? hc) hname) hother
  | added hname hfree => simp [appended]

/-! ## A list of registrations -/

/-- Whoever registers several contracts does not give a name two addresses. -/
def HubWorld.Keeps (w : HubWorld) (contracts : List NamedContract) : Prop :=
  ∀ c ∈ contracts, ∀ d ∈ w.contractSet.contractList ++ contracts, d.name = c.name → d.addr = c.addr
  deriving Decidable

/-- The registered contracts are active. -/
structure Active (w : HubWorld) : Prop where
  registered : w.Registered
  active : ∀ a ∈ w.contractSet.addresses, w.status a = true

lemma Active.setContracts (h : Active w) (hkeccak : Injective keccak256)
    (hstatus : ∀ c ∈ contracts, env.Implements c.addr) (hkeeps : w.Keeps contracts)
    (hrun : _setContracts keccak256 env w contracts = .ok w') :
    Active w' ∧ ∀ d, d ∈ w.contractSet.contractList ∨ d ∈ contracts →
      d ∈ w'.contractSet.contractList := by
  induction contracts generalizing w with
  | nil =>
    obtain rfl := of_pure hrun
    exact ⟨h, fun d hd => hd.resolve_right (not_mem_nil)⟩
  | cons c rest ih =>
    obtain ⟨w₁, hset, hrun⟩ := of_bind hrun
    have hc := mem_cons_self (a := c) (l := rest)
    obtain ⟨hreg, hst⟩ := setContractAddress_cases h.registered hkeccak (hstatus c hc) hset
    have hagrees : w.contractSet.Agrees ⟨c.name, c.addr⟩ :=
      fun d hd => hkeeps c hc d (mem_append_left _ hd)
    have hgrows := hreg.grows hagrees
    have hactive : Active w₁ := by
      refine ⟨h.registered.setContractAddress hkeccak hset, fun a ha => ?_⟩
      rw [hst]
      by_cases hac : a = c.addr
      · rw [hac, update_self]
      · rw [update_of_ne hac]
        exact h.active a (((hreg.addresses h.registered.contracts).2 a ha).resolve_right hac)
    have hkeeps₁ : w₁.Keeps rest := by
      intro e he d hd
      apply hkeeps e (mem_cons_of_mem _ he) d
      rcases mem_append.mp hd with hd | hd
      · rcases (hgrows d).mp hd with hd | rfl
        · exact mem_append_left _ hd
        · exact mem_append_right _ hc
      · exact mem_append_right _ (mem_cons_of_mem _ hd)
    obtain ⟨hactive', hmem⟩ :=
      ih hactive (fun e he => hstatus e (mem_cons_of_mem _ he)) hkeeps₁ hrun
    refine ⟨hactive', fun d hd => hmem d ?_⟩
    rcases hd with hd | hd
    · exact .inl ((hgrows d).mpr (.inl hd))
    · rcases mem_cons.mp hd with rfl | hd
      · exact .inl ((hgrows d).mpr (.inr rfl))
      · exact .inr hd

lemma setContracts_addresses (h : w.Registered) (hkeccak : Injective keccak256)
    (hstatus : ∀ c ∈ contracts, env.Implements c.addr)
    (hrun : _setContracts keccak256 env w contracts = .ok w') :
    ∀ a ∈ w'.contractSet.addresses,
      a ∈ w.contractSet.addresses ∨ a ∈ contracts.map NamedContract.addr := by
  induction contracts generalizing w with
  | nil =>
    obtain rfl := of_pure hrun
    exact fun a ha => .inl ha
  | cons c rest ih =>
    obtain ⟨w₁, hset, hrun⟩ := of_bind hrun
    obtain ⟨hreg, -⟩ := setContractAddress_cases h hkeccak (hstatus c mem_cons_self) hset
    intro a ha
    rw [map_cons, mem_cons]
    rcases ih (h.setContractAddress hkeccak hset)
      (fun e he => hstatus e (mem_cons_of_mem _ he)) hrun a ha with ha | ha
    · rcases (hreg.addresses h.contracts).2 a ha with ha | rfl
      · exact .inl ha
      · exact .inr (.inl rfl)
    · exact .inr (.inr ha)

/-! ## Runs -/

namespace HubOp

/-- The calls that register contracts, where every contract that is registered implements
`IContractStatus`. -/
def Registers : HubOp → Prop
  | setContractAddress env _ addr => env.Implements addr
  | setAndReinitializeContracts env contracts _ _ _ => ∀ c ∈ contracts, env.Implements c.addr
  | _ => False

instance : (op : HubOp) → Decidable op.Registers
  | setContractAddress env _ addr => inferInstanceAs (Decidable (env.Implements addr))
  | setAndReinitializeContracts env contracts _ _ _ =>
    inferInstanceAs (Decidable (∀ c ∈ contracts, env.Implements c.addr))
  | setAssetStorageAddress .. | removeContractByName .. | removeContractByAddress ..
  | removeAssetStorageByName .. | removeAssetStorageByAddress .. | forwardCall .. => isFalse id

def forwards : HubOp → List ForwardCallInputArgs
  | setAndReinitializeContracts _ _ _ _ calls => calls
  | _ => []

/-- The call replaces no address and forwards no `setStatus(false)`. -/
def ReplacesNothing (w : HubWorld) (op : HubOp) : Prop :=
  w.Keeps op.registers ∧ ∀ args ∈ op.forwards, .setStatus false ∉ args.encodedData
  deriving Decidable

end HubOp

/-- The runs of `setContractAddress` and `setAndReinitializeContracts`. -/
def registrationMachine (keccak256 : List UInt8 → List UInt8) : Machine HubHistory HubOp :=
  (hubMachine keccak256).restrict fun _ op => op.Registers

/-- Among the contracts that were ever registered, the active ones are those that are. -/
def HubHistory.StatusFollows (h : HubHistory) : Prop :=
  ∀ a ∈ h.everRegistered, h.world.status a = true ↔ a ∈ h.world.contractSet.addresses

/-- What holds in every run of registrations. -/
structure HubHistory.Recorded (h : HubHistory) : Prop where
  registered : h.world.Registered
  recorded : ∀ a ∈ h.world.contractSet.addresses, a ∈ h.everRegistered

variable {h h' : HubHistory} {op : HubOp}

lemma HubHistory.Recorded.exec (hrec : h.Recorded) (hkeccak : Injective keccak256)
    (hop : op.Registers) (hrun : h.exec keccak256 op = .ok h') : h'.Recorded := by
  obtain ⟨hworld, hever⟩ := HubHistory.exec_ok hrun
  have hregistered : h'.world.Registered := by
    refine HubOp.registered hkeccak hrec.registered ?_ hworld
    cases op with
    | setContractAddress env name addr => trivial
    | setAndReinitializeContracts env contracts assets reinitialize calls => trivial
    | _ => cases hop
  refine ⟨hregistered, fun a ha => ?_⟩
  rw [hever, mem_append]
  cases op with
  | setContractAddress env name addr =>
    obtain ⟨hreg, -⟩ := setContractAddress_cases hrec.registered hkeccak hop hworld
    rcases (hreg.addresses hrec.registered.contracts).2 a ha with ha | rfl
    · exact .inl (hrec.recorded a ha)
    · exact .inr (by simp [HubOp.registers])
  | setAndReinitializeContracts env contracts assets reinitialize calls =>
    obtain ⟨w₁, w₂, hset, hassets, hcalls⟩ := setAndReinitializeContracts_ok hworld
    have hsame := (Registered.setAssetStorageContracts
      (hrec.registered.setContracts hkeccak hset) hkeccak hassets).2.1
    have hsame' : h'.world.contractSet = w₂.contractSet :=
      _forwardCalls_rule (P := fun w => w.contractSet = w₂.contractSet)
        (fun w a b hw _ => hw) rfl hcalls
    rw [hsame', hsame] at ha
    rcases setContracts_addresses hrec.registered hkeccak hop hset a ha with ha | ha
    · exact .inl (hrec.recorded a ha)
    · exact .inr ha
  | _ => cases hop

lemma registrationMachine_recorded (hkeccak : Injective keccak256)
    (hr : (registrationMachine keccak256).Reachable h) : h.Recorded := by
  induction hr with
  | init hinit =>
    rw [show _ = (⟨empty, []⟩ : HubHistory) from hinit]
    exact ⟨⟨Pointed.empty, Pointed.empty⟩, fun a ha => absurd ha (not_mem_nil)⟩
  | step _ hstep ih => exact ih.exec hkeccak hstep.1 hstep.2

/-- What holds as long as nothing is replaced: whatever was registered still is, and is active. -/
structure HubHistory.AllActive (h : HubHistory) : Prop where
  active : Active h.world
  still : ∀ a ∈ h.everRegistered, a ∈ h.world.contractSet.addresses

lemma HubHistory.AllActive.exec (hall : h.AllActive) (hkeccak : Injective keccak256)
    (hop : op.Registers) (hkeeps : op.ReplacesNothing h.world)
    (hrun : h.exec keccak256 op = .ok h') :
    h'.AllActive := by
  obtain ⟨hworld, hever⟩ := HubHistory.exec_ok hrun
  obtain ⟨hkeep, hforward⟩ := hkeeps
  -- the list that is registered, with the world right after it
  have hparts : ∃ w₁, Active w₁ ∧ (∀ d, d ∈ h.world.contractSet.contractList ∨
      d ∈ op.registers → d ∈ w₁.contractSet.contractList) ∧
      (Active w₁ → Active h'.world ∧ h'.world.contractSet = w₁.contractSet) := by
    cases op with
    | setContractAddress env name addr =>
      have hlist : _setContracts keccak256 env h.world [⟨name, addr⟩] = .ok h'.world := by
        unfold _setContracts
        exact bind_eq_ok.mpr ⟨h'.world, hworld, rfl⟩
      obtain ⟨hactive, hmem⟩ := hall.active.setContracts hkeccak
        (fun c hc => by rw [mem_singleton.mp hc]; exact hop) hkeep hlist
      exact ⟨h'.world, hactive, hmem, fun h => ⟨h, rfl⟩⟩
    | setAndReinitializeContracts env contracts assets reinitialize calls =>
      obtain ⟨w₁, w₂, hset, hassets, hcalls⟩ := setAndReinitializeContracts_ok hworld
      obtain ⟨hactive, hmem⟩ := hall.active.setContracts hkeccak hop hkeep hset
      refine ⟨w₁, hactive, hmem, fun h₁ => ?_⟩
      obtain ⟨hreg₂, hsame, hst⟩ := h₁.registered.setAssetStorageContracts hkeccak hassets
      have hactive₂ : Active w₂ := ⟨hreg₂, by rw [hsame, hst]; exact h₁.active⟩
      -- a forwarded `setStatus` can only activate
      refine _forwardCalls_rule (P := fun w => Active w ∧ w.contractSet = w₁.contractSet) ?_
        ⟨hactive₂, hsame⟩ hcalls
      rintro w a b ⟨hw, hwset⟩ ⟨args, hargs, hb⟩
      have htrue : b = true := by
        cases b with
        | true => rfl
        | false => exact absurd hb (hforward args hargs)
      refine ⟨⟨⟨hw.registered.contracts, hw.registered.assets⟩, fun x hx => ?_⟩, hwset⟩
      simp only [htrue]
      by_cases hxa : x = a
      · rw [hxa, update_self]
      · rw [update_of_ne hxa]
        exact hw.active x hx
    | _ => cases hop
  obtain ⟨w₁, hactive, hmem, hrest⟩ := hparts
  obtain ⟨hactive', hset⟩ := hrest hactive
  refine ⟨hactive', fun a ha => ?_⟩
  rw [hever, mem_append] at ha
  rw [hset]
  rcases ha with ha | ha
  · obtain ⟨d, hd, rfl⟩ := mem_map.mp (hall.still a ha)
    exact mem_map_of_mem (hmem d (.inl hd))
  · obtain ⟨d, hd, rfl⟩ := mem_map.mp ha
    exact mem_map_of_mem (hmem d (.inr hd))

lemma HubHistory.AllActive.statusFollows (hall : h.AllActive) : h.StatusFollows := by
  intro a ha
  have hmem := hall.still a ha
  simp [hmem, hall.active.active a hmem]

/-- A replaced contract stays active. -/
lemma Registration.agrees {s s' : NamedContractSet} (h : Registration name addr s s')
    (hs : s.Pointed) (hkept : ∀ a ∈ s.addresses, a ≠ addr → a ∈ s'.addresses) :
    s.Agrees ⟨name, addr⟩ := by
  intro d hd hname
  cases h with
  | kept hmem => rw [hs.eq_of_name hd hmem hname]
  | replaced hc hname' hother hfree =>
    have hmem := mem_of_getElem? hc
    have haddr := hkept _ (mem_map_of_mem hmem) hother
    rcases (mem_addresses_readdressed hs hc hfree).mp haddr with hsame | ⟨-, hne⟩
    · exact absurd hsame hother
    · exact absurd rfl hne
  | added hnew hfree =>
    have hlisted : d.name ∈ s.names := mem_map_of_mem hd
    rw [hname] at hlisted
    exact absurd hlisted hnew

/-- A single registration keeps the statuses in step exactly when it replaces no address. -/
lemma HubHistory.statusFollows_iff (hrec : h.Recorded) (hkeccak : Injective keccak256)
    (hfollows : h.StatusFollows) (hstatus : env.Implements addr)
    (hrun : h.exec keccak256 (.setContractAddress env name addr) = .ok h') :
    h'.StatusFollows ↔ h.world.contractSet.Agrees ⟨name, addr⟩ := by
  obtain ⟨hworld, hever⟩ := HubHistory.exec_ok hrun
  obtain ⟨hreg, hst⟩ := setContractAddress_cases hrec.registered hkeccak hstatus hworld
  have hpointed := hrec.registered.contracts
  constructor
  · intro hfollows'
    apply hreg.agrees hpointed
    intro a ha hne
    have hrecorded := hrec.recorded a ha
    rw [← hfollows' a (by rw [hever]; exact mem_append_left _ hrecorded), hst, update_of_ne hne]
    exact (hfollows a hrecorded).mpr ha
  · intro hagrees a ha
    have hgrows := hreg.grows hagrees
    obtain ⟨hnew, hold⟩ := hreg.addresses hpointed
    rw [hst]
    by_cases hne : a = addr
    · subst hne
      simp [hnew]
    · rw [hever, mem_append] at ha
      have hrecorded : a ∈ h.everRegistered := by
        refine ha.resolve_right fun hlast => hne ?_
        simpa [HubOp.registers] using hlast
      rw [update_of_ne hne, hfollows a hrecorded]
      constructor
      · intro hmem
        obtain ⟨d, hd, rfl⟩ := mem_map.mp hmem
        exact mem_map_of_mem ((hgrows d).mpr (.inl hd))
      · intro hmem
        exact (hold a hmem).resolve_right hne

/-- In every run of registrations that replaces no address and forwards no `setStatus(false)`, the
active contracts are those that are registered. And from any state of any run where this holds, a
call of `setContractAddress` keeps it exactly when it does not replace the address of its name. -/
theorem contract_status_follows_registry (hkeccak : Injective keccak256) :
    (∀ h, ((registrationMachine keccak256).restrict fun h op =>
        op.ReplacesNothing h.world).Reachable h → h.StatusFollows) ∧
    ∀ h h' env name addr, (registrationMachine keccak256).Reachable h → h.StatusFollows →
      (registrationMachine keccak256).step h (.setContractAddress env name addr) h' →
      (h'.StatusFollows ↔ h.world.contractSet.Agrees ⟨name, addr⟩) := by
  constructor
  · intro h hr
    have hall : h.AllActive := by
      induction hr with
      | init hinit =>
        rw [show _ = (⟨HubWorld.empty, []⟩ : HubHistory) from hinit]
        exact ⟨⟨⟨Pointed.empty, Pointed.empty⟩, fun a ha => absurd ha not_mem_nil⟩,
          fun a ha => absurd ha not_mem_nil⟩
      | step _ hstep ih => exact ih.exec hkeccak hstep.2.1 hstep.1 hstep.2.2
    exact hall.statusFollows
  · intro h h' env name addr hr hfollows hstep
    exact HubHistory.statusFollows_iff (registrationMachine_recorded hkeccak hr) hkeccak hfollows
      hstep.1 hstep.2

/-- Two contracts are registered, and one of them again. -/
theorem contract_status_follows_registry_again :
    Injective (id : List UInt8 → List UInt8) ∧
    ∃ h, ((registrationMachine id).restrict fun h op => op.ReplacesNothing h.world).Reachable h ∧
      h.world.contractSet.addresses = [11, 12] ∧ h.StatusFollows := by
  obtain ⟨h, hrun, hs⟩ := exists_of_succeeds
    (x := Machine.runList
      (Machine.guarded (fun (h : HubHistory) (op : HubOp) => op.ReplacesNothing h.world)
        Revert.abiDecode
        (Machine.guarded (fun (_ : HubHistory) (op : HubOp) => op.Registers) Revert.abiDecode
          (HubHistory.exec id)))
      [.setContractAddress allDeployed [1] 11,
        .setAndReinitializeContracts allDeployed [⟨[2], 12⟩, ⟨[1], 11⟩] [] [11]
          [⟨[2], [.setStatus true]⟩]]
      ⟨HubWorld.empty, []⟩)
    (t := fun h => decide (h.world.contractSet.addresses = [11, 12])) (by decide +kernel)
  have hr := Machine.Reachable.runList
    (Machine.restrict_of_guarded (M := registrationMachine id)
      (Machine.restrict_of_guarded (M := hubMachine id) fun _ _ _ h => h)) (.init rfl) hrun
  exact ⟨injective_id, h, hr, of_decide_eq_true hs,
    (contract_status_follows_registry injective_id).1 h hr⟩

/-- A name gets another address: the contract at the old address is not registered any more, and
stays active. -/
theorem replaced_contract_stays_active : ∃ h, (registrationMachine id).Reachable h ∧
    h.world.contractSet.contractList = [⟨[1], 12⟩] ∧ 11 ∈ h.everRegistered ∧
    h.world.status 11 = true ∧ ¬ h.StatusFollows := by
  obtain ⟨h, hrun, hs⟩ := exists_of_succeeds
    (x := Machine.runList
      (Machine.guarded (fun (_ : HubHistory) (op : HubOp) => op.Registers) Revert.abiDecode
        (HubHistory.exec id))
      [.setContractAddress allDeployed [1] 11, .setContractAddress allDeployed [1] 12]
      ⟨HubWorld.empty, []⟩)
    (t := fun h => decide (h.world.contractSet.contractList = [⟨[1], 12⟩] ∧
      11 ∈ h.everRegistered ∧ h.world.status 11 = true)) (by decide +kernel)
  have hr : (registrationMachine id).Reachable h := Machine.Reachable.runList
    (Machine.restrict_of_guarded (M := hubMachine id) fun _ _ _ h => h) (.init rfl) hrun
  obtain ⟨hlist, hever, hstatus⟩ := of_decide_eq_true hs
  refine ⟨h, hr, hlist, hever, hstatus, fun hfollows => ?_⟩
  have hmem := (hfollows 11 hever).mp hstatus
  simp [NamedContractSet.addresses, hlist] at hmem

end Dkg
