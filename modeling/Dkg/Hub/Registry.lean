import Dkg.Hub.Model
import Dkg.Lib.IndexedList

/-! # The representation of a registry

`Pointed` says that both tables of a registry know the positions of the listed entries and are `0`
elsewhere. Appending and updating keep it. A removal moves the last entry into the hole and clears
the removed name or address; when the removed entry is itself the last one, the move writes its
position back into the table that was cleared first, so `Pointed` is lost unless that position
is `0`.
-/

namespace Dkg

open Lib List Function

namespace NamedContractSet

variable {keccak256 : List UInt8 → List UInt8} {s s' : NamedContractSet} {name : List UInt8}
  {addr i : ℕ} {c moved : NamedContract}

def names (s : NamedContractSet) : List (List UInt8) := s.contractList.map NamedContract.name

def addresses (s : NamedContractSet) : List ℕ := s.contractList.map NamedContract.addr

/-- The tables and the list agree. -/
structure Pointed (s : NamedContractSet) : Prop where
  byName : Indexed s.names s.stringIndexPointers
  byAddress : Indexed s.addresses s.addressIndexPointers
  freeName : ∀ name, name ∉ s.names → s.stringIndexPointers name = 0
  freeAddress : ∀ addr, addr ∉ s.addresses → s.addressIndexPointers addr = 0

lemma Pointed.empty : Pointed empty where
  byName := Indexed.nil _
  byAddress := Indexed.nil _
  freeName := fun _ _ => rfl
  freeAddress := fun _ _ => rfl

lemma getElem?_names (hc : s.contractList[i]? = some c) : s.names[i]? = some c.name := by
  simp [names, hc]

lemma getElem?_addresses (hc : s.contractList[i]? = some c) : s.addresses[i]? = some c.addr := by
  simp [addresses, hc]

lemma entry_ok (h : s.entry i = .ok c) : s.contractList[i]? = some c := by
  unfold entry at h
  split at h
  next c' hc =>
    rw [hc, of_pure h]
  next => cases h

lemma entry_of_getElem? (h : s.contractList[i]? = some c) : s.entry i = .ok c := by
  unfold entry
  rw [h]
  rfl

/-! ## Lookups -/

variable {α : Type} {field : NamedContract → α} {idx : α → ℕ} {k : α} {arr : List α} {x m : α}

/-- A look into the list by a table that is right, or `0` for what is not listed. -/
lemma lookup [DecidableEq α] (hidx : Indexed (s.contractList.map field) idx)
    (hfree : k ∉ s.contractList.map field → idx k = 0) (hsize : s.size ≠ 0) :
    ∃ c, s.entry (idx k) = .ok c ∧ (field c = k ↔ k ∈ s.contractList.map field) := by
  by_cases hk : k ∈ s.contractList.map field
  · have hlisted := hidx.listed hk
    unfold Listed at hlisted
    rw [getElem?_map, Option.map_eq_some_iff] at hlisted
    obtain ⟨c, hc, hfield⟩ := hlisted
    exact ⟨c, entry_of_getElem? hc, by simp [hfield, hk]⟩
  · have hlt : 0 < s.contractList.length := Nat.pos_of_ne_zero hsize
    have hc : s.contractList[0]? = some s.contractList[0] := getElem?_eq_getElem hlt
    refine ⟨s.contractList[0], ?_, ?_⟩
    · rw [hfree hk]
      exact entry_of_getElem? hc
    · constructor
      · intro hfield
        rw [← hfield]
        exact mem_map_of_mem (getElem_mem hlt)
      · exact fun hmem => absurd hmem hk

lemma not_mem_of_size (hsize : s.size = 0) : k ∉ s.contractList.map field := by
  have hnil : s.contractList = [] := length_eq_zero_iff.mp hsize
  simp [hnil]

lemma Pointed.existsName_eq (h : s.Pointed) (hkeccak : Injective keccak256)
    (name : List UInt8) : s.existsName keccak256 name = .ok (decide (name ∈ s.names)) := by
  unfold existsName
  split
  next hsize =>
    have hnot : name ∉ s.names := not_mem_of_size hsize
    simp [hnot, pure, Except.pure]
  next hsize =>
    obtain ⟨c, hc, hiff⟩ := lookup h.byName (h.freeName name) hsize
    rw [hc]
    have hname : (keccak256 c.name = keccak256 name) = (name ∈ s.names) :=
      propext (hkeccak.eq_iff.trans hiff)
    simp [bind, Except.bind, pure, Except.pure, hname]

lemma Pointed.existsAddress_eq (h : s.Pointed) (addr : ℕ) :
    s.existsAddress addr = .ok (decide (addr ∈ s.addresses)) := by
  unfold existsAddress
  split
  next hsize =>
    have hnot : addr ∉ s.addresses := not_mem_of_size hsize
    simp [hnot, pure, Except.pure]
  next hsize =>
    obtain ⟨c, hc, hiff⟩ := lookup h.byAddress (h.freeAddress addr) hsize
    rw [hc]
    have haddr : (addr = c.addr) = (addr ∈ s.addresses) := propext (eq_comm.trans hiff)
    simp [bind, Except.bind, pure, Except.pure, haddr]

lemma Pointed.addressInSet_iff (h : s.Pointed) (addr : ℕ) :
    s.addressInSet addr ↔ addr ∈ s.addresses := by
  constructor
  · rintro ⟨first, hfirst, hptr | rfl⟩
    · by_contra hnot
      exact hptr (h.freeAddress addr hnot)
    · exact mem_of_getElem? (getElem?_addresses hfirst)
  · intro hmem
    have hlisted := h.byAddress.listed hmem
    have hlt : 0 < s.contractList.length := by
      have := hlisted.lt_length
      simp only [addresses, length_map] at this
      omega
    refine ⟨s.contractList[0], getElem?_eq_getElem hlt, ?_⟩
    by_cases hptr : s.addressIndexPointers addr = 0
    · right
      unfold Listed at hlisted
      rw [hptr, getElem?_addresses (getElem?_eq_getElem hlt)] at hlisted
      exact Option.some.inj hlisted
    · exact .inl hptr

/-- The entry that the table of names points to, for a name that `exists` finds. -/
lemma entry_name (hkeccak : Injective keccak256)
    (hknown : s.existsName keccak256 name = .ok true)
    (hc : s.entry (s.stringIndexPointers name) = .ok c) : c.name = name := by
  unfold existsName at hknown
  split at hknown
  next => cases hknown
  next =>
    rw [hc] at hknown
    simp only [bind, Except.bind, pure_eq_ok, decide_eq_true_eq] at hknown
    exact hkeccak hknown

lemma entry_address (hknown : s.existsAddress addr = .ok true)
    (hc : s.entry (s.addressIndexPointers addr) = .ok c) : c.addr = addr := by
  unfold existsAddress at hknown
  split at hknown
  next => cases hknown
  next =>
    rw [hc] at hknown
    simp only [bind, Except.bind, pure_eq_ok, decide_eq_true_eq] at hknown
    exact hknown.symm

/-! ## The operations -/

/-- The set with a new entry. -/
def appended (s : NamedContractSet) (name : List UInt8) (addr : ℕ) : NamedContractSet where
  stringIndexPointers := Function.update s.stringIndexPointers name s.size
  addressIndexPointers := Function.update s.addressIndexPointers addr s.size
  contractList := s.contractList ++ [⟨name, addr⟩]

lemma Pointed.append_ok_iff (h : s.Pointed) (hkeccak : Injective keccak256) :
    s.append keccak256 name addr = .ok s' ↔
      name ≠ [] ∧ addr ≠ 0 ∧ name ∉ s.names ∧ addr ∉ s.addresses ∧ s' = s.appended name addr := by
  unfold append
  simp only [bind_eq_ok, require_eq_ok, pure_eq_ok, h.existsName_eq hkeccak,
    h.addressInSet_iff, Except.ok.injEq, hkeccak.ne_iff]
  constructor
  · rintro ⟨-, hname, -, haddr, known, rfl, -, hknown, -, hfree, rfl⟩
    exact ⟨hname, haddr, of_decide_eq_false hknown, hfree, rfl⟩
  · rintro ⟨hname, haddr, hnew, hfree, rfl⟩
    exact ⟨(), hname, (), haddr, _, rfl, (), decide_eq_false hnew, (), hfree, rfl⟩

lemma Pointed.appended (h : s.Pointed) (hname : name ∉ s.names) (haddr : addr ∉ s.addresses) :
    (s.appended name addr).Pointed := by
  have hnames : (s.appended name addr).names = s.names ++ [name] := by
    simp [names, NamedContractSet.appended]
  have haddresses : (s.appended name addr).addresses = s.addresses ++ [addr] := by
    simp [addresses, NamedContractSet.appended]
  have hlen : s.names.length = s.size := by simp [names, size]
  have hlen' : s.addresses.length = s.size := by simp [addresses, size]
  constructor
  · rw [hnames]
    show Indexed _ (Function.update s.stringIndexPointers name s.size)
    rw [← hlen]
    exact h.byName.push hname
  · rw [haddresses]
    show Indexed _ (Function.update s.addressIndexPointers addr s.size)
    rw [← hlen']
    exact h.byAddress.push haddr
  · intro k hk
    rw [hnames, mem_append, mem_singleton, not_or] at hk
    show Function.update s.stringIndexPointers name s.size k = 0
    rw [update_of_ne hk.2]
    exact h.freeName k hk.1
  · intro k hk
    rw [haddresses, mem_append, mem_singleton, not_or] at hk
    show Function.update s.addressIndexPointers addr s.size k = 0
    rw [update_of_ne hk.2]
    exact h.freeAddress k hk.1

/-- The set with another address for the entry at `i`. -/
def readdressed (s : NamedContractSet) (i : ℕ) (c : NamedContract) (addr : ℕ) : NamedContractSet :=
  { s with
    addressIndexPointers :=
      Function.update (Function.update s.addressIndexPointers c.addr 0) addr i
    contractList := s.contractList.set i { c with addr := addr } }

lemma Pointed.update_ok (h : s.Pointed) (hkeccak : Injective keccak256)
    (hrun : s.update keccak256 name addr = .ok s') :
    ∃ c, s.contractList[s.stringIndexPointers name]? = some c ∧ c.name = name ∧
      ((c.addr = addr ∧ s' = s) ∨
       (c.addr ≠ addr ∧ addr ∉ s.addresses ∧
        s' = s.readdressed (s.stringIndexPointers name) c addr)) := by
  unfold update at hrun
  obtain ⟨_, -, known, hknown, _, hexists, hrun⟩ := of_bind₃ hrun
  obtain ⟨c, hc, hrun⟩ := of_bind hrun
  rw [require_eq_ok.mp hexists] at hknown
  refine ⟨c, entry_ok hc, entry_name hkeccak hknown hc, ?_⟩
  split at hrun
  next hsame => exact .inl ⟨hsame, (of_pure hrun).symm⟩
  next hother =>
    obtain ⟨_, hfree, hrun⟩ := of_bind hrun
    rw [require_eq_ok, h.addressInSet_iff] at hfree
    exact .inr ⟨hother, hfree, (of_pure hrun).symm⟩

lemma readdressed_names (hc : s.contractList[i]? = some c) :
    (s.readdressed i c addr).names = s.names := by
  obtain ⟨hlt, hget⟩ := List.getElem?_eq_some_iff.mp (getElem?_names hc)
  simp only [names, readdressed, map_set]
  rw [← hget]
  exact set_getElem_self hlt

lemma Pointed.readdressed (h : s.Pointed) (hc : s.contractList[i]? = some c)
    (hfree : addr ∉ s.addresses) : (s.readdressed i c addr).Pointed := by
  have haddresses : (s.readdressed i c addr).addresses = s.addresses.set i addr := by
    simp [addresses, NamedContractSet.readdressed, map_set]
  obtain ⟨hindexed, hmem⟩ := h.byAddress.replace (getElem?_addresses hc) hfree
  constructor
  · rw [readdressed_names hc]
    exact h.byName
  · rw [haddresses]
    exact hindexed
  · rw [readdressed_names hc]
    exact h.freeName
  · intro k hk
    rw [haddresses, hmem, not_or] at hk
    show Function.update (Function.update s.addressIndexPointers c.addr 0) addr i k = 0
    rw [update_of_ne hk.1]
    by_cases hkc : k = c.addr
    · rw [hkc, update_self]
    · rw [update_of_ne hkc]
      exact h.freeAddress k fun hmem' => hk.2 ⟨hmem', hkc⟩

/-- The set without the entry at `i`, whose place the last entry takes. -/
def removed (s : NamedContractSet) (i : ℕ) (c moved : NamedContract) : NamedContractSet where
  stringIndexPointers :=
    Function.update (Function.update s.stringIndexPointers moved.name i) c.name 0
  addressIndexPointers :=
    Function.update (Function.update s.addressIndexPointers moved.addr i) c.addr 0
  contractList := (s.contractList.set i moved).dropLast

/-- The entry at `i` is not the last one, or is the only one. -/
def Movable (s : NamedContractSet) (i : ℕ) : Prop := i ≠ s.size - 1 ∨ s.size = 1

lemma indexed_removed [DecidableEq α] (hidx : Indexed arr idx) (hfree : ∀ k, k ∉ arr → idx k = 0)
    (hx : arr[i]? = some x) (hm : arr[arr.length - 1]? = some m)
    (hmovable : i ≠ arr.length - 1 ∨ arr.length = 1) :
    Indexed (arr.set i m).dropLast (Function.update (Function.update idx m i) x 0) ∧
    ∀ k, k ∉ (arr.set i m).dropLast → Function.update (Function.update idx m i) x 0 k = 0 := by
  have hi := hidx i x hx
  have hmem := mem_of_getElem? hx
  by_cases hmid : i = arr.length - 1
  · -- the only entry: the list becomes empty
    have hone : arr.length = 1 := hmovable.resolve_left fun hne => hne hmid
    obtain ⟨y, rfl⟩ := length_eq_one_iff.mp hone
    obtain rfl : i = 0 := by simpa using hmid
    obtain rfl : y = x := by simpa using hx
    refine ⟨by simpa using Indexed.nil _, fun k _ => ?_⟩
    by_cases hk : k = y
    · rw [hk, update_self]
    · obtain rfl : y = m := by simpa using hm
      rw [update_of_ne hk, update_of_ne hk]
      exact hfree k (by simpa using hk)
  · have hmoved := hidx.pop_moved hmem (by rw [hi]; exact hmid) hm 0
    rw [hi] at hmoved
    obtain ⟨hindexed, hkeys⟩ := hmoved
    refine ⟨hindexed, fun k hk => ?_⟩
    rw [hkeys] at hk
    by_cases hkx : k = x
    · rw [hkx, update_self]
    · have hnot : k ∉ arr := fun hka => hk ⟨hka, hkx⟩
      have hkm : k ≠ m := by
        rintro rfl
        exact hnot (mem_of_getElem? hm)
      rw [update_of_ne hkx, update_of_ne hkm]
      exact hfree k hnot

lemma Pointed.removed (h : s.Pointed) (hc : s.contractList[i]? = some c)
    (hmoved : s.contractList[s.size - 1]? = some moved) (hmovable : s.Movable i) :
    (s.removed i c moved).Pointed := by
  have hnames : (s.removed i c moved).names = (s.names.set i moved.name).dropLast := by
    simp [names, NamedContractSet.removed, map_dropLast, map_set]
  have haddresses :
      (s.removed i c moved).addresses = (s.addresses.set i moved.addr).dropLast := by
    simp [addresses, NamedContractSet.removed, map_dropLast, map_set]
  have hlen : s.names.length = s.size := by simp [names, size]
  have hlen' : s.addresses.length = s.size := by simp [addresses, size]
  obtain ⟨hn, hnfree⟩ := indexed_removed h.byName h.freeName (getElem?_names hc)
    (by rw [hlen]; exact getElem?_names hmoved) (by rw [hlen]; exact hmovable)
  obtain ⟨ha, hafree⟩ := indexed_removed h.byAddress h.freeAddress (getElem?_addresses hc)
    (by rw [hlen']; exact getElem?_addresses hmoved) (by rw [hlen']; exact hmovable)
  constructor
  · rw [hnames]
    exact hn
  · rw [haddresses]
    exact ha
  · rw [hnames]
    exact hnfree
  · rw [haddresses]
    exact hafree

/-- Clearing before the move or after it is the same, for an entry that is not moved. -/
lemma update_swap [DecidableEq α] (hidx : Indexed arr idx) (hx : arr[i]? = some x)
    (hm : arr[arr.length - 1]? = some m) (hmovable : i ≠ arr.length - 1 ∨ arr.length = 1) :
    Function.update (Function.update idx x 0) m i =
      Function.update (Function.update idx m i) x 0 := by
  by_cases hxm : m = x
  · subst hxm
    have hi : i = arr.length - 1 := (hidx i m hx).symm.trans (hidx _ m hm)
    have hone : arr.length = 1 := hmovable.resolve_left fun hne => hne hi
    rw [hone] at hi
    rw [hi, update_idem]
  · exact (update_comm hxm i 0 idx).symm

lemma Pointed.removeName_ok (h : s.Pointed) (hkeccak : Injective keccak256)
    (hrun : s.removeName keccak256 name = .ok s') :
    ∃ i c moved, s.contractList[i]? = some c ∧ c.name = name ∧
      s.contractList[s.size - 1]? = some moved ∧
      (s.Movable i → s' = s.removed i c moved) := by
  unfold removeName at hrun
  obtain ⟨known, hknown, _, hexists, c, hc, hrun⟩ := of_bind₃ hrun
  obtain ⟨last, hlast, moved, hmoved, hrun⟩ := of_bind₂ hrun
  rw [require_eq_ok.mp hexists] at hknown
  rw [(subUint_eq_ok.mp hlast).2] at hmoved
  have hname := entry_name hkeccak hknown hc
  have hslot := entry_ok hc
  have hmovedSlot := entry_ok hmoved
  refine ⟨s.stringIndexPointers name, c, moved, hslot, hname, hmovedSlot, fun hmovable => ?_⟩
  have hlen : s.addresses.length = s.size := by simp [addresses, size]
  have hswap := update_swap h.byAddress (getElem?_addresses hslot)
    (by rw [hlen]; exact getElem?_addresses hmovedSlot) (by rw [hlen]; exact hmovable)
  rw [← of_pure hrun, hswap]
  simp [NamedContractSet.removed, hname]

lemma Pointed.removeAddress_ok (h : s.Pointed) (hrun : s.removeAddress addr = .ok s') :
    ∃ i c moved, s.contractList[i]? = some c ∧ c.addr = addr ∧
      s.contractList[s.size - 1]? = some moved ∧
      (s.Movable i → s' = s.removed i c moved) := by
  unfold removeAddress at hrun
  obtain ⟨known, hknown, _, hexists, c, hc, hrun⟩ := of_bind₃ hrun
  obtain ⟨last, hlast, moved, hmoved, hrun⟩ := of_bind₂ hrun
  rw [require_eq_ok.mp hexists] at hknown
  rw [(subUint_eq_ok.mp hlast).2] at hmoved
  have haddr := entry_address hknown hc
  have hslot := entry_ok hc
  have hmovedSlot := entry_ok hmoved
  refine ⟨s.addressIndexPointers addr, c, moved, hslot, haddr, hmovedSlot, fun hmovable => ?_⟩
  have hlen : s.names.length = s.size := by simp [names, size]
  have hswap := update_swap h.byName (getElem?_names hslot)
    (by rw [hlen]; exact getElem?_names hmovedSlot) (by rw [hlen]; exact hmovable)
  rw [← of_pure hrun, hswap]
  simp [NamedContractSet.removed, haddr]

end NamedContractSet

open NamedContractSet

/-! ## Runs -/

variable {keccak256 : List UInt8 → List UInt8} {s s' : NamedContractSet}

/-- The operation does not remove the last of several entries. -/
def NamedSetOp.Safe (s : NamedContractSet) : NamedSetOp → Prop
  | removeName name => 2 ≤ s.size → ∀ c ∈ s.contractList.getLast?, c.name ≠ name
  | removeAddress addr => 2 ≤ s.size → ∀ c ∈ s.contractList.getLast?, c.addr ≠ addr
  | _ => True

instance NamedSetOp.decidableSafe (s : NamedContractSet) : (op : NamedSetOp) → Decidable (op.Safe s)
  | .append .. | .update .. => isTrue trivial
  | .removeName name =>
    inferInstanceAs (Decidable (2 ≤ s.size → ∀ c ∈ s.contractList.getLast?, c.name ≠ name))
  | .removeAddress addr =>
    inferInstanceAs (Decidable (2 ≤ s.size → ∀ c ∈ s.contractList.getLast?, c.addr ≠ addr))

lemma movable_of_not_last {c : NamedContract} {i : ℕ} (hc : s.contractList[i]? = some c)
    (hlast : 2 ≤ s.size → s.contractList.getLast? ≠ some c) : s.Movable i := by
  have hlt : i < s.size := (List.getElem?_eq_some_iff.mp hc).1
  by_cases hi : i = s.size - 1
  · right
    by_contra hone
    apply hlast (by omega)
    rw [getLast?_eq_getElem?]
    rw [hi] at hc
    exact hc
  · exact .inl hi

namespace NamedContractSet.Pointed

variable {name : List UInt8} {addr : ℕ}

section

variable (h : s.Pointed) (hkeccak : Injective keccak256)

include h hkeccak

lemma append (hrun : s.append keccak256 name addr = .ok s') : s'.Pointed := by
  obtain ⟨-, -, hname, haddr, rfl⟩ := (h.append_ok_iff hkeccak).mp hrun
  exact h.appended hname haddr

lemma update (hrun : s.update keccak256 name addr = .ok s') : s'.Pointed := by
  obtain ⟨c, hc, -, ⟨-, rfl⟩ | ⟨-, hfree, rfl⟩⟩ := h.update_ok hkeccak hrun
  · exact h
  · exact h.readdressed hc hfree

lemma removeName (hsafe : (NamedSetOp.removeName name).Safe s)
    (hrun : s.removeName keccak256 name = .ok s') : s'.Pointed := by
  obtain ⟨i, c, moved, hc, hname, hmoved, hout⟩ := h.removeName_ok hkeccak hrun
  have hmovable := movable_of_not_last hc fun hsize hlast => hsafe hsize c hlast hname
  rw [hout hmovable]
  exact h.removed hc hmoved hmovable

end

lemma removeAddress (h : s.Pointed) (hsafe : (NamedSetOp.removeAddress addr).Safe s)
    (hrun : s.removeAddress addr = .ok s') : s'.Pointed := by
  obtain ⟨i, c, moved, hc, haddr, hmoved, hout⟩ := h.removeAddress_ok hrun
  have hmovable := movable_of_not_last hc fun hsize hlast => hsafe hsize c hlast haddr
  rw [hout hmovable]
  exact h.removed hc hmoved hmovable

end NamedContractSet.Pointed

/-- **The step lemma** of the set. -/
lemma NamedSetOp.pointed {op : NamedSetOp} (hkeccak : Injective keccak256)
    (h : s.Pointed) (hsafe : op.Safe s) (hrun : op.run keccak256 s = .ok s') : s'.Pointed := by
  cases op with
  | append name addr => exact h.append hkeccak hrun
  | update name addr => exact h.update hkeccak hrun
  | removeName name => exact h.removeName hkeccak hsafe hrun
  | removeAddress addr => exact h.removeAddress hsafe hrun

lemma namedSet_pointed (hkeccak : Injective keccak256)
    (h : ((namedSetMachine keccak256).restrict fun s op => op.Safe s).Reachable s) : s.Pointed := by
  induction h with
  | init hinit =>
    rw [show _ = empty from hinit]
    exact Pointed.empty
  | step _ hstep ih => exact NamedSetOp.pointed hkeccak ih hstep.1 hstep.2

/-- What a registry is expected to do: no name and no address twice, both tables right, and
nothing in the way of what is not listed. -/
structure NamedContractSet.Sound (keccak256 : List UInt8 → List UInt8) (s : NamedContractSet) :
    Prop where
  names : s.names.Nodup
  addresses : s.addresses.Nodup
  pointers : ∀ i c, s.contractList[i]? = some c →
    s.stringIndexPointers c.name = i ∧ s.addressIndexPointers c.addr = i
  absentName : ∀ name, name ∉ s.names → s.existsName keccak256 name = .ok false
  absentAddress : ∀ addr, addr ∉ s.addresses → s.existsAddress addr = .ok false
  append : ∀ name addr, name ≠ [] → addr ≠ 0 → name ∉ s.names → addr ∉ s.addresses →
    ∃ s', s.append keccak256 name addr = .ok s'

lemma NamedContractSet.Pointed.sound (h : s.Pointed) (hkeccak : Injective keccak256) :
    s.Sound keccak256 where
  names := h.byName.nodup
  addresses := h.byAddress.nodup
  pointers := fun i c hc =>
    ⟨h.byName i c.name (getElem?_names hc), h.byAddress i c.addr (getElem?_addresses hc)⟩
  absentName := fun name hname => by rw [h.existsName_eq hkeccak, decide_eq_false hname]
  absentAddress := fun addr haddr => by rw [h.existsAddress_eq, decide_eq_false haddr]
  append := fun name addr hname haddr hnew hfree =>
    ⟨s.appended name addr, (h.append_ok_iff hkeccak).mpr ⟨hname, haddr, hnew, hfree, rfl⟩⟩

/-! ## The registries of the Hub -/

/-- The call does not remove the last of several entries of a registry. -/
def HubOp.Safe (w : HubWorld) : HubOp → Prop
  | removeContractByName name => (NamedSetOp.removeName name).Safe w.contractSet
  | removeContractByAddress addr => (NamedSetOp.removeAddress addr).Safe w.contractSet
  | removeAssetStorageByName name => (NamedSetOp.removeName name).Safe w.assetStorageSet
  | removeAssetStorageByAddress addr => (NamedSetOp.removeAddress addr).Safe w.assetStorageSet
  | _ => True

namespace HubWorld

variable {env : Deployed} {w w' : HubWorld} {name : List UInt8} {addr target : ℕ}

/-- Both registries are in order. -/
structure Registered (w : HubWorld) : Prop where
  contracts : w.contractSet.Pointed
  assets : w.assetStorageSet.Pointed

@[simp] lemma trySetStatus_contractSet (b : Bool) :
    (w.trySetStatus env addr b).contractSet = w.contractSet := by
  unfold trySetStatus
  split <;> rfl

@[simp] lemma trySetStatus_assetStorageSet (b : Bool) :
    (w.trySetStatus env addr b).assetStorageSet = w.assetStorageSet := by
  unfold trySetStatus
  split <;> rfl

/-- A name that is set is updated when it is known, and else appended. -/
lemma _setContractAddress_ok (h : w._setContractAddress keccak256 env name addr = .ok w') :
    ∃ contractSet, w'.contractSet = contractSet ∧ w'.assetStorageSet = w.assetStorageSet ∧
    ((w.contractSet.existsName keccak256 name = .ok true ∧
        w.contractSet.update keccak256 name addr = .ok contractSet ∧
        ∃ old, contractSet.getName keccak256 name = .ok old ∧
          w' = (({ w with contractSet := contractSet } : HubWorld).trySetStatus env old.addr
            false).trySetStatus env addr true) ∨
      (w.contractSet.append keccak256 name addr = .ok contractSet ∧
        w' = ({ w with contractSet := contractSet } : HubWorld).trySetStatus env addr true)) := by
  unfold _setContractAddress at h
  obtain ⟨known, hknown, w₁, hset, h⟩ := of_bind₂ h
  obtain rfl := of_pure h
  split at hset
  next hknown' =>
    obtain ⟨contractSet, hupdate, old, hold, hset⟩ := of_bind₂ hset
    obtain rfl := of_pure hset
    rw [hknown'] at hknown
    exact ⟨contractSet, by simp, by simp, .inl ⟨hknown, hupdate, old, hold, rfl⟩⟩
  next =>
    obtain ⟨contractSet, happend, rfl⟩ := of_bind_pure hset
    exact ⟨contractSet, by simp, by simp, .inr ⟨happend, rfl⟩⟩

lemma Registered.setContractAddress (h : w.Registered) (hkeccak : Injective keccak256)
    (hrun : w._setContractAddress keccak256 env name addr = .ok w') : w'.Registered := by
  obtain ⟨contractSet, hcontracts, hassets, hset⟩ := _setContractAddress_ok hrun
  refine ⟨?_, hassets ▸ h.assets⟩
  rw [hcontracts]
  obtain ⟨-, hupdate, -⟩ | ⟨happend, -⟩ := hset
  · exact h.contracts.update hkeccak hupdate
  · exact h.contracts.append hkeccak happend

lemma Registered.setAssetStorageAddress (h : w.Registered) (hkeccak : Injective keccak256)
    (hrun : w._setAssetStorageAddress keccak256 name addr = .ok w') :
    w'.Registered ∧ w'.contractSet = w.contractSet ∧ w'.status = w.status := by
  unfold _setAssetStorageAddress at hrun
  obtain ⟨known, -, assets, hset, hrun⟩ := of_bind₂ hrun
  obtain rfl := of_pure hrun
  refine ⟨⟨h.contracts, ?_⟩, rfl, rfl⟩
  split at hset
  next => exact h.assets.update hkeccak hset
  next => exact h.assets.append hkeccak hset

variable {contracts assets : List NamedContract} {P : HubWorld → Prop}

lemma Registered.setContracts (h : w.Registered) (hkeccak : Injective keccak256)
    (hrun : _setContracts keccak256 env w contracts = .ok w') : w'.Registered := by
  induction contracts generalizing w with
  | nil =>
    obtain rfl := of_pure hrun
    exact h
  | cons c rest ih =>
    obtain ⟨w₁, hset, hrun⟩ := of_bind hrun
    exact ih (h.setContractAddress hkeccak hset) hrun

lemma Registered.setAssetStorageContracts (h : w.Registered)
    (hkeccak : Injective keccak256)
    (hrun : _setAssetStorageContracts keccak256 w assets = .ok w') :
    w'.Registered ∧ w'.contractSet = w.contractSet ∧ w'.status = w.status := by
  induction assets generalizing w with
  | nil =>
    obtain rfl := of_pure hrun
    exact ⟨h, rfl, rfl⟩
  | cons c rest ih =>
    obtain ⟨w₁, hset, hrun⟩ := of_bind hrun
    obtain ⟨h₁, hcontracts, hstatus⟩ := h.setAssetStorageAddress hkeccak hset
    obtain ⟨h', hcontracts', hstatus'⟩ := ih h₁ hrun
    exact ⟨h', hcontracts'.trans hcontracts, hstatus'.trans hstatus⟩

lemma forwardCall_ok {data : ForwardedCall} (hrun : w.forwardCall env target data = .ok w') :
    w' = w ∨ ∃ status, data = .setStatus status ∧
      w' = { w with status := update w.status target status } := by
  unfold forwardCall at hrun
  obtain ⟨_, -, _, -, _, -, hrun⟩ := of_bind₃ hrun
  split at hrun
  next =>
    cases data with
    | setStatus status =>
      simp only at hrun
      split at hrun
      next => exact .inr ⟨status, rfl, (of_pure hrun).symm⟩
      next => cases hrun
    | other success =>
      simp only at hrun
      split at hrun
      next => exact .inl (of_pure hrun).symm
      next => cases hrun
  next => exact .inl (of_pure hrun).symm

/-- The rule for forwarded calls: what no `setStatus` among them changes is kept. -/
lemma forwardAll_rule {calls : List ForwardedCall} (hP : ∀ w a b, P w → .setStatus b ∈ calls →
      P { w with status := update w.status a b }) (h : P w)
    (hrun : forwardAll env target w calls = .ok w') : P w' := by
  induction calls generalizing w with
  | nil =>
    obtain rfl := of_pure hrun
    exact h
  | cons data rest ih =>
    obtain ⟨w₁, hcall, hrun⟩ := of_bind hrun
    apply ih (fun w a b hw hb => hP w a b hw (mem_cons_of_mem _ hb)) _ hrun
    obtain rfl | ⟨status, rfl, rfl⟩ := forwardCall_ok hcall
    · exact h
    · exact hP w target status h mem_cons_self

lemma _forwardCalls_rule {args : List ForwardCallInputArgs}
    (hP : ∀ w a b, P w → (∃ x ∈ args, .setStatus b ∈ x.encodedData) →
      P { w with status := update w.status a b }) (h : P w)
    (hrun : _forwardCalls keccak256 env w args = .ok w') : P w' := by
  induction args generalizing w with
  | nil =>
    obtain rfl := of_pure hrun
    exact h
  | cons x rest ih =>
    obtain ⟨target, -, w₁, hcalls, hrun⟩ := of_bind₂ hrun
    have hrest : ∀ w a b, P w → (∃ y ∈ rest, .setStatus b ∈ y.encodedData) →
        P { w with status := update w.status a b } := by
      rintro w a b hw ⟨y, hy, hb⟩
      exact hP w a b hw ⟨y, mem_cons_of_mem _ hy, hb⟩
    have hfirst : P w₁ := by
      refine forwardAll_rule (fun w a b hw hb => ?_) h hcalls
      exact hP w a b hw ⟨x, mem_cons_self, hb⟩
    exact ih hrest hfirst hrun

lemma setAndReinitializeContracts_ok { reinitialize : List ℕ} {calls : List ForwardCallInputArgs}
    (hrun : w.setAndReinitializeContracts keccak256 env contracts assets reinitialize calls =
      .ok w') :
    ∃ w₁ w₂, _setContracts keccak256 env w contracts = .ok w₁ ∧
      _setAssetStorageContracts keccak256 w₁ assets = .ok w₂ ∧
      _forwardCalls keccak256 env w₂ calls = .ok w' := by
  unfold setAndReinitializeContracts at hrun
  obtain ⟨w₁, hset, w₂, hassets, _, -, hrun⟩ := of_bind₃ hrun
  exact ⟨w₁, w₂, hset, hassets, hrun⟩

end HubWorld

open HubWorld

/-- The four removals have one shape: nothing happens for an entry that is not there, and else it is
looked up and removed. -/
lemma removal_ok {α : Type} {known : Tx Bool} {lookup : Tx α} {remove : Tx NamedContractSet}
    {put : NamedContractSet → HubWorld} {w w' : HubWorld} (hrun : (do
      let known ← known
      if known = true then do
        let _ ← lookup
        let s ← remove
        pure (put s)
      else pure w) = .ok w') : w' = w ∨ ∃ s, remove = .ok s ∧ w' = put s := by
  obtain ⟨known, -, hrun⟩ := of_bind hrun
  split at hrun
  next =>
    obtain ⟨_, -, s, hremove, hrun⟩ := of_bind₂ hrun
    exact .inr ⟨s, hremove, (of_pure hrun).symm⟩
  next => exact .inl (of_pure hrun).symm

/-- **The step lemma** of the Hub. -/
lemma HubOp.registered {op : HubOp} {w w' : HubWorld} (hkeccak : Injective keccak256)
    (h : w.Registered) (hsafe : op.Safe w) (hrun : op.run keccak256 w = .ok w') :
    w'.Registered := by
  cases op with
  | setContractAddress env name addr => exact h.setContractAddress hkeccak hrun
  | setAssetStorageAddress name addr => exact (h.setAssetStorageAddress hkeccak hrun).1
  | removeContractByName name =>
    rcases removal_ok hrun with rfl | ⟨s, hremove, rfl⟩
    · exact h
    · exact ⟨h.contracts.removeName hkeccak hsafe hremove, h.assets⟩
  | removeContractByAddress addr =>
    rcases removal_ok hrun with rfl | ⟨s, hremove, rfl⟩
    · exact h
    · exact ⟨h.contracts.removeAddress hsafe hremove, h.assets⟩
  | removeAssetStorageByName name =>
    rcases removal_ok hrun with rfl | ⟨s, hremove, rfl⟩
    · exact h
    · exact ⟨h.contracts, h.assets.removeName hkeccak hsafe hremove⟩
  | removeAssetStorageByAddress addr =>
    rcases removal_ok hrun with rfl | ⟨s, hremove, rfl⟩
    · exact h
    · exact ⟨h.contracts, h.assets.removeAddress hsafe hremove⟩
  | forwardCall env target data =>
    obtain rfl | ⟨status, -, rfl⟩ := forwardCall_ok hrun
    · exact h
    · exact ⟨h.contracts, h.assets⟩
  | setAndReinitializeContracts env contracts assets reinitialize calls =>
    obtain ⟨w₁, w₂, hset, hassets, hcalls⟩ := setAndReinitializeContracts_ok hrun
    have h₁ := h.setContracts hkeccak hset
    have h₂ := (h₁.setAssetStorageContracts hkeccak hassets).1
    exact _forwardCalls_rule (fun w a b hw _ => ⟨hw.contracts, hw.assets⟩) h₂ hcalls

lemma HubHistory.exec_ok {h h' : HubHistory} {op : HubOp} (hrun : h.exec keccak256 op = .ok h') :
    op.run keccak256 h.world = .ok h'.world ∧
    h'.everRegistered = h.everRegistered ++ op.registers.map NamedContract.addr := by
  obtain ⟨world, hworld, rfl⟩ := of_bind_pure hrun
  exact ⟨hworld, rfl⟩

lemma hub_registered (hkeccak : Injective keccak256) {h : HubHistory}
    (hr : ((hubMachine keccak256).restrict fun h op => op.Safe h.world).Reachable h) :
    h.world.Registered := by
  induction hr with
  | init hinit =>
    rw [show _ = (⟨empty, []⟩ : HubHistory) from hinit]
    exact ⟨Pointed.empty, Pointed.empty⟩
  | step _ hstep ih =>
    exact HubOp.registered hkeccak ih hstep.1 (HubHistory.exec_ok hstep.2).1

/-- In every run that never removes the last of several entries, the registry is in order: no name
and no address is listed twice, the tables are right, and what is not listed can be looked up and
appended. So the Hub answers `isContract` for every address, and registers a contract that it has
removed again. -/
theorem named_set_representation (hkeccak : Function.Injective keccak256) :
    (∀ s, ((namedSetMachine keccak256).restrict fun s op => op.Safe s).Reachable s →
      s.Sound keccak256) ∧
    ∀ h, ((hubMachine keccak256).restrict fun h op => op.Safe h.world).Reachable h →
      ∀ addr, h.world.isContract addr = .ok (decide (addr ∈ h.world.contractSet.addresses)) ∧
      ∀ env name, name ≠ [] → addr ≠ 0 → name ∉ h.world.contractSet.names →
        addr ∉ h.world.contractSet.addresses →
        ∃ w, h.world._setContractAddress keccak256 env name addr = .ok w := by
  refine ⟨fun s hs => (namedSet_pointed hkeccak hs).sound hkeccak, fun h hr addr => ?_⟩
  have hset := (hub_registered hkeccak hr).contracts
  refine ⟨hset.existsAddress_eq addr, fun env name hname haddr hnew hfree => ?_⟩
  obtain ⟨appended, happend⟩ := (hset.sound hkeccak).append name addr hname haddr hnew hfree
  refine ⟨({ h.world with contractSet := appended } : HubWorld).trySetStatus env addr true, ?_⟩
  unfold _setContractAddress
  rw [(hset.sound hkeccak).absentName name hnew]
  simp [bind, Except.bind, happend, pure, Except.pure]

/-- Every address has code that takes `setStatus`, and initializes. -/
def allDeployed : Deployed := ⟨fun _ => true, fun _ => true, fun _ => true⟩

/-- The middle one of three contracts is removed and registered again. -/
theorem named_set_representation_middle :
    Function.Injective (id : List UInt8 → List UInt8) ∧
    ∃ s, ((namedSetMachine id).restrict fun s op => op.Safe s).Reachable s ∧
      s.contractList = [⟨[1], 11⟩, ⟨[3], 13⟩, ⟨[2], 12⟩] ∧ s.Sound id := by
  obtain ⟨s, hrun, hs⟩ := exists_of_succeeds
    (x := Machine.runList
      (Machine.guarded (fun (s : NamedContractSet) (op : NamedSetOp) => op.Safe s)
        Revert.abiDecode fun s op => op.run id s)
      [.append [1] 11, .append [2] 12, .append [3] 13, .removeName [2], .append [2] 12]
      NamedContractSet.empty)
    (t := fun s => decide (s.contractList = [⟨[1], 11⟩, ⟨[3], 13⟩, ⟨[2], 12⟩]))
    (by decide +kernel)
  have hr := Machine.Reachable.runList
    (Machine.restrict_of_guarded (M := namedSetMachine id) fun _ _ _ h => h) (.init rfl) hrun
  exact ⟨injective_id, s, hr, of_decide_eq_true hs, (named_set_representation injective_id).1 s hr⟩

lemma NamedContractSet.not_sound_of_panic {addr : ℕ} (hlist : addr ∉ s.addresses)
    (hpanic : s.existsAddress addr = .error .panic) : ¬ s.Sound keccak256 := by
  intro hsound
  rw [hsound.absentAddress addr hlist] at hpanic
  cases hpanic

/-- Two contracts are registered and the second is removed by its name: its address is not listed,
but the lookup of it panics and it cannot be appended. The same in the Hub. -/
theorem removed_last_address_is_stuck :
    (∃ s, (namedSetMachine id).Reachable s ∧ s.contractList = [⟨[1], 11⟩] ∧
      s.existsAddress 12 = .error .panic ∧
      s.append id [2] 12 = .error .addressAlreadyInSet ∧ ¬ s.Sound id) ∧
    ∃ h, (hubMachine id).Reachable h ∧ h.world.contractSet.contractList = [⟨[1], 11⟩] ∧
      h.world.isContract 12 = .error .panic ∧
      h.world._setContractAddress id allDeployed [2] 12 = .error .addressAlreadyInSet := by
  constructor
  · obtain ⟨s, hrun, hs⟩ := exists_of_succeeds
      (x := Machine.runList (fun s (op : NamedSetOp) => op.run id s)
        [.append [1] 11, .append [2] 12, .removeName [2]] NamedContractSet.empty)
      (t := fun s => decide (s.contractList = [⟨[1], 11⟩]) &&
        fails (s.existsAddress 12) .panic && fails (s.append id [2] 12) .addressAlreadyInSet)
      (by decide +kernel)
    have hr : (namedSetMachine id).Reachable s :=
      Machine.Reachable.runList (fun _ _ _ h => h) (.init rfl) hrun
    simp only [Bool.and_eq_true, decide_eq_true_eq] at hs
    obtain ⟨⟨hlist, hlookup⟩, happend⟩ := hs
    have hpanic := eq_error_of_fails hlookup
    exact ⟨s, hr, hlist, hpanic, eq_error_of_fails happend,
      not_sound_of_panic (by simp [NamedContractSet.addresses, hlist]) hpanic⟩
  · obtain ⟨h, hrun, hs⟩ := exists_of_succeeds
      (x := Machine.runList (HubHistory.exec id)
        [.setContractAddress allDeployed [1] 11, .setContractAddress allDeployed [2] 12,
          .removeContractByName [2]]
        ⟨HubWorld.empty, []⟩)
      (t := fun h => decide (h.world.contractSet.contractList = [⟨[1], 11⟩]) &&
        fails (h.world.isContract 12) .panic &&
        fails (h.world._setContractAddress id allDeployed [2] 12) .addressAlreadyInSet)
      (by decide +kernel)
    have hr : (hubMachine id).Reachable h :=
      Machine.Reachable.runList (fun _ _ _ h => h) (.init rfl) hrun
    simp only [Bool.and_eq_true, decide_eq_true_eq] at hs
    obtain ⟨⟨hlist, hlookup⟩, happend⟩ := hs
    exact ⟨h, hr, hlist, eq_error_of_fails hlookup, eq_error_of_fails happend⟩

end Dkg
