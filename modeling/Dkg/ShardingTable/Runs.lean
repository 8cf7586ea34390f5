import Dkg.ShardingTable.Ring

/-! # Runs of the sharding table

In every run of guarded calls the storage stands for a list of the inserted identities, sorted by
ring position. The index of an insertion comes from the search alone; the overload with an index
from the caller has no caller among the contracts.
-/

namespace Dkg

open Function (update)
open Lib ShardingTableStorage ShardingTable List

variable {sha256 : List UInt8 → ℕ} {t t' : ShardingTableStorage}
  {members : ℕ → Option (List UInt8)} {L : List ℕ} {gas index identityId : ℕ}
  {nodeId : List UInt8}

namespace Ring

/-- An insertion at an index of the list, or at its end. -/
lemma _insertNode_ok (h : Ring sha256 t members L) (hne : identityId ≠ 0)
    (hindex : index ≤ L.length)
    (hrun : _insertNode gas t index identityId nodeId (sha256 nodeId) = .ok t') :
    ∃ A P, L = A ++ P ∧ A.length = index ∧
      t' = Dkg.inserted t index identityId P nodeId (sha256 nodeId) ∧
      Ring sha256 t' (update members identityId (some nodeId)) (A ++ identityId :: P) := by
  have hlen : (L.take index).length = index := length_take_of_le hindex
  have hsplit := take_append_drop index L
  set A := L.take index
  set P := L.drop index
  rw [← hsplit] at h
  rw [← hlen] at hrun
  -- the checks of the function are what makes the index a split
  have hrun' := hrun
  unfold _insertNode at hrun'
  obtain ⟨hnew, hprev, hrun'⟩ := of_require₂ hrun'
  obtain ⟨hnext, -⟩ := of_require hrun'
  have hat : SplitsAt t (sha256 nodeId) A.length := h.splitsAt_iff.mpr ⟨hprev, hnext⟩
  have hid : identityId ∉ A ++ P := fun hmem => hnew ((h.nodeExists_iff _).mpr hmem)
  rw [h._insertNode_eq hid hat] at hrun
  split at hrun
  next hfits =>
    split at hrun
    next =>
      cases hrun
      refine ⟨A, P, hsplit.symm, hlen, ?_, h.inserted hid hne hfits hat⟩
      rw [hlen]
    next => cases hrun
  next => cases hrun

lemma insertNode_ok (h : Ring sha256 t members L) (hne : identityId ≠ 0)
    (hrun : insertNode sha256 gas t identityId nodeId = .ok t') :
    ∃ A P, L = A ++ P ∧ _binarySearchForIndex gas t (sha256 nodeId) = .ok A.length ∧
      t' = Dkg.inserted t A.length identityId P nodeId (sha256 nodeId) ∧
      Ring sha256 t' (update members identityId (some nodeId)) (A ++ identityId :: P) := by
  obtain ⟨index, hsearch, hinsert⟩ := of_bind hrun
  have hfits : t.nodesCount < 2 ^ 72 := h.count ▸ h.fits
  have hindex : index ≤ L.length := by
    rcases _binarySearchForIndex_cases h.sortedTable hfits gas (sha256 nodeId)
      with ⟨k, hk, hsplit⟩ | ⟨hpanic, -⟩ | ⟨hgas, -⟩
    · rw [hsearch] at hk
      cases hk
      exact h.count ▸ hsplit.bound
    · rw [hsearch] at hpanic
      cases hpanic
    · rw [hsearch] at hgas
      cases hgas
  obtain ⟨A, P, hL, hlen, ht, hring⟩ := h._insertNode_ok hne hindex hinsert
  exact ⟨A, P, hL, by rw [hlen]; exact hsearch, by rw [hlen]; exact ht, hring⟩

lemma removeNode_ok (h : Ring sha256 t members L) (hmem : identityId ∈ L)
    (hrun : removeNode gas t identityId = .ok t') :
    ∃ A P, L = A ++ identityId :: P ∧ t' = Dkg.removed t A.length identityId P ∧
      Ring sha256 t' (update members identityId none) (A ++ P) := by
  obtain ⟨A, P, rfl⟩ := append_of_mem hmem
  rw [h.removeNode_eq] at hrun
  split at hrun
  next =>
    cases hrun
    exact ⟨A, P, rfl, rfl, h.removed⟩
  next => cases hrun

end Ring

lemma TableState.ring {s : TableState} (hr : (tableMachine sha256).Reachable s) :
    ∃ L, Ring sha256 s.table s.members L := by
  apply hr.invariant (P := fun s => ∃ L, Ring sha256 s.table s.members L)
  · rintro s ⟨htable, hmembers⟩
    rw [htable, hmembers]
    exact ⟨[], Ring.empty⟩
  · rintro s l s' ⟨L, h⟩ ⟨hguard, hrun, hmembers⟩
    rw [hmembers]
    cases l with
    | insertNode gas identityId nodeId =>
      obtain ⟨A, P, -, -, -, hring⟩ := h.insertNode_ok hguard.1 hrun
      exact ⟨_, hring⟩
    | removeNode gas identityId =>
      obtain ⟨A, P, -, -, hring⟩ := h.removeNode_ok ((h.nodeExists_iff _).mp hguard) hrun
      exact ⟨_, hring⟩

/-- The slots after an insertion, in terms of the slots before it. -/
lemma Ring.inserted_slots {A P : List ℕ} (h : Ring sha256 t members (A ++ P)) (pos j : ℕ) :
    (Dkg.inserted t A.length identityId P nodeId pos).indexToIdentityId j
      = if j < A.length then t.indexToIdentityId j
        else if j = A.length then identityId else t.indexToIdentityId (j - 1) := by
  simp only [Dkg.inserted]
  rcases Nat.lt_trichotomy j A.length with hlt | rfl | hgt
  · rw [if_pos (by omega), if_pos hlt, Function.update_of_ne (by omega)]
  · rw [if_pos le_rfl, if_neg (by omega), if_pos rfl, Function.update_self]
  · rw [if_neg (by omega), if_neg (by omega), if_neg (by omega)]
    have := h.slots.get_add (j - A.length - 1)
    rw [← this]
    congr 1
    omega

lemma Ring.removed_slots {A P : List ℕ} (h : Ring sha256 t members (A ++ identityId :: P)) (j : ℕ) :
    (Dkg.removed t A.length identityId P).indexToIdentityId j
      = if j < A.length then t.indexToIdentityId j else t.indexToIdentityId (j + 1) := by
  simp only [Dkg.removed]
  by_cases hlt : j < A.length
  · rw [if_pos hlt, if_pos hlt]
  · rw [if_neg hlt, if_neg hlt]
    have := h.slots.get_add (j - A.length + 1)
    rw [getD_cons_succ] at this
    rw [← this]
    congr 1
    omega

/-- The slots and the members of the table match one to one. -/
lemma Ring.bijOn (h : Ring sha256 t members L) :
    Set.BijOn t.indexToIdentityId (Set.Iio t.nodesCount) {id | members id ≠ none} := by
  rw [h.count]
  refine ⟨?_, ?_, ?_⟩
  · intro i hi
    have hget := getElem?_eq_getElem (Set.mem_Iio.mp hi)
    rw [h.slot_eq hget]
    exact (h.listed _).mp (mem_of_getElem? hget)
  · intro i hi j hj hij
    rw [h.slot_eq (getElem?_eq_getElem (Set.mem_Iio.mp hi)),
      h.slot_eq (getElem?_eq_getElem (Set.mem_Iio.mp hj))] at hij
    exact (List.Nodup.getElem_inj_iff h.nodup).mp hij
  · intro id hid
    obtain ⟨i, hi⟩ := mem_iff_getElem?.mp ((h.listed id).mpr hid)
    exact ⟨i, (List.getElem?_eq_some_iff.mp hi).1, h.slot_eq hi⟩

/-- **The sharding table.** After any sequence of guarded calls the slots below `nodesCount` and the
inserted identities match one to one and in the order of the ring, and an object has its node id,
position and index. The search splits the table, unless the sum of two indices overflows in a table
of more than `2 ^ 71` nodes. An insertion at its index and a removal move the nodes behind by
one. -/
theorem sharding_table_represents_ring (sha256 : List UInt8 → ℕ) {s : TableState}
    (hr : (tableMachine sha256).Reachable s) :
    Set.BijOn s.table.indexToIdentityId (Set.Iio s.table.nodesCount)
      {id | s.members id ≠ none} ∧
    (∀ i, s.table.nodesCount ≤ i → s.table.indexToIdentityId i = 0) ∧
    (∀ i < s.table.nodesCount, ∃ nodeId,
      s.members (s.table.indexToIdentityId i) = some nodeId ∧
      s.table.nodes (s.table.indexToIdentityId i)
        = ⟨sha256 nodeId, nodeId, i, s.table.indexToIdentityId i⟩) ∧
    (∀ id, s.members id = none → s.table.nodes id = Node.zero) ∧
    (∀ i j, i ≤ j → j < s.table.nodesCount →
      s.table.getHashRingPositionByIndex i ≤ s.table.getHashRingPositionByIndex j) ∧
    (∀ gas pos, s.table.nodesCount < gas →
      (∃ k, _binarySearchForIndex gas s.table pos = .ok k ∧ SplitsAt s.table pos k) ∨
      (_binarySearchForIndex gas s.table pos = .error .panic ∧ 2 ^ 71 < s.table.nodesCount)) ∧
    (∀ gas identityId nodeId s', tableStep sha256 s (.insertNode gas identityId nodeId) s' →
      s'.table.nodesCount = s.table.nodesCount + 1 ∧
      ∃ k, _binarySearchForIndex gas s.table (sha256 nodeId) = .ok k ∧
        SplitsAt s.table (sha256 nodeId) k ∧
        ∀ j, s'.table.indexToIdentityId j
          = if j < k then s.table.indexToIdentityId j
            else if j = k then identityId else s.table.indexToIdentityId (j - 1)) ∧
    ∀ gas identityId s', tableStep sha256 s (.removeNode gas identityId) s' →
      s'.table.nodesCount + 1 = s.table.nodesCount ∧
      ∀ j, s'.table.indexToIdentityId j
        = if j < (s.table.nodes identityId).index then s.table.indexToIdentityId j
          else s.table.indexToIdentityId (j + 1) := by
  obtain ⟨L, h⟩ := TableState.ring hr
  have hfits : s.table.nodesCount < 2 ^ 72 := h.count ▸ h.fits
  refine ⟨h.bijOn, ?_, ?_, h.absent, h.sortedTable, ?_, ?_, ?_⟩
  · intro i hi
    rw [h.slots i, getD_eq_default _ _ (h.count ▸ hi)]
  · intro i hi
    have hget := getElem?_eq_getElem (h.count ▸ hi)
    obtain ⟨nodeId, hnode⟩ := Option.ne_none_iff_exists'.mp ((h.listed _).mp (mem_of_getElem? hget))
    rw [h.slot_eq hget]
    exact ⟨nodeId, hnode, h.node i _ nodeId hget hnode⟩
  · intro gas pos hgas
    rcases _binarySearchForIndex_cases h.sortedTable hfits gas pos with hok | hpanic | hout
    · exact .inl hok
    · exact .inr hpanic
    · omega
  · rintro gas identityId nodeId s' ⟨hguard, hrun, -⟩
    obtain ⟨A, P, rfl, hsearch, ht', -⟩ := h.insertNode_ok hguard.1 hrun
    rw [ht']
    refine ⟨rfl, A.length, hsearch, ?_, fun j => h.inserted_slots _ j⟩
    rcases _binarySearchForIndex_cases h.sortedTable hfits gas (sha256 nodeId)
      with ⟨k, hk, hsplit⟩ | ⟨hpanic, -⟩ | ⟨hout, -⟩
    · rw [hsearch] at hk
      cases hk
      exact hsplit
    · rw [hsearch] at hpanic
      cases hpanic
    · rw [hsearch] at hout
      cases hout
  · rintro gas identityId s' ⟨hguard, hrun, -⟩
    obtain ⟨A, P, rfl, ht', -⟩ := h.removeNode_ok ((h.nodeExists_iff _).mp hguard) hrun
    have hindex : (s.table.nodes identityId).index = A.length :=
      h.index_eq (by rw [getElem?_append_right le_rfl, Nat.sub_self, getElem?_cons_zero])
    have hcount := h.count
    rw [length_append, length_cons] at hcount
    rw [ht', hindex]
    refine ⟨?_, fun j => h.removed_slots j⟩
    simp only [Dkg.removed]
    omega

/-- The gas for the loops of a call. -/
def TableCall.loopGas : TableCall → ℕ
  | insertNode gas _ _ | removeNode gas _ => gas

/-- **Guarded calls go through.** In every reachable table of at most `2 ^ 71` nodes, with a gas for
more rounds than there are nodes: the search does not overflow, no check refuses the index that it
finds, and the shifting loops end. -/
theorem guarded_call_succeeds {s : TableState} (hr : (tableMachine sha256).Reachable s)
    (hsize : s.table.nodesCount ≤ 2 ^ 71) {l : TableCall} (hguard : l.Guarded s.table)
    (hgas : s.table.nodesCount < l.loopGas) : ∃ t', l.run sha256 s.table = .ok t' := by
  obtain ⟨L, h⟩ := TableState.ring hr
  have hcount := h.count
  cases l with
  | insertNode gas identityId nodeId =>
    simp only [TableCall.loopGas] at hgas
    rcases _binarySearchForIndex_cases h.sortedTable (by omega) gas (sha256 nodeId)
      with ⟨k, hk, hsplit⟩ | ⟨-, hlarge⟩ | ⟨-, hout⟩
    · have hkL : k ≤ L.length := hcount ▸ hsplit.bound
      have hlen : (L.take k).length = k := length_take_of_le hkL
      rw [← take_append_drop k L] at h
      rw [← hlen] at hk hsplit
      have hid : identityId ∉ L.take k ++ L.drop k :=
        fun hmem => hguard.2.2 ((h.nodeExists_iff _).mpr hmem)
      have hinsert : _insertNode gas s.table (L.take k).length identityId nodeId
          (sha256 nodeId) = _ := h._insertNode_eq hid hsplit
      rw [if_pos (by omega), if_pos (by rw [length_drop]; omega)] at hinsert
      exact ⟨_, bind_eq_ok.mpr ⟨_, hk, hinsert⟩⟩
    · omega
    · omega
  | removeNode gas identityId =>
    simp only [TableCall.loopGas] at hgas
    obtain ⟨A, P, rfl⟩ := append_of_mem ((h.nodeExists_iff _).mp hguard)
    rw [length_append, length_cons] at hcount
    have hremove : removeNode gas s.table identityId = _ := h.removeNode_eq
    rw [if_pos (by omega)] at hremove
    exact ⟨_, hremove⟩

/-! ## Three nodes -/

/-- A ring on which the position of a node can be read off its id. -/
def byteSum (bytes : List UInt8) : ℕ := (bytes.map UInt8.toNat).sum

/-- What a run of calls on the empty table leads to, with a test of it that can be evaluated. -/
lemma exists_table (calls : List TableCall) (t : TableState → Bool)
    (h : succeeds (Machine.runList (tableExec byteSum) calls
      ⟨ShardingTableStorage.empty, fun _ => none⟩) t = true) :
    ∃ s, (tableMachine byteSum).Reachable s ∧ t s = true := by
  obtain ⟨s, hrun, ht⟩ := exists_of_succeeds h
  exact ⟨s, Machine.Reachable.runList (tableStep_of_exec _) (.init ⟨rfl, rfl⟩) hrun, ht⟩

/-- Among the nodes 13, 11 and 12 at the positions 2, 5 and 9, one at the position 7 gets the index
2, and the one in the middle is removed; the gas is for four rounds. -/
theorem guarded_call_succeeds_middle : ∃ s, (tableMachine byteSum).Reachable s ∧
    [0, 1, 2].map s.table.indexToIdentityId = [13, 11, 12] ∧
    _binarySearchForIndex 4 s.table 7 = .ok 2 ∧
    (∃ t', (TableCall.insertNode 4 14 [7]).run byteSum s.table = .ok t') ∧
    ∃ t', (TableCall.removeNode 4 11).run byteSum s.table = .ok t' := by
  obtain ⟨s, hr, ht⟩ := exists_table
    [.insertNode 9 11 [5], .insertNode 9 12 [9], .insertNode 9 13 [2]]
    (fun s => decide (s.table.nodesCount = 3 ∧
      [0, 1, 2].map s.table.indexToIdentityId = [13, 11, 12] ∧
      _binarySearchForIndex 4 s.table 7 = .ok 2 ∧
      (TableCall.insertNode 4 14 [7]).Guarded s.table ∧
      (TableCall.removeNode 4 11).Guarded s.table))
    (by decide +kernel)
  obtain ⟨hcount, hslots, hsearch, hinsert, hremove⟩ := of_decide_eq_true ht
  refine ⟨s, hr, hslots, hsearch, guarded_call_succeeds hr ?_ hinsert ?_,
    guarded_call_succeeds hr ?_ hremove ?_⟩
  all_goals
    rw [hcount]
    decide

/-- Three nodes at the positions 5, 9 and 2, and the one in the middle removed. -/
theorem sharding_table_represents_ring_three : ∃ s, (tableMachine byteSum).Reachable s ∧
    s.table.nodesCount = 2 ∧ s.table.indexToIdentityId 0 = 13 ∧
    s.table.indexToIdentityId 1 = 12 ∧
    Set.BijOn s.table.indexToIdentityId (Set.Iio s.table.nodesCount)
      {id | s.members id ≠ none} := by
  obtain ⟨s, hr, ht⟩ := exists_table
    [.insertNode 9 11 [5], .insertNode 9 12 [9], .insertNode 9 13 [2], .removeNode 9 11]
    (fun s => decide (s.table.nodesCount = 2 ∧ s.table.indexToIdentityId 0 = 13 ∧
      s.table.indexToIdentityId 1 = 12))
    (by decide +kernel)
  obtain ⟨hcount, hfirst, hsecond⟩ := of_decide_eq_true ht
  exact ⟨s, hr, hcount, hfirst, hsecond, (sharding_table_represents_ring _ hr).1⟩

end Dkg
