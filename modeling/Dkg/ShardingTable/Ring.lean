import Dkg.ShardingTable.Loops

/-! # The table is a sorted list of the inserted nodes

`Ring` relates the storage to the list of identity ids that it stands for: slots, index fields and
node objects all follow from the list. An insertion at a slot refines the insertion into the
list, a removal refines the removal from it, and the order by ring position is kept.
-/

namespace Dkg

open Function (update update_of_ne update_self)

open Lib ShardingTableStorage ShardingTable List

variable {sha256 : List UInt8 → ℕ} {t : ShardingTableStorage}
  {members : ℕ → Option (List UInt8)} {L A P : List ℕ} {identityId gas : ℕ}
  {nodeId : List UInt8}

/-- The storage stands for the list `L` of the inserted identities. -/
structure Ring (sha256 : List UInt8 → ℕ) (t : ShardingTableStorage)
    (members : ℕ → Option (List UInt8)) (L : List ℕ) : Prop where
  count : t.nodesCount = L.length
  fits : L.length < 2 ^ 72
  slots : Slots 0 t.indexToIdentityId L
  nodup : L.Nodup
  nonzero : 0 ∉ L
  listed : ∀ id, id ∈ L ↔ members id ≠ none
  node : ∀ i id nodeId, L[i]? = some id → members id = some nodeId →
    t.nodes id = ⟨sha256 nodeId, nodeId, i, id⟩
  absent : ∀ id, members id = none → t.nodes id = Node.zero
  sorted : L.Pairwise fun a b => (t.nodes a).hashRingPosition ≤ (t.nodes b).hashRingPosition

namespace Ring

lemma empty : Ring sha256 empty (fun _ => none) [] where
  count := rfl
  fits := by norm_num
  slots := fun _ => rfl
  nodup := nodup_nil
  nonzero := not_mem_nil
  listed := by simp
  node := by simp
  absent := fun _ _ => rfl
  sorted := List.Pairwise.nil

section

variable (h : Ring sha256 t members L)

include h

/-- The node object of the identity in a slot. -/
lemma identityId_of_mem {id : ℕ} (hmem : id ∈ L) : (t.nodes id).identityId = id := by
  obtain ⟨i, hi⟩ := mem_iff_getElem?.mp hmem
  obtain ⟨nodeId, hnode⟩ := Option.ne_none_iff_exists'.mp ((h.listed id).mp hmem)
  rw [h.node i id nodeId hi hnode]

lemma zero_of_not_mem {id : ℕ} (hmem : id ∉ L) : t.nodes id = Node.zero := by
  apply h.absent
  by_contra hsome
  exact hmem ((h.listed id).mpr hsome)

lemma nodeExists_iff (id : ℕ) : t.nodeExists id ↔ id ∈ L := by
  unfold nodeExists
  constructor
  · intro hexists
    by_contra hmem
    rw [h.zero_of_not_mem hmem] at hexists
    exact hexists rfl
  · intro hmem hzero
    rw [h.identityId_of_mem hmem] at hzero
    exact h.nonzero (hzero ▸ hmem)

lemma slot_eq {i id : ℕ} (hi : L[i]? = some id) : t.indexToIdentityId i = id := by
  rw [h.slots i, getD_eq_getElem?_getD, hi]
  rfl

lemma sortedTable : SortedTable t := by
  intro i j hij hj
  rw [h.count] at hj
  rcases Nat.eq_or_lt_of_le hij with rfl | hlt
  · exact le_rfl
  · unfold getHashRingPositionByIndex getNodeByIndex
    rw [h.slot_eq (getElem?_eq_getElem hj),
      h.slot_eq (getElem?_eq_getElem (show i < L.length by omega))]
    exact pairwise_iff_getElem.mp h.sorted i j (by omega) hj hlt

end

variable (h : Ring sha256 t members (A ++ P))

include h

/-- A split of the slots is a split of the list. -/
lemma places {pos : ℕ} (hsplit : SplitsAt t pos A.length) :
    (∀ a ∈ A, (t.nodes a).hashRingPosition ≤ pos) ∧
    ∀ b ∈ P, pos ≤ (t.nodes b).hashRingPosition := by
  constructor
  · intro a ha
    obtain ⟨i, hi, rfl⟩ := mem_iff_getElem.mp ha
    have hget : (A ++ P)[i]? = some A[i] := by
      rw [getElem?_append_left hi, getElem?_eq_getElem hi]
    have := hsplit.before i hi
    rwa [getHashRingPositionByIndex, getNodeByIndex, h.slot_eq hget] at this
  · intro b hb
    obtain ⟨i, hi, rfl⟩ := mem_iff_getElem.mp hb
    have hget : (A ++ P)[A.length + i]? = some P[i] := by
      rw [getElem?_append_right (Nat.le_add_right _ _), Nat.add_sub_cancel_left,
        getElem?_eq_getElem hi]
    have hcount := h.count
    rw [length_append] at hcount
    have := hsplit.after (A.length + i) (Nat.le_add_right _ _) (by omega)
    rwa [getHashRingPositionByIndex, getNodeByIndex, h.slot_eq hget] at this

/-- The identity in the slot of the split. -/
lemma next_identityId : (t.getNodeByIndex A.length).identityId = P.getD 0 0 := by
  have hslot : t.indexToIdentityId A.length = P.getD 0 0 := h.slots.get_add 0
  rw [getNodeByIndex, hslot]
  cases P with
  | nil =>
    rw [getD_nil, h.zero_of_not_mem h.nonzero]
    rfl
  | cons x P =>
    rw [getD_cons_zero]
    exact h.identityId_of_mem (mem_append_right _ mem_cons_self)

/-! ## The checks of `_insertNode` -/

/-- The two checks of `_insertNode` say that the index splits the table. -/
lemma splitsAt_iff {pos : ℕ} : SplitsAt t pos A.length ↔
      (A.length ≠ 0 → ¬ pos < t.getHashRingPositionByIndex (A.length - 1)) ∧
      ¬ ((t.getNodeByIndex A.length).identityId ≠ 0 ∧
        pos > (t.getNodeByIndex A.length).hashRingPosition) := by
  have hcount := h.count
  rw [length_append] at hcount
  constructor
  · intro hsplit
    refine ⟨fun hne => Nat.not_lt.mpr (hsplit.before _ (by omega)), ?_⟩
    rintro ⟨hnext, hpos⟩
    rw [h.next_identityId] at hnext
    have hP : P ≠ [] := by
      rintro rfl
      exact hnext rfl
    have hlen := length_pos_of_ne_nil hP
    have := hsplit.after A.length le_rfl (by omega)
    unfold getHashRingPositionByIndex at this
    omega
  · rintro ⟨hprev, hnext⟩
    refine ⟨by omega, ?_, ?_⟩
    · intro j hj
      have hsorted := h.sortedTable j (A.length - 1) (by omega) (by omega)
      have := hprev (by omega)
      omega
    · intro j hj hjn
      have hsorted := h.sortedTable A.length j hj hjn
      have hne : (t.getNodeByIndex A.length).identityId ≠ 0 := by
        rw [h.next_identityId]
        cases P with
        | nil =>
          rw [length_nil] at hcount
          omega
        | cons x P =>
          rw [getD_cons_zero]
          rintro rfl
          exact h.nonzero (mem_append_right _ mem_cons_self)
      have hpos : ¬ pos > (t.getNodeByIndex A.length).hashRingPosition :=
        fun hgt => hnext ⟨hne, hgt⟩
      unfold getHashRingPositionByIndex at hsorted ⊢
      omega

end Ring

/-! ## Insertion and removal -/

/-- The table with a new node at the slot `k`; `P` are the nodes from that slot on. -/
def inserted (t : ShardingTableStorage) (k identityId : ℕ) (P : List ℕ) (nodeId : List UInt8)
    (pos : ℕ) : ShardingTableStorage where
  nodesCount := t.nodesCount + 1
  nodes := reindex (· + 1) (update t.nodes identityId ⟨pos, nodeId, k, identityId⟩) P
  indexToIdentityId := fun j =>
    if j ≤ k then update t.indexToIdentityId k identityId j else P.getD (j - k - 1) 0

/-- The table without the node at the slot `k`; `P` are the nodes after it. -/
def removed (t : ShardingTableStorage) (k identityId : ℕ) (P : List ℕ) : ShardingTableStorage where
  nodesCount := t.nodesCount - 1
  nodes := update (reindex (· - 1) t.nodes P) identityId Node.zero
  indexToIdentityId := fun j => if j < k then t.indexToIdentityId j else P.getD (j - k) 0

section

variable {k pos id : ℕ}

lemma inserted_nodes_self (hP : identityId ∉ P) :
    (inserted t k identityId P nodeId pos).nodes identityId = ⟨pos, nodeId, k, identityId⟩ := by
  simp [inserted, reindex, hP]

variable (hx : id ≠ identityId)

include hx

lemma inserted_nodes_of_notMem (hP : id ∉ P) :
    (inserted t k identityId P nodeId pos).nodes id = t.nodes id := by
  simp [inserted, reindex, hx, hP]

lemma inserted_nodes_of_mem (hP : id ∈ P) : (inserted t k identityId P nodeId pos).nodes id
      = { t.nodes id with index := (t.nodes id).index + 1 } := by
  simp [inserted, reindex, hx, hP]

lemma inserted_position : ((inserted t k identityId P nodeId pos).nodes id).hashRingPosition
      = (t.nodes id).hashRingPosition := by
  by_cases hP : id ∈ P
  · rw [inserted_nodes_of_mem hx hP]
  · rw [inserted_nodes_of_notMem hx hP]

omit hx in
lemma removed_nodes_self : (removed t k identityId P).nodes identityId = Node.zero := by
  simp [removed]

lemma removed_nodes_of_notMem (hP : id ∉ P) : (removed t k identityId P).nodes id = t.nodes id := by
  simp [removed, reindex, hx, hP]

lemma removed_nodes_of_mem (hP : id ∈ P) : (removed t k identityId P).nodes id
      = { t.nodes id with index := (t.nodes id).index - 1 } := by
  simp [removed, reindex, hx, hP]

lemma removed_position :
    ((removed t k identityId P).nodes id).hashRingPosition = (t.nodes id).hashRingPosition := by
  by_cases hP : id ∈ P
  · rw [removed_nodes_of_mem hx hP]
  · rw [removed_nodes_of_notMem hx hP]

end

lemma sorted_congr {nodes nodes' : ℕ → Node}
    (hpos : ∀ id ∈ L, (nodes' id).hashRingPosition = (nodes id).hashRingPosition)
    (hsorted : L.Pairwise fun a b => (nodes a).hashRingPosition ≤ (nodes b).hashRingPosition) :
    L.Pairwise fun a b => (nodes' a).hashRingPosition ≤ (nodes' b).hashRingPosition := by
  apply hsorted.imp_of_mem
  intro a b ha hb hab
  rw [hpos a ha, hpos b hb]
  exact hab

namespace Ring

section

variable (h : Ring sha256 t members (A ++ P))

include h

variable (hid : identityId ∉ A ++ P)

include hid

lemma _insertNode_eq {pos : ℕ} (hsplit : SplitsAt t pos A.length) :
    _insertNode gas t A.length identityId nodeId pos
      = if t.nodesCount + 1 < 2 ^ 72 then
          if P.length < gas then .ok (inserted t A.length identityId P nodeId pos)
          else .error .outOfGas
        else .error .panic := by
  obtain ⟨hprev, hnext⟩ := h.splitsAt_iff.mp hsplit
  have hnew : ¬ t.nodeExists identityId := fun hexists => hid ((h.nodeExists_iff _).mp hexists)
  set t₁ := (t.createNodeObject pos nodeId identityId A.length).setIdentityId A.length identityId
    with ht₁
  have hchecks : _insertNode gas t A.length identityId nodeId pos
      = t₁.incrementNodesCount >>= fun t => insertLoop gas t A.length (P.getD 0 0) := by
    unfold _insertNode
    rw [require_pos hnew, require_pos hprev]
    simp only [require_pos hnext]
    rw [h.next_identityId]
    rfl
  rw [hchecks]
  by_cases hfits : t.nodesCount + 1 < 2 ^ 72
  · have hfits₁ : t₁.nodesCount + 1 < 2 ^ 72 := hfits
    rw [if_pos hfits, incrementNodesCount_eq hfits₁]
    simp only [bind, Except.bind, ht₁, createNodeObject, setIdentityId]
    have hcount := h.count
    rw [length_append] at hcount
    have hnodup := h.nodup
    rw [nodup_append] at hnodup
    rw [insertLoop_eq P]
    · rfl
    · exact fun hnull => h.nonzero (mem_append_right _ hnull)
    · exact hnodup.2.1
    · intro m
      simp only
      rw [update_of_ne (by omega), Nat.add_assoc, h.slots.get_add, Nat.add_comm 1 m]
    · omega
    · intro id hmem
      have hne : id ≠ identityId := fun heq => hid (mem_append_right _ (heq ▸ hmem))
      simp only [update_of_ne hne]
      -- an index field is the position in the list
      obtain ⟨i, hi⟩ := mem_iff_getElem?.mp (mem_append_right A hmem)
      obtain ⟨nid, hnid⟩ := Option.ne_none_iff_exists'.mp
        ((h.listed id).mp (mem_append_right A hmem))
      have hlt := (List.getElem?_eq_some_iff.mp hi).1
      rw [length_append] at hlt
      rw [h.node i id nid hi hnid]
      simp only
      omega
  · have hfull₁ : ¬ t₁.nodesCount + 1 < 2 ^ 72 := hfits
    rw [if_neg hfits, incrementNodesCount_full hfull₁]
    rfl

/-- Behind the slot of the new node every index field grows by one, as the place does. -/
lemma inserted_node {i id : ℕ} {nid : List UInt8} (hi : (A ++ identityId :: P)[i]? = some id)
    (hnid : update members identityId (some nodeId) id = some nid) :
    (Dkg.inserted t A.length identityId P nodeId (sha256 nodeId)).nodes id
      = ⟨sha256 nid, nid, i, id⟩ := by
  obtain ⟨hA, hP⟩ : identityId ∉ A ∧ identityId ∉ P := by simpa using hid
  obtain ⟨-, -, hdisjoint⟩ := nodup_append.mp h.nodup
  rcases Nat.lt_trichotomy i A.length with hlt | rfl | hgt
  · rw [getElem?_append_left hlt] at hi
    have hmem := mem_of_getElem? hi
    have hx : id ≠ identityId := fun heq => hA (heq ▸ hmem)
    rw [update_of_ne hx] at hnid
    rw [inserted_nodes_of_notMem hx fun hmemP => hdisjoint id hmem id hmemP rfl]
    exact h.node i id nid (by rw [getElem?_append_left hlt]; exact hi) hnid
  · rw [getElem?_append_right le_rfl, Nat.sub_self] at hi
    obtain rfl := Option.some.inj hi
    rw [update_self] at hnid
    obtain rfl := Option.some.inj hnid
    exact inserted_nodes_self hP
  · obtain ⟨m, rfl⟩ := Nat.exists_eq_add_of_le hgt
    rw [getElem?_append_right (by omega),
      show A.length.succ + m - A.length = m + 1 by omega, getElem?_cons_succ] at hi
    have hmem := mem_of_getElem? hi
    have hx : id ≠ identityId := fun heq => hP (heq ▸ hmem)
    rw [update_of_ne hx] at hnid
    rw [inserted_nodes_of_mem hx hmem, h.node (A.length + m) id nid
      (by rw [getElem?_append_right (by omega), Nat.add_sub_cancel_left]; exact hi) hnid]
    simp only [Node.mk.injEq, true_and, and_true]
    omega

/-- The split puts the position of the new node between the two parts. -/
lemma inserted_sorted (hsplit : SplitsAt t (sha256 nodeId) A.length) :
    (A ++ identityId :: P).Pairwise fun a b =>
      ((Dkg.inserted t A.length identityId P nodeId (sha256 nodeId)).nodes a).hashRingPosition
        ≤ ((Dkg.inserted t A.length identityId P nodeId (sha256 nodeId)).nodes b).hashRingPosition
      := by
  obtain ⟨hbefore, hafter⟩ := h.places hsplit
  have hself : (Dkg.inserted t A.length identityId P nodeId (sha256 nodeId)).nodes identityId
      = ⟨sha256 nodeId, nodeId, A.length, identityId⟩ :=
    inserted_nodes_self fun hmem => hid (mem_append_right A hmem)
  have hpos : ∀ id ∈ A ++ P,
      ((Dkg.inserted t A.length identityId P nodeId (sha256 nodeId)).nodes id).hashRingPosition
        = (t.nodes id).hashRingPosition :=
    fun id hmem => inserted_position fun heq => hid (heq ▸ hmem)
  obtain ⟨hsortA, hsortP, hcross⟩ := pairwise_append.mp (sorted_congr hpos h.sorted)
  rw [pairwise_append, pairwise_cons]
  refine ⟨hsortA, ⟨?_, hsortP⟩, ?_⟩
  · intro b hb
    rw [hself, hpos b (mem_append_right _ hb)]
    exact hafter b hb
  · intro a ha b hb
    rcases mem_cons.mp hb with rfl | hb
    · rw [hself, hpos a (mem_append_left _ ha)]
      exact hbefore a ha
    · exact hcross a ha b hb

/-- The new table stands for the list with the new identity. -/
lemma inserted (hne : identityId ≠ 0) (hfits : t.nodesCount + 1 < 2 ^ 72)
    (hsplit : SplitsAt t (sha256 nodeId) A.length) :
    Ring sha256 (inserted t A.length identityId P nodeId (sha256 nodeId))
      (update members identityId (some nodeId)) (A ++ identityId :: P) := by
  have hcount := h.count
  rw [length_append] at hcount
  constructor
  · simp only [Dkg.inserted, length_append, length_cons]
    omega
  · rw [length_append, length_cons]
    omega
  · apply h.slots.insert
    · intro j hj
      simp only [Dkg.inserted]
      rw [if_pos (by omega), update_of_ne (by omega)]
    · simp [Dkg.inserted]
    · intro m
      simp only [Dkg.inserted]
      rw [if_neg (by omega), show A.length + 1 + m - A.length - 1 = m by omega]
  · rw [nodup_middle, nodup_cons]
    exact ⟨hid, h.nodup⟩
  · have hnonzero : 0 ∉ A ∧ 0 ∉ P := by simpa using h.nonzero
    simp [hnonzero, hne.symm]
  · intro id
    have hold := h.listed id
    rw [mem_append] at hold
    by_cases hx : id = identityId
    · simp [hx]
    · rw [update_of_ne hx, ← hold, mem_append, mem_cons]
      simp [hx]
  · exact fun i id nid hi hnid => h.inserted_node hid hi hnid
  · intro id hnone
    have hx : id ≠ identityId := by
      rintro rfl
      rw [update_self] at hnone
      cases hnone
    rw [update_of_ne hx] at hnone
    rw [inserted_nodes_of_notMem hx, h.absent id hnone]
    exact fun hmem => (h.listed id).mp (mem_append_right _ hmem) hnone
  · exact h.inserted_sorted hid hsplit

end

/-- The index field of a node is its place in the list. -/
lemma index_eq (h : Ring sha256 t members L) {i id : ℕ} (hi : L[i]? = some id) :
    (t.nodes id).index = i := by
  obtain ⟨nid, hnid⟩ := Option.ne_none_iff_exists'.mp ((h.listed id).mp (mem_of_getElem? hi))
  rw [h.node i id nid hi hnid]

variable (h : Ring sha256 t members (A ++ identityId :: P))

include h

lemma removeNode_eq : removeNode gas t identityId
      = if P.length < gas then .ok (removed t A.length identityId P)
        else .error .outOfGas := by
  have hcount := h.count
  have hfits := h.fits
  rw [length_append, length_cons] at hcount hfits
  have hindex : (t.nodes identityId).index = A.length :=
    h.index_eq (by rw [getElem?_append_right le_rfl, Nat.sub_self, getElem?_cons_zero])
  have hrest : ∀ m, t.indexToIdentityId (A.length + 1 + m) = P.getD m 0 := by
    intro m
    rw [Nat.add_assoc, h.slots.get_add, Nat.add_comm 1 m, getD_cons_succ]
  have hnext : t.indexToIdentityId (A.length + 1) = P.getD 0 0 := hrest 0
  obtain ⟨-, hnodup, -⟩ := nodup_append.mp h.nodup
  have hloop : removeLoop gas t A.length (P.getD 0 0) = _ := removeLoop_eq P
    (fun hnull => h.nonzero (mem_append_right _ (mem_cons_of_mem _ hnull)))
    (nodup_cons.mp hnodup).2 hrest (by omega) (by
      intro id hid
      obtain ⟨m, hm⟩ := mem_iff_getElem?.mp hid
      rw [h.index_eq (i := A.length + 1 + m) (by
        rw [getElem?_append_right (by omega),
          show A.length + 1 + m - A.length = m + 1 by omega, getElem?_cons_succ]
        exact hm)]
      omega)
  unfold removeNode
  simp only [hindex]
  rw [addUint, if_pos (by omega)]
  simp only [bind, Except.bind, hnext, hloop]
  by_cases hgas : P.length < gas
  · have hpos : 1 ≤ t.nodesCount := by omega
    rw [if_pos hgas, if_pos hgas]
    simp only [deleteNodeObject, setIdentityId]
    rw [decrementNodesCount_eq]
    · simp only [removed, Except.ok.injEq, mk.injEq, true_and]
      -- the slot behind the last node and all later ones are null
      funext j
      by_cases hlast : j = A.length + P.length
      · rw [hlast, update_self, if_neg (by omega), Nat.add_sub_cancel_left,
          getD_eq_default _ _ le_rfl]
      · rw [update_of_ne hlast]
        rcases Nat.lt_or_ge j A.length with hj | hj
        · rw [if_neg (by omega), if_pos hj]
        · rw [if_neg (by omega : ¬ j < A.length)]
          by_cases hmid : j < A.length + P.length
          · rw [if_pos ⟨hj, hmid⟩]
          · rw [if_neg (by omega), h.slots j, getD_eq_default _ _ (by
              rw [length_append, length_cons]; omega),
              getD_eq_default _ _ (by omega)]
    · exact hpos
  · rw [if_neg hgas, if_neg hgas]

/-- Behind the slot of the removed node every index field is one less, as the place is. -/
lemma removed_node {i id : ℕ} {nid : List UInt8}
    (hi : (A ++ P)[i]? = some id) (hnid : update members identityId none id = some nid) :
    (Dkg.removed t A.length identityId P).nodes id = ⟨sha256 nid, nid, i, id⟩ := by
  obtain ⟨-, -, hdisjoint⟩ := nodup_append.mp h.nodup
  have hx : id ≠ identityId := by
    rintro rfl
    rw [update_self] at hnid
    cases hnid
  rw [update_of_ne hx] at hnid
  rcases Nat.lt_or_ge i A.length with hlt | hge
  · rw [getElem?_append_left hlt] at hi
    have hP : id ∉ P := fun hmem =>
      hdisjoint id (mem_of_getElem? hi) id (mem_cons_of_mem _ hmem) rfl
    rw [removed_nodes_of_notMem hx hP]
    exact h.node i id nid (by rw [getElem?_append_left hlt]; exact hi) hnid
  · obtain ⟨m, rfl⟩ := Nat.exists_eq_add_of_le hge
    rw [getElem?_append_right hge, Nat.add_sub_cancel_left] at hi
    rw [removed_nodes_of_mem hx (mem_of_getElem? hi), h.node (A.length + 1 + m) id nid (by
      rw [getElem?_append_right (by omega),
        show A.length + 1 + m - A.length = m + 1 by omega, getElem?_cons_succ]
      exact hi) hnid]
    simp only [Node.mk.injEq, true_and, and_true]
    omega

/-- The new table stands for the list without the identity. -/
lemma removed : Ring sha256 (removed t A.length identityId P) (update members identityId none)
      (A ++ P) := by
  have hcount := h.count
  have hfits := h.fits
  rw [length_append, length_cons] at hcount hfits
  have hsub : (A ++ P).Sublist (A ++ identityId :: P) :=
    (sublist_cons_self identityId P).append_left A
  have hid : identityId ∉ A ++ P := (nodup_cons.mp (nodup_middle.mp h.nodup)).1
  constructor
  · simp only [Dkg.removed, length_append]
    omega
  · rw [length_append]
    omega
  · apply h.slots.erase
    · intro j hj
      simp only [Dkg.removed]
      rw [if_pos hj]
    · intro m
      simp only [Dkg.removed]
      rw [if_neg (by omega), Nat.add_sub_cancel_left]
  · exact h.nodup.sublist hsub
  · exact fun hzero => h.nonzero (hsub.subset hzero)
  · intro id
    have hold := h.listed id
    rw [mem_append, mem_cons] at hold
    by_cases hx : id = identityId
    · simp [hx, hid]
    · rw [update_of_ne hx, ← hold, mem_append]
      simp [hx]
  · exact fun i id nid hi hnid => h.removed_node hi hnid
  · intro id hnone
    by_cases hx : id = identityId
    · rw [hx]
      exact removed_nodes_self
    · rw [update_of_ne hx] at hnone
      rw [removed_nodes_of_notMem hx, h.absent id hnone]
      intro hmem
      exact (h.listed id).mp (mem_append_right _ (mem_cons_of_mem _ hmem)) hnone
  · exact sorted_congr (fun id hmem => removed_position fun heq => hid (heq ▸ hmem))
      (h.sorted.sublist hsub)

end Ring

end Dkg
