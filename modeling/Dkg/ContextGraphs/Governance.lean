import Dkg.ContextGraphs.Model

/-! # Governance of a context graph

Each setter of the storage checks the field it writes, against the fields that are there. `Sound`
is the joint condition on the terms of one graph, and `withTerms` writes all terms of a graph at
once. Every write of the storage is a `withTerms` after a change of the token or of the `active`
flag, so one lemma, `Governed.written`, carries the condition through all of them.
-/

namespace Dkg

open Function (update)
open Lib List

/-- What the storage holds about how a graph is governed. -/
structure GraphTerms where
  requiredSignatures : ℕ
  (hostingNodes participantAgents : List ℕ)
  (publishPolicy publishAuthority publishAuthorityAccountId : ℕ)

/-- The conditions on the terms of a graph. Policy `0` is curated, policy `1` is open. -/
structure GraphTerms.Sound (t : GraphTerms) : Prop where
  quorum : 0 < t.requiredSignatures ∧ t.requiredSignatures ≤ t.hostingNodes.length
  ascending : t.hostingNodes.Pairwise (· < ·)
  agents : t.participantAgents.Nodup
  policy : t.publishPolicy ≤ 1
  curated : t.publishPolicy = 0 → t.publishAuthority ≠ 0
  opened : t.publishPolicy ≠ 0 → t.publishAuthority = 0 ∧ t.publishAuthorityAccountId = 0

namespace ContextGraphStorage

variable {s s₁ s' : ContextGraphStorage} {id contextGraphId kcId : ℕ} {t : GraphTerms}

def terms (s : ContextGraphStorage) (id : ℕ) : GraphTerms where
  requiredSignatures := (s.contextGraphs id).requiredSignatures
  hostingNodes := s.hostingNodes id
  participantAgents := s.participantAgents id
  publishPolicy := (s.contextGraphs id).publishPolicy
  publishAuthority := (s.contextGraphs id).publishAuthority
  publishAuthorityAccountId := s.publishAuthorityAccountId id

def withTerms (s : ContextGraphStorage) (id : ℕ) (t : GraphTerms) : ContextGraphStorage :=
  { s.setGraph id { s.contextGraphs id with
      requiredSignatures := t.requiredSignatures
      publishPolicy := t.publishPolicy
      publishAuthority := t.publishAuthority } with
    hostingNodes := update s.hostingNodes id t.hostingNodes
    participantAgents := update s.participantAgents id t.participantAgents
    publishAuthorityAccountId :=
      update s.publishAuthorityAccountId id t.publishAuthorityAccountId }

lemma terms_withTerms (s : ContextGraphStorage) (id : ℕ) (t : GraphTerms) (j : ℕ) :
    (s.withTerms id t).terms j = if j = id then t else s.terms j := by
  by_cases hj : j = id
  · simp [terms, withTerms, setGraph, hj]
  · simp [terms, withTerms, setGraph, hj]

lemma active_withTerms (s : ContextGraphStorage) (id : ℕ) (t : GraphTerms) (j : ℕ) :
    ((s.withTerms id t).contextGraphs j).active = (s.contextGraphs j).active := by
  by_cases hj : j = id
  · simp [withTerms, setGraph, hj]
  · simp [withTerms, setGraph, hj]

@[simp] lemma withTerms_terms (s : ContextGraphStorage) (id : ℕ) :
    s.withTerms id (s.terms id) = s := by
  simp [terms, withTerms, setGraph]

/-! ## The loops -/

variable {nodes l : List ℕ} {u : Unit}
  {policy authority account j receiver owner_ required metadata agent sender : ℕ} {b : Block}

/-- The check of the hosting nodes passes only ascending lists. -/
lemma validateLoop_ok {prev : ℕ} (h : validateLoop prev nodes = .ok u) :
    (prev :: nodes).IsChain (· < ·) := by
  induction nodes generalizing prev with
  | nil => exact isChain_singleton prev
  | cons current rest ih =>
    rw [validateLoop] at h
    obtain ⟨_, -, _, hlt, h⟩ := of_bind₂ h
    rw [require_eq_ok, Nat.not_le] at hlt
    exact isChain_cons_cons.mpr ⟨hlt, ih h⟩

lemma _validateHostingNodes_ok (h : _validateHostingNodes nodes = .ok u) :
    nodes.Pairwise (· < ·) := by
  have hchain := isChain_iff_pairwise.mp (validateLoop_ok h)
  exact (pairwise_cons.mp hchain).2

/-- The loop over the agents stores all of them, and passes only lists without duplicates. -/
lemma storeAgents_ok {before agents stored out : List ℕ}
    (h : storeAgents before agents stored = .ok out) :
    out = stored ++ agents ∧ agents.Nodup ∧ ∀ a ∈ agents, a ∉ before := by
  induction agents generalizing before stored with
  | nil =>
    rw [storeAgents, pure_eq_ok] at h
    simp [← h]
  | cons agent rest ih =>
    rw [storeAgents] at h
    obtain ⟨_, -, h⟩ := of_bind h
    obtain ⟨hnew, h⟩ := of_require h
    obtain ⟨hout, hnodup, hbefore⟩ := ih h
    have hrest : agent ∉ rest := fun hmem => hbefore agent hmem (by simp)
    refine ⟨by simp [hout], nodup_cons.mpr ⟨hrest, hnodup⟩, ?_⟩
    exact forall_mem_cons.mpr ⟨hnew, fun a hmem hb => hbefore a hmem (mem_append_left _ hb)⟩

lemma checkPolicy_ok (h : checkPolicy policy authority account = .ok u) :
    (policy = 0 → authority ≠ 0) ∧ (policy ≠ 0 → authority = 0 ∧ account = 0) := by
  unfold checkPolicy at h
  split at h
  next hpolicy =>
    rw [require_eq_ok] at h
    exact ⟨fun _ => h, fun hne => absurd hpolicy hne⟩
  next hpolicy =>
    obtain ⟨_, hauthority, haccount⟩ := of_bind h
    rw [require_eq_ok] at hauthority haccount
    exact ⟨fun h0 => absurd h0 hpolicy, fun _ => ⟨hauthority, haccount⟩⟩

/-- Copying the next entry into a slot and dropping that next entry drops the slot. -/
lemma set_next_eraseIdx (hj : j + 1 < l.length) :
    (l.set j (l.getD (j + 1) 0)).eraseIdx (j + 1) = l.eraseIdx j := by
  apply ext_getElem?
  intro i
  simp only [getElem?_eraseIdx, getElem?_set]
  grind

/-- The shift over a slot removes it. -/
lemma dropLast_shiftLeft {steps : ℕ} (h : l.length = j + steps + 1) :
    (shiftLeft l j steps).dropLast = l.eraseIdx j := by
  induction steps generalizing l j with
  | zero =>
    rw [shiftLeft]
    exact (eraseIdx_eq_dropLast h.symm).symm
  | succ steps ih =>
    rw [shiftLeft, ih (by rw [length_set]; omega)]
    exact set_next_eraseIdx (by omega)

/-! ## The invariant -/

/-- Nothing is written at an id that has no token. -/
structure Blank (s : ContextGraphStorage) (id : ℕ) : Prop where
  hostingNodes : s.hostingNodes id = []
  participantAgents : s.participantAgents id = []
  account : s.publishAuthorityAccountId id = 0
  active : (s.contextGraphs id).active = false
  approval : s.tokenApproval id = 0

/-- The collections of the graphs, in both directions. -/
structure KCTables (s : ContextGraphStorage) : Prop where
  listed : ∀ kc cg, cg ≠ 0 → (s.kcToContextGraph kc = cg ↔ kc ∈ s.contextGraphKCList cg)
  none : s.contextGraphKCList 0 = []
  nodup : ∀ cg, (s.contextGraphKCList cg).Nodup

/-- The invariant of the contract. -/
structure Governed (s : ContextGraphStorage) : Prop where
  sound : ∀ id, s.owner id ≠ 0 → (s.terms id).Sound
  blank : ∀ id, s.owner id = 0 → s.Blank id
  zero : s.owner 0 = 0
  operator : ∀ x, s.operatorApproval 0 x = false
  tables : s.KCTables

/-- Nothing but what belongs to one graph is changed. -/
structure Outside (id : ℕ) (s s' : ContextGraphStorage) : Prop where
  terms : ∀ j, j ≠ id → s'.terms j = s.terms j
  active : ∀ j, j ≠ id → (s'.contextGraphs j).active = (s.contextGraphs j).active
  owner : ∀ j, j ≠ id → s'.owner j = s.owner j
  approval : ∀ j, j ≠ id → s'.tokenApproval j = s.tokenApproval j
  operator : s'.operatorApproval = s.operatorApproval
  kcToContextGraph : s'.kcToContextGraph = s.kcToContextGraph
  contextGraphKCList : s'.contextGraphKCList = s.contextGraphKCList

lemma Outside.refl (id : ℕ) (s : ContextGraphStorage) : Outside id s s := by
  constructor <;> intros <;> rfl

lemma Governed.empty : Governed ContextGraphStorage.empty where
  sound := fun _ h => absurd rfl h
  blank := fun _ _ => ⟨rfl, rfl, rfl, rfl, rfl⟩
  zero := rfl
  operator := fun _ => rfl
  tables := {
    listed := fun kc cg hcg => by simpa [ContextGraphStorage.empty] using hcg.symm
    none := rfl
    nodup := fun _ => nodup_nil }

lemma Blank.congr (h : s.Blank j) (hterms : s'.terms j = s.terms j)
    (hactive : (s'.contextGraphs j).active = (s.contextGraphs j).active)
    (happroval : s'.tokenApproval j = s.tokenApproval j) : s'.Blank j where
  hostingNodes := (congrArg GraphTerms.hostingNodes hterms).trans h.hostingNodes
  participantAgents := (congrArg GraphTerms.participantAgents hterms).trans h.participantAgents
  account := (congrArg GraphTerms.publishAuthorityAccountId hterms).trans h.account
  active := hactive.trans h.active
  approval := happroval.trans h.approval

/-- **The rule for a write.** A change of one graph, which gets sound terms and has an owner
after it, keeps the invariant. -/
lemma Governed.written (h : Governed s) (hid : id ≠ 0) (hout : Outside id s s₁)
    (howner : s₁.owner id ≠ 0) (ht : t.Sound) : Governed (s₁.withTerms id t) where
  sound := by
    intro j hj
    rw [terms_withTerms]
    split
    next => exact ht
    next hne =>
      rw [hout.terms j hne]
      apply h.sound
      rw [← hout.owner j hne]
      exact hj
  blank := by
    intro j hj
    have hne : j ≠ id := by
      rintro rfl
      exact howner hj
    have hblank := h.blank j ((hout.owner j hne).symm.trans hj)
    apply hblank.congr
    · rw [terms_withTerms, if_neg hne, hout.terms j hne]
    · rw [active_withTerms, hout.active j hne]
    · exact hout.approval j hne
  zero := (hout.owner 0 hid.symm).trans h.zero
  operator := by
    intro x
    show s₁.operatorApproval 0 x = false
    rw [hout.operator]
    exact h.operator x
  tables := {
    listed := by
      intro kc cg hcg
      show s₁.kcToContextGraph kc = cg ↔ kc ∈ s₁.contextGraphKCList cg
      rw [hout.kcToContextGraph, hout.contextGraphKCList]
      exact h.tables.listed kc cg hcg
    none := (congrFun hout.contextGraphKCList 0).trans h.tables.none
    nodup := by
      intro cg
      show (s₁.contextGraphKCList cg).Nodup
      rw [hout.contextGraphKCList]
      exact h.tables.nodup cg }

lemma Governed.ne_zero (h : Governed s) (howner : s.owner id ≠ 0) : id ≠ 0 := by
  rintro rfl
  exact howner h.zero

lemma Governed.amended (h : Governed s) (howner : s.owner id ≠ 0) (ht : t.Sound) :
    Governed (s.withTerms id t) :=
  h.written (h.ne_zero howner) (Outside.refl id s) howner ht

/-- A change of the token or the flag of a graph that exists. -/
lemma Governed.marked (h : Governed s) (howner : s.owner id ≠ 0) (hout : Outside id s s')
    (howner' : s'.owner id ≠ 0) (hterms : s'.terms id = s.terms id) : Governed s' := by
  rw [← withTerms_terms s' id]
  apply h.written (h.ne_zero howner) hout howner'
  rw [hterms]
  exact h.sound id howner

/-! ## The writes of the storage -/

/-- The storage right after the token of a new graph is minted. -/
def minted (s : ContextGraphStorage) (id owner_ : ℕ) (b : Block) (metadataBatchId : ℕ) :
    ContextGraphStorage :=
  { s.setGraph id { s.contextGraphs id with
      metadataBatchId := metadataBatchId
      active := true
      createdAt := uint40 b.timestamp } with
    contextGraphCounter := id
    owner := update s.owner id owner_ }

lemma outside_minted (s : ContextGraphStorage) (id owner_ : ℕ) (b : Block)
    (metadataBatchId : ℕ) : Outside id s (s.minted id owner_ b metadataBatchId) where
  terms := fun j hj => by simp [minted, setGraph, terms, hj]
  active := fun j hj => by simp [minted, setGraph, hj]
  owner := fun j hj => by simp [minted, hj]
  approval := fun _ _ => rfl
  operator := rfl
  kcToContextGraph := rfl
  contextGraphKCList := rfl

lemma _mint_ok {tokenId : ℕ} (h : s._mint receiver tokenId = .ok s') :
    receiver ≠ 0 ∧ s.owner tokenId = 0 ∧
    s' = { s with owner := update s.owner tokenId receiver } := by
  unfold _mint at h
  obtain ⟨hreceiver, h⟩ := of_require h
  obtain ⟨out, hupdate, h⟩ := of_bind h
  obtain ⟨hprevious, h⟩ := of_require h
  obtain rfl := of_pure h
  unfold _update at hupdate
  obtain ⟨_, -, rfl⟩ := of_bind_pure hupdate
  simp only at hprevious
  exact ⟨hreceiver, hprevious, by simp [hprevious]⟩

/-- A new graph gets the terms it is created with, after what is already stored at its id. -/
lemma createContextGraph_ok {agents : List ℕ} {out : ℕ × ContextGraphStorage}
    (h : s.createContextGraph b owner_ nodes agents required metadata policy authority account =
      .ok out) :
    ∃ id, id ≠ 0 ∧ owner_ ≠ 0 ∧ s.owner id = 0 ∧
    (0 < required ∧ required ≤ nodes.length) ∧ nodes.Pairwise (· < ·) ∧ agents.Nodup ∧
    policy ≤ 1 ∧ (policy = 0 → authority ≠ 0) ∧ (policy ≠ 0 → authority = 0 ∧ account = 0) ∧
    out.2 = (s.minted id owner_ b metadata).withTerms id
      { requiredSignatures := required
        hostingNodes := s.hostingNodes id ++ nodes
        participantAgents := s.participantAgents id ++ agents
        publishPolicy := policy
        publishAuthority := authority
        publishAuthorityAccountId :=
          if account ≠ 0 then account else s.publishAuthorityAccountId id } := by
  unfold createContextGraph at h
  obtain ⟨howner_, h⟩ := of_require h
  obtain ⟨_, -, _, -, _, -, h⟩ := of_bind₃ h
  obtain ⟨hquorum, hpolicy, h⟩ := of_require₂ h
  obtain ⟨_, hnodes, _, hcheck, id, hid, h⟩ := of_bind₃ h
  obtain ⟨s₁, hmint, stored, hstored, h⟩ := of_bind₂ h
  obtain ⟨-, rfl⟩ := addUint_eq_ok.mp hid
  obtain ⟨-, hfree, rfl⟩ := _mint_ok hmint
  obtain ⟨rfl, hagents, -⟩ := storeAgents_ok hstored
  obtain ⟨hcurated, hopened⟩ := checkPolicy_ok hcheck
  obtain rfl := of_pure h
  refine ⟨s.contextGraphCounter + 1, by omega, howner_, hfree, by omega,
    _validateHostingNodes_ok hnodes, hagents, by omega, hcurated, hopened, ?_⟩
  by_cases haccount : account = 0
  · simp [withTerms, minted, setGraph, haccount]
  · simp [withTerms, minted, setGraph, haccount]

section

variable (h : Governed s)

include h

lemma Governed.createContextGraph {agents : List ℕ} {out : ℕ × ContextGraphStorage}
    (hrun : s.createContextGraph b owner_ nodes agents required metadata policy authority account =
      .ok out) : Governed out.2 := by
  obtain ⟨id, hid, howner_, hfree, hquorum, hnodes, hagents, hpolicy, hcurated, hopened, hout⟩ :=
    createContextGraph_ok hrun
  have hblank := h.blank id hfree
  rw [hout, hblank.hostingNodes, hblank.participantAgents, hblank.account]
  apply h.written hid (outside_minted s id owner_ b metadata)
  · simpa [minted] using howner_
  · constructor
    · exact hquorum
    · exact hnodes
    · exact hagents
    · exact hpolicy
    · exact hcurated
    · intro hopen
      have haccount := (hopened hopen).2
      exact ⟨(hopened hopen).1, by simp [haccount]⟩

lemma Governed.registerKCToContextGraph
    (hrun : s.registerKCToContextGraph contextGraphId kcId = .ok s') : Governed s' := by
  unfold ContextGraphStorage.registerKCToContextGraph at hrun
  obtain ⟨_, -, hrun⟩ := of_bind hrun
  obtain ⟨hactive, hfree, hrun⟩ := of_require₂ hrun
  obtain rfl := of_pure hrun
  -- an active graph is not graph `0`, whose list stays empty
  have hcg : contextGraphId ≠ 0 := by
    rintro rfl
    rw [(h.blank 0 h.zero).active] at hactive
    cases hactive
  have hnew : ∀ cg, kcId ∉ s.contextGraphKCList cg := by
    intro cg hmem
    by_cases hzero : cg = 0
    · rw [hzero, h.tables.none] at hmem
      cases hmem
    · have hreg := (h.tables.listed kcId cg hzero).mpr hmem
      exact hzero (hreg.symm.trans hfree)
  refine ⟨h.sound, fun j hj => (h.blank j hj).congr rfl rfl rfl, h.zero, h.operator, ?_⟩
  constructor
  · intro kc cg hne
    have hlisted := h.tables.listed kc cg hne
    by_cases hkc : kc = kcId
    · subst hkc
      have hnot := hnew cg
      by_cases hc : cg = contextGraphId
      · simp [hc]
      · simp [hc, hnot, Ne.symm hc]
    · by_cases hc : cg = contextGraphId
      · subst hc
        simp [hkc, hlisted]
      · simp [hkc, hc, hlisted]
  · simp [hcg.symm, h.tables.none]
  · intro cg
    by_cases hc : cg = contextGraphId
    · subst hc
      simp only [Function.update_self]
      rw [← concat_eq_append]
      exact (h.tables.nodup cg).concat (hnew cg)
    · simpa [hc] using h.tables.nodup cg

lemma Governed.deactivateContextGraph
    (hrun : s.deactivateContextGraph contextGraphId = .ok s') : Governed s' := by
  unfold ContextGraphStorage.deactivateContextGraph _requireExists at hrun
  obtain ⟨howner, hrun⟩ := of_require hrun
  obtain rfl := of_pure hrun
  refine h.marked howner ?_ (by exact howner) (by simp [terms, setGraph])
  constructor
  · intro j hj
    simp [terms, setGraph, hj]
  · intro j hj
    simp [setGraph, hj]
  all_goals intros; rfl

lemma Governed.updatePublishPolicy
    (hrun : s.updatePublishPolicy contextGraphId policy authority account = .ok s') :
    Governed s' := by
  unfold ContextGraphStorage.updatePublishPolicy _requireExists at hrun
  obtain ⟨howner, hpolicy, hrun⟩ := of_require₂ hrun
  obtain ⟨_, hcheck, rfl⟩ := of_bind_pure hrun
  obtain ⟨hcurated, hopened⟩ := checkPolicy_ok hcheck
  have hsound := h.sound contextGraphId howner
  have hterms : GraphTerms.Sound { s.terms contextGraphId with
      publishPolicy := policy
      publishAuthority := authority
      publishAuthorityAccountId := account } :=
    ⟨hsound.quorum, hsound.ascending, hsound.agents, Nat.not_lt.mp hpolicy, hcurated, hopened⟩
  simpa [withTerms, terms, setGraph] using h.amended howner hterms

lemma Governed.updatePublishAuthority
    (hrun : s.updatePublishAuthority contextGraphId authority account = .ok s') : Governed s' := by
  unfold ContextGraphStorage.updatePublishAuthority _requireExists at hrun
  obtain ⟨howner, hrun⟩ := of_require hrun
  obtain ⟨_, hcheck, rfl⟩ := of_bind_pure hrun
  have hsound := h.sound contextGraphId howner
  -- the check is made for the policy that is there
  have hcurated : (s.contextGraphs contextGraphId).publishPolicy = 0 → authority ≠ 0 := by
    intro hzero
    rw [if_pos hzero, require_eq_ok] at hcheck
    exact hcheck
  have hopened : (s.contextGraphs contextGraphId).publishPolicy ≠ 0 →
      authority = 0 ∧ account = 0 := by
    intro hne
    rw [if_neg hne, require_eq_ok] at hcheck
    omega
  have hterms : GraphTerms.Sound { s.terms contextGraphId with
      publishAuthority := authority
      publishAuthorityAccountId := account } :=
    ⟨hsound.quorum, hsound.ascending, hsound.agents, hsound.policy, hcurated, hopened⟩
  simpa [withTerms, terms, setGraph] using h.amended howner hterms

lemma Governed.setHostingNodes
    (hrun : s.setHostingNodes contextGraphId nodes = .ok s') : Governed s' := by
  unfold ContextGraphStorage.setHostingNodes _requireExists at hrun
  obtain ⟨howner, hrun⟩ := of_require hrun
  obtain ⟨_, -, _, -, hrun⟩ := of_bind₂ hrun
  obtain ⟨hquorum, hrun⟩ := of_require hrun
  obtain ⟨_, hnodes, rfl⟩ := of_bind_pure hrun
  have hsound := h.sound contextGraphId howner
  have hterms : GraphTerms.Sound { s.terms contextGraphId with hostingNodes := nodes } :=
    ⟨⟨hsound.quorum.1, Nat.not_lt.mp hquorum⟩, _validateHostingNodes_ok hnodes, hsound.agents,
      hsound.policy, hsound.curated, hsound.opened⟩
  simpa [withTerms, terms, setGraph] using h.amended howner hterms

lemma Governed.agents {agents : List ℕ} (howner : s.owner contextGraphId ≠ 0)
    (hnodup : agents.Nodup) :
    Governed { s with
      participantAgents := update s.participantAgents contextGraphId agents } := by
  have hsound := h.sound contextGraphId howner
  have hterms : GraphTerms.Sound { s.terms contextGraphId with participantAgents := agents } :=
    ⟨hsound.quorum, hsound.ascending, hnodup, hsound.policy, hsound.curated, hsound.opened⟩
  simpa [withTerms, terms, setGraph] using h.amended howner hterms

lemma Governed.addParticipantAgent
    (hrun : s.addParticipantAgent contextGraphId agent = .ok s') : Governed s' := by
  unfold ContextGraphStorage.addParticipantAgent _requireExists at hrun
  obtain ⟨howner, hrun⟩ := of_require hrun
  obtain ⟨_, -, _, -, hrun⟩ := of_bind₂ hrun
  obtain ⟨hnew, hrun⟩ := of_require hrun
  obtain rfl := of_pure hrun
  apply h.agents howner
  rw [← concat_eq_append]
  exact (h.sound contextGraphId howner).agents.concat hnew

lemma Governed.removeParticipantAgent
    (hrun : s.removeParticipantAgent contextGraphId agent = .ok s') : Governed s' := by
  unfold ContextGraphStorage.removeParticipantAgent _requireExists at hrun
  obtain ⟨howner, hmem, hrun⟩ := of_require₂ hrun
  obtain rfl := of_pure hrun
  apply h.agents howner
  have hidx := idxOf_lt_length_of_mem hmem
  rw [dropLast_shiftLeft (by omega)]
  exact (h.sound contextGraphId howner).agents.sublist (eraseIdx_sublist _ _)

lemma Governed.updateQuorum
    (hrun : s.updateQuorum contextGraphId required = .ok s') : Governed s' := by
  unfold ContextGraphStorage.updateQuorum _requireExists at hrun
  obtain ⟨howner, hquorum, hrun⟩ := of_require₂ hrun
  obtain rfl := of_pure hrun
  have hsound := h.sound contextGraphId howner
  have hpositive : 0 < required ∧ required ≤ (s.hostingNodes contextGraphId).length := by omega
  have hterms : GraphTerms.Sound { s.terms contextGraphId with requiredSignatures := required } :=
    ⟨hpositive, hsound.ascending, hsound.agents, hsound.policy, hsound.curated, hsound.opened⟩
  simpa [withTerms, terms, setGraph] using h.amended howner hterms

/-! ## The token -/

end

/-- The token changes hands, before the hook. -/
def handed (s : ContextGraphStorage) (id receiver : ℕ) : ContextGraphStorage :=
  { s with
    tokenApproval := update s.tokenApproval id 0
    owner := update s.owner id receiver }

lemma outside_handed (s : ContextGraphStorage) (id receiver : ℕ) :
    Outside id s (s.handed id receiver) where
  terms := fun _ _ => rfl
  active := fun _ _ => rfl
  owner := fun j hj => by simp [handed, hj]
  approval := fun j hj => by simp [handed, hj]
  operator := rfl
  kcToContextGraph := rfl
  contextGraphKCList := rfl

lemma Governed.owner_ne_zero {tokenId : ℕ} (h : Governed s)
    (hauth : s._isAuthorized (s.owner tokenId) sender tokenId) : s.owner tokenId ≠ 0 := by
  obtain ⟨hsender, hself | hoperator | happroved⟩ := hauth
  · rw [hself]
    exact hsender
  · intro hnone
    rw [hnone, h.operator] at hoperator
    cases hoperator
  · intro hnone
    rw [(h.blank tokenId hnone).approval] at happroved
    exact hsender happroved.symm

lemma Governed.transferFrom {holder tokenId : ℕ} (h : Governed s) (hsent : sender ≠ 0)
    (hrun : s.transferFrom sender holder receiver tokenId = .ok s') : Governed s' := by
  unfold ContextGraphStorage.transferFrom at hrun
  obtain ⟨hreceiver, hrun⟩ := of_require hrun
  obtain ⟨out, hupdate, _, -, hrun⟩ := of_bind₂ hrun
  obtain rfl := of_pure hrun
  unfold _update at hupdate
  obtain ⟨_, hcheck, rfl⟩ := of_bind_pure hupdate
  have howner : s.owner tokenId ≠ 0 := by
    rw [if_pos hsent] at hcheck
    unfold _checkAuthorized at hcheck
    split at hcheck
    next hauth => exact h.owner_ne_zero hauth
    next =>
      split at hcheck
      · cases hcheck
      · cases hcheck
  have hsound := h.sound tokenId howner
  have hout := outside_handed s tokenId receiver
  have howner' : (s.handed tokenId receiver).owner tokenId ≠ 0 := by
    simpa [handed] using hreceiver
  simp only [howner, ne_eq, not_false_eq_true, if_true, true_and]
  split
  next hhook =>
    obtain ⟨-, -, hauthority⟩ := hhook
    -- an authority that was the owner is not zero, so the graph is curated
    have hcurated : (s.contextGraphs tokenId).publishPolicy = 0 := by
      by_contra hopen
      exact howner (hauthority.symm.trans (hsound.opened hopen).1)
    have hterms : GraphTerms.Sound { s.terms tokenId with
        publishAuthority := receiver
        publishAuthorityAccountId := 0 } :=
      ⟨hsound.quorum, hsound.ascending, hsound.agents, hsound.policy, fun _ => hreceiver,
        fun hopen => absurd hcurated hopen⟩
    have hnew := h.written (h.ne_zero howner) hout howner' hterms
    simpa [withTerms, terms, setGraph, handed] using hnew
  next =>
    exact h.marked howner hout howner' rfl

lemma Governed.approve {spender tokenId : ℕ} (h : Governed s)
    (hrun : s.approve sender spender tokenId = .ok s') : Governed s' := by
  unfold ContextGraphStorage.approve at hrun
  obtain ⟨howner, hrun⟩ := of_require hrun
  obtain ⟨_, -, rfl⟩ := of_bind_pure hrun
  refine h.marked howner ?_ (by exact howner) rfl
  refine ⟨fun _ _ => rfl, fun _ _ => rfl, fun _ _ => rfl, ?_, rfl, rfl, rfl⟩
  intro j hj
  simp [hj]

lemma Governed.setApprovalForAll {operator : ℕ} {approved : Bool} (h : Governed s)
    (hsent : sender ≠ 0) (hrun : s.setApprovalForAll sender operator approved = .ok s') :
    Governed s' := by
  unfold ContextGraphStorage.setApprovalForAll at hrun
  obtain ⟨_, -, rfl⟩ := of_bind_pure hrun
  refine ⟨h.sound, fun j hj => (h.blank j hj).congr rfl rfl rfl, h.zero, ?_,
    ⟨h.tables.listed, h.tables.none, h.tables.nodup⟩⟩
  intro x
  simp only [store₂, hsent.symm, false_and, if_false]
  exact h.operator x

end ContextGraphStorage

/-! ## Runs -/

open ContextGraphStorage

variable {s s' : ContextGraphStorage}

lemma GraphWrite.governed {write : GraphWrite} (h : Governed s) (hrun : write.run s = .ok s') :
    Governed s' := by
  cases write with
  | createContextGraph b owner nodes agents required metadata policy authority account =>
    obtain ⟨out, hcreate, rfl⟩ := of_bind_pure hrun
    exact h.createContextGraph hcreate
  | registerKCToContextGraph cg kc => exact h.registerKCToContextGraph hrun
  | deactivateContextGraph cg => exact h.deactivateContextGraph hrun
  | updatePublishPolicy cg policy authority account => exact h.updatePublishPolicy hrun
  | updatePublishAuthority cg authority account => exact h.updatePublishAuthority hrun
  | setHostingNodes cg nodes => exact h.setHostingNodes hrun
  | addParticipantAgent cg agent => exact h.addParticipantAgent hrun
  | removeParticipantAgent cg agent => exact h.removeParticipantAgent hrun
  | updateQuorum cg required => exact h.updateQuorum hrun

/-- **The step lemma.** A call of the facade is a write of the storage after its own checks. -/
lemma GraphOp.governed {op : GraphOp} (h : Governed s) (hsent : op.Sent)
    (hrun : op.run s = .ok s') : Governed s' := by
  cases op with
  | byContract write => exact write.governed h hrun
  | create pca b sender nodes agents required metadata policy authority account =>
    obtain ⟨out, hcreate, rfl⟩ := of_bind_pure hrun
    obtain ⟨_, -, hcreate⟩ := of_bind hcreate
    exact h.createContextGraph hcreate
  | updatePublishPolicy pca sender cg policy authority account =>
    obtain ⟨_, -, _, -, hrun⟩ := of_bind₂ hrun
    exact h.updatePublishPolicy hrun
  | updatePublishAuthority pca sender cg authority account =>
    obtain ⟨_, -, _, -, hrun⟩ := of_bind₂ hrun
    exact h.updatePublishAuthority hrun
  | setHostingNodes sender cg nodes =>
    obtain ⟨_, -, hrun⟩ := of_bind hrun
    exact h.setHostingNodes hrun
  | addParticipantAgent pca sender cg agent =>
    obtain ⟨_, -, hrun⟩ := of_bind hrun
    exact h.addParticipantAgent hrun
  | removeParticipantAgent pca sender cg agent =>
    obtain ⟨_, -, hrun⟩ := of_bind hrun
    exact h.removeParticipantAgent hrun
  | updateQuorum sender cg required =>
    obtain ⟨_, -, hrun⟩ := of_bind hrun
    exact h.updateQuorum hrun
  | registerKnowledgeCollection cg kc => exact h.registerKCToContextGraph hrun
  | transferFrom sender holder receiver tokenId => exact h.transferFrom hsent hrun
  | approve sender spender tokenId => exact h.approve hrun
  | setApprovalForAll sender operator approved => exact h.setApprovalForAll hsent hrun

lemma graphMachine_governed (h : graphMachine.Reachable s) : Governed s := by
  induction h with
  | init hinit =>
    rw [show _ = empty from hinit]
    exact Governed.empty
  | step _ hstep ih => exact GraphOp.governed ih hstep.1 hstep.2

/-- In every reachable state every graph has a quorum among its ascending hosting nodes, no agent
twice, and the authority that its policy asks for; and a collection is in the list of the graph it
is registered to, once, and in no other list. -/
theorem context_graph_governance (h : graphMachine.Reachable s) :
    (∀ id, s.owner id ≠ 0 → (s.terms id).Sound) ∧
    ∀ kc cg, cg ≠ 0 →
      (s.kcToContextGraph kc = cg ↔ kc ∈ s.contextGraphKCList cg) ∧
      (kc ∈ s.contextGraphKCList cg →
        (s.contextGraphKCList cg).count kc = 1 ∧
        ∀ cg', cg' ≠ cg → kc ∉ s.contextGraphKCList cg') := by
  have hgov := graphMachine_governed h
  refine ⟨hgov.sound, fun kc cg hcg => ⟨hgov.tables.listed kc cg hcg, fun hmem => ?_⟩⟩
  refine ⟨count_eq_one_of_mem (hgov.tables.nodup cg) hmem, fun cg' hne hmem' => ?_⟩
  by_cases hzero : cg' = 0
  · rw [hzero, hgov.tables.none] at hmem'
    cases hmem'
  · have hreg := (hgov.tables.listed kc cg hcg).mpr hmem
    have hreg' := (hgov.tables.listed kc cg' hzero).mpr hmem'
    exact hne (hreg'.symm.trans hreg)

/-- A curated graph with two hosts and three agents is created, gets a collection, loses its
middle agent and its old host, and is given away. -/
def givenAway : List GraphOp :=
  [.create .notResolvable ⟨1001, by decide⟩ 7 [3, 5] [11, 12, 13] 2 0 0 0 0,
    .registerKnowledgeCollection 1 40,
    .removeParticipantAgent .notResolvable 7 1 12,
    .updateQuorum 7 1 1,
    .setHostingNodes 7 1 [5],
    .transferFrom 7 7 9 1]

/-- The graph goes from its owner `7` to `9`, and its lists stay in step. -/
theorem context_graph_governance_given_away : ∃ s, graphMachine.Reachable s ∧
    s.owner 1 = 9 ∧ (s.contextGraphs 1).publishAuthority = 9 ∧ s.participantAgents 1 = [11, 13] ∧
    s.contextGraphKCList 1 = [40] ∧ (s.terms 1).Sound ∧ s.kcToContextGraph 40 = 1 := by
  obtain ⟨s, hrun, htest⟩ := exists_of_succeeds
    (x := Machine.runList (Machine.guarded (fun _ op => op.Sent) .invalidSender
      fun s (op : GraphOp) => op.run s) givenAway ContextGraphStorage.empty)
    (t := fun s => s.owner 1 = 9 ∧ (s.contextGraphs 1).publishAuthority = 9 ∧
      s.participantAgents 1 = [11, 13] ∧ s.contextGraphKCList 1 = [40]) (by decide +kernel)
  simp only [decide_eq_true_eq] at htest
  obtain ⟨howner, hauthority, hagents, hlist⟩ := htest
  have hreach : graphMachine.Reachable s := by
    refine Machine.Reachable.runList (fun s op s' h => ?_) (.init rfl) hrun
    unfold Machine.guarded at h
    split at h
    next hsent => exact ⟨hsent, h⟩
    next => cases h
  obtain ⟨hsound, htables⟩ := context_graph_governance hreach
  refine ⟨s, hreach, howner, hauthority, hagents, hlist, hsound 1 (by simp [howner]), ?_⟩
  exact (htables 40 1 (by decide)).1.mpr (by simp [hlist])

end Dkg
