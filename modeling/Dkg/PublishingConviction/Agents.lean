import Dkg.Lib.IndexedList
import Dkg.PublishingConviction.Spending

/-! # The agent registry

An agent's registration is kept three times: the account in `agentToAccountId`, the flag in
`isRegisteredAgent` and the entry in the list of the account. `AgentInv` says that the three
agree; registration, removal and the transfer hook each write all of them.

The account `0` means "not registered", so nobody may own the token `0`. That is the other half of
the invariant (`OwnerInv`), with the fact that a token without an owner has no approvals.
-/

namespace Dkg

open Lib List
open Function (update update_of_ne update_self)

namespace PublishingConvictionNFT

variable {n n' : PublishingConvictionNFT}

/-- The three records of the agents agree. -/
structure AgentInv (n : PublishingConvictionNFT) : Prop where
  byAgent : ∀ a i, (n.agentToAccountId a = i ∧ i ≠ 0) ↔ n.isRegisteredAgent i a = true
  listed : ∀ a i, n.isRegisteredAgent i a = true ↔ a ∈ n.registeredAgents i
  once : ∀ i, (n.registeredAgents i).Nodup

/-- Nobody owns the token `0`, accounts are numbered from `1` on, and only owners approve. -/
structure OwnerInv (n : PublishingConvictionNFT) : Prop where
  zero : n.owner 0 = 0
  approval : ∀ i, n.owner i = 0 → n.tokenApproval i = 0
  operator : ∀ spender, n.operatorApproval 0 spender = false
  next : n.nextAccountId ≠ 0

lemma initialized_agents : initialized.AgentInv ∧ initialized.OwnerInv := by
  refine ⟨⟨?_, ?_, fun _ => nodup_nil⟩, ⟨rfl, fun _ _ => rfl, fun _ => rfl, by decide⟩⟩
  · intro a i
    simp only [initialized]
    constructor
    · rintro ⟨rfl, hne⟩
      exact absurd rfl hne
    · intro hflag
      cases hflag
  · intro a i
    simp [initialized]

lemma AgentInv.unique (h : n.AgentInv) {a i j : ℕ} (hi : n.isRegisteredAgent i a = true)
    (hj : n.isRegisteredAgent j a = true) : i = j :=
  ((h.byAgent a i).mpr hi).1.symm.trans ((h.byAgent a j).mpr hj).1

/-! ## The operations -/

lemma AgentInv.of_eq (h : n.AgentInv) (ha : n'.agentToAccountId = n.agentToAccountId)
    (hf : n'.isRegisteredAgent = n.isRegisteredAgent)
    (hl : n'.registeredAgents = n.registeredAgents) : n'.AgentInv := by
  constructor
  · rw [ha, hf]
    exact h.byAgent
  · rw [hf, hl]
    exact h.listed
  · rw [hl]
    exact h.once

lemma registerAgent_agents {sender accountId agent : ℕ} (h : n.AgentInv) (hz : n.OwnerInv)
    (hrun : n.registerAgent sender accountId agent = .ok n') : n'.AgentInv ∧ n'.OwnerInv := by
  obtain ⟨howner, hfree, rfl⟩ := registerAgent_ok hrun
  have hid : accountId ≠ 0 := by
    rintro rfl
    exact howner hz.zero
  -- an agent without an account is flagged nowhere and in no list
  have hunflagged : ∀ i, n.isRegisteredAgent i agent ≠ true := by
    intro i hflag
    obtain ⟨hi, hne⟩ := (h.byAgent agent i).mpr hflag
    exact hne (hi.symm.trans hfree)
  have hunlisted : agent ∉ n.registeredAgents accountId :=
    fun hmem => hunflagged accountId ((h.listed agent accountId).mpr hmem)
  refine ⟨⟨?_, ?_, ?_⟩, ⟨hz.zero, hz.approval, hz.operator, hz.next⟩⟩
  · intro a i
    simp only [store₂]
    by_cases ha : a = agent
    · subst ha
      rw [update_self]
      by_cases hi : i = accountId
      · simp [hi, hid]
      · simp [hi, Ne.symm hi, hunflagged i]
    · rw [update_of_ne ha, if_neg (fun hboth => ha hboth.2)]
      exact h.byAgent a i
  · intro a i
    simp only [store₂]
    by_cases hi : i = accountId
    · subst hi
      rw [update_self, mem_append, mem_singleton, ← h.listed]
      by_cases ha : a = agent
      · simp [ha]
      · simp [ha]
    · rw [update_of_ne hi, if_neg (fun hboth => hi hboth.1)]
      exact h.listed a i
  · intro i
    by_cases hi : i = accountId
    · subst hi
      simp only [update_self]
      exact nodup_append.mpr ⟨h.once i, nodup_singleton _, by
        intro a ha b hb
        obtain rfl := mem_singleton.mp hb
        rintro rfl
        exact hunlisted ha⟩
    · simp only [update_of_ne hi]
      exact h.once i

/-- The loop of `deregisterAgent` finds the agent and fills its slot. -/
lemma removeLoop_spec {agent : ℕ} {agents : List ℕ} {fuel i : ℕ}
    (hfuel : fuel + i = agents.length) (hmem : agent ∈ agents.drop i) :
    ∃ j, agents[j]? = some agent ∧ removeLoop agent agents fuel i
      = (agents.set j (agents.getD (agents.length - 1) 0)).dropLast := by
  induction fuel generalizing i with
  | zero =>
    rw [drop_eq_nil_of_le (by omega)] at hmem
    cases hmem
  | succ fuel ih =>
    have hi : i < agents.length := by omega
    have hget : agents.getD i 0 = agents[i] := by simp [hi]
    rw [removeLoop, hget]
    by_cases hhere : agents[i] = agent
    · rw [if_pos hhere]
      exact ⟨i, by rw [← hhere, getElem?_eq_getElem hi], rfl⟩
    · rw [if_neg hhere]
      apply ih (by omega)
      rw [drop_eq_getElem_cons hi] at hmem
      rcases mem_cons.mp hmem with heq | hrest
      · exact absurd heq.symm hhere
      · exact hrest

lemma deregisterAgent_agents {sender accountId agent : ℕ} (h : n.AgentInv) (hz : n.OwnerInv)
    (hrun : n.deregisterAgent sender accountId agent = .ok n') : n'.AgentInv ∧ n'.OwnerInv := by
  obtain ⟨hflag, rfl⟩ := deregisterAgent_ok hrun
  obtain ⟨haccount, hid⟩ := (h.byAgent agent accountId).mpr hflag
  have hmem := (h.listed agent accountId).mp hflag
  have hpos := length_pos_of_mem hmem
  -- the list without the agent
  obtain ⟨j, hj, hloop⟩ := @removeLoop_spec agent (n.registeredAgents accountId) _ 0
    (Nat.add_zero _) hmem
  have hlast : (n.registeredAgents accountId)[(n.registeredAgents accountId).length - 1]?
      = some ((n.registeredAgents accountId).getD
        ((n.registeredAgents accountId).length - 1) 0) := by
    rw [getD_eq_getElem?_getD, getElem?_eq_getElem (by omega)]
    rfl
  obtain ⟨hnodup, hkeys⟩ := (Indexed.of_nodup (h.once accountId)).remove_slot hj hlast
  rw [← hloop] at hnodup hkeys
  refine ⟨⟨?_, ?_, ?_⟩, ⟨hz.zero, hz.approval, hz.operator, hz.next⟩⟩
  · intro a i
    simp only [store₂]
    by_cases ha : a = agent
    · subst ha
      rw [update_self]
      constructor
      · rintro ⟨rfl, hne⟩
        exact absurd rfl hne
      · intro hflag'
        by_cases hi : i = accountId
        · simp [hi] at hflag'
        · rw [if_neg (fun hboth => hi hboth.1)] at hflag'
          exact absurd (h.unique hflag' hflag) hi
    · rw [update_of_ne ha, if_neg (fun hboth => ha hboth.2)]
      exact h.byAgent a i
  · intro a i
    simp only [store₂]
    by_cases hi : i = accountId
    · subst hi
      rw [update_self, hkeys, ← h.listed]
      by_cases ha : a = agent
      · simp [ha]
      · simp [ha]
    · rw [update_of_ne hi, if_neg (fun hboth => hi hboth.1)]
      exact h.listed a i
  · intro i
    by_cases hi : i = accountId
    · subst hi
      simp only [update_self]
      exact hnodup
    · simp only [update_of_ne hi]
      exact h.once i

/-! ## Transfers -/

/-- After the hook no agent has the account, and the others keep theirs. -/
lemma clearAgents_agents (h : n.AgentInv) (tokenId : ℕ) :
    (n.clearAgents tokenId).AgentInv ∧ (n.clearAgents tokenId).registeredAgents tokenId = [] := by
  unfold clearAgents
  simp only [foldl_clearAgent, update_self, and_true]
  constructor
  · intro a i
    simp only
    by_cases ha : a ∈ n.registeredAgents tokenId
    · have hflag := (h.listed a tokenId).mpr ha
      rw [if_pos ha]
      constructor
      · rintro ⟨rfl, hne⟩
        exact absurd rfl hne
      · intro hflag'
        by_cases hi : i = tokenId
        · simp [hi, ha] at hflag'
        · rw [if_neg (fun hboth => hi hboth.1)] at hflag'
          exact absurd (h.unique hflag' hflag) hi
    · rw [if_neg ha, if_neg (fun hboth => ha hboth.2)]
      exact h.byAgent a i
  · intro a i
    simp only
    by_cases hi : i = tokenId
    · subst hi
      rw [update_self]
      by_cases ha : a ∈ n.registeredAgents i
      · simp [ha]
      · simp only [ha, and_false, if_false, not_mem_nil, iff_false]
        intro hflag
        exact ha ((h.listed a i).mp hflag)
    · rw [update_of_ne hi, if_neg (fun hboth => hi hboth.1)]
      exact h.listed a i
  · intro i
    simp only
    by_cases hi : i = tokenId
    · rw [hi, update_self]
      exact nodup_nil
    · rw [update_of_ne hi]
      exact h.once i

lemma clearAgents_token (n : PublishingConvictionNFT) (tokenId : ℕ) :
    (n.clearAgents tokenId).owner = n.owner ∧
    (n.clearAgents tokenId).tokenApproval = n.tokenApproval ∧
    (n.clearAgents tokenId).operatorApproval = n.operatorApproval ∧
    (n.clearAgents tokenId).nextAccountId = n.nextAccountId := by
  unfold clearAgents
  simp only [foldl_clearAgent, and_self]

lemma _checkAuthorized_ok {tokenOwner spender tokenId : ℕ} {u : Unit}
    (h : n._checkAuthorized tokenOwner spender tokenId = .ok u) :
    n._isAuthorized tokenOwner spender tokenId := by
  unfold _checkAuthorized at h
  split at h
  next hauth => exact hauth
  next =>
    split at h
    · cases h
    · cases h

lemma _update_agents {receiver tokenId auth : ℕ} {out : ℕ × PublishingConvictionNFT}
    (h : n.AgentInv) (hz : n.OwnerInv) (hid : tokenId ≠ 0) (hreceiver : receiver ≠ 0)
    (hrun : n._update receiver tokenId auth = .ok out) :
    out.2.AgentInv ∧ out.2.OwnerInv ∧ out.1 = n.owner tokenId ∧
    (out.1 ≠ 0 → out.1 ≠ receiver → out.2.registeredAgents tokenId = []) := by
  unfold _update at hrun
  obtain ⟨_, -, rfl⟩ := of_bind_pure hrun
  -- the token's own part writes no agents and nothing of the token `0`
  set m : PublishingConvictionNFT := { n with
    tokenApproval := if n.owner tokenId ≠ 0 then update n.tokenApproval tokenId 0
      else n.tokenApproval
    owner := update n.owner tokenId receiver } with hm
  have hagents : m.AgentInv := h.of_eq rfl rfl rfl
  have howners : m.OwnerInv := by
    refine ⟨?_, ?_, hz.operator, hz.next⟩
    · simp only [hm, update_of_ne (Ne.symm hid)]
      exact hz.zero
    · intro i hnone
      have hne : i ≠ tokenId := by
        rintro rfl
        simp only [hm, update_self] at hnone
        exact hreceiver hnone
      simp only [hm, update_of_ne hne] at hnone ⊢
      split
      · rw [update_of_ne hne]
        exact hz.approval i hnone
      · exact hz.approval i hnone
  simp only
  by_cases hclear : n.owner tokenId ≠ 0 ∧ receiver ≠ 0 ∧ n.owner tokenId ≠ receiver
  · rw [if_pos hclear]
    obtain ⟨hcleared, hempty⟩ := clearAgents_agents hagents tokenId
    obtain ⟨ho, ha, hop, hnx⟩ := clearAgents_token m tokenId
    refine ⟨hcleared, ⟨?_, ?_, ?_, ?_⟩, trivial, fun _ _ => hempty⟩
    · rw [ho]
      exact howners.zero
    · rw [ho, ha]
      exact howners.approval
    · rw [hop]
      exact howners.operator
    · rw [hnx]
      exact howners.next
  · rw [if_neg hclear]
    exact ⟨hagents, howners, trivial, fun h1 h2 => absurd ⟨h1, hreceiver, h2⟩ hclear⟩

/-- Only tokens with an owner are transferred, and a new owner gets the account without agents. -/
lemma transferFrom_agents {sender holder receiver tokenId : ℕ} (h : n.AgentInv) (hz : n.OwnerInv)
    (hsent : sender ≠ 0) (hrun : n.transferFrom sender holder receiver tokenId = .ok n') :
    n'.AgentInv ∧ n'.OwnerInv ∧ tokenId ≠ 0 ∧
    (holder ≠ receiver → n'.registeredAgents tokenId = []) := by
  unfold transferFrom at hrun
  obtain ⟨hreceiver, hrun⟩ := of_require hrun
  obtain ⟨out, hupdate, hrun⟩ := of_bind hrun
  obtain ⟨hholder, hrun⟩ := of_require hrun
  obtain rfl := of_pure hrun
  have hauthorized : n._isAuthorized (n.owner tokenId) sender tokenId := by
    unfold _update at hupdate
    obtain ⟨_, hcheck, -⟩ := of_bind hupdate
    rw [if_pos hsent] at hcheck
    exact _checkAuthorized_ok hcheck
  have howner : n.owner tokenId ≠ 0 := by
    intro hnone
    obtain ⟨-, hself | happroved | htoken⟩ := hauthorized
    · exact hsent (hself.symm.trans hnone)
    · rw [hnone, hz.operator] at happroved
      cases happroved
    · rw [hz.approval tokenId hnone] at htoken
      exact hsent htoken.symm
  have hid : tokenId ≠ 0 := by
    rintro rfl
    exact howner hz.zero
  obtain ⟨hagents, howners, hprevious, hcleared⟩ := _update_agents h hz hid hreceiver hupdate
  refine ⟨hagents, howners, hid, fun hne => ?_⟩
  apply hcleared
  · rw [hprevious]
    exact howner
  · rw [hholder]
    exact hne

/-! ## Owners -/

lemma transferFrom_owner {sender holder receiver tokenId : ℕ}
    (h : n.transferFrom sender holder receiver tokenId = .ok n') :
    n.owner tokenId = holder ∧ n'.owner = update n.owner tokenId receiver := by
  unfold transferFrom _update at h
  obtain ⟨_, -, out, hupdate, _, hholder, h⟩ := of_bind₃ h
  obtain ⟨_, -, rfl⟩ := of_bind_pure hupdate
  refine ⟨require_eq_ok.mp hholder, ?_⟩
  rw [← of_pure h]
  simp only
  split
  · rw [(clearAgents_token _ tokenId).1]
  · rfl

end PublishingConvictionNFT

open PublishingConvictionNFT

variable {c : Chronos} {b : Block} {w w' : ConvictionWorld}

/-- A new account has an id above `0`, and an owner. -/
lemma ConvictionWorld.createAccount_agents {sender committed : ℕ} (h : w.nft.AgentInv)
    (hz : w.nft.OwnerInv) (hrun : w.createAccount c b sender committed = .ok w') :
    w'.nft.AgentInv ∧ w'.nft.OwnerInv := by
  obtain ⟨hnft, hsender, -, -⟩ := ConvictionWorld.createAccount_ok hrun
  rw [hnft]
  refine ⟨h.of_eq rfl rfl rfl, ⟨?_, ?_, hz.operator, Nat.succ_ne_zero _⟩⟩
  · simp only [update_of_ne (Ne.symm hz.next)]
    exact hz.zero
  · intro i hnone
    have hne : i ≠ w.nft.nextAccountId := by
      rintro rfl
      simp only [update_self] at hnone
      exact hsender hnone
    simp only [update_of_ne hne] at hnone
    exact hz.approval i hnone

lemma ConvictionOp.run_agents {op : ConvictionOp} {events : List ConvictionEvent}
    (h : w.nft.AgentInv) (hz : w.nft.OwnerInv) (hsent : op.Sent)
    (hrun : op.run c b w = .ok (w', events)) : w'.nft.AgentInv ∧ w'.nft.OwnerInv := by
  cases op with
  | createAccount sender committed =>
    obtain ⟨w₁, hcreate, hend⟩ := of_bind_pure hrun
    cases hend
    exact ConvictionWorld.createAccount_agents h hz hcreate
  | topUp sender accountId amount =>
    obtain ⟨w₁, htop, hend⟩ := of_bind_pure hrun
    cases hend
    obtain ⟨hnft, -⟩ := ConvictionWorld.topUp_ok htop
    rw [hnft]
    exact ⟨h.of_eq rfl rfl rfl, ⟨hz.zero, hz.approval, hz.operator, hz.next⟩⟩
  | coverPublishingCost sender agent cost =>
    obtain ⟨out, hcover, hend⟩ := of_bind_pure hrun
    cases hend
    rw [(coverPublishingCost_ok hcover).result]
    exact ⟨h.of_eq rfl rfl rfl, ⟨hz.zero, hz.approval, hz.operator, hz.next⟩⟩
  | registerAgent sender accountId agent =>
    exact registerAgent_agents h hz (onToken_ok hrun).1
  | deregisterAgent sender accountId agent =>
    exact deregisterAgent_agents h hz (onToken_ok hrun).1
  | setMaxAgentsPerAccount cap =>
    rw [← of_pure (onToken_ok hrun).1]
    exact ⟨h.of_eq rfl rfl rfl, ⟨hz.zero, hz.approval, hz.operator, hz.next⟩⟩
  | transferFrom sender holder receiver tokenId =>
    obtain ⟨hagents, howners, -⟩ := transferFrom_agents h hz hsent (onToken_ok hrun).1
    exact ⟨hagents, howners⟩
  | approve sender spender tokenId =>
    obtain ⟨howner, hnft⟩ := approve_ok (onToken_ok hrun).1
    rw [hnft]
    refine ⟨h.of_eq rfl rfl rfl, ⟨hz.zero, fun i hnone => ?_, hz.operator, hz.next⟩⟩
    have hne : i ≠ tokenId := by
      rintro rfl
      exact howner hnone
    simp only [update_of_ne hne]
    exact hz.approval i hnone
  | setApprovalForAll sender operator approved =>
    rw [setApprovalForAll_ok (onToken_ok hrun).1]
    refine ⟨h.of_eq rfl rfl rfl, ⟨hz.zero, hz.approval, fun spender => ?_, hz.next⟩⟩
    simp only [store₂]
    rw [if_neg (fun hboth => hsent hboth.1.symm)]
    exact hz.operator spender
  | setKnowledgeAssetsV10 kav10 | otherTransactions trac es =>
    cases of_pure hrun
    exact ⟨h, hz⟩

/-- Only a transfer replaces the owner of an account. -/
lemma ConvictionOp.run_owner {op : ConvictionOp} {events : List ConvictionEvent} {i : ℕ}
    (hrun : op.run c b w = .ok (w', events)) (howned : w.nft.owner i ≠ 0)
    (hreplaced : w'.nft.owner i ≠ w.nft.owner i) :
    ∃ sender holder receiver, op = .transferFrom sender holder receiver i ∧ holder ≠ receiver := by
  cases op with
  | createAccount sender committed =>
    obtain ⟨w₁, hcreate, hend⟩ := of_bind_pure hrun
    cases hend
    obtain ⟨hnft, -, hnone, -⟩ := ConvictionWorld.createAccount_ok hcreate
    rw [hnft] at hreplaced
    have hne : i ≠ w.nft.nextAccountId := by
      rintro rfl
      exact howned hnone
    exact absurd (update_of_ne hne _ _) hreplaced
  | topUp sender accountId amount =>
    obtain ⟨w₁, htop, hend⟩ := of_bind_pure hrun
    cases hend
    rw [(ConvictionWorld.topUp_ok htop).1] at hreplaced
    exact absurd rfl hreplaced
  | coverPublishingCost sender agent cost =>
    obtain ⟨out, hcover, hend⟩ := of_bind_pure hrun
    cases hend
    rw [(coverPublishingCost_ok hcover).result] at hreplaced
    exact absurd rfl hreplaced
  | registerAgent sender accountId agent =>
    rw [(registerAgent_ok (onToken_ok hrun).1).2.2] at hreplaced
    exact absurd rfl hreplaced
  | deregisterAgent sender accountId agent =>
    rw [(deregisterAgent_ok (onToken_ok hrun).1).2] at hreplaced
    exact absurd rfl hreplaced
  | setMaxAgentsPerAccount cap =>
    rw [← of_pure (onToken_ok hrun).1] at hreplaced
    exact absurd rfl hreplaced
  | transferFrom sender holder receiver tokenId =>
    obtain ⟨hholder, hnew⟩ := transferFrom_owner (onToken_ok hrun).1
    rw [hnew] at hreplaced
    by_cases hi : i = tokenId
    · subst hi
      rw [update_self, hholder] at hreplaced
      exact ⟨sender, holder, receiver, rfl, Ne.symm hreplaced⟩
    · exact absurd (update_of_ne hi _ _) hreplaced
  | approve sender spender tokenId =>
    rw [(approve_ok (onToken_ok hrun).1).2] at hreplaced
    exact absurd rfl hreplaced
  | setApprovalForAll sender operator approved =>
    rw [setApprovalForAll_ok (onToken_ok hrun).1] at hreplaced
    exact absurd rfl hreplaced
  | setKnowledgeAssetsV10 kav10 | otherTransactions trac es =>
    cases of_pure hrun
    exact absurd rfl hreplaced

lemma ConvictionState.agents {s : ConvictionState} (hr : (convictionMachine c).Reachable s) :
    s.world.nft.AgentInv ∧ s.world.nft.OwnerInv := by
  apply hr.invariant (P := fun s => s.world.nft.AgentInv ∧ s.world.nft.OwnerInv)
  · rintro s ⟨hinit, -⟩
    rw [hinit]
    exact initialized_agents
  · rintro s ⟨b, op⟩ s' ⟨h, hz⟩ ⟨-, -, hsent, events, hrun, -⟩
    exact ConvictionOp.run_agents h hz hsent hrun

/-- **The agent registry.** After any sequence of transactions, an agent's account, the flag and
the list agree, and no list has an agent twice; so no agent has two accounts. When another owner
takes the place of the owner of an account, nobody is registered for the account. -/
theorem agent_registry_consistent (c : Chronos) {s : ConvictionState}
    (hr : (convictionMachine c).Reachable s) :
    (∀ a i, ((s.world.nft.agentToAccountId a = i ∧ i ≠ 0)
        ↔ s.world.nft.isRegisteredAgent i a = true) ∧
      (s.world.nft.isRegisteredAgent i a = true ↔ a ∈ s.world.nft.registeredAgents i) ∧
      (a ∈ s.world.nft.registeredAgents i → (s.world.nft.registeredAgents i).count a = 1)) ∧
    (∀ a i j, s.world.nft.isRegisteredAgent i a = true →
      s.world.nft.isRegisteredAgent j a = true → i = j) ∧
    ∀ l s', (convictionMachine c).step s l s' → ∀ i previousOwner, previousOwner ≠ 0 →
      s.world.nft.owner i = previousOwner → s'.world.nft.owner i ≠ previousOwner →
      s'.world.nft.registeredAgents i = [] ∧
        ∀ a, s'.world.nft.isRegisteredAgent i a = false ∧
          s'.world.nft.agentToAccountId a ≠ i := by
  obtain ⟨hinv, howners⟩ := ConvictionState.agents hr
  refine ⟨fun a i => ⟨hinv.byAgent a i, hinv.listed a i, ?_⟩, fun a i j => hinv.unique, ?_⟩
  · intro hmem
    exact count_eq_one_of_mem (hinv.once i) hmem
  · rintro ⟨b, op⟩ s' ⟨-, -, hsent, events, hrun, -⟩ i _ howned rfl hreplaced
    obtain ⟨sender, holder, receiver, rfl, hne⟩ := ConvictionOp.run_owner hrun howned hreplaced
    obtain ⟨hinv', -, hid, hempty⟩ :=
      transferFrom_agents hinv howners hsent (ConvictionOp.onToken_ok hrun).1
    have hflags : ∀ a, s'.world.nft.isRegisteredAgent i a = false := by
      intro a
      rw [Bool.eq_false_iff]
      intro hflag
      have hmem := (hinv'.listed a i).mp hflag
      rw [hempty hne] at hmem
      cases hmem
    refine ⟨hempty hne, fun a => ⟨hflags a, ?_⟩⟩
    intro haccount
    have hflag := (hinv'.byAgent a i).mp ⟨haccount, hid⟩
    rw [hflags a] at hflag
    cases hflag

/-- The agents `8`, `9` and `10` are registered, `8` is removed, and the account is sold. -/
theorem agent_registry_consistent_sold : ∃ s s', (convictionMachine hourlyChronos).Reachable s ∧
    s.world.nft.registeredAgents 1 = [10, 9] ∧
    (s.world.nft.registeredAgents 1).count 9 = 1 ∧
    (convictionMachine hourlyChronos).step s (⟨3000, by decide⟩, .transferFrom 7 7 12 1) s' ∧
    s'.world.nft.owner 1 = 12 ∧ s'.world.nft.agentToAccountId 9 ≠ 1 := by
  obtain ⟨s, hrun, ht⟩ := exists_of_succeeds
    (x := Machine.runList (convictionExec hourlyChronos)
      [(1000, .createAccount 7 1200),
       (1000, .registerAgent 7 1 8),
       (1000, .registerAgent 7 1 9),
       (1000, .registerAgent 7 1 10),
       (2000, .deregisterAgent 7 1 8)] convictionStart)
    (t := fun s => decide (s.world.nft.registeredAgents 1 = [10, 9] ∧ s.world.nft.owner 1 = 7) &&
      succeeds (convictionExec hourlyChronos s
        (⟨3000, by decide⟩, .transferFrom 7 7 12 1)) fun s' => decide (s'.world.nft.owner 1 = 12))
    (by decide +kernel)
  have hr := convictionReachable_of_run hrun
  obtain ⟨hlist, hsold⟩ := Bool.and_eq_true_iff.mp ht
  obtain ⟨s', hexec, hbuyer⟩ := exists_of_succeeds hsold
  obtain ⟨hlisted, hseller⟩ := of_decide_eq_true hlist
  have hbought := of_decide_eq_true hbuyer
  have hstep : (convictionMachine hourlyChronos).step s
      (⟨3000, by decide⟩, .transferFrom 7 7 12 1) s' := convictionStep_of_exec _ _ _ _ hexec
  obtain ⟨hagree, -, hcleared⟩ := agent_registry_consistent hourlyChronos hr
  refine ⟨s, s', hr, hlisted, (hagree 9 1).2.2 ?_, hstep, hbought, ?_⟩
  · rw [hlisted]
    decide
  · exact ((hcleared _ s' hstep 1 7 (by decide) hseller (by rw [hbought]; decide)).2 9).2

end Dkg
