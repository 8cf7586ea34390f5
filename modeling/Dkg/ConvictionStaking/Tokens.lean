import Dkg.ConvictionStaking.Contributions
import Dkg.Lib.IndexedList

/-! # The token lists of the nodes

`nodeTokens` lists the live positions of a node, each once, and `nodeTokenIndex` knows their slots,
so removing a live position never fails.

What a mutator does to the lists and to the raw aggregates does not depend on the queues, so the
lemmas about the mutators hold for every storage, not only for those a run reaches.
-/

namespace Dkg

open Lib Position List
open Function (update update_eq_self update_of_ne update_self)

/-- The ledger function does not write the raw stake. -/
def NodeLedger.KeepsStake (f : NodeLedger → Tx NodeLedger) : Prop :=
  ∀ l l', f l = .ok l' → l'.nodeStakeV10 = l.nodeStakeV10

namespace NodeLedger.KeepsStake

lemma ite {f : NodeLedger → Tx NodeLedger} (hf : KeepsStake f) (P : Prop) [Decidable P] :
    KeepsStake (fun l => if P then f l else pure l) := by
  intro l l' h
  split at h
  · exact hf l l' h
  · rw [← of_pure h]

lemma settle (ts : ℕ) : KeepsStake (fun l => l._settleNodeTo ts) := by
  intro l l' h
  simp only [_settleNodeTo] at h
  split at h
  · rw [← of_pure h]
  · obtain ⟨d, -, h⟩ := of_bind h
    rw [← of_pure h]

lemma schedule (ts drop : ℕ) : KeepsStake (fun l => l._scheduleNodeExpiry ts drop) := by
  intro l l' h
  simp only [_scheduleNodeExpiry] at h
  obtain ⟨_, -, _, -, sum, -, h⟩ := of_bind₃ h
  split at h
  · rw [← of_pure h]
  · rw [← of_pure h]

lemma cancel (ts drop : ℕ) : KeepsStake (fun l => l._cancelNodeExpiry ts drop) := by
  intro l l' h
  simp only [_cancelNodeExpiry] at h
  split at h
  · rw [← of_pure h]
  · split at h
    · rw [← of_pure h]
    · obtain ⟨_, -, remaining, -, h⟩ := of_bind₂ h
      rw [← of_pure h]

lemma applyDelta (delta : ℤ) : KeepsStake (fun l => l._applyNodeStakeDelta delta) := by
  intro l l' h
  simp only [_applyNodeStakeDelta] at h
  split at h
  · rw [← of_pure h]
  · split at h
    · obtain ⟨stake, -, h⟩ := of_bind h
      rw [← of_pure h]
    · obtain ⟨_, -, stake, -, h⟩ := of_bind₂ h
      rw [← of_pure h]

end NodeLedger.KeepsStake

namespace ConvictionStakingStorage

open NodeLedger

variable {s s' : ConvictionStakingStorage} {c : Chronos} {b : Block}

/-- The position is in the list of the node. -/
def ListedOn (s : ConvictionStakingStorage) (id tok : ℕ) : Prop :=
  Listed (s.nodeTokens id) (s.nodeTokenIndex id) tok

/-- A token that is listed can be removed. -/
lemma ListedOn.exists_pop {id tok : ℕ} (h : s.ListedOn id tok) :
    ∃ s', s._popNodeToken id tok = .ok s' := by
  have hlt : s.nodeTokenIndex id tok < (s.nodeTokens id).length := Listed.lt_length h
  have hsub : subUint (s.nodeTokens id).length 1 = .ok ((s.nodeTokens id).length - 1) :=
    subUint_eq_ok.mpr ⟨by omega, rfl⟩
  unfold _popNodeToken
  by_cases hlast : s.nodeTokenIndex id tok = (s.nodeTokens id).length - 1
  · exact ⟨_, bind_eq_ok.mpr ⟨_, hsub, bind_eq_ok.mpr
      ⟨(s.nodeTokens id, s.nodeTokenIndex), if_neg (fun hn => hn hlast), rfl⟩⟩⟩
  · have hreq : require (s.nodeTokenIndex id tok < (s.nodeTokens id).length) .panic = .ok () :=
      require_eq_ok.mpr hlt
    exact ⟨_, bind_eq_ok.mpr ⟨_, hsub, bind_eq_ok.mpr
      ⟨_, (if_pos hlast).trans (bind_eq_ok.mpr ⟨(), hreq, rfl⟩), rfl⟩⟩⟩

/-! ## The lists -/

/-- The token lists stay as they are. -/
structure SameLists (s s' : ConvictionStakingStorage) : Prop where
  lists : s'.nodeTokens = s.nodeTokens
  index : s'.nodeTokenIndex = s.nodeTokenIndex

/-- The lists hold exactly the tokens that `on` puts on a node, at the slots of the table. -/
structure Enumerates (s : ConvictionStakingStorage) (on : ℕ → ℕ → Prop) : Prop where
  indexed : ∀ id, Indexed (s.nodeTokens id) (s.nodeTokenIndex id)
  members : ∀ id tok, tok ∈ s.nodeTokens id ↔ on id tok

namespace Enumerates

variable {on on' : ℕ → ℕ → Prop}

lemma of_iff (h : s.Enumerates on) (hon : ∀ id tok, on id tok ↔ on' id tok) : s.Enumerates on' :=
  ⟨h.indexed, fun id tok => (h.members id tok).trans (hon id tok)⟩

lemma sameLists (h : s.Enumerates on) (hsame : SameLists s s') : s'.Enumerates on := by
  constructor
  · intro id
    rw [hsame.lists, hsame.index]
    exact h.indexed id
  · intro id tok
    rw [hsame.lists]
    exact h.members id tok

lemma push (h : s.Enumerates on) {id tok : ℕ} (hnew : ¬ on id tok) :
    (s._pushNodeToken id tok).Enumerates (fun id' t => on id' t ∨ id' = id ∧ t = tok) := by
  have hfresh : tok ∉ s.nodeTokens id := fun hmem => hnew ((h.members id tok).mp hmem)
  unfold _pushNodeToken
  constructor
  · intro id'
    by_cases hid : id' = id
    · subst hid
      simp only [update_self, store₂_row]
      exact (h.indexed id').push hfresh
    · simp only [update_of_ne hid, store₂_other_row _ _ _ hid]
      exact h.indexed id'
  · intro id' t
    by_cases hid : id' = id
    · subst hid
      simp only [update_self, mem_append, mem_singleton, true_and]
      rw [h.members]
    · simp only [update_of_ne hid, hid, false_and, or_false]
      exact h.members id' t

lemma pop (h : s.Enumerates on) {id tok : ℕ} (hon : on id tok)
    (hrun : s._popNodeToken id tok = .ok s') :
    s'.Enumerates (fun id' t => on id' t ∧ ¬ (id' = id ∧ t = tok)) := by
  have hmem : tok ∈ s.nodeTokens id := (h.members id tok).mpr hon
  have hlt := ((h.indexed id).listed hmem).lt_length
  unfold _popNodeToken at hrun
  obtain ⟨last, hlast, hrest⟩ := of_bind hrun
  obtain ⟨-, rfl⟩ := subUint_eq_ok.mp hlast
  obtain ⟨moved, hmoved, rfl⟩ := of_bind_pure hrest
  -- the list of the node after the removal, in either branch
  obtain ⟨hindexed, hmembers, hother⟩ :
      Indexed moved.1.dropLast (store₂ moved.2 id tok 0 id) ∧
      (∀ k, k ∈ moved.1.dropLast ↔ k ∈ s.nodeTokens id ∧ k ≠ tok) ∧
      ∀ id', id' ≠ id → moved.2 id' = s.nodeTokenIndex id' := by
    split at hmoved
    next hmid =>
      obtain ⟨_, -, rfl⟩ := of_bind_pure hmoved
      have hget : (s.nodeTokens id)[(s.nodeTokens id).length - 1]?
          = some ((s.nodeTokens id).getD ((s.nodeTokens id).length - 1) 0) := by
        rw [getD_eq_getElem?_getD, getElem?_eq_getElem (by omega)]
        rfl
      obtain ⟨hidx, hmembers⟩ := (h.indexed id).pop_moved hmem hmid hget 0
      refine ⟨?_, hmembers, fun id' hid => store₂_other_row _ _ _ hid⟩
      simp only [store₂_row]
      exact hidx
    next hlast =>
      obtain rfl := of_pure hmoved
      obtain ⟨hidx, hmembers⟩ := (h.indexed id).pop_last hmem (not_not.mp hlast) 0
      refine ⟨?_, hmembers, fun _ _ => rfl⟩
      rw [store₂_row]
      exact hidx
  constructor
  · intro id'
    by_cases hid : id' = id
    · subst hid
      simp only [update_self]
      exact hindexed
    · simp only [update_of_ne hid, store₂_other_row _ _ _ hid, hother id' hid]
      exact h.indexed id'
  · intro id' t
    by_cases hid : id' = id
    · subst hid
      simp only [update_self, true_and]
      rw [hmembers, h.members]
    · simp only [update_of_ne hid, hid, false_and, not_false_eq_true, and_true]
      exact h.members id' t

end Enumerates

/-- The live positions, by node. -/
def OnNode (s : ConvictionStakingStorage) (id tok : ℕ) : Prop := (s.positions tok).On id

/-- The lists enumerate the live positions. -/
def TokenInv (s : ConvictionStakingStorage) : Prop := s.Enumerates s.OnNode

/-! ## The mutators -/

/-- The raw aggregates stay as they are. -/
structure SameStakes (s s' : ConvictionStakingStorage) : Prop where
  stake : ∀ id, (s'.ledger id).nodeStakeV10 = (s.ledger id).nodeStakeV10
  total : s'.totalStakeV10 = s.totalStakeV10

lemma SameStakes.trans {s₁ s₂ s₃ : ConvictionStakingStorage} (h : SameStakes s₁ s₂)
    (h' : SameStakes s₂ s₃) : SameStakes s₁ s₃ :=
  ⟨fun id => (h'.stake id).trans (h.stake id), h'.total.trans h.total⟩

lemma SameStakes.pop {id tok : ℕ} (h : s._popNodeToken id tok = .ok s') : SameStakes s s' := by
  rw [_popNodeToken_ok h]
  exact ⟨fun _ => rfl, rfl⟩

/-- Positions, token lists and raw aggregates stay as they are. -/
structure TokensKept (s s' : ConvictionStakingStorage) : Prop where
  positions : s'.positions = s.positions
  sameLists : SameLists s s'
  sameStakes : SameStakes s s'

namespace TokensKept

lemma trans {s₁ s₂ s₃ : ConvictionStakingStorage} (h : TokensKept s₁ s₂)
    (h' : TokensKept s₂ s₃) : TokensKept s₁ s₃ where
  positions := h'.positions.trans h.positions
  sameLists := ⟨h'.sameLists.lists.trans h.sameLists.lists,
    h'.sameLists.index.trans h.sameLists.index⟩
  sameStakes := h.sameStakes.trans h'.sameStakes

lemma of_onLedger {id : ℕ} {f : NodeLedger → Tx NodeLedger} (hf : KeepsStake f)
    (h : s.onLedger id f = .ok s') : TokensKept s s' := by
  obtain ⟨l, hl, rfl⟩ := onLedger_eq_ok.mp h
  refine ⟨rfl, ⟨rfl, rfl⟩, ?_, rfl⟩
  intro id'
  by_cases hid : id' = id
  · rw [hid, setLedger_ledger_self]
    exact hf _ _ hl
  · rw [setLedger_ledger_of_ne _ _ hid]

lemma of_onLedger_ite {id : ℕ} {f : NodeLedger → Tx NodeLedger} {P : Prop} [Decidable P]
    (hf : KeepsStake f) (h : (if P then s.onLedger id f else pure s) = .ok s') :
    TokensKept s s' := by
  rw [onLedger_ite] at h
  exact of_onLedger (hf.ite P) h

end TokensKept

namespace Restaked

variable {s₁ s₂ : ConvictionStakingStorage} {p p' : Position} {id a : ℕ}

lemma refl (s : ConvictionStakingStorage) (p : Position) : Restaked s s p p :=
  ⟨fun _ => rfl, rfl⟩

/-- The frame before the aggregates are written, and after it. -/
lemma frame (h : Restaked s₁ s₂ p p') (hkept : SameStakes s s₁) (hkept' : SameStakes s₂ s') :
    Restaked s s' p p' := by
  constructor
  · intro id
    rw [hkept'.stake, ← hkept.stake]
    exact h.stake id
  · rw [hkept'.total, ← hkept.total]
    exact h.total

lemma increase (h : s._increaseNodeStakeV10 id a = .ok s')
    (hself : p.rawOn id + a = p'.rawOn id) (hoff : ∀ id', id' ≠ id → p.rawOn id' = p'.rawOn id')
    (htotal : p.rawOn p.identityId + a = p'.rawOn p'.identityId) : Restaked s s' p p' := by
  obtain rfl := _increaseNodeStakeV10_ok h
  constructor
  · intro id'
    by_cases hid : id' = id
    · subst hid
      simp only [setLedger, update_self]
      omega
    · simp only [setLedger, update_of_ne hid, hoff id' hid]
  · show s.totalStakeV10 + a + _ = _
    omega

lemma decrease (h : s._decreaseNodeStakeV10 id a = .ok s')
    (hself : p.rawOn id = p'.rawOn id + a) (hoff : ∀ id', id' ≠ id → p.rawOn id' = p'.rawOn id')
    (htotal : p.rawOn p.identityId = p'.rawOn p'.identityId + a) : Restaked s s' p p' := by
  obtain ⟨hle, hle', rfl⟩ := _decreaseNodeStakeV10_ok h
  constructor
  · intro id'
    by_cases hid : id' = id
    · subst hid
      simp only [setLedger, update_self]
      omega
    · simp only [setLedger, update_of_ne hid, hoff id' hid]
  · show s.totalStakeV10 - a + _ = _
    omega

/-- The stake of a position leaves one node and arrives on another. -/
lemma move (hd : s.decreaseNodeStake p.identityId p.raw = .ok s₁)
    (hi : s₁.increaseNodeStake id p.raw = .ok s') (hlive : p.identityId ≠ 0) (hid : id ≠ 0)
    (hne : p.identityId ≠ id) : Restaked s s' p { p with identityId := id } := by
  obtain ⟨hle, rfl⟩ := decreaseNodeStake_ok hd
  obtain rfl := increaseNodeStake_ok hi
  set p' : Position := { p with identityId := id } with hp'
  have hself : p.rawOn p.identityId = p.raw := rawOn_self hlive
  have hself' : p'.rawOn id = p.raw := rawOn_self (p := p') hid
  constructor
  · intro id'
    by_cases hold : id' = p.identityId
    · rw [hold, setLedger_ledger_of_ne _ _ hne, setLedger_ledger_self, hself,
        rawOn_of_ne (p := p') hne]
      show (s.ledger p.identityId).nodeStakeV10 - p.raw + p.raw = _
      omega
    · rw [rawOn_of_ne hold]
      by_cases hnew : id' = id
      · rw [hnew, setLedger_ledger_self, hself', setLedger_ledger_of_ne _ _ hne.symm]
        rfl
      · rw [setLedger_ledger_of_ne _ _ hnew, setLedger_ledger_of_ne _ _ hold,
          rawOn_of_ne (p := p') hnew]
  · rw [hself]
    show s.totalStakeV10 + p.raw = s.totalStakeV10 + p'.rawOn id
    rw [hself']

end Restaked

variable {tok new id tier a : ℕ}

lemma deletePosition_lists (hrun : s.deletePosition b tok = .ok s') :
    (s.positions tok).identityId ≠ 0 ∧
    s'.positions = update s.positions tok zero ∧
    Restaked s s' (s.positions tok) zero ∧
    ∃ s₁ s₂, SameLists s s₁ ∧ s₁._popNodeToken (s.positions tok).identityId tok = .ok s₂ ∧
      SameLists s₂ s' := by
  unfold deletePosition at hrun
  obtain ⟨hid, hrun⟩ := of_require hrun
  obtain ⟨s₁, h₁, s₂, h₂, s₃, h₃, hrun⟩ := of_bind₃ hrun
  obtain ⟨s₄, h₄, s₅, h₅, hend⟩ := of_bind₂ hrun
  obtain rfl := of_pure hend
  have hkept : TokensKept s s₃ :=
    ((TokensKept.of_onLedger (.settle _) h₁).trans (.of_onLedger (.applyDelta _) h₂)).trans
      (.of_onLedger_ite (.cancel _ _) h₃)
  have hzero : ∀ id, zero.rawOn id = 0 := rawOn_dead rfl
  have hself := rawOn_self hid
  have hoff : ∀ id, id ≠ (s.positions tok).identityId →
      (s.positions tok).rawOn id = zero.rawOn id :=
    fun id hne => (rawOn_of_ne hne).trans (hzero id).symm
  -- a position without stake leaves the aggregates alone
  obtain ⟨hpos₅, hlists₅, hstaked⟩ : s₅.positions = s₄.positions ∧ SameLists s₄ s₅ ∧
      Restaked s₄ s₅ (s.positions tok) zero := by
    split at h₅
    next =>
      have hdec := h₅
      obtain ⟨-, -, rfl⟩ := _decreaseNodeStakeV10_ok h₅
      refine ⟨rfl, ⟨rfl, rfl⟩, .decrease hdec ?_ hoff ?_⟩
      · rw [hself, hzero, Nat.zero_add]
      · rw [hself, hzero, Nat.zero_add]
    next hraw =>
      obtain rfl := of_pure h₅
      have hnone : (s.positions tok).raw = 0 := by omega
      refine ⟨rfl, ⟨rfl, rfl⟩, ?_, ?_⟩
      · intro id
        by_cases hne : id = (s.positions tok).identityId
        · rw [hne, hself, hzero, hnone]
        · rw [hoff id hne]
      · rw [hself, hzero, hnone]
  refine ⟨hid, ?_, ?_, s₃, s₄, hkept.sameLists, h₄, ⟨hlists₅.lists, hlists₅.index⟩⟩
  · simp only [setPosition, hpos₅]
    rw [_popNodeToken_ok h₄]
    simp only [hkept.positions]
  · exact hstaked.frame (hkept.sameStakes.trans (.pop h₄)) ⟨fun _ => rfl, rfl⟩

lemma createNewPositionFromExisting_lists {old : ℕ}
    (hrun : s.createNewPositionFromExisting b old new id tier = .ok s') :
    (s.positions new).identityId = 0 ∧ old ≠ new ∧ (s.positions old).identityId ≠ 0 ∧
    (s.positions old).identityId = id ∧ SameStakes s s' ∧
    (∃ p : Position, p.identityId = id ∧ p.raw = (s.positions old).raw ∧ s'.positions
      = update (update s.positions new p) old zero) ∧
    ∃ s₁ s₂, SameLists s s₁ ∧ s₁._popNodeToken id old = .ok s₂ ∧
      SameLists (s₂._pushNodeToken id new) s' := by
  unfold createNewPositionFromExisting at hrun
  obtain ⟨_, -, hrun⟩ := of_bind hrun
  obtain ⟨hdead, hne, hrun⟩ := of_require₂ hrun
  obtain ⟨hlive, hident, hrun⟩ := of_require₂ hrun
  obtain ⟨_, -, m, -, s₁, h₁, hrun⟩ := of_bind₃ hrun
  obtain ⟨s₂, h₂, s₃, h₃, x, -, hrun⟩ := of_bind₃ hrun
  obtain ⟨s₄, h₄, s₅, h₅, s₆, h₆, hend⟩ := of_bind₃ hrun
  obtain rfl := of_pure hend
  have hkept : TokensKept s s₅ :=
    ((((TokensKept.of_onLedger (.settle _) h₁).trans (.of_onLedger (.applyDelta _) h₂)).trans
      (.of_onLedger_ite (.cancel _ _) h₃)).trans (.of_onLedger (.applyDelta _) h₄)).trans
      (.of_onLedger_ite (.schedule _ _) h₅)
  refine ⟨hdead, hne, hlive, hident, ?_, ?_, _, s₆, ?_, h₆, ⟨rfl, rfl⟩⟩
  · have hpop := SameStakes.pop h₆
    exact hkept.sameStakes.trans ⟨hpop.stake, hpop.total⟩
  · refine ⟨⟨(s.positions old).raw, tier, x, id, (s.positions old).cumulativeRewardsClaimed, m,
      (s.positions old).lastClaimedEpoch, (s.positions old).migrationEpoch⟩, rfl, rfl, ?_⟩
    show s₆.positions = _
    rw [_popNodeToken_ok h₆]
    simp only [setPosition, hkept.positions]
  · exact ⟨hkept.sameLists.lists, hkept.sameLists.index⟩

/-- Moving a position takes it off one list and puts it on the other. -/
lemma updateOnRedelegate_lists (hrun : s.updateOnRedelegate b tok new = .ok s') :
    new ≠ 0 ∧ (s.positions tok).identityId ≠ 0 ∧ (s.positions tok).identityId ≠ new ∧
    s'.positions = update s.positions tok { s.positions tok with identityId := new } ∧
    Restaked s s' (s.positions tok) { s.positions tok with identityId := new } ∧
    ∃ s₁ s₂, SameLists s s₁ ∧ s₁._popNodeToken (s.positions tok).identityId tok = .ok s₂ ∧
      SameLists (s₂._pushNodeToken new tok) s' := by
  unfold updateOnRedelegate at hrun
  obtain ⟨hnew, hlive, hrun⟩ := of_require₂ hrun
  obtain ⟨hne, hrun⟩ := of_require hrun
  obtain ⟨s₁, h₁, s₂, h₂, s₃, h₃, hrun⟩ := of_bind₃ hrun
  obtain ⟨s₄, h₄, s₅, h₅, s₆, h₆, hrun⟩ := of_bind₃ hrun
  obtain ⟨s₇, h₇, s₈, h₈, h₉⟩ := of_bind₂ hrun
  have hkept : TokensKept s s₆ :=
    (((((TokensKept.of_onLedger (.settle _) h₁).trans (.of_onLedger (.settle _) h₂)).trans
      (.of_onLedger (.applyDelta _) h₃)).trans (.of_onLedger_ite (.cancel _ _) h₄)).trans
      (.of_onLedger (.applyDelta _) h₅)).trans (.of_onLedger_ite (.schedule _ _) h₆)
  have hpop := SameStakes.pop h₇
  have hmoved := Restaked.move h₈ h₉ hlive hnew hne
  obtain ⟨hpos, hlists⟩ : s'.positions = s₇.positions ∧
      SameLists (s₇._pushNodeToken new tok) s' := by
    obtain ⟨-, rfl⟩ := decreaseNodeStake_ok h₈
    obtain rfl := increaseNodeStake_ok h₉
    exact ⟨rfl, rfl, rfl⟩
  refine ⟨hnew, hlive, hne, ?_, ?_, _, s₇, ?_, h₇, hlists⟩
  · rw [hpos, _popNodeToken_ok h₇]
    simp only [setPosition, hkept.positions]
  · exact hmoved.frame (hkept.sameStakes.trans ⟨hpop.stake, hpop.total⟩) ⟨fun _ => rfl, rfl⟩
  · exact ⟨hkept.sameLists.lists, hkept.sameLists.index⟩

lemma createPosition_lists {raw mig : ℕ}
    (hrun : s.createPosition c b tok id raw tier mig = .ok s') :
    id ≠ 0 ∧ (s.positions tok).identityId = 0 ∧
    (∃ p : Position, p.identityId = id ∧ s'.positions = update s.positions tok p ∧
      Restaked s s' (s.positions tok) p) ∧
    SameLists (s._pushNodeToken id tok) s' := by
  unfold createPosition at hrun
  obtain ⟨hid, hdead, hrun⟩ := of_require₂ hrun
  obtain ⟨_, -, _, -, m, -, hrun⟩ := of_bind₃ hrun
  obtain ⟨_, -, x, -, s₁, h₁, hrun⟩ := of_bind₃ hrun
  obtain ⟨s₂, h₂, s₃, h₃, h₄⟩ := of_bind₂ hrun
  have hkept : TokensKept s₁ s' :=
    ((TokensKept.of_onLedger (.settle _) h₂).trans (.of_onLedger (.applyDelta _) h₃)).trans
      (.of_onLedger_ite (.schedule _ _) h₄)
  set p : Position := ⟨raw, tier, x, id, 0, m, uint32 (c.getCurrentEpoch b - 1), mig⟩ with hp
  have hself : p.rawOn id = raw := rawOn_self (p := p) hid
  have hstaked : Restaked s s₁ (s.positions tok) p := by
    have hdead' := rawOn_dead hdead
    refine Restaked.frame (.increase h₁ ?_ ?_ ?_) ⟨fun _ => rfl, rfl⟩ ⟨fun _ => rfl, rfl⟩
    · rw [hdead', hself, Nat.zero_add]
    · intro id' hne
      rw [hdead', rawOn_of_ne (p := p) hne]
    · rw [hdead', Nat.zero_add]
      exact hself.symm
  obtain ⟨hpos, hlists⟩ : s₁.positions = update s.positions tok p ∧
      SameLists (s._pushNodeToken id tok) s₁ := by
    obtain rfl := _increaseNodeStakeV10_ok h₁
    exact ⟨rfl, rfl, rfl⟩
  refine ⟨hid, hdead, ⟨p, rfl, hkept.positions.trans hpos, ?_⟩, ?_⟩
  · exact hstaked.frame ⟨fun _ => rfl, rfl⟩ hkept.sameStakes
  · exact ⟨hkept.sameLists.lists.trans hlists.lists, hkept.sameLists.index.trans hlists.index⟩

/-- What a partial change keeps and what it writes. -/
structure RawChanged (s s' : ConvictionStakingStorage) (tok raw : ℕ) : Prop where
  live : (s.positions tok).identityId ≠ 0
  positions : s'.positions = update s.positions tok { s.positions tok with raw := raw }
  sameLists : SameLists s s'
  staked : Restaked s s' (s.positions tok) { s.positions tok with raw := raw }

lemma RawChanged.refl (hlive : (s.positions tok).identityId ≠ 0) :
    RawChanged s s tok (s.positions tok).raw where
  live := hlive
  positions := (update_eq_self tok s.positions).symm
  sameLists := ⟨rfl, rfl⟩
  staked := Restaked.refl s _

lemma increaseRaw_lists (hrun : s.increaseRaw b tok a = .ok s') :
    RawChanged s s' tok ((s.positions tok).raw + a) := by
  unfold increaseRaw at hrun
  obtain ⟨hlive, hrun⟩ := of_require hrun
  split at hrun
  next hzero =>
    obtain rfl := of_pure hrun
    subst hzero
    exact .refl hlive
  next =>
    obtain ⟨_, -, s₁, h₁, s₂, h₂, hrun⟩ := of_bind₃ hrun
    obtain ⟨s₃, h₃, h₄⟩ := of_bind hrun
    have hkept : TokensKept s s₃ :=
      ((TokensKept.of_onLedger (.settle _) h₁).trans (.of_onLedger (.applyDelta _) h₂)).trans
        (.of_onLedger_ite (.schedule _ _) h₃)
    have hself := rawOn_self hlive
    set p : Position := { s.positions tok with raw := (s.positions tok).raw + a } with hp
    have hself' : p.rawOn (s.positions tok).identityId = (s.positions tok).raw + a :=
      rawOn_self (p := p) hlive
    have hstaked : Restaked s s' (s.positions tok) p := by
      refine Restaked.frame (.increase h₄ ?_ ?_ ?_)
        (hkept.sameStakes.trans ⟨fun _ => rfl, rfl⟩) ⟨fun _ => rfl, rfl⟩
      · rw [hself, hself']
      · intro id hne
        rw [rawOn_of_ne hne, rawOn_of_ne (p := p) hne]
      · rw [hself]
        exact hself'.symm
    obtain rfl := _increaseNodeStakeV10_ok h₄
    refine ⟨hlive, ?_, ⟨hkept.sameLists.lists, hkept.sameLists.index⟩, hstaked⟩
    simp only [setPosition, setLedger, hkept.positions, hp]

lemma decreaseRaw_lists (hrun : s.decreaseRaw b tok a = .ok s') :
    RawChanged s s' tok ((s.positions tok).raw - a) := by
  unfold decreaseRaw at hrun
  obtain ⟨hlive, hle, hrun⟩ := of_require₂ hrun
  split at hrun
  next hzero =>
    obtain rfl := of_pure hrun
    subst hzero
    exact .refl hlive
  next =>
    obtain ⟨s₁, h₁, s₂, h₂, s₃, h₃, h₄⟩ := of_bind₃ hrun
    have hkept : TokensKept s s₃ :=
      ((TokensKept.of_onLedger (.settle _) h₁).trans (.of_onLedger (.applyDelta _) h₂)).trans
        (.of_onLedger_ite (.cancel _ _) h₃)
    have hself := rawOn_self hlive
    set p : Position := { s.positions tok with raw := (s.positions tok).raw - a } with hp
    have hself' : p.rawOn (s.positions tok).identityId = (s.positions tok).raw - a :=
      rawOn_self (p := p) hlive
    have hstaked : Restaked s s' (s.positions tok) p := by
      refine Restaked.frame (.decrease h₄ ?_ ?_ ?_)
        (hkept.sameStakes.trans ⟨fun _ => rfl, rfl⟩) ⟨fun _ => rfl, rfl⟩
      · rw [hself, hself', Nat.sub_add_cancel hle]
      · intro id hne
        rw [rawOn_of_ne hne, rawOn_of_ne (p := p) hne]
      · show _ = p.rawOn (s.positions tok).identityId + a
        rw [hself, hself', Nat.sub_add_cancel hle]
    obtain ⟨-, -, rfl⟩ := _decreaseNodeStakeV10_ok h₄
    refine ⟨hlive, ?_, ⟨hkept.sameLists.lists, hkept.sameLists.index⟩, hstaked⟩
    simp only [setPosition, setLedger, hkept.positions, hp]

namespace TokenInv

lemma seed : _seedBaselineTiers.TokenInv := by
  refine ⟨fun _ => Indexed.nil _, fun id tok => ?_⟩
  constructor
  · intro hmem
    cases hmem
  · intro hon
    exact absurd rfl hon.1

variable (h : s.TokenInv)

include h

lemma listedOn {tok : ℕ} (hid : (s.positions tok).identityId ≠ 0) :
    s.ListedOn (s.positions tok).identityId tok :=
  (h.indexed _).listed ((h.members _ tok).mpr ⟨hid, rfl⟩)

lemma of_eq (hlists : SameLists s s')
    (hpos : ∀ tok, (s'.positions tok).identityId = (s.positions tok).identityId) : s'.TokenInv := by
  refine (Enumerates.sameLists h hlists).of_iff fun id tok => ?_
  unfold OnNode On
  rw [hpos]

lemma createPosition {tok id raw tier mig : ℕ}
    (hrun : s.createPosition c b tok id raw tier mig = .ok s') : s'.TokenInv := by
  obtain ⟨hid, hdead, ⟨p, hp, hpos, -⟩, hlists⟩ := createPosition_lists hrun
  have hfresh : ¬ s.OnNode id tok := fun hon => hon.1 hdead
  refine ((Enumerates.push h hfresh).sameLists hlists).of_iff fun id' t => ?_
  unfold OnNode On
  rw [hpos]
  by_cases ht : t = tok
  · subst ht
    simp only [update_self, hdead, hp]
    constructor
    · rintro (hon | ⟨rfl, -⟩)
      · exact absurd rfl hon.1
      · exact ⟨hid, rfl⟩
    · rintro ⟨-, rfl⟩
      exact .inr ⟨rfl, trivial⟩
  · simp only [update_of_ne ht, ht, and_false, or_false]

lemma deletePosition {tok : ℕ} (hrun : s.deletePosition b tok = .ok s') : s'.TokenInv := by
  obtain ⟨hid, hpos, -, s₁, s₂, hlists, hpop, hlists'⟩ := deletePosition_lists hrun
  have henum := ((Enumerates.sameLists h hlists).pop ⟨hid, rfl⟩ hpop).sameLists hlists'
  refine henum.of_iff fun id' t => ?_
  unfold OnNode On
  rw [hpos]
  by_cases ht : t = tok
  · subst ht
    simp only [update_self]
    constructor
    · rintro ⟨⟨-, hid'⟩, hne⟩
      exact absurd ⟨hid'.symm, trivial⟩ hne
    · rintro ⟨hzero, -⟩
      exact absurd rfl hzero
  · simp only [update_of_ne ht, ht, and_false, not_false_eq_true, and_true]

lemma createNewPositionFromExisting {old new id tier : ℕ}
    (hrun : s.createNewPositionFromExisting b old new id tier = .ok s') : s'.TokenInv := by
  obtain ⟨hdead, hne, hlive, hident, -, ⟨p, hp, -, hpos⟩, s₁, s₂, hlists, hpop, hlists'⟩ :=
    createNewPositionFromExisting_lists hrun
  have hpopped := (Enumerates.sameLists h hlists).pop ⟨hlive, hident⟩ hpop
  have hfresh : ¬ (s.OnNode id new ∧ ¬ (id = id ∧ new = old)) := fun hon => hon.1.1 hdead
  refine ((hpopped.push hfresh).sameLists hlists').of_iff fun id' t => ?_
  unfold OnNode On
  rw [hpos]
  by_cases ht : t = old
  · subst ht
    simp only [update_self, hident, hne, and_true, and_false, or_false]
    constructor
    · rintro ⟨⟨-, hid'⟩, hother⟩
      exact absurd hid'.symm hother
    · rintro ⟨hzero, -⟩
      exact absurd rfl hzero
  · rw [update_of_ne ht]
    by_cases ht' : t = new
    · subst ht'
      simp only [update_self, hdead, hp]
      constructor
      · rintro (⟨⟨hzero, -⟩, -⟩ | ⟨rfl, -⟩)
        · exact absurd rfl hzero
        · exact ⟨hident ▸ hlive, rfl⟩
      · rintro ⟨-, rfl⟩
        exact .inr ⟨rfl, trivial⟩
    · simp only [update_of_ne ht', ht, ht', and_false, not_false_eq_true, and_true, or_false]

lemma updateOnRedelegate {tok new : ℕ}
    (hrun : s.updateOnRedelegate b tok new = .ok s') : s'.TokenInv := by
  obtain ⟨hnew, hlive, hne, hpos, -, s₁, s₂, hlists, hpop, hlists'⟩ := updateOnRedelegate_lists hrun
  have hpopped := (Enumerates.sameLists h hlists).pop ⟨hlive, rfl⟩ hpop
  have hfresh : ¬ (s.OnNode new tok ∧ ¬ (new = (s.positions tok).identityId ∧ tok = tok)) :=
    fun hon => hne hon.1.2
  refine ((hpopped.push hfresh).sameLists hlists').of_iff fun id' t => ?_
  unfold OnNode On
  rw [hpos]
  by_cases ht : t = tok
  · subst ht
    simp only [update_self, and_true]
    constructor
    · rintro (⟨⟨-, hid'⟩, hother⟩ | rfl)
      · exact absurd hid'.symm hother
      · exact ⟨hnew, rfl⟩
    · rintro ⟨-, rfl⟩
      exact .inr rfl
  · simp only [update_of_ne ht, ht, and_false, not_false_eq_true, and_true, or_false]

end TokenInv

namespace RawInv

lemma seed : _seedBaselineTiers.RawInv where
  stake := fun _ => (Finset.sum_eq_zero fun _ _ => rawOn_dead rfl _).symm
  total := (Finset.sum_eq_zero fun _ _ => rawOn_dead rfl _).symm

variable (h : s.RawInv) {tok : ℕ} (htok : tok ∈ tokenIds)

include h

lemma of_kept (hkept : TokensKept s s') : s'.RawInv := by
  constructor
  · intro id
    rw [hkept.sameStakes.stake, hkept.positions]
    exact h.stake id
  · rw [hkept.sameStakes.total, hkept.positions]
    exact h.total

lemma createNewPositionFromExisting {old new id tier : ℕ} (hold : old ∈ tokenIds)
    (hnew : new ∈ tokenIds) (hrun : s.createNewPositionFromExisting b old new id tier = .ok s') :
    s'.RawInv := by
  obtain ⟨hdead, hne, -, hident, hstakes, ⟨p, hp, hraw, hpos⟩, -⟩ :=
    createNewPositionFromExisting_lists hrun
  have hsame : ∀ id', p.rawOn id' = (s.positions old).rawOn id' := by
    intro id'
    have hon : p.On id' ↔ (s.positions old).On id' := by
      unfold On
      rw [hp, hident]
    simp only [rawOn, hon, hraw]
  -- the new token takes over what the old one gives up
  have hsum : ∀ f : Position → ℕ, f zero = 0 → f (s.positions new) = 0 →
      f p = f (s.positions old) →
      ∑ tok ∈ tokenIds, f (s.positions tok) = ∑ tok ∈ tokenIds, f (s'.positions tok) := by
    intro f hzero hempty hfp
    have := sum_replace (p := p) hold hnew hne f hzero hempty
    rw [hpos]
    omega
  constructor
  · intro id'
    rw [hstakes.stake, h.stake]
    exact hsum (fun q => q.rawOn id') (rawOn_dead rfl _) (rawOn_dead hdead _) (hsame id')
  · rw [hstakes.total, h.total]
    refine hsum (fun q => q.rawOn q.identityId) (rawOn_dead rfl _) (rawOn_dead hdead _) ?_
    rw [hsame, hp, hident]

include htok

lemma createPosition {id raw tier mig : ℕ}
    (hrun : s.createPosition c b tok id raw tier mig = .ok s') : s'.RawInv := by
  obtain ⟨-, -, ⟨p, -, hpos, hstaked⟩, -⟩ := createPosition_lists hrun
  exact h.update htok hpos hstaked

lemma deletePosition (hrun : s.deletePosition b tok = .ok s') : s'.RawInv := by
  obtain ⟨-, hpos, hstaked, -⟩ := deletePosition_lists hrun
  exact h.update htok hpos hstaked

lemma updateOnRedelegate {new : ℕ} (hrun : s.updateOnRedelegate b tok new = .ok s') :
    s'.RawInv := by
  obtain ⟨-, -, -, hpos, hstaked, -⟩ := updateOnRedelegate_lists hrun
  exact h.update htok hpos hstaked

lemma of_rawChanged {raw : ℕ} (hch : RawChanged s s' tok raw) : s'.RawInv :=
  h.update htok hch.positions hch.staked

end RawInv

end ConvictionStakingStorage

end Dkg
