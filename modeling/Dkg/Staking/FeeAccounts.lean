import Dkg.Staking.Invariant

/-! # The fee accounts and the log

`FeeInv` ties the fee accounts of the nodes to the rewarded epochs in the log: the fee of a
node's epoch is taken once, by the first claim that reaches the epoch, and every claim of that
epoch shares the net reward of that one split. What was taken is still in the account, waits for
its withdrawal, or has been paid out.
-/

namespace Dkg

open Lib ConvictionStakingStorage List
open Function (update_of_ne update_self)

/-! ## Reading the log -/

def claimsOf (log : List Event) : List Claimed :=
  log.filterMap fun
    | .claimed record => some record
    | _ => none

/-- The rewarded epochs of a log, each with its node. -/
def linesOf (log : List Event) : List (ℕ × ClaimLine) :=
  (claimsOf log).flatMap fun record => record.lines.map fun line => (record.identityId, line)

/-- The operator fees a log has paid out for a node. -/
def feesWithdrawn (log : List Event) (id : ℕ) : ℕ :=
  (log.map fun
    | .feeWithdrawn identityId amount => if identityId = id then amount else 0
    | _ => 0).sum

/-- The fee a rewarded epoch has taken. -/
def ClaimLine.fee (line : ClaimLine) : ℕ :=
  match line.split with
  | some sp => sp.fee
  | none => 0

/-- The fees taken for a node. -/
def feesTaken (lines : List (ℕ × ClaimLine)) (id : ℕ) : ℕ :=
  (lines.map fun a => if a.1 = id then a.2.fee else 0).sum

/-- The node and the epoch of a line. -/
def lineKey (a : ℕ × ClaimLine) : ℕ × ℕ := (a.1, a.2.epoch)

/-- The claim a list of events holds, if any. -/
def recordLines : Option Claimed → List (ℕ × ClaimLine)
  | none => []
  | some record => record.lines.map fun line => (record.identityId, line)

lemma claimsOf_append (log events : List Event) :
    claimsOf (log ++ events) = claimsOf log ++ claimsOf events := filterMap_append

lemma linesOf_append (log events : List Event) :
    linesOf (log ++ events) = linesOf log ++ linesOf events := by
  unfold linesOf
  rw [claimsOf_append, flatMap_append]

@[simp] lemma linesOf_claimEvents (record : Option Claimed) :
    linesOf (Op.claimEvents record) = recordLines record := by
  cases record with
  | none => rfl
  | some record =>
    simp [linesOf, claimsOf, Op.claimEvents, recordLines]

lemma feesWithdrawn_append (log events : List Event) (id : ℕ) :
    feesWithdrawn (log ++ events) id = feesWithdrawn log id + feesWithdrawn events id := by
  simp [feesWithdrawn]

@[simp] lemma feesWithdrawn_claimEvents (record : Option Claimed) (id : ℕ) :
    feesWithdrawn (Op.claimEvents record) id = 0 := by
  cases record <;> rfl

lemma feesTaken_append (L L' : List (ℕ × ClaimLine)) (id : ℕ) :
    feesTaken (L ++ L') id = feesTaken L id + feesTaken L' id := by
  simp [feesTaken]

lemma feesTaken_singleton (id : ℕ) (line : ClaimLine) (id' : ℕ) :
    feesTaken [(id, line)] id' = if id = id' then line.fee else 0 := by
  simp [feesTaken]

/-! ## The scores -/

/-- A node's score is part of the score of all nodes. -/
def ScoreInv (r : RandomSamplingStorage) : Prop :=
  ∀ id e, r.nodeEpochScore id e ≤ r.allNodesEpochScore e

section

variable {c : Chronos} {b : Block} {w w' : World}

lemma Proved.scores {id stake score : ℕ} (h : Proved c b w id stake score w')
    (hscore : ScoreInv w.rss) : ScoreInv w'.rss := by
  intro id' e
  have hold := hscore id' e
  rw [h.nodeScore, h.allScore]
  unfold store₂
  by_cases he : e = c.getCurrentEpoch b
  · subst he
    rw [update_self]
    by_cases hid : id' = id
    · subst hid
      rw [if_pos ⟨rfl, rfl⟩]
      omega
    · rw [if_neg (fun hboth => hid hboth.1)]
      omega
  · rw [update_of_ne he, if_neg (fun hboth => he hboth.2)]
    exact hold

lemma Effect.scores {op : Op} {events : List Event} (h : Effect c b w op w' events)
    (hscore : ScoreInv w.rss) : ScoreInv w'.rss := by
  rcases h.onlySettled_or_proved with hsettled | ⟨_, _, _, _, _, hproved⟩
  · intro id e
    rw [hsettled.nodeScore, hsettled.allScore]
    exact hscore id e
  · exact hproved.scores hscore

end

/-! ## The fee accounts -/

/-- The accounts of the nodes against the rewarded epochs `L` and the fees `out` paid out. -/
structure FeeInv (s : ConvictionStakingStorage) (L : List (ℕ × ClaimLine)) (out : ℕ → ℕ) :
    Prop where
  /-- A rewarded epoch has its fee taken, and uses the net reward of the account. -/
  shared : ∀ a ∈ L, s.isOperatorFeeClaimedForEpoch a.1 a.2.epoch = true ∧
    a.2.net = s.netNodeEpochRewards a.1 a.2.epoch
  /-- An epoch whose fee is taken has its split in the log. -/
  recorded : ∀ id e, s.isOperatorFeeClaimedForEpoch id e = true →
    ∃ a ∈ L, lineKey a = (id, e) ∧ a.2.split ≠ none
  /-- A split divides the gross reward into the fee and the net reward. -/
  divided : ∀ a ∈ L, ∀ sp, a.2.split = some sp → sp.fee + sp.net = sp.gross ∧ a.2.net = sp.net
  /-- No node's epoch is split twice. -/
  once : L.Pairwise fun a a' => a.2.split ≠ none → a'.2.split ≠ none → lineKey a ≠ lineKey a'
  /-- What was taken is in the account, requested, or paid out. -/
  balance : ∀ id, s.nodeOperatorFeeBalance id + (s.operatorFeeWithdrawals id).amount + out id
    = feesTaken L id

namespace FeeInv

variable {s s' : ConvictionStakingStorage} {L : List (ℕ × ClaimLine)} {out out' : ℕ → ℕ}

lemma init : FeeInv _seedBaselineTiers [] fun _ => 0 where
  shared := fun _ ha => absurd ha not_mem_nil
  recorded := fun _ _ h => absurd h (by simp [_seedBaselineTiers, _addTierInternal])
  divided := fun _ ha => absurd ha not_mem_nil
  once := .nil
  balance := fun _ => rfl

/-- The flags and the net rewards stay, and every account with its request and its payments
keeps its sum. -/
lemma of_eq (h : FeeInv s L out)
    (hflag : s'.isOperatorFeeClaimedForEpoch = s.isOperatorFeeClaimedForEpoch)
    (hnet : s'.netNodeEpochRewards = s.netNodeEpochRewards)
    (hbal : ∀ id, s'.nodeOperatorFeeBalance id + (s'.operatorFeeWithdrawals id).amount + out' id
      = s.nodeOperatorFeeBalance id + (s.operatorFeeWithdrawals id).amount + out id) :
    FeeInv s' L out' where
  shared := by rw [hflag, hnet]; exact h.shared
  recorded := by rw [hflag]; exact h.recorded
  divided := h.divided
  once := h.once
  balance := fun id => (hbal id).trans (h.balance id)

lemma kept (h : FeeInv s L out) (hkept : FeesKept s s') : FeeInv s' L out :=
  h.of_eq hkept.flag hkept.net fun id => by rw [hkept.balance, hkept.withdrawals]

variable {id : ℕ} {line : ClaimLine}

/-- One rewarded epoch more, whose fee is taken now. -/
lemma splitTaken (h : FeeInv s L out) {sp : FeeSplit}
    (hflag : s.isOperatorFeeClaimedForEpoch id line.epoch = false) (hsplit : line.split = some sp)
    (hsum : sp.fee + sp.net = sp.gross) (hnet : line.net = sp.net) :
    FeeInv (((s.setIsOperatorFeeClaimedForEpoch id line.epoch true).setNetNodeEpochRewards id
      line.epoch sp.net).setOperatorFeeBalance id (s.nodeOperatorFeeBalance id + sp.fee))
      (L ++ [(id, line)]) out := by
  -- nobody has claimed this epoch of the node before
  have hnew : ∀ a ∈ L, lineKey a ≠ (id, line.epoch) := by
    intro a ha hkey
    obtain ⟨h1, h2⟩ := Prod.mk.inj hkey
    have := (h.shared a ha).1
    rw [h1, h2, hflag] at this
    cases this
  have hold : ∀ a ∈ L, ¬ (a.1 = id ∧ a.2.epoch = line.epoch) :=
    fun a ha hboth => hnew a ha (Prod.ext hboth.1 hboth.2)
  constructor
  · intro a ha
    rcases mem_append.mp ha with ha | ha
    · have := h.shared a ha
      simp only [setOperatorFeeBalance, setNetNodeEpochRewards, setIsOperatorFeeClaimedForEpoch,
        store₂, if_neg (hold a ha)]
      exact this
    · obtain rfl := mem_singleton.mp ha
      simp [setOperatorFeeBalance, setNetNodeEpochRewards, setIsOperatorFeeClaimedForEpoch, store₂,
        hnet]
  · intro id' e hflag'
    by_cases hkey : id' = id ∧ e = line.epoch
    · obtain ⟨rfl, rfl⟩ := hkey
      exact ⟨(id', line), mem_append_right _ (mem_singleton.mpr rfl), rfl,
        by rw [hsplit]; exact Option.some_ne_none sp⟩
    · simp only [setOperatorFeeBalance, setNetNodeEpochRewards, setIsOperatorFeeClaimedForEpoch,
        store₂, if_neg hkey] at hflag'
      obtain ⟨a, ha, hka, hsa⟩ := h.recorded id' e hflag'
      exact ⟨a, mem_append_left _ ha, hka, hsa⟩
  · refine forall_mem_append.mpr ⟨h.divided, forall_mem_singleton.mpr fun sp' hsp' => ?_⟩
    rw [hsplit] at hsp'
    cases hsp'
    exact ⟨hsum, hnet⟩
  · refine pairwise_append.mpr ⟨h.once, pairwise_singleton _ _, ?_⟩
    intro a ha a' ha' _ _
    obtain rfl := mem_singleton.mp ha'
    exact hnew a ha
  · -- the fee goes into the account of the node
    intro id'
    have hbal := h.balance id'
    have hline : line.fee = sp.fee := by unfold ClaimLine.fee; rw [hsplit]
    rw [feesTaken_append, feesTaken_singleton, ← hbal, hline]
    simp only [setOperatorFeeBalance, setNetNodeEpochRewards, setIsOperatorFeeClaimedForEpoch]
    by_cases hid : id' = id
    · subst hid
      rw [update_self, if_pos rfl]
      omega
    · rw [update_of_ne hid, if_neg (Ne.symm hid)]
      omega

/-- One rewarded epoch more, whose fee was taken before. -/
lemma splitBefore (h : FeeInv s L out)
    (hflag : s.isOperatorFeeClaimedForEpoch id line.epoch = true) (hsplit : line.split = none)
    (hnet : line.net = s.netNodeEpochRewards id line.epoch) : FeeInv s (L ++ [(id, line)]) out := by
  constructor
  · exact forall_mem_append.mpr ⟨h.shared, forall_mem_singleton.mpr ⟨hflag, hnet⟩⟩
  · intro id' e hflag'
    obtain ⟨a, ha, hka, hsa⟩ := h.recorded id' e hflag'
    exact ⟨a, mem_append_left _ ha, hka, hsa⟩
  · refine forall_mem_append.mpr ⟨h.divided, forall_mem_singleton.mpr fun sp' hsp' => ?_⟩
    rw [hsplit] at hsp'
    cases hsp'
  · refine pairwise_append.mpr ⟨h.once, pairwise_singleton _ _, ?_⟩
    intro a _ a' ha' _ hsome
    obtain rfl := mem_singleton.mp ha'
    exact absurd hsplit hsome
  · intro id'
    have hline : line.fee = 0 := by unfold ClaimLine.fee; rw [hsplit]
    rw [feesTaken_append, feesTaken_singleton, h.balance id', hline, ite_self, add_zero]

lemma split {w : World} (h : FeeInv s L out) (hscore : ScoreInv w.rss)
    (hnode : line.nodeScore = w.rss.nodeEpochScore id line.epoch) (hpos : 0 < line.nodeScore)
    (heff : SplitEffect w s id line s') : FeeInv s' (L ++ [(id, line)]) out := by
  cases heff with
  | taken pool sp hflag hsplit _ _ _ _ hsum hnet _ => exact h.splitTaken hflag hsplit hsum hnet
  | before hflag hsplit hnet => exact h.splitBefore hflag hsplit hnet
  | unscored hflag hsplit hall hnet =>
    -- a node with a score makes the total positive
    have := hscore id line.epoch
    omega

end FeeInv

section

variable {c : Chronos} {b : Block} {w w' : World} {now cur : ℕ} {log : List Event}

variable {L : List (ℕ × ClaimLine)} {out : ℕ → ℕ} {tok : ℕ}

lemma FeeInv.claimLoop (h : FeeInv w.css L out) (hscore : ScoreInv w.rss) {k e : ℕ}
    {pos : Position} {st : ClaimState} (hloop : w.claimLoop c tok pos k e ⟨w.css, 0, []⟩ = .ok st) :
    FeeInv st.css (L ++ st.lines.map fun line => (pos.identityId, line)) out := by
  refine World.claimLoop_induct (P := fun _ st =>
    FeeInv st.css (L ++ st.lines.map fun line => (pos.identityId, line)) out) k ?_ ?_ hloop
  · rintro x st₁ st₂ - - hfee hepoch
    rcases World.claimEpoch_ok hepoch with ⟨rfl, -⟩ | ⟨line, hline⟩
    · exact hfee
    · have := hfee.split hscore (by rw [hline.nodeScore, hline.epoch]) hline.scored hline.split
      rw [hline.lines, map_append, map_singleton, ← append_assoc]
      exact this
  · rw [map_nil, append_nil]
    exact h

lemma ClaimEffect.fees {record : Option Claimed} (h : ClaimEffect c b w tok w' record)
    (hinv : w.css.Inv now) (hnow : now ≤ b.timestamp) (hscore : ScoreInv w.rss)
    (hfee : FeeInv w.css L out) : FeeInv w'.css (L ++ recordLines record) out := by
  cases h with
  | nothing =>
    rw [recordLines, append_nil]
    exact hfee
  | window hpos hid hcur hwin hearned hrss hloop hcomp =>
    have hlt := c.getCurrentEpoch_lt b
    obtain ⟨hfees, -⟩ := World.claimLoop_ok hloop
    rename_i st css table rss pos
    have hinv₁ : st.css.Inv b.timestamp :=
      hinv.of_eq hnow (by rw [hfees]) (by rw [hfees]) (by rw [hfees])
    have hkept := (hcomp.spec (by omega) hinv₁ le_rfl).1
    have hscore' : ScoreInv rss := by
      rw [hrss]
      exact hscore
    exact (FeeInv.claimLoop (w := { w with rss := rss }) hfee hscore' hloop).kept hkept

lemma Effect.fees {op : Op} {events : List Event} (h : Effect c b w op w' events)
    (hinv : w.css.Inv now) (hraw : w.css.RawInv) (hnow : now ≤ b.timestamp)
    (hcursor : CursorInv w cur) (hscore : ScoreInv w.rss)
    (hfee : FeeInv w.css (linesOf log) (feesWithdrawn log)) :
    FeeInv w'.css (linesOf (log ++ events)) (feesWithdrawn (log ++ events)) := by
  have hout : ∀ id, feesWithdrawn (log ++ events) id
      = feesWithdrawn log id + feesWithdrawn events id := feesWithdrawn_append log events
  -- a transaction without a claim or a payment, that keeps the accounts
  have hquiet : linesOf events = [] → (∀ id, feesWithdrawn events id = 0) →
      FeesKept w.css w'.css →
      FeeInv w'.css (linesOf (log ++ events)) (feesWithdrawn (log ++ events)) := by
    intro hlines hzero hkept
    rw [linesOf_append, hlines, append_nil]
    refine hfee.of_eq hkept.flag hkept.net fun id => ?_
    rw [hkept.balance, hkept.withdrawals, hout, hzero, add_zero]
  cases h with
  | environment | setAdminKey | createProfile | updateOperatorFee | depositTokens =>
    exact hquiet rfl (fun _ => rfl) (.refl _)
  | addTier hrun => exact hquiet rfl (fun _ => rfl) (addTier_spec hrun).1
  | deactivateTier hrun => exact hquiet rfl (fun _ => rfl) (deactivateTier_spec hrun).1
  | submitProof hproved => exact hquiet rfl (fun _ => rfl) hproved.spec.1
  | createConviction hcreated _ | migrateV8 _ hcreated _ =>
    obtain ⟨-, -, -, hkept, -⟩ := hcreated.spec hinv hnow
    exact hquiet rfl (fun _ => rfl) hkept
  | relock hrelocked =>
    obtain ⟨-, -, -, hkept, -⟩ := hrelocked.spec hinv hnow
    exact hquiet rfl (fun _ => rfl) hkept
  | redelegate hmoved =>
    obtain ⟨-, hkept, -⟩ := hmoved.spec hinv hnow
    exact hquiet rfl (fun _ => rfl) hkept
  | claim hclaim =>
    have := hclaim.fees hinv hnow hscore hfee
    rw [linesOf_append, linesOf_claimEvents]
    exact this.of_eq rfl rfl fun id => by rw [hout, feesWithdrawn_claimEvents, add_zero]
  | withdraw hw =>
    obtain ⟨w₁, hclaim, -, -, hkept, -⟩ := hw.spec hinv hraw hnow hcursor.minted_lt
    have := (hclaim.fees hinv hnow hscore hfee).kept hkept
    rw [linesOf_append, linesOf_claimEvents]
    exact this.of_eq rfl rfl fun id => by rw [hout, feesWithdrawn_claimEvents, add_zero]
  | requestFee hsum =>
    rw [append_nil]
    refine hfee.of_eq rfl rfl fun id => ?_
    rename_i id₀ _ bal request
    simp only
    by_cases hid : id = id₀
    · subst hid
      rw [update_self, update_self]
      omega
    · rw [update_of_ne hid, update_of_ne hid]
  | finalizeFee hle hvault =>
    rename_i id₀ trac
    rw [linesOf_append, show linesOf [Event.feeWithdrawn id₀ _] = [] from rfl, append_nil]
    refine hfee.of_eq rfl rfl fun id => ?_
    rw [hout]
    simp only [deleteOperatorFeeWithdrawalRequest, feesWithdrawn,
      map_cons, map_nil, sum_cons, sum_nil]
    by_cases hid : id = id₀
    · subst hid
      rw [update_self, if_pos rfl]
      simp only
      omega
    · rw [update_of_ne hid, if_neg (Ne.symm hid)]
      omega
  | cancelFee =>
    rename_i id₀
    rw [append_nil]
    refine hfee.of_eq rfl rfl fun id => ?_
    simp only [setOperatorFeeBalance, deleteOperatorFeeWithdrawalRequest]
    by_cases hid : id = id₀
    · subst hid
      rw [update_self, update_self]
      simp only
      omega
    · rw [update_of_ne hid, update_of_ne hid]

end

/-- Every reachable state has its accounts in order. -/
lemma SysState.fees {c : Chronos} {s : SysState} (hr : (sysMachine c).Reachable s) :
    ScoreInv s.world.rss ∧ FeeInv s.world.css (linesOf s.log) (feesWithdrawn s.log) := by
  refine hr.invariant_of (P := fun s => ScoreInv s.world.rss ∧
    FeeInv s.world.css (linesOf s.log) (feesWithdrawn s.log)) (Q := SysInv c)
    (fun _ => SysState.inv) ?_ ?_
  · rintro s ⟨hfresh, hlog⟩
    rw [hfresh.rss, hfresh.css, hlog]
    exact ⟨fun _ _ => le_rfl, FeeInv.init⟩
  · rintro s ⟨b, op⟩ s' hinv - ⟨hscore, hfee⟩ ⟨hnow, -, -, events, hrun, hlog⟩
    have heff := Op.run_effect hrun
    rw [hlog]
    exact ⟨heff.scores hscore, heff.fees hinv.css hinv.raw hnow hinv.cursors hscore hfee⟩

end Dkg
