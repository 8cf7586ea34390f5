import Dkg.Staking.ClaimOnce
import Dkg.Staking.Entitlement

/-! # The scores that a claim uses

Delegator scores are written by settlements only (`Settles`), so a settled score never falls, and
there is none on a node whose index has not moved. A claim uses, for every epoch of its window, the
score that the position is owed on its node (`SysState.owes`): the score settled under the
position's token, and what has accrued since the cursor of the token.
-/

namespace Dkg

open Lib List Function

/-- The position that a transaction is about. -/
def Op.Handles : Op → ℕ → Prop
  | relock _ oldTokenId _, tok => oldTokenId = tok
  | redelegate _ tokenId _, tok | withdraw _ tokenId, tok | claim _ tokenId, tok => tokenId = tok
  | _, _ => False

/-! ## Settlements -/

/-- Settlements of tokens in `P`, each of nothing unless the index of its node has moved. -/
inductive Settles (P : ℕ → Prop) (r : RandomSamplingStorage) : RandomSamplingStorage → Prop
  | none : Settles P r r
  | settle {r' : RandomSamplingStorage} {e id tok earned : ℕ} :
      Settles P r r' → P tok → (0 < earned → 0 < r'.getEpochLastScorePerStake id e) →
      Settles P r (r'.settle e id tok earned)

namespace Settles

variable {P : ℕ → Prop} {r r' : RandomSamplingStorage}

lemma onlySettled (h : Settles P r r') : OnlySettled r r' := by
  induction h with
  | none => exact .refl r
  | settle _ _ _ ih => exact ih.trans (.settle ..)

lemma kept (h : Settles P r r') {tok : ℕ} (hnot : ¬ P tok) (e id : ℕ) :
    r'.epochNodeDelegatorScore e id tok = r.epochNodeDelegatorScore e id tok ∧
      r'.delegatorLastSettledNodeEpochScorePerStake e id tok
        = r.delegatorLastSettledNodeEpochScorePerStake e id tok := by
  induction h with
  | none => exact ⟨rfl, rfl⟩
  | @settle r₁ e₁ id₁ tok₁ earned _ htok _ ih =>
    have hne : ¬ (e = e₁ ∧ id = id₁ ∧ tok = tok₁) := fun hkey => hnot (hkey.2.2 ▸ htok)
    unfold RandomSamplingStorage.settle store₃
    simp only [if_neg hne]
    exact ih

lemma mono (h : Settles P r r') (e id tok : ℕ) :
    r.epochNodeDelegatorScore e id tok ≤ r'.epochNodeDelegatorScore e id tok := by
  induction h with
  | none => exact le_rfl
  | settle _ _ _ ih =>
    refine ih.trans ?_
    unfold RandomSamplingStorage.settle store₃
    simp only
    split
    next hkey =>
      obtain ⟨rfl, rfl, rfl⟩ := hkey
      exact Nat.le_add_right _ _
    next => exact le_rfl

end Settles

/-- A node whose index has not moved in the epoch gives no score. -/
lemma Position.scoreIncrement_of_zero {c : Chronos} {r : RandomSamplingStorage} {p : Position}
    {e id cursor : ℕ} (h : r.getEpochLastScorePerStake id e = 0) :
    p.scoreIncrement c r e id (r.getEpochLastScorePerStake id e) cursor = .ok 0 := by
  unfold scoreIncrement _delegatorIncrementForEpoch
  rw [h, if_pos (Nat.zero_le cursor)]
  rfl

section

variable {c : Chronos} {b : Block} {w w' : World} {op : Op} {events : List Event} {now cur : ℕ}

lemma Earned.indexed {e tok id earned : ℕ} (h : Earned c w e tok id earned)
    (hpos : 0 < earned) : 0 < w.rss.getEpochLastScorePerStake id e := by
  by_contra hzero
  have hlast : w.rss.getEpochLastScorePerStake id e = 0 := Nat.eq_zero_of_not_pos hzero
  unfold Earned at h
  simp only at h
  split at h
  next =>
    rw [Position.scoreIncrement_of_zero hlast] at h
    cases h
    exact absurd hpos (lt_irrefl 0)
  next =>
    rw [h] at hpos
    exact absurd hpos (lt_irrefl 0)

lemma ClaimEffect.settles {tok : ℕ} {record : Option Claimed} {P : ℕ → Prop}
    (h : ClaimEffect c b w tok w' record) (htok : P tok) : Settles P w.rss w'.rss := by
  cases h with
  | nothing => exact .none
  | window _ _ _ _ hearned hrss =>
    rw [hrss]
    exact .settle .none htok hearned.indexed

/-- A transaction is a proof, or it settles scores of the position it is about or of a new one. -/
lemma Effect.settles (h : Effect c b w op w' events) :
    Settles (fun tok => op.Handles tok ∨ w.nft.nextTokenId < tok) w.rss w'.rss ∨
      ∃ id period stake score, op = .submitProof id period ∧ Proved c b w id stake score w' := by
  have hcreated {tok id raw tier mig : ℕ} (hnew : Created c b w tok id raw tier mig w') :
      Settles (fun tok => op.Handles tok ∨ w.nft.nextTokenId < tok) w.rss w'.rss := by
    obtain ⟨earned, hearned, hrss⟩ := hnew.settled
    have htoken := hnew.token
    rw [hrss]
    exact .settle .none (.inr (by omega)) hearned.indexed
  cases h with
  | submitProof hproved => exact .inr ⟨_, _, _, _, rfl, hproved⟩
  | createConviction hnew | migrateV8 _ hnew => exact .inl (hcreated hnew)
  | relock hrelocked =>
    obtain ⟨earned, hearned, hrss⟩ := hrelocked.settled
    rw [hrss]
    exact .inl (.settle .none (.inl rfl) hearned.indexed)
  | redelegate hmoved =>
    obtain ⟨earned, hearned, hrss⟩ := hmoved.settled
    rw [hrss]
    exact .inl (.settle (.settle .none (.inl rfl) hearned.indexed) (.inl rfl)
      fun hpos => absurd hpos (lt_irrefl 0))
  | claim hclaim => exact .inl (hclaim.settles (.inl rfl))
  | withdraw hout =>
    obtain ⟨w₁, hclaim, -, -, hrss, -⟩ := hout.claim
    rw [hrss]
    exact .inl (hclaim.settles (.inl rfl))
  | _ => exact .inl .none

/-- A minted position that the transaction is not about stays as it is. -/
lemma Effect.position_kept (h : Effect c b w op w' events) (hcursor : CursorInv w cur)
    (hinv : w.css.Inv now) (hraw : w.css.RawInv) (hnow : now ≤ b.timestamp) {tok : ℕ}
    (htok : tok ≤ w.nft.nextTokenId) (hnot : ¬ op.Handles tok) :
    w'.css.positions tok = w.css.positions tok := by
  have hcreated {tok' id raw tier mig : ℕ} (hnew : Created c b w tok' id raw tier mig w') :
      w'.css.positions tok = w.css.positions tok := by
    obtain ⟨-, -, -, -, -, -, x, hpos⟩ := hnew.spec hinv hnow
    have htoken := hnew.token
    rw [hpos, update_of_ne (by omega)]
  cases h with
  | addTier hrun => rw [(addTier_spec hrun).2.2]
  | deactivateTier hrun => rw [(deactivateTier_spec hrun).2.2]
  | submitProof hproved => rw [hproved.spec.2.2.2]
  | createConviction hnew | migrateV8 _ hnew => exact hcreated hnew
  | relock hrelocked =>
    obtain ⟨-, -, -, -, -, -, x, hpos⟩ := hrelocked.spec hinv hnow
    have htoken := hrelocked.token
    rw [hpos, update_of_ne (Ne.symm hnot), update_of_ne (by omega)]
  | redelegate hmoved =>
    obtain ⟨-, -, -, -, hpos⟩ := hmoved.spec hinv hnow
    rw [hpos, update_of_ne (Ne.symm hnot)]
  | claim hclaim =>
    obtain ⟨-, -, -, -, -, -, -, -, hpos⟩ := hclaim.spec hinv hnow
    rw [hpos, update_of_ne (Ne.symm hnot)]
  | withdraw hout =>
    obtain ⟨w₁, hclaim, -, -, -, -, -, -, -, hpos⟩ := hout.spec hinv hraw hnow hcursor.minted_lt
    obtain ⟨-, -, -, -, -, -, -, -, hpos₁⟩ := hclaim.spec hinv hnow
    rw [hpos, update_of_ne (Ne.symm hnot), hpos₁, update_of_ne (Ne.symm hnot)]
  | _ => rfl

end

/-! ## Scores and indices -/

/-- A settled score is on a node whose index has moved in the epoch, and the index of a node moves
only with its score. -/
structure ScoresIndexed (r : RandomSamplingStorage) : Prop where
  settled : ∀ e id tok, 0 < r.epochNodeDelegatorScore e id tok →
    0 < r.getEpochLastScorePerStake id e
  indexed : ∀ e id, 0 < r.getEpochLastScorePerStake id e → 0 < r.nodeEpochScore id e

lemma ScoresIndexed.settles {P : ℕ → Prop} {r r' : RandomSamplingStorage} (h : Settles P r r')
    (hr : ScoresIndexed r) : ScoresIndexed r' := by
  induction h with
  | none => exact hr
  | settle _ _ hearned ih =>
    refine ⟨fun e id tok hpos => ?_, ih.indexed⟩
    unfold RandomSamplingStorage.settle store₃ at hpos
    simp only at hpos
    split at hpos
    next hkey =>
      obtain ⟨rfl, rfl, rfl⟩ := hkey
      rcases Nat.add_pos_iff_pos_or_pos.mp hpos with hold | hnew
      · exact ih.settled e id tok hold
      · exact hearned hnew
    next => exact ih.settled e id tok hpos

variable {c : Chronos} {b : Block} {w w' : World} {id stake score next : ℕ} {s s' : SysState}

/-- What a proof does to the last value of an index. -/
lemma Proved.last_spec (h : Proved c b w id stake score w')
    (hkeys : KeyInv c w.rss next b.timestamp) (id' e : ℕ) :
    w'.rss.getEpochLastScorePerStake id' e = w.rss.getEpochLastScorePerStake id' e +
      if id' = id ∧ e = c.getCurrentEpoch b then score * SCALE18 / stake else 0 := by
  unfold RandomSamplingStorage.getEpochLastScorePerStake
  by_cases hstake : 0 < stake
  · obtain ⟨ei', hstore, -, hlast, -⟩ := h.index_spec hkeys hstake
    rw [hstore]
    unfold store₂
    split
    next hkey =>
      obtain ⟨rfl, rfl⟩ := hkey
      exact hlast
    next => exact (Nat.add_zero _).symm
  · have hindex := h.index
    rw [if_neg hstake] at hindex
    rw [hindex, Nat.eq_zero_of_not_pos hstake, Nat.div_zero, ite_self, Nat.add_zero]

lemma Proved.scored (h : Proved c b w id stake score w') (hkeys : KeyInv c w.rss next b.timestamp)
    (hw : ScoresIndexed w.rss) : ScoresIndexed w'.rss := by
  refine ⟨fun e id' tok hpos => ?_, fun e id' hpos => ?_⟩
  · rw [h.delegators] at hpos
    rw [h.last_spec hkeys]
    exact Nat.add_pos_left (hw.settled e id' tok hpos) _
  · rw [h.last_spec hkeys] at hpos
    rw [h.nodeScore]
    unfold store₂
    by_cases hkey : id' = id ∧ e = c.getCurrentEpoch b
    · obtain ⟨rfl, rfl⟩ := hkey
      rw [if_pos ⟨rfl, rfl⟩] at hpos ⊢
      rcases Nat.add_pos_iff_pos_or_pos.mp hpos with hold | hnew
      · exact Nat.add_pos_left (hw.indexed _ _ hold) _
      · -- a proof that moves the index has a score
        refine Nat.add_pos_right _ (Nat.pos_of_ne_zero fun hzero => ?_)
        rw [hzero, Nat.zero_mul, Nat.zero_div] at hnew
        exact lt_irrefl 0 hnew
    · rw [if_neg hkey] at hpos ⊢
      exact hw.indexed _ _ hpos

/-! ## Runs -/

/-- The scores and their keys, in every run. -/
structure ScoresOk (c : Chronos) (s : SysState) : Prop where
  keys : KeyInv c s.world.rss s.world.nft.nextTokenId s.now
  expiries : ExpiryInv s.world.css
  scored : ScoresIndexed s.world.rss

lemma ScoresOk.init (h : (sysMachine c).init s) : ScoresOk c s := by
  obtain ⟨hfresh, -⟩ := h
  refine ⟨?_, ?_, ?_⟩
  · rw [hfresh.rss]
    exact .empty _ _ _
  · unfold ExpiryInv
    rw [hfresh.css]
    exact fun tok hid => absurd rfl hid
  · rw [hfresh.rss]
    exact ⟨fun _ _ _ hpos => absurd hpos (lt_irrefl 0), fun _ _ hpos => absurd hpos (lt_irrefl 0)⟩

/-- **The step lemma** of the scores. -/
lemma ScoresOk.step {l : Block × Op} (hinv : SysInv c s) (h : ScoresOk c s)
    (hstep : sysStep c s l s') : ScoresOk c s' := by
  obtain ⟨hnow, hnow', -, events, hrun, -⟩ := hstep
  have heff := Op.run_effect hrun
  have hkeys := h.keys.mono le_rfl hnow
  refine ⟨?_, heff.expiries hinv.cursors hinv.css hinv.raw hnow h.expiries, ?_⟩
  · rw [hnow']
    exact heff.keys hinv.cursors hinv.css hnow hkeys
  · rcases heff.settles with hsettles | ⟨_, _, _, _, -, hproved⟩
    · exact h.scored.settles hsettles
    · exact hproved.scored hkeys h.scored

lemma SysState.scores (hr : (sysMachine c).Reachable s) : ScoresOk c s :=
  hr.invariant_of (P := ScoresOk c) (Q := SysInv c) (fun _ => SysState.inv)
    (fun _ => ScoresOk.init) fun _ _ _ hinv _ h hstep => h.step hinv hstep

lemma settledScore_mono (hs : (sysMachine c).Steps s s') (e id tok : ℕ) :
    s.world.rss.epochNodeDelegatorScore e id tok
      ≤ s'.world.rss.epochNodeDelegatorScore e id tok := by
  induction hs with
  | refl => exact le_rfl
  | tail _ hstep ih =>
    obtain ⟨-, -, -, events, hrun, -⟩ := hstep
    refine ih.trans ?_
    rcases (Op.run_effect hrun).settles with hsettles | ⟨_, _, _, _, -, hproved⟩
    · exact hsettles.mono e id tok
    · rw [hproved.delegators]

/-! ## Claims -/

/-- The score that the lines have for an epoch: none without a line of the epoch. -/
def scoreOfLines (lines : List ClaimLine) (e : ℕ) : ℕ :=
  ((lines.find? fun line => line.epoch = e).map ClaimLine.delegatorScore).getD 0

/-- The delegator score that a claim used for an epoch. -/
def Claimed.scoreAt (record : Claimed) (e : ℕ) : ℕ := scoreOfLines record.lines e

lemma scoreOfLines_append {lines : List ClaimLine} {line : ClaimLine}
    (hbefore : ∀ l ∈ lines, l.epoch < line.epoch) (e : ℕ) :
    scoreOfLines (lines ++ [line]) e
      = if e = line.epoch then line.delegatorScore else scoreOfLines lines e := by
  unfold scoreOfLines
  rw [find?_append]
  by_cases he : e = line.epoch
  · subst he
    have hnone : lines.find? (fun l => l.epoch = line.epoch) = none :=
      find?_eq_none.mpr fun l hl heq => (hbefore l hl).ne (of_decide_eq_true heq)
    rw [hnone]
    simp
  · have hnot : [line].find? (fun l => l.epoch = e) = none := by simp [Ne.symm he]
    rw [hnot, Option.or_none, if_neg he]

/-- The position is owed the score `n` for the epoch: the settled one and what has accrued since. -/
def World.Owes (c : Chronos) (w : World) (tok e n : ℕ) : Prop :=
  ∃ unsettled,
    (w.css.positions tok).scoreIncrement c w.rss e (w.css.positions tok).identityId
      (w.rss.getEpochLastScorePerStake (w.css.positions tok).identityId e)
      (w.rss.delegatorLastSettledNodeEpochScorePerStake e (w.css.positions tok).identityId tok)
        = .ok unsettled ∧
    n = w.rss.epochNodeDelegatorScore e (w.css.positions tok).identityId tok + unsettled

section

variable {c : Chronos} {b : Block} {w w' : World} {tok : ℕ}

variable {e n : ℕ} {record : Claimed}

lemma World.Owes.eq_scoreOwed (h : w.Owes c tok e n) : n = w.scoreOwed c tok e := by
  obtain ⟨unsettled, hinc, rfl⟩ := h
  unfold World.scoreOwed
  simp only [hinc]
  rfl

/-- A settlement of another epoch leaves the owed score. -/
lemma World.Owes.of_settle {cur id tok' earned : ℕ} (he : e ≠ cur)
    (h : World.Owes c { w with rss := w.rss.settle cur id tok' earned } tok e n) :
    w.Owes c tok e n := by
  have hscore : ∀ x y, store₃ w.rss.epochNodeDelegatorScore cur id tok'
      (w.rss.epochNodeDelegatorScore cur id tok' + earned) e x y
      = w.rss.epochNodeDelegatorScore e x y := fun x y => if_neg fun h => he h.1
  have hcursor : ∀ x y, store₃ w.rss.delegatorLastSettledNodeEpochScorePerStake cur id tok'
      (w.rss.getEpochLastScorePerStake id cur) e x y
      = w.rss.delegatorLastSettledNodeEpochScorePerStake e x y := fun x y => if_neg fun h => he h.1
  unfold World.Owes RandomSamplingStorage.settle at h
  simp only [hscore, hcursor] at h
  exact h

lemma World.Owes.of_zero (h : ScoresIndexed w.rss)
    (hzero : w.rss.getEpochLastScorePerStake (w.css.positions tok).identityId e = 0) :
    w.Owes c tok e 0 := by
  have hsettled : w.rss.epochNodeDelegatorScore e (w.css.positions tok).identityId tok = 0 := by
    by_contra hne
    exact (h.settled _ _ _ (Nat.pos_of_ne_zero hne)).ne' hzero
  exact ⟨0, Position.scoreIncrement_of_zero hzero, by rw [hsettled]⟩

lemma World.claimLoop_owes (hscored : ScoresIndexed w.rss) {k start : ℕ} {st : ClaimState}
    (h : w.claimLoop c tok (w.css.positions tok) k start ⟨w.css, 0, []⟩ = .ok st)
    (hstart : start ≤ e) (hend : e < start + k) : w.Owes c tok e (scoreOfLines st.lines e) := by
  refine (World.claimLoop_induct (P := fun x st =>
    (∀ y, start ≤ y → y < x → w.Owes c tok y (scoreOfLines st.lines y)) ∧
      (∀ y, x ≤ y → scoreOfLines st.lines y = 0) ∧ ∀ line ∈ st.lines, line.epoch < x)
    k ?_ ?_ h).1 e hstart hend
  · rintro x st₁ st₂ - - ⟨hused, hlater, hlines⟩ hepoch
    rcases World.claimEpoch_ok hepoch with ⟨rfl, hskip⟩ | ⟨line, hline⟩
    · -- no line, and no score
      have hzero : w.rss.getEpochLastScorePerStake (w.css.positions tok).identityId x = 0 := by
        rcases hskip with hindex | hscore
        · exact hindex
        · exact Nat.eq_zero_of_not_pos fun hpos => (hscored.indexed _ _ hpos).ne' hscore
      refine ⟨fun y hy hlt => ?_, fun y hy => hlater y (by omega), fun line hl => ?_⟩
      · rcases Nat.lt_succ_iff_lt_or_eq.mp hlt with hlt | rfl
        · exact hused y hy hlt
        · rw [hlater y le_rfl]
          exact .of_zero hscored hzero
      · exact Nat.lt_succ_of_lt (hlines line hl)
    · have hx := hline.epoch
      subst hx
      have happend := scoreOfLines_append hlines
      rw [hline.lines]
      refine ⟨fun y hy hlt => ?_, fun y hy => ?_, fun l hl => ?_⟩
      · rw [happend]
        rcases Nat.lt_succ_iff_lt_or_eq.mp hlt with hlt | rfl
        · rw [if_neg hlt.ne]
          exact hused y hy hlt
        · rw [if_pos rfl]
          exact hline.score
      · rw [happend, if_neg (by omega)]
        exact hlater y (by omega)
      · rcases mem_append.mp hl with hold | hnew
        · exact Nat.lt_succ_of_lt (hlines l hold)
        · rw [mem_singleton.mp hnew]
          exact Nat.lt_succ_self _
  · exact ⟨fun y hy hlt => absurd hlt (by omega), fun _ _ => rfl,
      fun _ hl => absurd hl not_mem_nil⟩

/-- **A claim uses the owed scores** of the epochs of its window. -/
lemma ClaimEffect.owes (h : ClaimEffect c b w tok w' (some record))
    (hscored : ScoresIndexed w.rss) (hcovers : record.Covers e) :
    w.Owes c tok e (record.scoreAt e) := by
  cases h with
  | @window earned st css table rss pos hpos hid hcur hwin hearned hrss hloop hcomp =>
    subst hpos hrss
    obtain ⟨hfrom, hto⟩ := hcovers
    simp only at hfrom hto
    have hsettled : ScoresIndexed (w.rss.settle (c.getCurrentEpoch b)
        (w.css.positions tok).identityId tok earned) :=
      hscored.settles (.settle (P := fun t => t = tok) .none rfl hearned.indexed)
    have howes := World.claimLoop_owes (w := { w with rss := _ }) hsettled hloop hfrom (by omega)
    exact howes.of_settle (by omega)

lemma SysState.owes {s : SysState} (hr : (sysMachine c).Reachable s)
    (h : s.world._claim c b tok = .ok (w', some record)) (hcovers : record.Covers e) :
    s.world.Owes c tok e (record.scoreAt e) :=
  (World._claim_ok h).owes (SysState.scores hr).scored hcovers

end

end Dkg
