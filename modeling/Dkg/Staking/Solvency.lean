import Dkg.Staking.Entitlement

/-! # Solvency of the delegator rewards

The claims of a node's epoch share its net reward in proportion to the delegators' scores, so they
stay within it as long as the scores that are used add up to no more than the node's score.
`World.entitled` is what a position can still use of a node's epoch, settled or not, before any
rounding. A proof divides by the sum of the effective stakes, so it adds no more to the positions
than to the node; every other transaction moves entitlements into the log or gives them up.

Three things break the balance: a relocked position earns from the beginning of the epoch, as its
new key has no cursor; a proof in the second in which a lock ends is divided by the raw stake and
paid on the boosted one; and a carry when a claim compounds makes the node's effective stake smaller
than the sum of the positions'.
-/

namespace Dkg

open Lib World ConvictionStakingStorage RandomSamplingStorage List
open Function (update_of_ne update_self)

/-! ## The scores and the log -/

/-- The score that the claims have used of a node's epoch. -/
def scoreUsed (lines : List (ℕ × ClaimLine)) (id e : ℕ) : ℕ :=
  (lines.map fun a => if a.1 = id ∧ a.2.epoch = e then a.2.delegatorScore else 0).sum

/-- The rewards that the claims have paid for a node's epoch. -/
def rewardsAt (lines : List (ℕ × ClaimLine)) (id e : ℕ) : ℕ :=
  (lines.map fun a => if a.1 = id ∧ a.2.epoch = e then a.2.reward else 0).sum

lemma scoreUsed_append (L L' : List (ℕ × ClaimLine)) (id e : ℕ) :
    scoreUsed (L ++ L') id e = scoreUsed L id e + scoreUsed L' id e := by
  simp [scoreUsed]

/-- What has been used of a node's epoch, and what can still be, is within the node's score. -/
def ScoreBound (w : World) (L : List (ℕ × ClaimLine)) (cur : ℕ) : Prop :=
  ∀ id e, scoreUsed L id e * SCALE18 + ∑ tok ∈ tokenIds, w.entitled cur id e tok
    ≤ w.rss.nodeEpochScore id e * SCALE18

section

variable {c : Chronos} {b : Block} {w w' : World} {L : List (ℕ × ClaimLine)} {cur cur' next now : ℕ}

lemma ScoreBound.of_le (h : ScoreBound w L cur)
    (hle : ∀ id e tok, w'.entitled cur' id e tok ≤ w.entitled cur id e tok)
    (hscore : w'.rss.nodeEpochScore = w.rss.nodeEpochScore) : ScoreBound w' L cur' := by
  intro id e
  rw [hscore]
  refine le_trans ?_ (h id e)
  exact Nat.add_le_add_left (Finset.sum_le_sum fun tok _ => hle id e tok) _

lemma ScoreBound.mono (h : ScoreBound w L cur) (hcur : cur ≤ cur') : ScoreBound w L cur' :=
  h.of_le (fun _ _ _ => Position.entitled_mono hcur) rfl

/-- The storages of the positions and the scores stay. -/
lemma ScoreBound.quiet (h : ScoreBound w L cur) (hpos : w'.css.positions = w.css.positions)
    (hrss : w'.rss = w.rss) : ScoreBound w' L cur := by
  refine h.of_le (fun id e tok => le_of_eq ?_) (by rw [hrss])
  unfold entitled
  rw [hpos, hrss]

variable {id e tok tier new stake score : ℕ} {record : Option Claimed}

/-- A key at the last value of its index, now or in an epoch to come. -/
lemma KeyInv.accrual_zero {r : RandomSamplingStorage} (h : KeyInv c r next b.timestamp)
    {p : Position} {cursor : ℕ} (he : c.getCurrentEpoch b ≤ e)
    (hcursor : e = c.getCurrentEpoch b → r.getEpochLastScorePerStake id e ≤ cursor) :
    p.accrual (r.nodeEpochIndex id e) cursor = 0 := by
  refine Position.accrual_eq_zero (h.index id e) ?_
  rcases Nat.eq_or_lt_of_le he with heq | hlt
  · exact hcursor heq.symm
  · have hzero := h.future hlt id
    unfold getEpochLastScorePerStake at hzero
    omega

/-- A settled key is at the last value of its index. -/
lemma RandomSamplingStorage.settle_cursor (r : RandomSamplingStorage) (e id tok earned : ℕ) :
    (r.settle e id tok earned).delegatorLastSettledNodeEpochScorePerStake e id tok
      = r.getEpochLastScorePerStake id e := by
  simp [settle, store₃]

/-- A position that the transaction does not write sees the new scores only. -/
lemma World.entitled_of_position (hpos : w'.css.positions tok = w.css.positions tok) :
    w'.entitled cur id e tok = entitled { w with rss := w'.rss } cur id e tok := by
  unfold entitled
  rw [hpos]

/-- A position that is claimed up to the last epoch has the current one still to come. -/
lemma epoch_le_of_fullyClaimed {last : ℕ} (h : 1 < cur → cur - 1 ≤ last) : cur ≤ last + 1 := by
  by_cases hcur : 1 < cur
  · have := h hcur
    omega
  · omega

variable (hkeys : KeyInv c w.rss w.nft.nextTokenId b.timestamp)

include hkeys

/-- A new position has no part in what the node has scored so far. -/
lemma Created.entitled_le {raw mig : ℕ} (h : Created c b w tok id raw tier mig w')
    (hinv : w.css.Inv b.timestamp) (hexp : ExpiryInv w.css) (id' e tok' : ℕ) :
    w'.entitled (c.getCurrentEpoch b) id' e tok' ≤ w.entitled (c.getCurrentEpoch b) id' e tok' := by
  obtain ⟨hid, hdead, -, -, -, -, x, hpos⟩ := h.spec hinv le_rfl
  obtain ⟨earned, hearned, hrss⟩ := h.settled
  by_cases htok : tok' = tok
  · subst htok
    -- the key was fresh, and nothing was earned before the position was there
    have hzero : earned = 0 := by
      unfold Earned at hearned
      simp only at hearned
      rwa [if_neg (by rw [hdead]; exact hid.symm)] at hearned
    have hsettled : w'.rss.epochNodeDelegatorScore e id' tok' = 0 := by
      have hfresh := (hkeys.fresh tok' (by have := h.token; omega) e id').1
      rw [hrss, hzero, settle]
      simp only [Nat.add_zero, store₃_self]
      exact hfresh
    refine le_trans (Position.entitled_le_settled ?_ ?_) ?_
    · rw [hpos, update_self]
      simp only
      omega
    · intro hon he
      rw [hpos, update_self] at hon
      rw [hrss]
      refine hkeys.accrual_zero he fun heq => ?_
      subst hon heq
      exact (settle_cursor _ _ _ _ _).ge
    · rw [hsettled]
      simp
  · rw [entitled_of_position (w := w) (by rw [hpos, update_of_ne htok])]
    exact entitled_settle_le hkeys hinv hexp hearned rfl hrss

/-- A relock before the node's first proof of the epoch: the new key starts with the index. -/
lemma Relocked.entitled_le {old : ℕ} (h : Relocked c b w old new tier w')
    (hinv : w.css.Inv b.timestamp) (hexp : ExpiryInv w.css)
    (hindex : w.rss.getEpochLastScorePerStake (w.css.positions old).identityId
      (c.getCurrentEpoch b) = 0) (id' e tok' : ℕ) :
    w'.entitled (c.getCurrentEpoch b) id' e tok' ≤ w.entitled (c.getCurrentEpoch b) id' e tok' := by
  obtain ⟨hdead, hne, -, -, -, -, x, hpos⟩ := h.spec hinv le_rfl
  obtain ⟨earned, hearned, hrss⟩ := h.settled
  by_cases hold : tok' = old
  · refine le_trans (le_of_eq (Position.entitled_dead ?_)) (Nat.zero_le _)
    rw [hpos, hold, update_self]
    rfl
  by_cases hnew : tok' = new
  · subst hnew
    have hother : ∀ e' i', ¬ (e' = c.getCurrentEpoch b ∧
        i' = (w.css.positions old).identityId ∧ tok' = old) := fun _ _ hkey => hold hkey.2.2
    have hsettled := (hkeys.fresh tok' (by have := h.token; omega) e id').1
    refine le_trans (Position.entitled_le_settled ?_ ?_) ?_
    · rw [hpos, update_of_ne hold, update_self]
      exact epoch_le_of_fullyClaimed h.claimed
    · intro hon he
      rw [hpos, update_of_ne hold, update_self] at hon
      rw [hrss]
      refine hkeys.accrual_zero he fun heq => ?_
      rw [heq, ← hon, hindex]
      exact Nat.zero_le _
    · have hscore : w'.rss.epochNodeDelegatorScore e id' tok' = 0 := by
        rw [hrss, settle]
        unfold store₃
        simp only [if_neg (hother e id')]
        exact hsettled
      rw [hscore]
      simp
  · rw [entitled_of_position (w := w)
      (by rw [hpos, update_of_ne hold, update_of_ne hnew])]
    exact entitled_settle_le hkeys hinv hexp hearned rfl hrss

/-- A moved position keeps what it has settled on both nodes. -/
lemma Redelegated.entitled_le (h : Redelegated c b w tok new w') (hinv : w.css.Inv b.timestamp)
    (hexp : ExpiryInv w.css) (hcursor : CursorInv w (c.getCurrentEpoch b)) (id' e tok' : ℕ) :
    w'.entitled (c.getCurrentEpoch b) id' e tok' ≤ w.entitled (c.getCurrentEpoch b) id' e tok' := by
  obtain ⟨hnew, -, -, -, hpos⟩ := h.spec hinv le_rfl
  obtain ⟨earned, hearned, hrss⟩ := h.settled
  have hok := hcursor.live tok h.live
  set r₁ := w.rss.settle (c.getCurrentEpoch b) (w.css.positions tok).identityId tok earned with hr₁
  have hkeys₁ : KeyInv c r₁ w.nft.nextTokenId b.timestamp := hkeys.settle hok.minted
  -- both settlements, with the position still on its old node
  have hsettled : ∀ t, entitled { w with rss := w'.rss } (c.getCurrentEpoch b) id' e t
      ≤ w.entitled (c.getCurrentEpoch b) id' e t := by
    intro t
    have hzero : Earned c { w with rss := r₁ } (c.getCurrentEpoch b) tok new 0 := by
      unfold Earned
      simp only
      rw [if_neg h.other]
      trivial
    exact le_trans (entitled_settle_le (w := { w with rss := r₁ }) hkeys₁ hinv hexp hzero
      rfl hrss) (entitled_settle_le hkeys hinv hexp hearned rfl rfl)
  refine le_trans ?_ (hsettled tok')
  by_cases htok : tok' = tok
  · subst htok
    refine le_trans (Position.entitled_le_settled ?_ ?_) ?_
    · rw [hpos, update_self]
      exact epoch_le_of_fullyClaimed h.claimed
    · intro hon he
      rw [hpos, update_self] at hon
      rw [hrss]
      refine hkeys.accrual_zero he fun heq => ?_
      subst hon heq
      exact (r₁.settle_cursor (c.getCurrentEpoch b) new tok' 0).ge
    · split
      next he => exact Position.settled_le_entitled h.live hok.claimed he
      next => exact Nat.zero_le _
  · exact (entitled_of_position (by rw [hpos, update_of_ne htok])).le

lemma World.claimLoop_scores (hinv : w.css.Inv b.timestamp) (hexp : ExpiryInv w.css) {k : ℕ}
    {st : ClaimState} (hlive : (w.css.positions tok).identityId ≠ 0)
    (hfrom : (w.css.positions tok).lastClaimedEpoch < e)
    (hloop : w.claimLoop c tok (w.css.positions tok) k e ⟨w.css, 0, []⟩ = .ok st) (cur id' x : ℕ) :
    scoreUsed (st.lines.map fun line => ((w.css.positions tok).identityId, line)) id' x * SCALE18
      ≤ if x < e + k then w.entitled cur id' x tok else 0 := by
  refine claimLoop_induct (P := fun y st => ∀ x,
    scoreUsed (st.lines.map fun line => ((w.css.positions tok).identityId, line)) id' x * SCALE18
      ≤ if x < y then w.entitled cur id' x tok else 0) k ?_ ?_ hloop x
  rotate_left
  · intro x
    simp [scoreUsed]
  rintro y st₁ st₂ hy - hbound hepoch x
  have hold := hbound x
  rcases claimEpoch_ok hepoch with ⟨rfl, -⟩ | ⟨line, hline⟩
  · refine hold.trans ?_
    by_cases hx : x < y
    · rw [if_pos hx, if_pos (by omega)]
    · rw [if_neg hx]
      exact Nat.zero_le _
  · rw [hline.lines, map_append, map_singleton, scoreUsed_append, Nat.add_mul]
    by_cases hkey : (w.css.positions tok).identityId = id' ∧ line.epoch = x
    · -- the epoch of this line
      obtain ⟨hid, hx⟩ := hkey
      have hxy : x = y := hx.symm.trans hline.epoch
      subst hxy hid
      rw [if_neg (lt_irrefl x)] at hold
      rw [if_pos (Nat.lt_succ_self x)]
      obtain ⟨unsettled, hinc, hscore⟩ := hline.score
      rw [hx] at hinc hscore
      have hle := Position.scoreIncrement_le (hkeys.index _ x) (hinv.scale_le hlive)
        (hexp tok hlive) hinc
      have hsingle : scoreUsed [((w.css.positions tok).identityId, line)]
          (w.css.positions tok).identityId x = line.delegatorScore := by
        simp [scoreUsed, hx]
      have hentitled : w.entitled cur (w.css.positions tok).identityId x tok
          = w.rss.epochNodeDelegatorScore x (w.css.positions tok).identityId tok * SCALE18
            + (w.css.positions tok).accrual
              (w.rss.nodeEpochIndex (w.css.positions tok).identityId x)
              (w.rss.delegatorLastSettledNodeEpochScorePerStake x
                (w.css.positions tok).identityId tok) := by
        unfold entitled Position.entitled
        rw [if_neg hlive, if_pos rfl, if_pos (by omega)]
      rw [hsingle, hscore, hentitled, Nat.add_mul]
      omega
    · have hzero : scoreUsed [((w.css.positions tok).identityId, line)] id' x = 0 := by
        simp only [scoreUsed, map_singleton, if_neg hkey, sum_singleton]
      rw [hzero, Nat.zero_mul, Nat.add_zero]
      refine hold.trans ?_
      by_cases hx : x < y
      · rw [if_pos hx, if_pos (by omega)]
      · rw [if_neg hx]
        exact Nat.zero_le _

/-- What a claim leaves to its position: the settled scores of the current epoch. -/
lemma ClaimEffect.entitled_left (h : ClaimEffect c b w tok w' record) (hinv : w.css.Inv b.timestamp)
    (hcursor : CursorInv w (c.getCurrentEpoch b)) (hrec : record ≠ none) (id e : ℕ) :
    w'.entitled (c.getCurrentEpoch b) id e tok ≤ if c.getCurrentEpoch b ≤ e
      then w'.rss.epochNodeDelegatorScore e id tok * SCALE18 else 0 := by
  obtain ⟨hlive, -, -, -, -, -, -, -, hpos⟩ := h.spec hinv le_rfl
  have hok := hcursor.live tok hlive
  refine Position.entitled_le_settled ?_ ?_
  · rw [hpos, update_self]
    simp only [Position.afterClaim, if_neg hrec]
    omega
  · intro hon he
    rw [hpos, update_self] at hon
    cases h with
    | nothing => exact absurd rfl hrec
    | @window earned st css table rss pos hpos' hid hcur hwin hearned hrss hloop hcomp =>
      subst hpos'
      have hnode : (w.css.positions tok).identityId = id := hon
      have hkeys₁ : KeyInv c rss w.nft.nextTokenId b.timestamp := by
        rw [hrss]
        exact hkeys.settle hok.minted
      refine hkeys₁.accrual_zero he fun heq => ?_
      subst hnode heq
      rw [hrss]
      unfold settle store₃
      simp only [and_self, if_true]
      exact le_rfl

/-- A claim uses what its position is entitled to in the past epochs, and nothing else changes. -/
lemma ClaimEffect.entitled_le (h : ClaimEffect c b w tok w' record) (hinv : w.css.Inv b.timestamp)
    (hexp : ExpiryInv w.css) (hcursor : CursorInv w (c.getCurrentEpoch b)) (id e tok' : ℕ) :
    w'.entitled (c.getCurrentEpoch b) id e tok'
      + (if tok' = tok then scoreUsed (recordLines record) id e * SCALE18 else 0)
      ≤ w.entitled (c.getCurrentEpoch b) id e tok' := by
  obtain ⟨hlive, -, -, -, -, -, -, -, hpos⟩ := h.spec hinv le_rfl
  have hok := hcursor.live tok hlive
  have hleft := h.entitled_left hkeys hinv hcursor
  cases h with
  | nothing =>
    rw [show scoreUsed (recordLines none) id e = 0 from rfl, Nat.zero_mul, ite_self, Nat.add_zero]
  | @window earned st css table rss pos hpos' hid hcur hwin hearned hrss hloop hcomp =>
    subst hpos'
    have hsettle : entitled { w with rss := rss } (c.getCurrentEpoch b) id e tok'
        ≤ w.entitled (c.getCurrentEpoch b) id e tok' :=
      entitled_settle_le hkeys hinv hexp hearned rfl hrss
    refine le_trans ?_ hsettle
    by_cases htok : tok' = tok
    · subst htok
      rw [if_pos rfl]
      have hkeys₁ : KeyInv c rss w.nft.nextTokenId b.timestamp := by
        rw [hrss]
        exact hkeys.settle hok.minted
      have hstart := hok.claimFromEpoch
      have hlines := claimLoop_scores (w := { w with rss := rss }) hkeys₁ hinv hexp hlive
        (by show (w.css.positions tok').lastClaimedEpoch < _; omega) hloop
        (c.getCurrentEpoch b) id e
      have hcount : (w.css.positions tok').claimFromEpoch
          + (c.getCurrentEpoch b - 1 + 1 - (w.css.positions tok').claimFromEpoch)
            = c.getCurrentEpoch b := by omega
      rw [hcount] at hlines
      have hleft := hleft (Option.some_ne_none _) id e
      by_cases he : c.getCurrentEpoch b ≤ e
      · -- no line of an epoch that is not over
        rw [if_neg (by omega)] at hlines
        rw [if_pos he] at hleft
        refine le_trans (Nat.add_le_add hleft hlines) ?_
        rw [Nat.add_zero]
        exact Position.settled_le_entitled hlive hok.claimed he
      · rw [if_pos (by omega)] at hlines
        rw [if_neg he] at hleft
        refine le_trans (Nat.add_le_add hleft hlines) ?_
        rw [Nat.zero_add]
    · rw [if_neg htok, Nat.add_zero]
      refine le_of_eq ?_
      unfold entitled
      rw [hpos, update_of_ne htok]

omit hkeys in
/-- The lines of a record are paid for by one position. -/
lemma ScoreBound.claim (hb : ScoreBound w L cur) (htok : tok ∈ tokenIds)
    (hscore : w'.rss.nodeEpochScore = w.rss.nodeEpochScore)
    (hle : ∀ id e tok', w'.entitled cur id e tok'
      + (if tok' = tok then scoreUsed (recordLines record) id e * SCALE18 else 0)
      ≤ w.entitled cur id e tok') : ScoreBound w' (L ++ recordLines record) cur := by
  intro id e
  have hsum := sum_add_single_le htok (hle id e)
  have hbound := hb id e
  rw [hscore, scoreUsed_append, Nat.add_mul]
  omega

lemma ClaimEffect.scoreBound (h : ClaimEffect c b w tok w' record) (hinv : w.css.Inv b.timestamp)
    (hexp : ExpiryInv w.css) (hcursor : CursorInv w (c.getCurrentEpoch b))
    (hb : ScoreBound w L (c.getCurrentEpoch b)) :
    ScoreBound w' (L ++ recordLines record) (c.getCurrentEpoch b) := by
  have hlive := (h.spec hinv le_rfl).1
  have hlt := lt_of_le_of_lt (hcursor.live tok hlive).minted hcursor.counter
  refine hb.claim (Finset.mem_range.mpr hlt) ?_ (h.entitled_le hkeys hinv hexp hcursor)
  cases h with
  | nothing => rfl
  | window _ _ _ _ _ hrss _ _ =>
    subst hrss
    rfl

/-! ## Proofs -/

omit hkeys in
lemma Proved.stake_spec (h : Proved c b w id stake score w') (hinv : w.css.Inv now)
    (hraw : w.css.RawInv) (hdrop : w.css.DropInv now) (hnow : now ≤ b.timestamp) :
    stake = w.css.positionsEffectiveStake id b.timestamp := by
  have hrun := h.ledger
  unfold settleNodeTo _settleNodeTo at hrun
  obtain ⟨l, hl, hcss⟩ := onLedger_eq_ok.mp hrun
  have hreads := reads_of_settle hinv hraw hdrop hnow hl
  rw [h.stake_eq, hcss, setLedger_ledger_self]
  exact hreads.running

section

variable (h : Proved c b w id stake score w') (hinv : w.css.Inv b.timestamp)
    (hcursor : CursorInv w (c.getCurrentEpoch b))

include h hinv hcursor

/-- What a proof adds to a position. -/
lemma Proved.entitled_eq (hends : ∀ tok, (w.css.positions tok).On id →
      (w.css.positions tok).expiryTimestamp ≠ b.timestamp) (id' e tok : ℕ) :
    w'.entitled (c.getCurrentEpoch b) id' e tok = w.entitled (c.getCurrentEpoch b) id' e tok
      + if id' = id ∧ e = c.getCurrentEpoch b
        then (w.css.positions tok).effectiveOn id b.timestamp * (score * SCALE18 / stake) else
            0 := by
  have hpos := h.spec.2.2.2
  unfold entitled
  rw [hpos, h.delegators, h.cursors]
  by_cases hstake : 0 < stake
  · obtain ⟨ei', hstore, hok, hlast, hread⟩ := h.index_spec hkeys hstake
    rw [hstore]
    unfold store₂
    by_cases hkey : id' = id ∧ e = c.getCurrentEpoch b
    · obtain ⟨rfl, rfl⟩ := hkey
      rw [if_pos ⟨rfl, rfl⟩, if_pos ⟨rfl, rfl⟩]
      unfold Position.entitled Position.effectiveOn
      by_cases hlive : (w.css.positions tok).identityId = 0
      · rw [if_pos hlive, if_pos hlive,
          if_neg fun hon : (w.css.positions tok).On id' => hon.1 hlive, Nat.zero_mul]
      by_cases hon : (w.css.positions tok).identityId = id'
      · have hlt := (hcursor.live tok hlive).claimed
        rw [if_neg hlive, if_neg hlive, if_pos hon, if_pos hon, if_pos hlt, if_pos hlt,
          if_pos ⟨hlive, hon⟩]
        rw [Position.accrual_upsert (hkeys.index id' _) le_rfl (hinv.scale_le hlive)
          (hkeys.cursor _ _ _) hlast hread (hends tok ⟨hlive, hon⟩), Nat.add_assoc]
        rfl
      · rw [if_neg hlive, if_neg hlive, if_neg hon, if_neg hon,
          if_neg fun hboth : (w.css.positions tok).On id' => hon hboth.2, Nat.zero_mul,
          Nat.add_zero]
    · rw [if_neg hkey, if_neg hkey, Nat.add_zero]
  · have hindex := h.index
    rw [if_neg hstake] at hindex
    obtain rfl : stake = 0 := by omega
    rw [hindex, Nat.div_zero, Nat.mul_zero, ite_self, Nat.add_zero]

lemma Proved.scoreBound (hstake : stake = w.css.positionsEffectiveStake id b.timestamp)
    (hends : ∀ tok, (w.css.positions tok).On id →
      (w.css.positions tok).expiryTimestamp ≠ b.timestamp)
    (hb : ScoreBound w L (c.getCurrentEpoch b)) : ScoreBound w' L (c.getCurrentEpoch b) := by
  intro id' e
  have hbound := hb id' e
  have heq := h.entitled_eq hkeys hinv hcursor hends id' e
  rw [h.nodeScore]
  unfold store₂
  by_cases hkey : id' = id ∧ e = c.getCurrentEpoch b
  · simp only [if_pos hkey] at heq ⊢
    have hdiv : stake * (score * SCALE18 / stake) ≤ score * SCALE18 := Nat.mul_div_le _ _
    have hsum := sum_add_scaled (T := tokenIds) heq
    unfold positionsEffectiveStake at hstake
    rw [← hstake] at hsum
    obtain ⟨rfl, rfl⟩ := hkey
    rw [Nat.add_mul]
    omega
  · simp only [if_neg hkey, Nat.add_zero] at heq ⊢
    simp only [heq]
    exact hbound

end

/-- Every transaction keeps the bound, given what the three exceptions need. -/
lemma Effect.scoreBound {op : Op} {events : List Event} (h : Effect c b w op w' events)
    (hinv : w.css.Inv now) (hraw : w.css.RawInv) (hdrop : w.css.DropInv now)
    (hnow : now ≤ b.timestamp) (htokens : w.css.TokenInv) (hexp : ExpiryInv w.css)
    (hcursor : CursorInv w (c.getCurrentEpoch b))
    (hrelock : ∀ sender old tier, op = .relock sender old tier →
      w.rss.getEpochLastScorePerStake (w.css.positions old).identityId (c.getCurrentEpoch b) = 0)
    (hproof : ∀ id period, op = .submitProof id period →
      ∀ tok ∈ w.css.nodeTokens id, (w.css.positions tok).expiryTimestamp ≠ b.timestamp)
    (hb : ScoreBound w L (c.getCurrentEpoch b)) :
    ScoreBound w' (L ++ linesOf events) (c.getCurrentEpoch b) := by
  have hinv' := hinv.mono hnow
  -- a transaction that claims nothing and raises no entitlement
  have hquiet : linesOf events = [] →
      (∀ id e tok, w'.entitled (c.getCurrentEpoch b) id e tok
        ≤ w.entitled (c.getCurrentEpoch b) id e tok) →
      w'.rss.nodeEpochScore = w.rss.nodeEpochScore →
      ScoreBound w' (L ++ linesOf events) (c.getCurrentEpoch b) := by
    intro hlines hle hscore
    rw [hlines, append_nil]
    exact hb.of_le hle hscore
  have hkept : linesOf events = [] → w'.css.positions = w.css.positions → w'.rss = w.rss →
      ScoreBound w' (L ++ linesOf events) (c.getCurrentEpoch b) := by
    intro hlines hpos hrss
    rw [hlines, append_nil]
    exact hb.quiet hpos hrss
  cases h with
  | environment | setAdminKey | createProfile | updateOperatorFee | depositTokens | requestFee
  | finalizeFee | cancelFee => exact hkept rfl rfl rfl
  | addTier hrun => exact hkept rfl (addTier_spec hrun).2.2 rfl
  | deactivateTier hrun => exact hkept rfl (deactivateTier_spec hrun).2.2 rfl
  | @submitProof id period _ _ _ hproved =>
    rw [show linesOf [] = [] from rfl, append_nil]
    refine hproved.scoreBound hkeys hinv' hcursor (hproved.stake_spec hinv hraw hdrop hnow)
      (fun tok hon => ?_) hb
    exact hproof id period rfl tok ((htokens.members id tok).mpr hon)
  | createConviction hcreated hvault | migrateV8 htotal hcreated htrac =>
    obtain ⟨earned, -, hrss⟩ := hcreated.settled
    exact hquiet rfl (hcreated.entitled_le hkeys hinv' hexp) (by rw [hrss]; rfl)
  | relock hrelocked =>
    obtain ⟨earned, -, hrss⟩ := hrelocked.settled
    exact hquiet rfl (hrelocked.entitled_le hkeys hinv' hexp (hrelock _ _ _ rfl))
      (by rw [hrss]; rfl)
  | redelegate hmoved =>
    obtain ⟨earned, -, hrss⟩ := hmoved.settled
    exact hquiet rfl (hmoved.entitled_le hkeys hinv' hexp hcursor) (by rw [hrss]; rfl)
  | claim hclaim =>
    rw [linesOf_claimEvents]
    exact hclaim.scoreBound hkeys hinv' hexp hcursor hb
  | withdraw hout =>
    rw [linesOf_claimEvents]
    obtain ⟨w₁, hclaim, -, -, -, -, hrss, -, -, hpos⟩ := hout.spec hinv hraw hnow hcursor.minted_lt
    refine (hclaim.scoreBound hkeys hinv' hexp hcursor hb).of_le (fun id e tok => ?_) (by rw [hrss])
    rename_i tok₀ _
    unfold entitled
    rw [hpos, hrss]
    by_cases htok : tok = tok₀
    · rw [htok, update_self, Position.entitled_dead rfl]
      exact Nat.zero_le _
    · rw [update_of_ne htok]

end

/-! ## The lines of the log -/

/-- A line of the log: its epoch is over, its node's score has not changed since, and its reward is
the delegator's part. -/
structure LineOk (w : World) (cur : ℕ) (a : ℕ × ClaimLine) : Prop where
  past : a.2.epoch < cur
  nodeScore : a.2.nodeScore = w.rss.nodeEpochScore a.1 a.2.epoch
  scored : 0 < a.2.nodeScore
  reward : a.2.reward = a.2.delegatorScore * a.2.net / a.2.nodeScore

section

variable {c : Chronos} {b : Block} {w w' : World} {L : List (ℕ × ClaimLine)} {cur : ℕ}

lemma Effect.pastScores {op : Op} {events : List Event} (h : Effect c b w op w' events)
    (id : ℕ) {e : ℕ} (he : e < c.getCurrentEpoch b) :
    w'.rss.nodeEpochScore id e = w.rss.nodeEpochScore id e := by
  rcases h.onlySettled_or_proved with hsettled | ⟨_, _, _, _, _, hproved⟩
  · rw [hsettled.nodeScore]
  · -- A proof adds to the score of the current epoch.
    rw [hproved.nodeScore]
    exact if_neg fun hkey => by omega

lemma ClaimEffect.lines {tok : ℕ} {record : Option Claimed} (h : ClaimEffect c b w tok w' record) :
    ∀ a ∈ recordLines record, LineOk w (c.getCurrentEpoch b) a := by
  cases h with
  | nothing => exact fun a ha => absurd ha not_mem_nil
  | @window earned st css table rss pos hpos hid hcur hwin hearned hrss hloop hcomp =>
    have hall : ∀ line ∈ st.lines, LineOk w (pos.claimFromEpoch
        + (c.getCurrentEpoch b - 1 + 1 - pos.claimFromEpoch)) (pos.identityId, line) := by
      refine claimLoop_induct (P := fun x st => ∀ line ∈ st.lines,
        LineOk w x (pos.identityId, line)) _ ?_ ?_ hloop
      · rintro x st₁ st₂ - - hlines hepoch line hmem
        rcases claimEpoch_ok hepoch with ⟨rfl, -⟩ | ⟨line', hline⟩
        · have hok := hlines line hmem
          exact ⟨Nat.lt_succ_of_lt hok.past, hok.nodeScore, hok.scored, hok.reward⟩
        · rw [hline.lines] at hmem
          rcases mem_append.mp hmem with hmem | hmem
          · have hok := hlines line hmem
            exact ⟨Nat.lt_succ_of_lt hok.past, hok.nodeScore, hok.scored, hok.reward⟩
          · obtain rfl := mem_singleton.mp hmem
            refine ⟨by rw [hline.epoch]; exact Nat.lt_succ_self x, ?_, hline.scored, hline.reward⟩
            rw [hline.nodeScore, hline.epoch]
            subst hrss
            rfl
      · exact fun line hmem => absurd hmem not_mem_nil
    intro a ha
    obtain ⟨line, hmem, rfl⟩ := mem_map.mp ha
    have hok := hall line hmem
    have hend := hok.past
    exact ⟨by simp only at hend ⊢; omega, hok.nodeScore, hok.scored, hok.reward⟩

lemma Effect.lines {op : Op} {events : List Event} (h : Effect c b w op w' events)
    (hcur : cur ≤ c.getCurrentEpoch b) (hL : ∀ a ∈ L, LineOk w cur a) :
    ∀ a ∈ L ++ linesOf events, LineOk w' (c.getCurrentEpoch b) a := by
  have hnew : ∀ a ∈ linesOf events, LineOk w (c.getCurrentEpoch b) a := by
    cases h with
    | claim hclaim =>
      rw [linesOf_claimEvents]
      exact hclaim.lines
    | withdraw hout =>
      rw [linesOf_claimEvents]
      obtain ⟨w₁, hclaim, -⟩ := hout.claim
      exact hclaim.lines
    | _ => exact fun a ha => absurd ha not_mem_nil
  intro a ha
  have hok : LineOk w (c.getCurrentEpoch b) a := by
    rcases mem_append.mp ha with ha | ha
    · have hold := hL a ha
      exact ⟨lt_of_lt_of_le hold.past hcur, hold.nodeScore, hold.scored, hold.reward⟩
    · exact hnew a ha
  exact ⟨hok.past, by rw [h.pastScores a.1 hok.past]; exact hok.nodeScore, hok.scored, hok.reward⟩

end

/-! ## Runs -/

/-- The three exceptions: claims compound exactly, a position is relocked before the first proof of
the epoch on its node, and no lock on a node ends in the second of a proof. -/
def KeepsScores (c : Chronos) (s : SysState) (l : Block × Op) : Prop :=
  match l.2 with
  | .claim _ tok =>
    (s.world.css.positions tok).CompoundsExactly l.1 (s.world.owedReward c l.1 tok)
  | .relock _ tok _ => s.world.rss.getEpochLastScorePerStake
      (s.world.css.positions tok).identityId (c.getCurrentEpoch l.1) = 0
  | .submitProof id _ => ∀ tok ∈ s.world.css.nodeTokens id,
      (s.world.css.positions tok).expiryTimestamp ≠ l.1.timestamp
  | _ => True

instance (c : Chronos) (s : SysState) (l : Block × Op) : Decidable (KeepsScores c s l) := by
  obtain ⟨b, op⟩ := l
  cases op <;> dsimp only [KeepsScores] <;> infer_instance

variable {c : Chronos} {s : SysState} {L : List (ℕ × ClaimLine)} {id e : ℕ}

lemma KeepsScores.exactClaims (s : SysState) (l : Block × Op) (h : KeepsScores c s l) :
    ExactClaims c s l := by
  obtain ⟨b, op⟩ := l
  cases op <;> first | exact h | trivial

/-- What the runs that keep the scores keep. -/
structure SolvencyInv (c : Chronos) (s : SysState) : Prop where
  keys : KeyInv c s.world.rss s.world.nft.nextTokenId s.now
  expiries : ExpiryInv s.world.css
  bound : ScoreBound s.world (linesOf s.log) (c.epochAtTimestamp s.now)
  lines : ∀ a ∈ linesOf s.log, LineOk s.world (c.epochAtTimestamp s.now) a

lemma SolvencyInv.init (h : (sysMachine c).init s) : SolvencyInv c s := by
  obtain ⟨hfresh, hlog⟩ := h
  refine ⟨?_, ?_, ?_, ?_⟩
  · rw [hfresh.rss]
    exact .empty _ _ _
  · unfold ExpiryInv
    rw [hfresh.css]
    exact fun tok hid => absurd rfl hid
  · intro id e
    have hzero : ∀ tok, s.world.entitled (c.epochAtTimestamp s.now) id e tok = 0 := by
      intro tok
      unfold entitled
      rw [hfresh.css]
      exact Position.entitled_dead rfl
    rw [hlog]
    simp only [hzero]
    simp [linesOf, claimsOf, scoreUsed]
  · rw [hlog]
    exact fun a ha => absurd ha not_mem_nil

lemma SysState.solvency (hr : ((sysMachine c).restrict (KeepsScores c)).Reachable s) :
    SolvencyInv c s := by
  refine hr.invariant_of (P := SolvencyInv c)
    (Q := fun s => SysInv c s ∧ GuardInv s.world ∧ s.world.css.DropInv s.now) (fun _ h =>
      ⟨SysState.inv h.of_restrict, SysState.guards h.of_restrict,
        SysState.drops (h.restrict_mono KeepsScores.exactClaims)⟩)
    (fun _ => SolvencyInv.init) ?_
  rintro s ⟨b, op⟩ s' ⟨hinv, hguards, hdrop⟩ - h ⟨hkeeps, hnow, hnow', -, events, hrun, hlog⟩
  have heff := Op.run_effect hrun
  have hcur : c.epochAtTimestamp s.now ≤ c.getCurrentEpoch b := c.epochAtTimestamp_mono hnow
  have hcursor : CursorInv s.world (c.getCurrentEpoch b) := hinv.cursors.of_eq hcur rfl rfl
  have hkeys := h.keys.mono le_rfl hnow
  refine ⟨?_, heff.expiries hinv.cursors hinv.css hinv.raw hnow h.expiries, ?_, ?_⟩
  · rw [hnow']
    exact heff.keys hinv.cursors hinv.css hnow hkeys
  · rw [hlog, linesOf_append, hnow']
    refine heff.scoreBound hkeys hinv.css hinv.raw hdrop hnow hguards.tokens h.expiries hcursor
      ?_ ?_ (h.bound.mono hcur)
    · rintro sender old tier rfl
      exact hkeeps
    · rintro id period rfl
      exact hkeeps
  · rw [hlog, linesOf_append, hnow']
    exact heff.lines hcur h.lines

/-! ## Rewards -/

/-- The score a position could claim of a node's epoch: on the node, until the epoch is claimed;
elsewhere, in the current epoch. -/
def World.claimableScore (c : Chronos) (w : World) (cur id e tok : ℕ) : ℕ :=
  let pos := w.css.positions tok
  if pos.identityId = 0 then 0
  else if pos.identityId = id then
    if pos.lastClaimedEpoch < e then w.scoreOwed c tok e else 0
  else if cur ≤ e then w.rss.epochNodeDelegatorScore e id tok else 0

lemma World.claimableScore_le {w : World} {next now : ℕ} (hkeys : KeyInv c w.rss next now)
    (hinv : w.css.Inv now) (hexp : ExpiryInv w.css) (cur id e tok : ℕ) :
    w.claimableScore c cur id e tok * SCALE18 ≤ w.entitled cur id e tok := by
  unfold claimableScore entitled Position.entitled
  simp only
  by_cases hlive : (w.css.positions tok).identityId = 0
  · rw [if_pos hlive, if_pos hlive, Nat.zero_mul]
  rw [if_neg hlive, if_neg hlive]
  by_cases hon : (w.css.positions tok).identityId = id
  · rw [if_pos hon, if_pos hon]
    split
    next =>
      unfold scoreOwed
      simp only
      rw [hon, Nat.add_mul]
      refine Nat.add_le_add_left ?_ _
      cases hinc : (w.css.positions tok).scoreIncrement c w.rss e id
          (w.rss.getEpochLastScorePerStake id e)
          (w.rss.delegatorLastSettledNodeEpochScorePerStake e id tok) with
      | ok r =>
        exact Position.scoreIncrement_le (hkeys.index id e) (hinv.scale_le hlive)
          (hexp tok hlive) hinc
      | error err =>
        rw [valueOrZero, Nat.zero_mul]
        exact Nat.zero_le _
    next => rw [Nat.zero_mul]
  · rw [if_neg hon, if_neg hon]
    split
    next => exact le_rfl
    next => rw [Nat.zero_mul]

/-- Rewards in proportion to scores stay within the net reward when the scores stay within the
node's. -/
lemma rewardsAt_mul_le {net ns : ℕ}
    (h : ∀ a ∈ L, a.1 = id → a.2.epoch = e → a.2.reward * ns ≤ a.2.delegatorScore * net) :
    rewardsAt L id e * ns ≤ scoreUsed L id e * net := by
  induction L with
  | nil => simp [rewardsAt, scoreUsed]
  | cons a L ih =>
    have ih := ih fun a' ha' => h a' (mem_cons_of_mem a ha')
    have hcons : rewardsAt (a :: L) id e
        = (if a.1 = id ∧ a.2.epoch = e then a.2.reward else 0) + rewardsAt L id e := rfl
    have hcons' : scoreUsed (a :: L) id e
        = (if a.1 = id ∧ a.2.epoch = e then a.2.delegatorScore else 0) + scoreUsed L id e := rfl
    rw [hcons, hcons', Nat.add_mul, Nat.add_mul]
    by_cases hkey : a.1 = id ∧ a.2.epoch = e
    · rw [if_pos hkey, if_pos hkey]
      exact Nat.add_le_add (h a mem_cons_self hkey.1 hkey.2) ih
    · rw [if_neg hkey, if_neg hkey, Nat.zero_mul, Nat.zero_mul]
      exact Nat.add_le_add_left ih 0

lemma rewardsAt_eq_zero (h : ∀ a ∈ L, ¬ (a.1 = id ∧ a.2.epoch = e)) : rewardsAt L id e = 0 := by
  unfold rewardsAt
  refine sum_eq_zero fun x hx => ?_
  obtain ⟨a, ha, rfl⟩ := mem_map.mp hx
  exact if_neg (h a ha)

/-- **Solvency of the delegator rewards.** In every run that keeps the scores, for every node and
epoch: the claims have paid no more than the node's net reward of the epoch; and the score they
have used, together with what all positions can still use, is within the node's score. -/
theorem delegator_rewards_solvent (c : Chronos) {s : SysState}
    (hr : ((sysMachine c).restrict (KeepsScores c)).Reachable s) (id e : ℕ) :
    rewardsAt (linesOf s.log) id e ≤ s.world.css.netNodeEpochRewards id e ∧
    scoreUsed (linesOf s.log) id e
        + ∑ tok ∈ tokenIds, s.world.claimableScore c (c.epochAtTimestamp s.now) id e tok
      ≤ s.world.rss.nodeEpochScore id e := by
  have hinv := SysState.inv hr.of_restrict
  have hfee := (SysState.fees hr.of_restrict).2
  have hsolv := SysState.solvency hr
  have hscores : scoreUsed (linesOf s.log) id e
        + ∑ tok ∈ tokenIds, s.world.claimableScore c (c.epochAtTimestamp s.now) id e tok
      ≤ s.world.rss.nodeEpochScore id e := by
    have hscale : 0 < SCALE18 := by norm_num [SCALE18]
    refine Nat.le_of_mul_le_mul_right ?_ hscale
    refine le_trans ?_ (hsolv.bound id e)
    rw [Nat.add_mul, Finset.sum_mul]
    exact Nat.add_le_add_left (Finset.sum_le_sum fun tok _ =>
      claimableScore_le hsolv.keys hinv.css hsolv.expiries _ id e tok) _
  refine ⟨?_, hscores⟩
  by_cases hany : ∃ a ∈ linesOf s.log, a.1 = id ∧ a.2.epoch = e
  · -- every line of the key uses the same net reward and the same node score
    obtain ⟨a₀, ha₀, rfl, rfl⟩ := hany
    have hpos : 0 < s.world.rss.nodeEpochScore a₀.1 a₀.2.epoch := by
      rw [← (hsolv.lines a₀ ha₀).nodeScore]
      exact (hsolv.lines a₀ ha₀).scored
    refine Nat.le_of_mul_le_mul_right ?_ hpos
    have hshares : rewardsAt (linesOf s.log) a₀.1 a₀.2.epoch
          * s.world.rss.nodeEpochScore a₀.1 a₀.2.epoch
        ≤ scoreUsed (linesOf s.log) a₀.1 a₀.2.epoch
          * s.world.css.netNodeEpochRewards a₀.1 a₀.2.epoch := by
      refine rewardsAt_mul_le fun a ha hid he => ?_
      have hline := hsolv.lines a ha
      have hnet := (hfee.shared a ha).2
      rw [hid, he] at hnet
      have hnode := hline.nodeScore
      rw [hid, he] at hnode
      rw [hline.reward, ← hnode, hnet]
      exact Nat.div_mul_le_self _ _
    refine hshares.trans ?_
    rw [Nat.mul_comm]
    exact Nat.mul_le_mul_left _ (by omega)
  · rw [rewardsAt_eq_zero fun a ha hkey => hany ⟨a, ha, hkey⟩]
    exact Nat.zero_le _

/-- Two positions share two epochs of a node, and one of them is relocked in between: `449` of `450`
is paid for each. -/
theorem delegator_rewards_solvent_relock :
    ∃ s, ((sysMachine hourlyChronos).restrict (KeepsScores hourlyChronos)).Reachable s ∧
      rewardsAt (linesOf s.log) 1 1 = 449 ∧ rewardsAt (linesOf s.log) 1 2 = 449 ∧
      s.world.css.netNodeEpochRewards 1 1 = 450 ∧
      rewardsAt (linesOf s.log) 1 1 ≤ s.world.css.netNodeEpochRewards 1 1 := by
  obtain ⟨s, hrun, htest⟩ := exists_of_succeeds
    (x := Machine.runList (sysExecWhen hourlyChronos (KeepsScores hourlyChronos))
      [(1001, .createProfile 9 1000),
       (1001, .depositTokens 7 1 2 1000),
       (1002, .createConviction 7 1 100 0),
       (1002, .createConviction 7 1 50 12),
       (1003, .submitProof 1 0),
       (4700, .claim 7 1),
       (4701, .relock 7 1 12),
       (4702, .claim 7 2),
       (4703, .submitProof 1 0),
       (8300, .claim 7 2),
       (8300, .claim 7 3)] sysStart)
    (t := fun s => decide (rewardsAt (linesOf s.log) 1 1 = 449 ∧
      rewardsAt (linesOf s.log) 1 2 = 449 ∧ s.world.css.netNodeEpochRewards 1 1 = 450))
    (by decide +kernel)
  obtain ⟨hfirst, hsecond, hnet⟩ := of_decide_eq_true htest
  have hr := sysReachable_restrict_of_run hrun
  exact ⟨s, hr, hfirst, hsecond, hnet, (delegator_rewards_solvent hourlyChronos hr 1 1).1⟩

/-- A stake of `100` is relocked into the 6x tier after the proof of epoch `1`: its new key starts
at the beginning of the epoch, and the claim pays `5400` of a net reward of `900`. -/
theorem relock_overpaid_after_proof :
    ∃ s, (sysMachine hourlyChronos).Reachable s ∧ rewardsAt (linesOf s.log) 1 1 = 5400 ∧
      s.world.css.netNodeEpochRewards 1 1 = 900 ∧
      s.world.rss.nodeEpochScore 1 1 < scoreUsed (linesOf s.log) 1 1 := by
  obtain ⟨s, hr, htest⟩ := exists_reachable
    (stakedSteps.append [(1004, .relock 7 1 12),
     (4700, .claim 7 2)])
    (fun s => decide (rewardsAt (linesOf s.log) 1 1 = 5400 ∧
      s.world.css.netNodeEpochRewards 1 1 = 900 ∧
      s.world.rss.nodeEpochScore 1 1 < scoreUsed (linesOf s.log) 1 1))
    (by decide +kernel)
  exact ⟨s, hr, of_decide_eq_true htest⟩

end Dkg
