import Dkg.Staking.Accrual
import Dkg.Staking.Guards

/-! # What a position is entitled to

The keys of the score storage along a run, and `World.entitled`: what a position can still use of
a node's epoch, settled or not, before any rounding. Settling a key moves a part of it from the
index to the settled score and rounds it down.
-/

namespace Dkg

open Lib

/-! ## Keys of the score storage -/

/-- Tokens not minted yet have no score and no cursor, no cursor is ahead of its index, and the
indices are those of their epochs. -/
structure KeyInv (c : Chronos) (r : RandomSamplingStorage) (next now : ℕ) : Prop where
  fresh : ∀ tok, next < tok → ∀ e id, r.epochNodeDelegatorScore e id tok = 0 ∧
    r.delegatorLastSettledNodeEpochScorePerStake e id tok = 0
  cursor : ∀ e id tok, r.delegatorLastSettledNodeEpochScorePerStake e id tok
    ≤ r.getEpochLastScorePerStake id e
  index : ∀ id e, IndexOk c e now (r.nodeEpochIndex id e)

namespace KeyInv

variable {c : Chronos} {r : RandomSamplingStorage}
  {next next' now now' : ℕ}

lemma empty (c : Chronos) (next now : ℕ) : KeyInv c RandomSamplingStorage.empty next now where
  fresh := fun _ _ _ _ => ⟨rfl, rfl⟩
  cursor := fun _ _ _ => le_rfl
  index := fun _ _ => .empty _ _ _

lemma mono (h : KeyInv c r next now) (hnext : next ≤ next') (hnow : now ≤ now') :
    KeyInv c r next' now' where
  fresh := fun tok htok => h.fresh tok (lt_of_le_of_lt hnext htok)
  cursor := h.cursor
  index := fun id e => (h.index id e).mono hnow

/-- A settlement writes the key of a minted token. -/
lemma settle (h : KeyInv c r next now) {e id tok earned : ℕ} (htok : tok ≤ next) :
    KeyInv c (r.settle e id tok earned) next now where
  fresh := by
    intro tok' htok' e' id'
    have hne : ¬ (e' = e ∧ id' = id ∧ tok' = tok) := fun hkey => by omega
    unfold RandomSamplingStorage.settle store₃
    simp only [if_neg hne]
    exact h.fresh tok' htok' e' id'
  cursor := by
    intro e' id' tok'
    unfold RandomSamplingStorage.settle store₃
    simp only
    split
    next hkey =>
      obtain ⟨rfl, rfl, -⟩ := hkey
      exact le_rfl
    next => exact h.cursor e' id' tok'
  index := h.index

lemma future (h : KeyInv c r next now) {e : ℕ} (he : c.epochAtTimestamp now < e) (id : ℕ) :
    r.getEpochLastScorePerStake id e = 0 := (h.index id e).future he

end KeyInv

variable {c : Chronos} {b : Block} {w w' : World} {id stake score next : ℕ}

lemma Proved.index_spec (h : Proved c b w id stake score w')
    (hkeys : KeyInv c w.rss next b.timestamp) (hstake : 0 < stake) :
    ∃ ei', w'.rss.nodeEpochIndex = store₂ w.rss.nodeEpochIndex id (c.getCurrentEpoch b) ei' ∧
      IndexOk c (c.getCurrentEpoch b) b.timestamp ei' ∧
      ei'.lastScorePerStake36 = w.rss.getEpochLastScorePerStake id (c.getCurrentEpoch b)
        + score * SCALE18 / stake ∧
      ∀ t, ei'.findScorePerStakeAt t = if b.timestamp ≤ t
        then w.rss.getEpochLastScorePerStake id (c.getCurrentEpoch b) + score * SCALE18 / stake
        else (w.rss.nodeEpochIndex id (c.getCurrentEpoch b)).findScorePerStakeAt t := by
  have hindex := h.index
  rw [if_pos hstake] at hindex
  obtain ⟨ei', hupsert, hstore⟩ := hindex
  have hepoch : c.epochAtTimestamp b.timestamp = c.getCurrentEpoch b := rfl
  obtain ⟨hok, hlast, hread⟩ := (hkeys.index id (c.getCurrentEpoch b)).upsert hepoch hupsert
  exact ⟨ei', hstore, hok, hlast, hread⟩

lemma Proved.keys (h : Proved c b w id stake score w') (hkeys : KeyInv c w.rss next b.timestamp) :
    KeyInv c w'.rss next b.timestamp := by
  have hscores : ∀ e id' tok, w'.rss.epochNodeDelegatorScore e id' tok
      = w.rss.epochNodeDelegatorScore e id' tok := fun _ _ _ => by rw [h.delegators]
  have hcursors : ∀ e id' tok, w'.rss.delegatorLastSettledNodeEpochScorePerStake e id' tok
      = w.rss.delegatorLastSettledNodeEpochScorePerStake e id' tok := fun _ _ _ => by rw [h.cursors]
  by_cases hstake : 0 < stake
  · obtain ⟨ei', hstore, hok, hlast, -⟩ := h.index_spec hkeys hstake
    refine ⟨fun tok htok e id' => ?_, fun e id' tok => ?_, fun id' e => ?_⟩
    · rw [hscores, hcursors]
      exact hkeys.fresh tok htok e id'
    · rw [hcursors]
      refine (hkeys.cursor e id' tok).trans ?_
      unfold RandomSamplingStorage.getEpochLastScorePerStake
      rw [hstore]
      unfold store₂
      split
      next hkey =>
        obtain ⟨rfl, rfl⟩ := hkey
        rw [hlast]
        exact Nat.le_add_right _ _
      next => exact le_rfl
    · rw [hstore]
      unfold store₂
      split
      next hkey =>
        obtain ⟨rfl, rfl⟩ := hkey
        exact hok
      next => exact hkeys.index id' e
  · have hindex := h.index
    rw [if_neg hstake] at hindex
    refine ⟨fun tok htok e id' => ?_, fun e id' tok => ?_, fun id' e => ?_⟩
    · rw [hscores, hcursors]
      exact hkeys.fresh tok htok e id'
    · rw [hcursors]
      unfold RandomSamplingStorage.getEpochLastScorePerStake
      rw [hindex]
      exact hkeys.cursor e id' tok
    · rw [hindex]
      exact hkeys.index id' e

/-- The locks of the live positions end within the type of timestamps. -/
def ExpiryInv (s : ConvictionStakingStorage) : Prop :=
  ∀ tok, (s.positions tok).identityId ≠ 0 → (s.positions tok).expiryTimestamp < 2 ^ 40

section

variable {c : Chronos} {b : Block} {w w' : World} {now cur : ℕ}

variable {tok id raw tier mig : ℕ} {record : Option Claimed} {op : Op} {events : List Event}
  {s : ConvictionStakingStorage}

lemma ClaimEffect.keys (h : ClaimEffect c b w tok w' record) (htok : tok ≤ w.nft.nextTokenId)
    (hkeys : KeyInv c w.rss w.nft.nextTokenId b.timestamp) :
    KeyInv c w'.rss w.nft.nextTokenId b.timestamp := by
  cases h with
  | nothing => exact hkeys
  | window _ _ _ _ _ hrss _ _ =>
    subst hrss
    exact hkeys.settle htok

lemma Created.keys (h : Created c b w tok id raw tier mig w')
    (hkeys : KeyInv c w.rss w.nft.nextTokenId b.timestamp) :
    KeyInv c w'.rss w'.nft.nextTokenId b.timestamp := by
  obtain ⟨earned, -, hrss⟩ := h.settled
  have htoken := h.token
  rw [hrss, h.counter]
  exact (hkeys.mono (by omega) le_rfl).settle le_rfl

lemma Effect.keys (h : Effect c b w op w' events) (hcursor : CursorInv w cur) (hinv : w.css.Inv now)
    (hnow : now ≤ b.timestamp) (hkeys : KeyInv c w.rss w.nft.nextTokenId b.timestamp) :
    KeyInv c w'.rss w'.nft.nextTokenId b.timestamp := by
  cases h with
  | environment | setAdminKey | addTier | deactivateTier | createProfile | updateOperatorFee
  | depositTokens | requestFee | finalizeFee | cancelFee => exact hkeys
  | submitProof hproved =>
    rw [hproved.nft]
    exact hproved.keys hkeys
  | createConviction hcreated hvault | migrateV8 htotal hcreated htrac => exact hcreated.keys hkeys
  | relock hrelocked =>
    obtain ⟨earned, -, hrss⟩ := hrelocked.settled
    have htoken := hrelocked.token
    have hold := (hcursor.live _ hrelocked.live).minted
    rw [hrss, hrelocked.counter]
    exact (hkeys.mono (by omega) le_rfl).settle (by omega)
  | redelegate hmoved =>
    obtain ⟨earned, -, hrss⟩ := hmoved.settled
    have hminted := (hcursor.live _ hmoved.live).minted
    rw [hrss, hmoved.counter]
    exact (hkeys.settle hminted).settle hminted
  | claim hclaim =>
    obtain ⟨hid, -, -, hnft, -⟩ := hclaim.spec hinv hnow
    rw [hnft]
    exact hclaim.keys (hcursor.live _ hid).minted hkeys
  | withdraw hout =>
    obtain ⟨w₁, hclaim, -, -, hrss, -⟩ := hout.claim
    obtain ⟨hid, -⟩ := hclaim.spec hinv hnow
    rw [hrss, hout.counter]
    exact hclaim.keys (hcursor.live _ hid).minted hkeys

lemma computeExpiry_lt {x : ℕ} (h : s._computeExpiryTimestamp b tier = .ok x) : x < 2 ^ 40 := by
  rcases ConvictionStakingStorage._computeExpiryTimestamp_ok h with ⟨-, rfl⟩ | ⟨-, -, hlt⟩
  · norm_num
  · exact hlt

lemma ExpiryInv.of_eq {s' : ConvictionStakingStorage} (h : ExpiryInv s)
    (hpos : s'.positions = s.positions) : ExpiryInv s' := by
  unfold ExpiryInv
  rw [hpos]
  exact h

lemma Created.expiries (h : Created c b w tok id raw tier mig w') (hinv : w.css.Inv now)
    (hnow : now ≤ b.timestamp) (hexp : ExpiryInv w.css) : ExpiryInv w'.css := by
  obtain ⟨-, -, -, -, x, l, hx, -, hs'⟩ :=
    ConvictionStakingStorage.createPosition_ok hinv.tiers (hinv.ledger id) hnow h.position
  unfold ExpiryInv
  rw [hs']
  exact live_update (Q := fun _ p => p.expiryTimestamp < 2 ^ 40) hexp fun _ => computeExpiry_lt hx

lemma ClaimEffect.expiries (h : ClaimEffect c b w tok w' record) (hinv : w.css.Inv now)
    (hnow : now ≤ b.timestamp) (hexp : ExpiryInv w.css) : ExpiryInv w'.css := by
  obtain ⟨hid, -, -, -, -, -, -, -, hpos⟩ := h.spec hinv hnow
  unfold ExpiryInv
  rw [hpos]
  exact live_update (Q := fun _ p => p.expiryTimestamp < 2 ^ 40) hexp fun _ => hexp tok hid

lemma Effect.expiries (h : Effect c b w op w' events) (hcursor : CursorInv w cur)
    (hinv : w.css.Inv now) (hraw : w.css.RawInv) (hnow : now ≤ b.timestamp)
    (hexp : ExpiryInv w.css) :
    ExpiryInv w'.css := by
  cases h with
  | environment | setAdminKey | createProfile | updateOperatorFee | depositTokens | requestFee
  | finalizeFee | cancelFee => exact hexp
  | addTier hrun => exact hexp.of_eq (addTier_spec hrun).2.2
  | deactivateTier hrun => exact hexp.of_eq (deactivateTier_spec hrun).2.2
  | submitProof hproved => exact hexp.of_eq hproved.spec.2.2.2
  | createConviction hcreated hvault | migrateV8 htotal hcreated htrac =>
    exact hcreated.expiries hinv hnow hexp
  | relock hrelocked =>
    obtain ⟨-, -, -, -, -, -, x, l, hx, -, hs'⟩ :=
      ConvictionStakingStorage.createNewPositionFromExisting_ok hinv.tiers hinv.scale_le
        (hinv.ledger _) hnow hrelocked.position
    unfold ExpiryInv
    rw [hs']
    exact live_update (Q := fun _ p => p.expiryTimestamp < 2 ^ 40)
      (live_update (Q := fun _ p => p.expiryTimestamp < 2 ^ 40) hexp
        fun _ => computeExpiry_lt hx) fun hzero => absurd rfl hzero
  | redelegate hmoved =>
    obtain ⟨-, -, -, -, hpos⟩ := hmoved.spec hinv hnow
    unfold ExpiryInv
    rw [hpos]
    exact live_update (Q := fun _ p => p.expiryTimestamp < 2 ^ 40) hexp
      fun _ => hexp _ hmoved.live
  | claim hclaim => exact hclaim.expiries hinv hnow hexp
  | withdraw hout =>
    obtain ⟨w₁, hclaim, -, -, -, -, -, -, -, hpos⟩ := hout.spec hinv hraw hnow hcursor.minted_lt
    unfold ExpiryInv
    rw [hpos]
    exact live_update (Q := fun _ p => p.expiryTimestamp < 2 ^ 40)
      (hclaim.expiries hinv hnow hexp) fun hzero => absurd rfl hzero

end

/-! ## Entitlements -/

/-- What a position can still use of the epoch `e` of the node `id`, in units of `1/SCALE18`: on
the node, the settled score and what has accrued since, until the epoch is claimed; elsewhere, the
settled score of the current epoch, because the position may come back. -/
def Position.entitled (p : Position) (ei : EpochIndex) (settled cursor cur id e : ℕ) : ℕ :=
  if p.identityId = 0 then 0
  else if p.identityId = id then
    if p.lastClaimedEpoch < e then settled * SCALE18 + p.accrual ei cursor else 0
  else if cur ≤ e then settled * SCALE18 else 0

def World.entitled (w : World) (cur id e tok : ℕ) : ℕ :=
  (w.css.positions tok).entitled (w.rss.nodeEpochIndex id e)
    (w.rss.epochNodeDelegatorScore e id tok)
    (w.rss.delegatorLastSettledNodeEpochScorePerStake e id tok) cur id e

section

variable {c : Chronos} {w w' : World} {p : Position} {ei : EpochIndex}
  {settled cursor cur cur' id e tok next now : ℕ}

lemma Position.entitled_dead (h : p.identityId = 0) :
    p.entitled ei settled cursor cur id e = 0 := if_pos h

/-- A settled score is lost when its epoch ends and the position is elsewhere. -/
lemma Position.entitled_mono (h : cur ≤ cur') :
    p.entitled ei settled cursor cur' id e ≤ p.entitled ei settled cursor cur id e := by
  unfold entitled
  split
  · exact le_rfl
  · split
    · exact le_rfl
    · by_cases he : cur' ≤ e
      · rw [if_pos he, if_pos (h.trans he)]
      · rw [if_neg he]
        exact Nat.zero_le _

/-- With all past epochs claimed and nothing accrued, only settled scores are left. -/
lemma Position.entitled_le_settled (hclaimed : cur ≤ p.lastClaimedEpoch + 1)
    (hacc : p.identityId = id → cur ≤ e → p.accrual ei cursor = 0) :
    p.entitled ei settled cursor cur id e ≤ if cur ≤ e then settled * SCALE18 else 0 := by
  unfold entitled
  split
  · exact Nat.zero_le _
  · split
    next hon =>
      split
      next hlt =>
        have he : cur ≤ e := by omega
        rw [hacc hon he, if_pos he, Nat.add_zero]
      next => exact Nat.zero_le _
    next => exact le_rfl

lemma Position.settled_le_entitled (hlive : p.identityId ≠ 0) (hlt : p.lastClaimedEpoch < cur)
    (he : cur ≤ e) : settled * SCALE18 ≤ p.entitled ei settled cursor cur id e := by
  unfold entitled
  rw [if_neg hlive]
  split
  · rw [if_pos (lt_of_lt_of_le hlt he)]
    exact Nat.le_add_right _ _
  · exact le_rfl

/-- Settling a key rounds down what it has accrued. -/
lemma World.entitled_settle_le (hkeys : KeyInv c w.rss next now) (hinv : w.css.Inv now)
    (hexp : ExpiryInv w.css) {e₀ id₀ tok₀ earned : ℕ} (hearned : Earned c w e₀ tok₀ id₀ earned)
    (hcss : w'.css.positions = w.css.positions) (hrss : w'.rss = w.rss.settle e₀ id₀ tok₀ earned) :
    w'.entitled cur id e tok ≤ w.entitled cur id e tok := by
  unfold World.entitled
  rw [hcss, hrss]
  unfold RandomSamplingStorage.settle store₃
  simp only
  by_cases hkey : e = e₀ ∧ id = id₀ ∧ tok = tok₀
  · obtain ⟨rfl, rfl, rfl⟩ := hkey
    simp only [and_self, if_true]
    unfold Earned at hearned
    simp only at hearned
    by_cases hlive : (w.css.positions tok).identityId = 0
    · rw [Position.entitled_dead hlive]
      exact Nat.zero_le _
    unfold Position.entitled
    rw [if_neg hlive, if_neg hlive]
    by_cases hon : (w.css.positions tok).identityId = id
    · rw [if_pos hon, if_pos hon]
      rw [if_pos hon] at hearned
      split
      next =>
        have hle := Position.scoreIncrement_le (hkeys.index id e) (hinv.scale_le hlive)
          (hexp tok hlive) hearned
        have hzero : (w.css.positions tok).accrual (w.rss.nodeEpochIndex id e)
            (w.rss.getEpochLastScorePerStake id e) = 0 :=
          Position.accrual_eq_zero (hkeys.index id e) le_rfl
        rw [hzero, Nat.add_mul]
        omega
      next => exact le_rfl
    · rw [if_neg hon] at hearned
      rw [if_neg hon, if_neg hon, hearned, Nat.add_zero]
  · rw [if_neg hkey, if_neg hkey]

end

end Dkg
