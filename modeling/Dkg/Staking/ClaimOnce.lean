import Dkg.Staking.FeeAccounts

/-! # No epoch is rewarded twice

A lineage is a position together with the positions that replace it through `relock`. The claim
cursor travels along it, so the claim windows of a lineage are disjoint and follow each other.
-/

namespace Dkg

open Lib List
open Function (update_of_ne update_self)

/-! ## Lineages -/

/-- `b` is the position `a` or replaces it, in any number of relocks. -/
def Lineage (log : List Event) : ℕ → ℕ → Prop :=
  Relation.ReflTransGen fun a b => Event.relocked a b ∈ log

/-- One of the two positions comes from the other. -/
def SameLineage (log : List Event) (a b : ℕ) : Prop := Lineage log a b ∨ Lineage log b a

lemma lineage_of_no_relock {log events : List Event} {a b : ℕ}
    (hquiet : ∀ x y, Event.relocked x y ∉ events) (h : Lineage (log ++ events) a b) :
    Lineage log a b := by
  induction h with
  | refl => exact .refl
  | tail _ hedge ih => exact ih.tail ((mem_append.mp hedge).resolve_right (hquiet _ _))

/-- A relock adds one edge, from a position of the log to a fresh one. -/
lemma lineage_append_relock {log : List Event} {n old a t : ℕ}
    (hlog : ∀ x y, Event.relocked x y ∈ log → x ≤ n ∧ y ≤ n) (hold : old ≤ n)
    (h : Lineage (log ++ [.relocked old (n + 1)]) a t) :
    (t = n + 1 ∧ (a = n + 1 ∨ Lineage log a old)) ∨ (t ≠ n + 1 ∧ Lineage log a t) := by
  induction h with
  | refl =>
    by_cases ht : a = n + 1
    · exact .inl ⟨ht, .inl ht⟩
    · exact .inr ⟨ht, .refl⟩
  | @tail m t _ hedge ih =>
    rcases mem_append.mp hedge with hin | hnew
    · have := hlog m t hin
      rcases ih with ⟨hm, -⟩ | ⟨-, hm⟩
      · omega
      · exact .inr ⟨by omega, hm.tail hin⟩
    · cases mem_singleton.mp hnew
      rcases ih with ⟨hm, -⟩ | ⟨-, hm⟩
      · omega
      · exact .inl ⟨rfl, .inr hm⟩

/-! ## What a transaction does to the cursors -/

def Claimed.Covers (record : Claimed) (e : ℕ) : Prop := record.fromEpoch ≤ e ∧ e ≤ record.toEpoch

/-- The rewarded epochs of a claim lie in its window, in order. -/
structure Claimed.Shape (record : Claimed) : Prop where
  window : record.fromEpoch ≤ record.toEpoch
  inside : ∀ line ∈ record.lines, record.Covers line.epoch
  ordered : record.lines.Pairwise fun l l' => l.epoch < l'.epoch

def World.Live (w : World) (tok : ℕ) : Prop := (w.css.positions tok).identityId ≠ 0

/-- The last epoch a position has claimed. -/
def World.claimedUpTo (w : World) (tok : ℕ) : ℕ := (w.css.positions tok).lastClaimedEpoch

/-- The cursors before and after a transaction. -/
structure CursorStep (w w' : World) (events : List Event) : Prop where
  next : w.nft.nextTokenId ≤ w'.nft.nextTokenId
  /-- A claim starts after the cursor. -/
  claims : ∀ r ∈ claimsOf events,
    w.Live r.tokenId ∧ r.fromEpoch = w.claimedUpTo r.tokenId + 1 ∧ r.Shape
  single : claimsOf events = [] ∨ ∃ r, claimsOf events = [r]
  /-- A relock carries the cursor over to a fresh position. -/
  relocks : ∀ x y, .relocked x y ∈ events → events = [.relocked x y] ∧ w.Live x ∧
    y = w.nft.nextTokenId + 1 ∧ w'.nft.nextTokenId = y ∧ ¬ w'.Live x ∧
    w'.claimedUpTo y = w.claimedUpTo x
  /-- A live position was live before and its cursor has not moved back, or it is fresh. -/
  live : ∀ tok, w'.Live tok →
    (w.Live tok ∧ w.claimedUpTo tok ≤ w'.claimedUpTo tok ∧
      ∀ r ∈ claimsOf events, r.tokenId = tok → r.toEpoch ≤ w'.claimedUpTo tok) ∨
    (tok = w.nft.nextTokenId + 1 ∧ claimsOf events = [])

section

variable {c : Chronos} {b : Block} {w w' : World} {now cur : ℕ}

lemma World.claimLoop_shape {tok k e : ℕ} {pos : Position} {st : ClaimState}
    (h : w.claimLoop c tok pos k e ⟨w.css, 0, []⟩ = .ok st) :
    (∀ line ∈ st.lines, e ≤ line.epoch ∧ line.epoch < e + k) ∧
      st.lines.Pairwise fun l l' => l.epoch < l'.epoch := by
  refine World.claimLoop_induct (P := fun x st =>
    (∀ line ∈ st.lines, e ≤ line.epoch ∧ line.epoch < x) ∧
      st.lines.Pairwise fun l l' => l.epoch < l'.epoch) k ?_ ?_ h
  · rintro x st₁ st₂ hx - ⟨hin, hord⟩ hepoch
    rcases World.claimEpoch_ok hepoch with ⟨rfl, -⟩ | ⟨line, hline⟩
    · exact ⟨fun line hl => ⟨(hin line hl).1, by have := (hin line hl).2; omega⟩, hord⟩
    · have hnew := hline.epoch
      rw [hline.lines]
      refine ⟨?_, pairwise_append.mpr ⟨hord, pairwise_singleton _ _, ?_⟩⟩
      · intro l hl
        rcases mem_append.mp hl with hl | hl
        · have := hin l hl
          omega
        · obtain rfl := mem_singleton.mp hl
          omega
      · intro l hl l' hl'
        obtain rfl := mem_singleton.mp hl'
        have := hin l hl
        omega
  · exact ⟨fun _ hl => absurd hl not_mem_nil, .nil⟩

/-- The record of a claim: it starts after the cursor and ends with the last past epoch. -/
lemma ClaimEffect.record {tok : ℕ} {record : Claimed}
    (h : ClaimEffect c b w tok w' (some record)) (hcursor : CursorInv w cur) :
    record.tokenId = tok ∧ record.identityId = (w.css.positions tok).identityId ∧
      record.fromEpoch = w.claimedUpTo tok + 1 ∧ record.toEpoch = c.getCurrentEpoch b - 1 ∧
      record.Shape := by
  cases h with
  | window hpos hid hcur hwin hearned hrss hloop hcomp =>
    subst hpos
    have hfrom := (hcursor.live tok hid).claimFromEpoch
    obtain ⟨hin, hord⟩ := World.claimLoop_shape (w := { w with rss := _ }) hloop
    refine ⟨rfl, rfl, hfrom, rfl, hwin, ?_, hord⟩
    intro line hl
    have := hin line hl
    exact ⟨this.1, by simp only; omega⟩

/-- A claim moves the cursor of its position to the end of the window. -/
lemma ClaimEffect.cursorStep {tok : ℕ} {record : Option Claimed}
    (h : ClaimEffect c b w tok w' record) (hcursor : CursorInv w cur)
    (hcur : cur ≤ c.getCurrentEpoch b) (hinv : w.css.Inv now) (hnow : now ≤ b.timestamp) :
    CursorStep w w' (Op.claimEvents record) := by
  obtain ⟨hid, -, -, hnft, -, -, -, -, hpos⟩ := h.spec hinv hnow
  have hlast := (hcursor.live tok hid).claimed
  have hrec : ∀ r ∈ claimsOf (Op.claimEvents record), record = some r := by
    intro r hr
    cases record with
    | none => cases hr
    | some r' =>
      rw [mem_singleton.mp (show r ∈ [r'] from hr)]
  refine ⟨by rw [hnft], ?_, ?_, ?_, ?_⟩
  · intro r hr
    obtain rfl := hrec r hr
    obtain ⟨rfl, -, hfrom, -, hshape⟩ := h.record hcursor
    exact ⟨hid, hfrom, hshape⟩
  · cases record with
    | none => exact .inl rfl
    | some r => exact .inr ⟨r, rfl⟩
  · intro x y hmem
    cases record with
    | none => cases hmem
    | some r => cases mem_singleton.mp hmem
  · intro tok' hlive
    unfold World.Live World.claimedUpTo at *
    rw [hpos] at hlive ⊢
    by_cases htok : tok' = tok
    · subst htok
      rw [update_self] at hlive ⊢
      refine .inl ⟨hid, ?_, ?_⟩
      · simp only [Position.afterClaim]
        split <;> omega
      · intro r hr _
        obtain rfl := hrec r hr
        obtain ⟨-, -, -, hto, -⟩ := h.record hcursor
        rw [hto]
        simp [Position.afterClaim]
    · rw [update_of_ne htok] at hlive ⊢
      refine .inl ⟨hlive, le_rfl, ?_⟩
      intro r hr hrtok
      obtain rfl := hrec r hr
      obtain ⟨hrt, -⟩ := h.record hcursor
      exact absurd (hrtok.symm.trans hrt) htok

/-- The positions stay, and the events are about something else. -/
lemma CursorStep.of_eq {events : List Event} (hpos : w'.css.positions = w.css.positions)
    (hnext : w'.nft.nextTokenId = w.nft.nextTokenId) (hclaims : claimsOf events = [])
    (hquiet : ∀ x y, Event.relocked x y ∉ events) : CursorStep w w' events where
  next := hnext.ge
  claims := by rw [hclaims]; exact fun _ h => absurd h not_mem_nil
  single := .inl hclaims
  relocks := fun x y h => absurd h (hquiet x y)
  live := by
    intro tok hlive
    unfold World.Live World.claimedUpTo at *
    rw [hpos] at hlive ⊢
    exact .inl ⟨hlive, le_rfl, by rw [hclaims]; exact fun _ h => absurd h not_mem_nil⟩

lemma Created.cursorStep {tok id raw tier mig : ℕ} (h : Created c b w tok id raw tier mig w')
    (hinv : w.css.Inv now) (hnow : now ≤ b.timestamp) : CursorStep w w' [] := by
  obtain ⟨-, -, -, -, -, -, x, hpos⟩ := h.spec hinv hnow
  have htok := h.token
  refine ⟨by rw [h.counter]; omega, fun _ hr => absurd hr not_mem_nil, .inl rfl,
    fun _ _ hr => absurd hr not_mem_nil, ?_⟩
  intro tok' hlive
  unfold World.Live World.claimedUpTo at *
  rw [hpos] at hlive ⊢
  by_cases heq : tok' = tok
  · exact .inr ⟨heq.trans htok, rfl⟩
  · rw [update_of_ne heq] at hlive ⊢
    exact .inl ⟨hlive, le_rfl, fun _ hr => absurd hr not_mem_nil⟩

lemma Effect.cursorStep {op : Op} {events : List Event} (h : Effect c b w op w' events)
    (hcursor : CursorInv w cur) (hcur : cur ≤ c.getCurrentEpoch b) (hinv : w.css.Inv now)
    (hraw : w.css.RawInv) (hnow : now ≤ b.timestamp) : CursorStep w w' events := by
  have hnil : ∀ x y, Event.relocked x y ∉ ([] : List Event) := fun _ _ => not_mem_nil
  cases h with
  | environment | setAdminKey | requestFee | cancelFee => exact .of_eq rfl rfl rfl hnil
  | addTier hrun => exact .of_eq (addTier_spec hrun).2.2 rfl rfl hnil
  | deactivateTier hrun => exact .of_eq (deactivateTier_spec hrun).2.2 rfl rfl hnil
  | createProfile | updateOperatorFee | depositTokens | finalizeFee =>
    exact .of_eq rfl rfl rfl (by simp)
  | submitProof hproved =>
    exact .of_eq hproved.spec.2.2.2 (congrArg ConvictionNFT.nextTokenId hproved.nft) rfl hnil
  | createConviction hcreated _ | migrateV8 _ hcreated _ => exact hcreated.cursorStep hinv hnow
  | @relock _ old _ new _ hrelocked =>
    obtain ⟨hdead, hne, -, -, -, -, x, hpos⟩ := hrelocked.spec hinv hnow
    have hnew := hrelocked.token
    refine ⟨by rw [hrelocked.counter]; omega, fun _ hr => absurd hr not_mem_nil, .inl rfl, ?_, ?_⟩
    · intro a y hmem
      cases mem_singleton.mp hmem
      refine ⟨rfl, hrelocked.live, hnew, hrelocked.counter, ?_, ?_⟩
      · unfold World.Live
        rw [hpos, update_self]
        exact fun h0 => h0 rfl
      · unfold World.claimedUpTo
        rw [hpos, update_of_ne hne.symm, update_self]
    · intro tok hlive
      unfold World.Live World.claimedUpTo at *
      rw [hpos] at hlive ⊢
      by_cases hold : tok = old
      · subst hold
        rw [update_self] at hlive
        exact absurd rfl hlive
      · rw [update_of_ne hold] at hlive ⊢
        by_cases heq : tok = new
        · exact .inr ⟨heq.trans hnew, rfl⟩
        · rw [update_of_ne heq] at hlive ⊢
          exact .inl ⟨hlive, le_rfl, fun _ hr => absurd hr not_mem_nil⟩
  | @redelegate _ tok _ _ hmoved =>
    obtain ⟨-, -, -, -, hpos⟩ := hmoved.spec hinv hnow
    refine ⟨hmoved.counter.ge, fun _ hr => absurd hr not_mem_nil, .inl rfl,
      fun _ _ hr => absurd hr not_mem_nil, ?_⟩
    intro tok' hlive
    unfold World.Live World.claimedUpTo at *
    rw [hpos] at hlive ⊢
    by_cases heq : tok' = tok
    · subst heq
      rw [update_self] at hlive ⊢
      exact .inl ⟨hmoved.live, le_rfl, fun _ hr => absurd hr not_mem_nil⟩
    · rw [update_of_ne heq] at hlive ⊢
      exact .inl ⟨hlive, le_rfl, fun _ hr => absurd hr not_mem_nil⟩
  | claim hclaim => exact hclaim.cursorStep hcursor hcur hinv hnow
  | @withdraw _ tok _ record hout =>
    obtain ⟨w₁, hclaim, -, -, -, -, -, -, -, hpos⟩ := hout.spec hinv hraw hnow hcursor.minted_lt
    have hstep := hclaim.cursorStep hcursor hcur hinv hnow
    refine ⟨hout.counter.ge, hstep.claims, hstep.single, ?_, ?_⟩
    · intro x y hmem
      cases record with
      | none => cases hmem
      | some r => cases mem_singleton.mp hmem
    · intro tok' hlive
      have hsame : ∀ t, w'.Live t → w₁.Live t ∧ w'.claimedUpTo t = w₁.claimedUpTo t := by
        intro t ht
        unfold World.Live World.claimedUpTo at *
        rw [hpos] at ht ⊢
        by_cases heq : t = tok
        · subst heq
          rw [update_self] at ht
          exact absurd rfl ht
        · rw [update_of_ne heq] at ht ⊢
          exact ⟨ht, rfl⟩
      obtain ⟨hlive₁, hsame₁⟩ := hsame tok' hlive
      rw [hsame₁]
      exact hstep.live tok' hlive₁

end

/-! ## The windows of a lineage -/

/-- A position that was never relocked is the only one of its lineage after it. -/
lemma lineage_of_no_successor {log : List Event} {a t : ℕ}
    (hend : ∀ y, Event.relocked a y ∉ log) (h : Lineage log a t) : t = a := by
  rcases Relation.ReflTransGen.cases_head h with h | ⟨y, hy, -⟩
  · exact h.symm
  · exact absurd hy (hend y)

/-- A position that no relock of the log has produced is the first of its lineage. -/
lemma lineage_of_no_predecessor {log : List Event} {a t : ℕ}
    (hstart : ∀ x, Event.relocked x t ∉ log) (h : Lineage log a t) : t = a := by
  rcases Relation.ReflTransGen.cases_tail h with h | ⟨x, -, hx⟩
  · exact h
  · exact absurd hx (hstart x)

/-- The claims of a log against the cursors. -/
structure LineageInv (w : World) (log : List Event) : Prop where
  minted : ∀ r ∈ claimsOf log, r.tokenId ≤ w.nft.nextTokenId
  edges : ∀ x y, .relocked x y ∈ log → x ≤ w.nft.nextTokenId ∧ y ≤ w.nft.nextTokenId ∧ ¬ w.Live x
  /-- The cursor of a live position is past every window of its lineage. -/
  covered : ∀ r ∈ claimsOf log, ∀ tok, w.Live tok → Lineage log r.tokenId tok →
    r.toEpoch ≤ w.claimedUpTo tok
  windows : (claimsOf log).Pairwise fun r r' =>
    SameLineage log r.tokenId r'.tokenId → r.toEpoch < r'.fromEpoch
  shapes : ∀ r ∈ claimsOf log, r.Shape

namespace LineageInv

variable {w w' : World} {log events : List Event} {cur : ℕ}

lemma init {w : World} : LineageInv w [] where
  minted := fun _ hr => absurd hr not_mem_nil
  edges := fun _ _ hr => absurd hr not_mem_nil
  covered := fun _ hr => absurd hr not_mem_nil
  windows := .nil
  shapes := fun _ hr => absurd hr not_mem_nil

variable (h : LineageInv w log)

include h

/-- A live position has not been relocked. -/
lemma no_successor {tok : ℕ} (hlive : w.Live tok) (y : ℕ) :
    Event.relocked tok y ∉ log := fun hmem => (h.edges tok y hmem).2.2 hlive

/-- A fresh position replaces nothing. -/
lemma no_predecessor (x : ℕ) : Event.relocked x (w.nft.nextTokenId + 1) ∉ log := by
  intro hmem
  have := (h.edges x _ hmem).2.1
  omega

lemma edges_step (hstep : CursorStep w w' events)
    (hcursor : CursorInv w cur) (x y : ℕ) (hmem : .relocked x y ∈ log ++ events) :
    x ≤ w'.nft.nextTokenId ∧ y ≤ w'.nft.nextTokenId ∧ ¬ w'.Live x := by
  have hnext := hstep.next
  rcases mem_append.mp hmem with hin | hin
  · obtain ⟨hx, hy, hdead⟩ := h.edges x y hin
    refine ⟨by omega, by omega, fun hlive => ?_⟩
    rcases hstep.live x hlive with ⟨hold, -⟩ | ⟨hfresh, -⟩
    · exact hdead hold
    · omega
  · obtain ⟨-, hlive, hy, hcount, hdead, -⟩ := hstep.relocks x y hin
    have := (hcursor.live x hlive).minted
    exact ⟨by omega, by omega, hdead⟩

lemma quiet (hstep : CursorStep w w' events)
    (hcursor : CursorInv w cur) (hquiet : ∀ x y, Event.relocked x y ∉ events) :
    LineageInv w' (log ++ events) := by
  have hback : ∀ {a t : ℕ}, Lineage (log ++ events) a t → Lineage log a t :=
    fun hl => lineage_of_no_relock hquiet hl
  have hnext := hstep.next
  refine ⟨?_, h.edges_step hstep hcursor, ?_, ?_, ?_⟩
  · intro r hr
    rw [claimsOf_append] at hr
    rcases mem_append.mp hr with hr | hr
    · have := h.minted r hr
      omega
    · have := (hcursor.live _ (hstep.claims r hr).1).minted
      omega
  · intro r hr tok hlive hlin
    replace hlin := hback hlin
    rw [claimsOf_append] at hr
    rcases mem_append.mp hr with hr | hr
    · rcases hstep.live tok hlive with ⟨hold, hle, -⟩ | ⟨rfl, -⟩
      · exact (h.covered r hr tok hold hlin).trans hle
      · -- a fresh position continues nobody's lineage
        have := lineage_of_no_predecessor h.no_predecessor hlin
        have := h.minted r hr
        omega
    · obtain ⟨hrlive, -⟩ := hstep.claims r hr
      obtain rfl := lineage_of_no_successor (h.no_successor hrlive) hlin
      rcases hstep.live _ hlive with ⟨-, -, hto⟩ | ⟨-, hnone⟩
      · exact hto r hr rfl
      · rw [hnone] at hr
        cases hr
  · rw [claimsOf_append]
    refine pairwise_append.mpr ⟨?_, ?_, ?_⟩
    · exact h.windows.imp fun hlt hsame => hlt (hsame.imp hback hback)
    · rcases hstep.single with hnone | ⟨r, hone⟩
      · rw [hnone]
        exact .nil
      · rw [hone]
        exact pairwise_singleton _ _
    · intro r hr r' hr' hsame
      obtain ⟨hlive, hfrom, -⟩ := hstep.claims r' hr'
      -- the earlier claim is of an ancestor, or of the position itself
      have hlin : Lineage log r.tokenId r'.tokenId := by
        rcases hsame with hsame | hsame
        · exact hback hsame
        · rw [lineage_of_no_successor (h.no_successor hlive) (hback hsame)]
          exact .refl
      have := h.covered r hr _ hlive hlin
      omega
  · intro r hr
    rw [claimsOf_append] at hr
    rcases mem_append.mp hr with hr | hr
    · exact h.shapes r hr
    · exact (hstep.claims r hr).2.2

lemma relock (hcursor : CursorInv w cur) {old new : ℕ}
    (hstep : CursorStep w w' [.relocked old new]) : LineageInv w' (log ++ [.relocked old new]) := by
  obtain ⟨-, hlive, rfl, hcount, hdead, hcarry⟩ := hstep.relocks old new (mem_singleton.mpr rfl)
  have hminted := (hcursor.live old hlive).minted
  have hclaims : claimsOf (log ++ [.relocked old (w.nft.nextTokenId + 1)]) = claimsOf log := by
    rw [claimsOf_append]
    exact append_nil _
  have hlin : ∀ {a t : ℕ}, Lineage (log ++ [.relocked old (w.nft.nextTokenId + 1)]) a t → _ :=
    fun hl => lineage_append_relock (fun x y hxy => ⟨(h.edges x y hxy).1, (h.edges x y hxy).2.1⟩)
      hminted hl
  refine ⟨?_, h.edges_step hstep hcursor, ?_, ?_, ?_⟩
  · rw [hclaims]
    intro r hr
    have := h.minted r hr
    omega
  · rw [hclaims]
    intro r hr tok htok hl
    rcases hlin hl with ⟨rfl, hr' | hold⟩ | ⟨hne, hold⟩
    · have := h.minted r hr
      omega
    · rw [hcarry]
      exact h.covered r hr old hlive hold
    · rcases hstep.live tok htok with ⟨hlive', hle, -⟩ | ⟨hfresh, -⟩
      · exact (h.covered r hr tok hlive' hold).trans hle
      · exact absurd hfresh hne
  · rw [hclaims]
    refine h.windows.imp_of_mem ?_
    intro r r' hr hr' hlt hsame
    have hm := h.minted r hr
    have hm' := h.minted r' hr'
    refine hlt (hsame.imp ?_ ?_)
    · intro hl
      rcases hlin hl with ⟨heq, -⟩ | ⟨-, hold⟩
      · omega
      · exact hold
    · intro hl
      rcases hlin hl with ⟨heq, -⟩ | ⟨-, hold⟩
      · omega
      · exact hold
  · rw [hclaims]
    exact h.shapes

lemma step (hcursor : CursorInv w cur)
    (hstep : CursorStep w w' events) : LineageInv w' (log ++ events) := by
  by_cases hrelock : ∃ x y, Event.relocked x y ∈ events
  · obtain ⟨x, y, hmem⟩ := hrelock
    obtain ⟨rfl, -⟩ := hstep.relocks x y hmem
    exact h.relock hcursor hstep
  · exact h.quiet hstep hcursor fun x y hmem => hrelock ⟨x, y, hmem⟩

end LineageInv

section

variable {c : Chronos} {s s' : SysState}

lemma cursorStep_of_sysStep {l : Block × Op} (hinv : SysInv c s) (hstep : sysStep c s l s') :
    ∃ events, CursorStep s.world s'.world events ∧ s'.log = s.log ++ events := by
  obtain ⟨hnow, -, -, events, hrun, hlog⟩ := hstep
  exact ⟨events, (Op.run_effect hrun).cursorStep hinv.cursors (c.epochAtTimestamp_mono hnow)
    hinv.css hinv.raw hnow, hlog⟩

lemma SysState.lineages (hr : (sysMachine c).Reachable s) : LineageInv s.world s.log := by
  refine hr.invariant_of (P := fun s => LineageInv s.world s.log) (Q := SysInv c)
    (fun _ => SysState.inv) ?_ ?_
  · rintro s ⟨-, hlog⟩
    rw [hlog]
    exact LineageInv.init
  · intro s l s' hinv _ hlin hstep
    obtain ⟨events, hcs, hlog⟩ := cursorStep_of_sysStep hinv hstep
    rw [hlog]
    exact hlin.step hinv.cursors hcs

/-- Along a run, the cursor of a live position is not behind the cursor of any position it comes
from. -/
lemma claimedUpTo_mono (hr : (sysMachine c).Reachable s) (hs : (sysMachine c).Steps s s') :
    s.world.nft.nextTokenId ≤ s'.world.nft.nextTokenId ∧
    ∀ tok tok', s.world.Live tok → s'.world.Live tok' → Lineage s'.log tok tok' →
      s.world.claimedUpTo tok ≤ s'.world.claimedUpTo tok' := by
  induction hs with
  | refl =>
    refine ⟨le_rfl, fun tok tok' hlive _ hlin => ?_⟩
    rw [lineage_of_no_successor ((SysState.lineages hr).no_successor hlive) hlin]
  | @tail t u l hst hstep ih =>
    obtain ⟨hnext, hmono⟩ := ih
    have hrt := hr.steps hst
    have hinv := SysState.inv hrt
    have hlint := SysState.lineages hrt
    obtain ⟨events, hcs, hlog⟩ := cursorStep_of_sysStep hinv hstep
    refine ⟨hnext.trans hcs.next, fun tok tok' hlive hlive' hlin => ?_⟩
    have hminted := ((SysState.inv hr).cursors.live tok hlive).minted
    rw [hlog] at hlin
    by_cases hrelock : ∃ x y, Event.relocked x y ∈ events
    · obtain ⟨old, new, hmem⟩ := hrelock
      obtain ⟨rfl, hold, rfl, -, -, hcarry⟩ := hcs.relocks old new hmem
      rcases lineage_append_relock
        (fun x y hxy => ⟨(hlint.edges x y hxy).1, (hlint.edges x y hxy).2.1⟩)
        (hinv.cursors.live old hold).minted hlin with ⟨rfl, htok | hl⟩ | ⟨hne, hl⟩
      · omega
      · rw [hcarry]
        exact hmono tok old hlive hold hl
      · rcases hcs.live tok' hlive' with ⟨hlt, hle, -⟩ | ⟨hfresh, -⟩
        · exact (hmono tok tok' hlive hlt hl).trans hle
        · exact absurd hfresh hne
    · have hl := lineage_of_no_relock (fun x y hmem => hrelock ⟨x, y, hmem⟩) hlin
      rcases hcs.live tok' hlive' with ⟨hlt, hle, -⟩ | ⟨rfl, -⟩
      · exact (hmono tok tok' hlive hlt hl).trans hle
      · have := lineage_of_no_predecessor hlint.no_predecessor hl
        omega

end

/-- **No epoch is rewarded twice.** In every reachable state: two claims of one lineage have
disjoint windows, and the rewarded epochs of a claim lie in its window, each once; from here on the
cursor of a lineage never moves back; no node's epoch has its operator fee taken twice, and all
fees taken for a node are in its account, requested, or paid out; and every claim of a node's epoch
has shared the net reward that, with the one fee taken for it, makes up the gross reward. -/
theorem epoch_rewarded_once (c : Chronos) {s : SysState} (hr : (sysMachine c).Reachable s) :
    ((claimsOf s.log).Pairwise fun r r' =>
      SameLineage s.log r.tokenId r'.tokenId → ∀ e, ¬ (r.Covers e ∧ r'.Covers e)) ∧
    (∀ r ∈ claimsOf s.log, (∀ line ∈ r.lines, r.Covers line.epoch) ∧
      r.lines.Pairwise fun l l' => l.epoch ≠ l'.epoch) ∧
    (∀ s', (sysMachine c).Steps s s' → ∀ tok tok',
      (s.world.css.positions tok).identityId ≠ 0 → (s'.world.css.positions tok').identityId ≠ 0 →
      Lineage s'.log tok tok' →
      (s.world.css.positions tok).lastClaimedEpoch
        ≤ (s'.world.css.positions tok').lastClaimedEpoch) ∧
    ((linesOf s.log).Pairwise fun a a' =>
      a.2.split ≠ none → a'.2.split ≠ none → lineKey a ≠ lineKey a') ∧
    (∀ id, s.world.css.nodeOperatorFeeBalance id + (s.world.css.operatorFeeWithdrawals id).amount
      + feesWithdrawn s.log id = feesTaken (linesOf s.log) id) ∧
    ∀ a ∈ linesOf s.log, a.2.net = s.world.css.netNodeEpochRewards a.1 a.2.epoch ∧
      ∃ a' ∈ linesOf s.log, lineKey a' = lineKey a ∧ ∃ sp, a'.2.split = some sp ∧
        sp.fee + s.world.css.netNodeEpochRewards a.1 a.2.epoch = sp.gross := by
  have hlin := SysState.lineages hr
  have hfee := (SysState.fees hr).2
  refine ⟨?_, ?_, ?_, hfee.once, hfee.balance, ?_⟩
  · refine hlin.windows.imp fun hlt hsame e hboth => ?_
    have := hlt hsame
    obtain ⟨⟨-, hto⟩, ⟨hfrom, -⟩⟩ := hboth
    omega
  · intro r hr
    have hshape := hlin.shapes r hr
    exact ⟨hshape.inside, hshape.ordered.imp ne_of_lt⟩
  · intro s' hs
    exact (claimedUpTo_mono hr hs).2
  · intro a ha
    obtain ⟨hflag, hnet⟩ := hfee.shared a ha
    refine ⟨hnet, ?_⟩
    obtain ⟨a', ha', hkey, hsome⟩ := hfee.recorded a.1 a.2.epoch hflag
    obtain ⟨sp, hsp⟩ := Option.ne_none_iff_exists'.mp hsome
    obtain ⟨hsum, hnet'⟩ := hfee.divided a' ha' sp hsp
    obtain ⟨h1, h2⟩ := Prod.mk.inj hkey
    have hshared := (hfee.shared a' ha').2
    refine ⟨a', ha', hkey, sp, hsp, ?_⟩
    rw [← h1, ← h2, ← hshared, hnet']
    exact hsum

/-- A position earns the whole reward of epoch `1`, is relocked, and claims epoch `2` under its new
token. -/
theorem epoch_rewarded_once_relock :
    ∃ s, (sysMachine hourlyChronos).Reachable s ∧
      (claimsOf s.log).map (fun r => (r.tokenId, r.fromEpoch, r.toEpoch, r.total))
        = [(1, 1, 1, 900), (2, 2, 2, 0)] ∧
      (claimsOf s.log).Pairwise fun r r' =>
        SameLineage s.log r.tokenId r'.tokenId → ∀ e, ¬ (r.Covers e ∧ r'.Covers e) := by
  obtain ⟨s, hr, htest⟩ := exists_reachable
    (stakedSteps.append [(4700, .claim 7 1),
     (4800, .relock 7 1 0),
     (8300, .claim 7 2)])
    (fun s => decide
      ((claimsOf s.log).map (fun r => (r.tokenId, r.fromEpoch, r.toEpoch, r.total))
        = [(1, 1, 1, 900), (2, 2, 2, 0)]))
    (by decide +kernel)
  exact ⟨s, hr, of_decide_eq_true htest, (epoch_rewarded_once hourlyChronos hr).1⟩

end Dkg
