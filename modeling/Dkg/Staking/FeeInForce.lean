import Dkg.Staking.FeeAccounts

/-! # The operator fee in force

`updateOperatorFee` schedules a fee for the start of a later epoch, but `_claim` splits an epoch's
reward with the latest entry, whatever its effective date. The latest entry is the last one the
log has made for the node, and effective dates come in the order of the updates; so the split of
an epoch is right exactly when no fee change that takes effect later has been made before it.
-/

namespace Dkg

open Lib List

/-! ## Effective dates -/

section

variable {c : Chronos} {b b' : Block}

/-- A change takes effect after the second in which it is made. -/
lemma timestamp_lt_feeEffectiveStart (c : Chronos) (b : Block) :
    b.timestamp < World.feeEffectiveStart c b := by
  have hend := c.timestamp_lt_epochEnd b
  unfold World.feeEffectiveStart Chronos.epochLength
  simp only
  split <;> omega

lemma feeEffectiveStart_mono (c : Chronos) (h : b.timestamp ≤ b'.timestamp) :
    World.feeEffectiveStart c b ≤ World.feeEffectiveStart c b' := by
  have hend := c.timestamp_lt_epochEnd b
  have hcur : c.getCurrentEpoch b ≤ c.getCurrentEpoch b' := c.epochAtTimestamp_mono h
  have hpos := c.getCurrentEpoch_pos b
  unfold World.feeEffectiveStart Chronos.epochLength
  simp only
  rcases Nat.lt_or_ge (c.getCurrentEpoch b) (c.getCurrentEpoch b') with hlt | hge
  · -- a later epoch starts at least one epoch length later
    have hnext : c.timestampForEpoch (c.getCurrentEpoch b) + c.EPOCH_LENGTH
        ≤ c.timestampForEpoch (c.getCurrentEpoch b') := by
      rw [c.timestampForEpoch_eq hpos, c.timestampForEpoch_eq (by omega), Nat.add_assoc,
        ← Nat.succ_mul]
      exact Nat.add_le_add_left (Nat.mul_le_mul_right _ (by omega)) _
    split <;> split <;> omega
  · have hsame : c.getCurrentEpoch b = c.getCurrentEpoch b' := le_antisymm hcur hge
    rw [hsame]
    split <;> split <;> omega

end

/-! ## Fee entries in the log -/

/-- The fee entries a log has made for a node, in order. -/
def feeEntries (log : List Event) (id : ℕ) : List OperatorFee :=
  log.filterMap fun
    | .profileCreated identityId entry | .feeUpdated identityId entry =>
      if identityId = id then some entry else none
    | _ => none

/-- The last of them. -/
def latestEntry (log : List Event) (id : ℕ) : OperatorFee :=
  ((feeEntries log id).getLast?).getD ⟨0, 0⟩

lemma feeEntries_append (log events : List Event) (id : ℕ) :
    feeEntries (log ++ events) id = feeEntries log id ++ feeEntries events id :=
  filterMap_append

lemma latestEntry_append_entry (log : List Event) {event : Event} {id : ℕ} {entry : OperatorFee}
    (h : feeEntries [event] id = [entry]) : latestEntry (log ++ [event]) id = entry := by
  unfold latestEntry
  rw [feeEntries_append, h, getLast?_append]
  rfl

lemma latestEntry_append_other (log : List Event) {events : List Event} {id : ℕ}
    (h : feeEntries events id = []) : latestEntry (log ++ events) id = latestEntry log id := by
  unfold latestEntry
  rw [feeEntries_append, h, append_nil]

lemma mem_feeEntries {log : List Event} {id : ℕ} {entry : OperatorFee} :
    entry ∈ feeEntries log id
      ↔ Event.profileCreated id entry ∈ log ∨ Event.feeUpdated id entry ∈ log := by
  unfold feeEntries
  rw [mem_filterMap]
  constructor
  · rintro ⟨event, hmem, h⟩
    cases event with
    | profileCreated i en =>
      by_cases hi : i = id
      · subst hi
        simp only [if_true, Option.some.injEq] at h
        exact .inl (h ▸ hmem)
      · simp [hi] at h
    | feeUpdated i en =>
      by_cases hi : i = id
      · subst hi
        simp only [if_true, Option.some.injEq] at h
        exact .inr (h ▸ hmem)
      · simp [hi] at h
    | claimed r | relocked x y | deposited d | feeWithdrawn i a => cases h
  · rintro (h | h)
    · exact ⟨_, h, by simp⟩
    · exact ⟨_, h, by simp⟩

/-- The fee entries of a log: they follow each other in time, a node's initial entry comes before
its changes, and nodes without an identity have none. -/
structure EntriesInv (c : Chronos) (w : World) (now : ℕ) (log : List Event) : Prop where
  latest : ∀ id, w.profiles.getLatestOperatorFee id = latestEntry log id
  keys : ∀ id key, w.adminKey id key = true → id ≤ w.lastIdentityId
  known : ∀ id entry, entry ∈ feeEntries log id → id ≤ w.lastIdentityId
  created : ∀ id entry, .profileCreated id entry ∈ log → entry.effectiveDate ≤ now
  past : ∀ id entry, entry ∈ feeEntries log id → ∀ b : Block, now ≤ b.timestamp →
    entry.effectiveDate ≤ World.feeEffectiveStart c b
  ordered : ∀ id, (feeEntries log id).Pairwise fun e e' => e.effectiveDate ≤ e'.effectiveDate
  changed : ∀ id entry entry', .profileCreated id entry ∈ log → .feeUpdated id entry' ∈ log →
    entry.effectiveDate < entry'.effectiveDate

namespace EntriesInv

variable {c : Chronos} {b : Block} {w w' : World} {now : ℕ} {log events : List Event}

variable (h : EntriesInv c w now log)

include h

/-- A transaction that makes no fee entry. -/
lemma quiet (hnow : now ≤ b.timestamp)
    (hprofiles : w'.profiles = w.profiles) (hlast : w'.lastIdentityId = w.lastIdentityId)
    (hkeys : ∀ id key, w'.adminKey id key = true → id ≤ w.lastIdentityId)
    (hno : ∀ id, feeEntries events id = []) : EntriesInv c w' b.timestamp (log ++ events) := by
  have hsame : ∀ id, feeEntries (log ++ events) id = feeEntries log id := by
    intro id
    rw [feeEntries_append, hno id, append_nil]
  have hback : ∀ (event : Event) (id : ℕ) (entry : OperatorFee),
      feeEntries [event] id = [entry] → event ∈ log ++ events → event ∈ log := by
    intro event id entry hone hmem
    rcases mem_append.mp hmem with hin | hin
    · exact hin
    · exfalso
      obtain ⟨l₁, l₂, hsplit⟩ := append_of_mem hin
      have hnil := hno id
      rw [hsplit, feeEntries_append, ← singleton_append, feeEntries_append, hone] at hnil
      simp at hnil
  refine ⟨?_, ?_, ?_, ?_, ?_, ?_, ?_⟩
  · intro id
    rw [hprofiles, h.latest id, latestEntry_append_other log (hno id)]
  · rw [hlast]
    exact hkeys
  · intro id entry hmem
    rw [hsame] at hmem
    rw [hlast]
    exact h.known id entry hmem
  · intro id entry hmem
    have := h.created id entry (hback _ id entry (by simp [feeEntries]) hmem)
    omega
  · intro id entry hmem b' hb'
    rw [hsame] at hmem
    exact h.past id entry hmem b' (by omega)
  · intro id
    rw [hsame]
    exact h.ordered id
  · intro id entry entry' hmem hmem'
    exact h.changed id entry entry'
      (hback _ id entry (by simp [feeEntries]) hmem)
      (hback _ id entry' (by simp [feeEntries]) hmem')

/-- A transaction that makes the entry `entry` for the node `id`, after all others of the node. -/
lemma push (hnow : now ≤ b.timestamp) {event : Event} (id : ℕ)
    (entry : OperatorFee) (hone : ∀ id', feeEntries [event] id' = if id' = id then [entry] else [])
    (hlatest : w'.profiles.getLatestOperatorFee id = entry) (hother : ∀ id', id' ≠ id →
      w'.profiles.getLatestOperatorFee id' = w.profiles.getLatestOperatorFee id')
    (hlast : w.lastIdentityId ≤ w'.lastIdentityId) (hid : id ≤ w'.lastIdentityId)
    (hkeys : ∀ id' key, w'.adminKey id' key = true → id' ≤ w'.lastIdentityId)
    (hcreated : ∀ id' e, event = .profileCreated id' e → e.effectiveDate ≤ b.timestamp)
    (hpast : ∀ b' : Block, b.timestamp ≤ b'.timestamp →
      entry.effectiveDate ≤ World.feeEffectiveStart c b')
    (hordered : ∀ e ∈ feeEntries log id, e.effectiveDate ≤ entry.effectiveDate)
    (hchanged : ∀ id' e e', .profileCreated id' e ∈ log ++ [event] →
      .feeUpdated id' e' ∈ log ++ [event] → e.effectiveDate < e'.effectiveDate) :
    EntriesInv c w' b.timestamp (log ++ [event]) := by
  have hmem : ∀ {id' e}, e ∈ feeEntries (log ++ [event]) id' →
      e ∈ feeEntries log id' ∨ (id' = id ∧ e = entry) := by
    intro id' e he
    rw [feeEntries_append, hone] at he
    rcases mem_append.mp he with he | he
    · exact .inl he
    · by_cases heq : id' = id
      · rw [if_pos heq] at he
        exact .inr ⟨heq, mem_singleton.mp he⟩
      · rw [if_neg heq] at he
        cases he
  refine ⟨?_, hkeys, ?_, ?_, ?_, ?_, hchanged⟩
  · intro id'
    by_cases heq : id' = id
    · subst heq
      rw [hlatest, latestEntry_append_entry log ((hone id').trans (if_pos rfl))]
    · rw [hother id' heq, h.latest id',
        latestEntry_append_other log ((hone id').trans (if_neg heq))]
  · intro id' e he
    rcases hmem he with he | ⟨rfl, -⟩
    · exact (h.known id' e he).trans hlast
    · exact hid
  · intro id' e he
    rcases mem_append.mp he with he | he
    · exact (h.created id' e he).trans hnow
    · exact hcreated id' e (mem_singleton.mp he).symm
  · intro id' e he b' hb'
    rcases hmem he with he | ⟨-, rfl⟩
    · exact h.past id' e he b' (hnow.trans hb')
    · exact hpast b' hb'
  · intro id'
    rw [feeEntries_append, hone]
    by_cases heq : id' = id
    · subst heq
      rw [if_pos rfl]
      refine pairwise_append.mpr ⟨h.ordered id', pairwise_singleton _ _, ?_⟩
      intro e he e' he'
      rw [mem_singleton.mp he']
      exact hordered e he
    · rw [if_neg heq, append_nil]
      exact h.ordered id'

/-- A new node: it had no entry, and its first one is in force at once. -/
lemma createProfile (hnow : now ≤ b.timestamp) (admin fee : ℕ) : EntriesInv c { w with
        lastIdentityId := w.lastIdentityId + 1
        adminKey := store₂ w.adminKey (w.lastIdentityId + 1) admin true
        profiles := w.profiles.createProfile b (w.lastIdentityId + 1) fee }
      b.timestamp (log ++ [.profileCreated (w.lastIdentityId + 1) ⟨fee, b.timestamp⟩]) := by
  have hfresh : ∀ e, e ∉ feeEntries log (w.lastIdentityId + 1) := by
    intro e he
    have := h.known _ e he
    omega
  refine h.push hnow (w.lastIdentityId + 1) ⟨fee, b.timestamp⟩ ?_ ?_ ?_
    (Nat.le_succ _) le_rfl ?_ ?_ ?_ ?_ ?_
  · intro id'
    by_cases heq : id' = w.lastIdentityId + 1
    · simp [feeEntries, heq]
    · simp [feeEntries, heq, Ne.symm heq]
  · simp [ProfileStorage.getLatestOperatorFee, ProfileStorage.createProfile]
  · intro id' heq
    simp [ProfileStorage.getLatestOperatorFee, ProfileStorage.createProfile,
      Function.update_of_ne heq]
  · intro id' key hkey
    simp only [store₂] at hkey
    split at hkey
    next hboth => exact hboth.1.le
    next => exact (h.keys id' key hkey).trans (Nat.le_succ _)
  · intro id' e he
    cases he
    exact le_rfl
  · intro b' hb'
    exact hb'.trans (timestamp_lt_feeEffectiveStart c b').le
  · exact fun e he => absurd he (hfresh e)
  · intro id' e e' he he'
    rcases mem_append.mp he' with he' | he'
    · rcases mem_append.mp he with he | he
      · exact h.changed id' e e' he he'
      · cases mem_singleton.mp he
        exact absurd (mem_feeEntries.mpr (.inr he')) (hfresh e')
    · cases mem_singleton.mp he'

/-- A fee change: it takes effect after all entries the node has. -/
lemma updateOperatorFee (hnow : now ≤ b.timestamp)
    {sender id : ℕ} (hadmin : w.adminKey id sender = true) (fee : ℕ) (kept : List OperatorFee) :
    EntriesInv c
      { w with
        profiles := { w.profiles with
          operatorFees := Function.update w.profiles.operatorFees id
            (kept ++ [⟨fee, World.feeEffectiveStart c b⟩]) } }
      b.timestamp (log ++ [.feeUpdated id ⟨fee, World.feeEffectiveStart c b⟩]) := by
  refine h.push hnow id ⟨fee, World.feeEffectiveStart c b⟩ ?_ ?_ ?_ le_rfl
    (h.keys id sender hadmin) h.keys ?_ ?_ ?_ ?_
  · intro id'
    by_cases heq : id' = id
    · simp [feeEntries, heq]
    · simp [feeEntries, heq, Ne.symm heq]
  · simp [ProfileStorage.getLatestOperatorFee]
  · intro id' heq
    simp [ProfileStorage.getLatestOperatorFee, Function.update_of_ne heq]
  · intro id' e he
    cases he
  · intro b' hb'
    exact feeEffectiveStart_mono c hb'
  · exact fun e he => h.past id e he b hnow
  · intro id' e e' he he'
    have he : .profileCreated id' e ∈ log := by
      rcases mem_append.mp he with he | he
      · exact he
      · cases mem_singleton.mp he
    rcases mem_append.mp he' with he' | he'
    · exact h.changed id' e e' he he'
    · cases mem_singleton.mp he'
      exact lt_of_le_of_lt ((h.created id e he).trans hnow) (timestamp_lt_feeEffectiveStart c b)

end EntriesInv

lemma EntriesInv.init {c : Chronos} {s : SysState} (h : (sysMachine c).init s) :
    EntriesInv c s.world s.now s.log := by
  obtain ⟨hfresh, hlog⟩ := h
  rw [hlog]
  refine ⟨?_, ?_, ?_, ?_, ?_, ?_, ?_⟩
  · intro id
    rw [hfresh.profiles]
    rfl
  · intro id key hkey
    rw [hfresh.keys] at hkey
    cases hkey
  · exact fun _ _ he => absurd he not_mem_nil
  · exact fun _ _ he => absurd he not_mem_nil
  · exact fun _ _ he => absurd he not_mem_nil
  · exact fun _ => .nil
  · exact fun _ _ _ he => absurd he not_mem_nil

@[simp] lemma feeEntries_claimEvents (record : Option Claimed) (id : ℕ) :
    feeEntries (Op.claimEvents record) id = [] := by
  cases record <;> rfl

section

variable {c : Chronos} {b : Block} {w w' : World} {now : ℕ} {log events : List Event}

lemma Effect.entries {op : Op} (h : Effect c b w op w' events) (hnow : now ≤ b.timestamp)
    (hentries : EntriesInv c w now log) : EntriesInv c w' b.timestamp (log ++ events) := by
  cases h with
  | environment | addTier | deactivateTier | depositTokens | requestFee | finalizeFee
  | cancelFee => exact hentries.quiet hnow rfl rfl hentries.keys fun _ => rfl
  | @setAdminKey sender id key on hadmin =>
    refine hentries.quiet hnow rfl rfl ?_ fun _ => rfl
    intro id' key' hkey
    simp only [store₂] at hkey
    split at hkey
    next hboth =>
      rw [hboth.1]
      exact hentries.keys id sender hadmin
    next => exact hentries.keys id' key' hkey
  | createProfile => exact hentries.createProfile hnow _ _
  | updateOperatorFee hadmin => exact hentries.updateOperatorFee hnow hadmin _ _
  | submitProof hproved =>
    exact hentries.quiet hnow hproved.profiles hproved.identities.1
      (by rw [hproved.identities.2]; exact hentries.keys) fun _ => rfl
  | createConviction hcreated _ | migrateV8 _ hcreated _ =>
    exact hentries.quiet hnow hcreated.profiles hcreated.identities.1
      (by rw [hcreated.identities.2]; exact hentries.keys) fun _ => rfl
  | relock hrelocked =>
    exact hentries.quiet hnow hrelocked.profiles hrelocked.identities.1
      (by rw [hrelocked.identities.2]; exact hentries.keys) fun _ => rfl
  | redelegate hmoved =>
    exact hentries.quiet hnow hmoved.profiles hmoved.identities.1
      (by rw [hmoved.identities.2]; exact hentries.keys) fun _ => rfl
  | claim hclaim =>
    cases hclaim with
    | nothing | window => exact hentries.quiet hnow rfl rfl hentries.keys fun _ => rfl
  | withdraw hout =>
    exact hentries.quiet hnow hout.profiles hout.identities.1
      (by rw [hout.identities.2]; exact hentries.keys) fun _ => feeEntries_claimEvents _ _

/-! ## The entry a claim uses -/

def Claimed.Uses (record : Claimed) (entry : OperatorFee) : Prop :=
  ∀ line ∈ record.lines, ∀ sp, line.split = some sp → sp.entry = entry

lemma SplitEffect.entry {css css' : ConvictionStakingStorage} {id : ℕ} {line : ClaimLine}
    (h : SplitEffect w css id line css') {sp : FeeSplit} (hsp : line.split = some sp) :
    sp.entry = w.profiles.getLatestOperatorFee id := by
  cases h with
  | taken pool sp' _ hsplit _ _ hentry _ _ _ _ =>
    rw [hsplit] at hsp
    cases hsp
    exact hentry
  | before _ hsplit _ | unscored _ hsplit _ _ =>
    rw [hsplit] at hsp
    cases hsp

/-- A claim splits with the latest entry of its node. -/
lemma ClaimEffect.uses {tok : ℕ} {record : Claimed} (h : ClaimEffect c b w tok w' (some record)) :
    record.Uses (w.profiles.getLatestOperatorFee record.identityId) := by
  cases h with
  | @window earned st css table rss pos hpos hid hcur hwin hearned hrss hloop hcomp =>
    refine World.claimLoop_induct (P := fun _ st => ∀ line ∈ st.lines, ∀ sp,
      line.split = some sp → sp.entry = w.profiles.getLatestOperatorFee pos.identityId)
      _ ?_ ?_ hloop
    · rintro x st₁ st₂ - - huses hepoch
      rcases World.claimEpoch_ok hepoch with ⟨rfl, -⟩ | ⟨line, hline⟩
      · exact huses
      · rw [hline.lines]
        exact forall_mem_append.mpr ⟨huses, forall_mem_singleton.mpr fun _ => hline.split.entry⟩
    · exact fun _ hl => absurd hl not_mem_nil

/-- A transaction claims once at most, and what it claims uses the latest entry. -/
lemma Effect.uses {op : Op} (h : Effect c b w op w' events) :
    (∀ r, .claimed r ∉ events) ∨
      ∃ r, events = [.claimed r] ∧ r.Uses (w.profiles.getLatestOperatorFee r.identityId) := by
  have hrecord : ∀ {tok : ℕ} {w₁ : World} {record : Option Claimed},
      ClaimEffect c b w tok w₁ record → (∀ r, Event.claimed r ∉ Op.claimEvents record) ∨
        ∃ r, Op.claimEvents record = [.claimed r] ∧
          r.Uses (w.profiles.getLatestOperatorFee r.identityId) := by
    intro tok w₁ record hclaim
    cases record with
    | none => exact .inl fun _ hr => absurd hr not_mem_nil
    | some r => exact .inr ⟨r, rfl, hclaim.uses⟩
  cases h with
  | claim hclaim => exact hrecord hclaim
  | withdraw hout =>
    obtain ⟨w₁, hclaim, -⟩ := hout.claim
    exact hrecord hclaim
  | _ => exact .inl (by simp)

end

/-- The entries of a log, and every claim in it used the last entry made before it. -/
structure FeeLogInv (c : Chronos) (s : SysState) : Prop where
  entries : EntriesInv c s.world s.now s.log
  uses : ∀ pre post r, s.log = pre ++ .claimed r :: post → r.Uses (latestEntry pre r.identityId)

lemma FeeLogInv.step {c : Chronos} {s s' : SysState} {l : Block × Op} (h : FeeLogInv c s)
    (hstep : sysStep c s l s') : FeeLogInv c s' := by
  obtain ⟨hnow, hnow', -, events, hrun, hlog⟩ := hstep
  have heff := Op.run_effect hrun
  refine ⟨?_, ?_⟩
  · rw [hnow', hlog]
    exact heff.entries hnow h.entries
  · intro pre post r hsplit
    rw [hlog] at hsplit
    -- the claim was in the log before, or it is the event of this transaction
    rcases heff.uses with hnone | ⟨r', rfl, huses⟩
    · rcases append_eq_append_iff.mp hsplit with ⟨mid, rfl, hevents⟩ | ⟨mid, hpre, hpost⟩
      · refine absurd ?_ (hnone r)
        rw [hevents]
        exact mem_append_right mid mem_cons_self
      · cases mid with
        | nil =>
          refine absurd ?_ (hnone r)
          rw [← nil_append events, ← hpost]
          exact mem_cons_self
        | cons m mid =>
          obtain ⟨rfl, -⟩ := List.cons.inj hpost
          exact h.uses pre mid r hpre
    · rcases eq_nil_or_concat post with rfl | ⟨post', last, rfl⟩
      · obtain ⟨rfl, hone⟩ := append_inj' hsplit rfl
        cases hone
        rw [← h.entries.latest]
        exact huses
      · rw [concat_eq_append, ← cons_append, ← append_assoc] at hsplit
        obtain ⟨hold, -⟩ := append_inj' hsplit rfl
        exact h.uses pre post' r hold

lemma SysState.feeLog {c : Chronos} {s : SysState} (hr : (sysMachine c).Reachable s) :
    FeeLogInv c s := by
  refine hr.invariant (P := FeeLogInv c) ?_ fun _ _ _ h hstep => h.step hstep
  intro s hinit
  refine ⟨EntriesInv.init hinit, fun pre post r hsplit => ?_⟩
  rw [hinit.2] at hsplit
  cases pre <;> cases hsplit

lemma effectiveDate_le_latest {pre : List Event} {id : ℕ}
    (hordered : (feeEntries pre id).Pairwise fun e e' => e.effectiveDate ≤ e'.effectiveDate)
    {entry : OperatorFee} (hmem : entry ∈ feeEntries pre id) :
    entry.effectiveDate ≤ (latestEntry pre id).effectiveDate := by
  unfold latestEntry
  rcases eq_nil_or_concat (feeEntries pre id) with hnil | ⟨L, e, hlist⟩
  · rw [hnil] at hmem
    cases hmem
  · rw [hlist, concat_eq_append] at hordered hmem ⊢
    rw [getLast?_append]
    rcases mem_append.mp hmem with hmem | hmem
    · exact (pairwise_append.mp hordered).2.2 entry hmem e (mem_singleton.mpr rfl)
    · rw [mem_singleton.mp hmem]
      exact le_rfl

/-- **The operator fee in force.** In every run and for every claim in it: an epoch the claim
splits uses the initial fee or an entry that took effect by the start of the epoch, if and only if
every fee change made before the claim took effect by then. -/
theorem split_uses_fee_in_force (c : Chronos) {s : SysState} (hr : (sysMachine c).Reachable s)
    {pre post : List Event} {r : Claimed} (hlog : s.log = pre ++ .claimed r :: post)
    {line : ClaimLine} (hline : line ∈ r.lines) {sp : FeeSplit} (hsp : line.split = some sp) :
    (.profileCreated r.identityId sp.entry ∈ pre ∨
        sp.entry.effectiveDate ≤ c.timestampForEpoch line.epoch) ↔
      ∀ entry, .feeUpdated r.identityId entry ∈ pre →
        entry.effectiveDate ≤ c.timestampForEpoch line.epoch := by
  have hinv := SysState.feeLog hr
  have hused := hinv.uses pre post r hlog line hline sp hsp
  have hsub : ∀ {event}, event ∈ pre → event ∈ s.log := by
    intro event hmem
    rw [hlog]
    exact mem_append_left _ hmem
  have hordered : (feeEntries pre r.identityId).Pairwise
      fun e e' => e.effectiveDate ≤ e'.effectiveDate := by
    have := hinv.entries.ordered r.identityId
    rw [hlog, feeEntries_append] at this
    exact (pairwise_append.mp this).1
  have hlatest : ∀ entry, .feeUpdated r.identityId entry ∈ pre →
      entry.effectiveDate ≤ sp.entry.effectiveDate := by
    intro entry hmem
    rw [hused]
    exact effectiveDate_le_latest hordered (mem_feeEntries.mpr (.inr hmem))
  constructor
  · rintro (hinitial | hdate) entry hmem
    · -- a change would have come after the initial entry, which is the last one
      have hlt := hinv.entries.changed _ _ _ (hsub hinitial) (hsub hmem)
      have := hlatest entry hmem
      omega
    · exact (hlatest entry hmem).trans hdate
  · intro hall
    by_cases hnil : feeEntries pre r.identityId = []
    · right
      rw [hused, latestEntry, hnil]
      exact Nat.zero_le _
    · have hmem : sp.entry ∈ feeEntries pre r.identityId := by
        rw [hused, latestEntry, getLast?_eq_some_getLast hnil]
        exact getLast_mem hnil
      rcases mem_feeEntries.mp hmem with hinitial | hchange
      · exact .inl hinitial
      · exact .inr (hall _ hchange)

/-- A change made in epoch `1` takes effect with epoch `2`, whose reward it splits. -/
theorem split_uses_fee_in_force_next_epoch :
    ∃ s, (sysMachine hourlyChronos).Reachable s ∧ ∃ pre post r line sp,
      s.log = pre ++ .claimed r :: post ∧ line ∈ r.lines ∧ line.split = some sp ∧
      line.epoch = 2 ∧ sp.entry = ⟨5000, 4600⟩ ∧
      (.profileCreated r.identityId sp.entry ∈ pre ∨
        sp.entry.effectiveDate ≤ hourlyChronos.timestampForEpoch line.epoch) := by
  obtain ⟨s, hr, htest⟩ := exists_reachable
    [(1001, .createProfile 9 1000),
     (1001, .updateOperatorFee 9 1 5000),
     (1002, .createConviction 7 1 100 0),
     (4700, .depositTokens 7 2 2 1000),
     (4700, .submitProof 1 0),
     (8300, .claim 7 1)]
    (fun s => decide (s.log = [.profileCreated 1 ⟨1000, 1001⟩, .feeUpdated 1 ⟨5000, 4600⟩,
      .deposited ⟨1, 2, 2, 1000, 0⟩, .claimed ⟨1, 1, 1, 2, [⟨2, 632455532033675, 632455532033675,
        500, 500, some ⟨⟨5000, 4600⟩, 1000, 500, 500⟩⟩]⟩]))
    (by decide +kernel)
  have hlog : s.log = [.profileCreated 1 ⟨1000, 1001⟩, .feeUpdated 1 ⟨5000, 4600⟩,
      .deposited ⟨1, 2, 2, 1000, 0⟩] ++ .claimed _ :: [] := of_decide_eq_true htest
  refine ⟨s, hr, _, _, _, _, _, hlog, mem_singleton.mpr rfl, rfl, rfl, rfl, ?_⟩
  refine (split_uses_fee_in_force hourlyChronos hr hlog (mem_singleton.mpr rfl) rfl).mpr
    fun change hmem => ?_
  have hchange : change = ⟨5000, 4600⟩ := by simpa using hmem
  rw [hchange]
  decide

/-- The same change, when the reward of epoch `1` is claimed after it: the epoch is split with the
new percentage, which no entry in force by its start has. -/
theorem fee_change_splits_earlier_epoch :
    ∃ s, (sysMachine hourlyChronos).Reachable s ∧ ∃ a ∈ linesOf s.log, ∃ sp,
      a.2.split = some sp ∧ ¬ ∃ entry ∈ feeEntries s.log a.1,
        entry.feePercentage = sp.entry.feePercentage ∧
        (.profileCreated a.1 entry ∈ s.log ∨
          entry.effectiveDate ≤ hourlyChronos.timestampForEpoch a.2.epoch) := by
  obtain ⟨s, hr, htest⟩ := exists_reachable
    (stakedSteps.append [(1004, .updateOperatorFee 9 1 5000),
     (4700, .claim 7 1)])
    (fun s => decide (∃ a ∈ linesOf s.log, a.2.split.map (fun sp => sp.entry.feePercentage) =
        some 5000 ∧ ¬ ∃ entry ∈ feeEntries s.log a.1, entry.feePercentage = 5000 ∧
          (.profileCreated a.1 entry ∈ s.log ∨
            entry.effectiveDate ≤ hourlyChronos.timestampForEpoch a.2.epoch)))
    (by decide +kernel)
  obtain ⟨a, ha, hmap, hnone⟩ := of_decide_eq_true htest
  obtain ⟨sp, hsp, hpct⟩ := Option.map_eq_some_iff.mp hmap
  refine ⟨s, hr, a, ha, sp, hsp, ?_⟩
  rw [hpct]
  exact hnone

end Dkg
