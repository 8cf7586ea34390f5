import Dkg.Chronos
import Dkg.Lib.Checkpoints
import Dkg.RandomSampling.Storage

/-! # The score-per-stake index of a node's epoch

The index grows with every proof and keeps a checkpoint for every second with one. `IndexOk` is
what it looks like at the time `now`; reading it at a timestamp then gives the score per stake that
had been reached by that time.
-/

namespace Dkg

open Lib List

section

variable {ei ei' : EpochIndex} {ts value : ℕ}

lemma EpochIndex.find_eq (h : ei.mid.Pairwise fun x y => x.timestamp < y.timestamp) (t : ℕ) :
    ei.findScorePerStakeAt t =
      valueAt Checkpoint.timestamp Checkpoint.scorePerStake36 ei.mid t := by
  rw [← search_eq_valueAt h ⟨0, 0⟩ t]
  unfold EpochIndex.findScorePerStakeAt
  by_cases hzero : ei.mid.length = 0
  · simp [hzero, searchEnd]
  · simp only [hzero, if_false]

section

variable (hrun : ei._upsertCheckpoint ts value = .ok ei')
    (h : ei.mid.Pairwise fun x y => x.timestamp < y.timestamp)

include hrun h

/-- The new checkpoint comes behind those before its second. -/
lemma EpochIndex.upsert_ok
    : ∃ kept : List Checkpoint, (∀ x ∈ kept, x.timestamp < ts) ∧ kept.Sublist ei.mid ∧
      (∀ t < ts, valueAt Checkpoint.timestamp Checkpoint.scorePerStake36 kept t
        = valueAt Checkpoint.timestamp Checkpoint.scorePerStake36 ei.mid t) ∧
      ei' = { ei with mid := kept ++ [⟨ts, value⟩] } := by
  unfold EpochIndex._upsertCheckpoint at hrun
  obtain ⟨_, -, hrun⟩ := of_bind hrun
  rcases eq_nil_or_concat' ei.mid with hmid | ⟨l, tail, hmid⟩
  · simp only [hmid, getLast?_nil] at hrun
    rw [pure_eq_ok] at hrun
    refine ⟨[], by simp, by simp, by simp [hmid], ?_⟩
    rw [← hrun]
  · rw [hmid] at h
    obtain ⟨-, -, hlast⟩ := pairwise_append.mp h
    simp only [hmid, getLast?_append, getLast?_singleton, Option.some_or] at hrun
    obtain ⟨hle, hrun⟩ := of_require hrun
    by_cases hsame : tail.timestamp = ts
    · rw [if_pos hsame, pure_eq_ok] at hrun
      refine ⟨l, fun x hx => ?_, by rw [hmid]; exact sublist_append_left _ _, ?_, ?_⟩
      · have := hlast x hx tail (mem_singleton.mpr rfl)
        omega
      · intro t ht
        rw [hmid, valueAt_concat, if_neg (by omega)]
      · rw [← hrun]
        simp
    · rw [if_neg hsame, pure_eq_ok] at hrun
      refine ⟨ei.mid, fun x hx => ?_, List.Sublist.refl _, fun _ _ => rfl, ?_⟩
      · rw [hmid] at hx
        rcases mem_append.mp hx with hx | hx
        · have := hlast x hx tail (mem_singleton.mpr rfl)
          omega
        · obtain rfl := mem_singleton.mp hx
          omega
      · rw [← hrun, hmid]

/-- The index stays ordered, and is read as before up to the new checkpoint. -/
lemma EpochIndex.upsert_reads : ei'.mid.Pairwise (fun x y => x.timestamp < y.timestamp) ∧
      ∀ t, valueAt Checkpoint.timestamp Checkpoint.scorePerStake36 ei'.mid t = if ts ≤ t then value
        else valueAt Checkpoint.timestamp Checkpoint.scorePerStake36 ei.mid t := by
  obtain ⟨kept, hkept, hsub, hread, rfl⟩ := upsert_ok hrun h
  refine ⟨pairwise_append.mpr ⟨h.sublist hsub, pairwise_singleton _ _, fun x hx y hy => ?_⟩,
    fun t => ?_⟩
  · rw [mem_singleton.mp hy]
    exact hkept x hx
  · rw [valueAt_concat]
    by_cases ht : ts ≤ t
    · rw [if_pos ht, if_pos ht]
    · rw [if_neg ht, if_neg ht, hread t (by omega)]

end

/-- No checkpoint is later, and the value is one of 216 bits. -/
lemma EpochIndex.exists_upsert (hvalue : value ≤ 2 ^ 216 - 1)
    (hpast : ∀ x ∈ ei.mid, x.timestamp ≤ ts) : ∃ ei', ei._upsertCheckpoint ts value = .ok ei' := by
  unfold EpochIndex._upsertCheckpoint
  rw [require_pos hvalue]
  cases hlast : ei.mid.getLast? with
  | none => exact ⟨_, rfl⟩
  | some tail =>
    simp only [require_pos (hpast tail (mem_of_getLast? hlast))]
    by_cases hsame : tail.timestamp = ts
    · exact ⟨_, if_pos hsame⟩
    · exact ⟨_, if_neg hsame⟩

end

/-- The index of the epoch `e`, at the time `now`. -/
structure IndexOk (c : Chronos) (e now : ℕ) (ei : EpochIndex) : Prop where
  ordered : ei.mid.Pairwise fun x y => x.timestamp < y.timestamp
  times : ∀ x ∈ ei.mid, c.epochAtTimestamp x.timestamp = e ∧ x.timestamp ≤ now
  bounded : ∀ x ∈ ei.mid, x.scorePerStake36 ≤ ei.lastScorePerStake36
  last : ei.lastScorePerStake36 = lastValue Checkpoint.scorePerStake36 ei.mid

namespace IndexOk

variable {c : Chronos} {e now : ℕ} {ei ei' : EpochIndex}

lemma empty (c : Chronos) (e now : ℕ) : IndexOk c e now ⟨0, []⟩ where
  ordered := .nil
  times := fun _ hx => absurd hx not_mem_nil
  bounded := fun _ hx => absurd hx not_mem_nil
  last := rfl

variable (h : IndexOk c e now ei)

include h

lemma mono {now' : ℕ} (hle : now ≤ now') : IndexOk c e now' ei :=
  ⟨h.ordered, fun x hx => ⟨(h.times x hx).1, (h.times x hx).2.trans hle⟩, h.bounded, h.last⟩

lemma find_eq (t : ℕ) : ei.findScorePerStakeAt t
    = valueAt Checkpoint.timestamp Checkpoint.scorePerStake36 ei.mid t :=
  EpochIndex.find_eq h.ordered t

lemma find_le (t : ℕ) : ei.findScorePerStakeAt t ≤ ei.lastScorePerStake36 := by
  rw [h.find_eq]
  exact valueAt_le h.bounded t

/-- A read at a time when all checkpoints have passed. -/
lemma find_of_le {t : ℕ} (ht : now ≤ t) : ei.findScorePerStakeAt t = ei.lastScorePerStake36 := by
  rw [h.find_eq, h.last]
  exact valueAt_of_le fun x hx => (h.times x hx).2.trans ht

lemma find_later {t : ℕ} (ht : e < c.epochAtTimestamp t) :
    ei.findScorePerStakeAt t = ei.lastScorePerStake36 := by
  rw [h.find_eq, h.last]
  refine valueAt_of_le fun x hx => (c.lt_of_epochAtTimestamp_lt ?_).le
  rw [(h.times x hx).1]
  exact ht

lemma future (he : c.epochAtTimestamp now < e) : ei.lastScorePerStake36 = 0 := by
  have hnone : ei.mid = [] := by
    refine eq_nil_iff_forall_not_mem.mpr fun x hx => ?_
    obtain ⟨hepoch, hle⟩ := h.times x hx
    have := c.epochAtTimestamp_mono hle
    omega
  rw [h.last, hnone]
  rfl

/-- **A proof.** The index grows by `δ`, for all reads from its time on. -/
lemma upsert {ts δ : ℕ} (hepoch : c.epochAtTimestamp ts = e) (hrun : EpochIndex._upsertCheckpoint
      { ei with lastScorePerStake36 := ei.lastScorePerStake36 + δ } ts
      (ei.lastScorePerStake36 + δ) = .ok ei') :
    IndexOk c e ts ei' ∧ ei'.lastScorePerStake36 = ei.lastScorePerStake36 + δ ∧
      ∀ t, ei'.findScorePerStakeAt t
        = if ts ≤ t then ei.lastScorePerStake36 + δ else ei.findScorePerStakeAt t := by
  obtain ⟨kept, hkept, hsub, -, hei'⟩ := EpochIndex.upsert_ok hrun h.ordered
  obtain ⟨hordered, hreads⟩ := EpochIndex.upsert_reads hrun h.ordered
  subst hei'
  have hok : IndexOk c e ts ⟨ei.lastScorePerStake36 + δ,
      kept ++ [⟨ts, ei.lastScorePerStake36 + δ⟩]⟩ := by
    refine ⟨hordered, ?_, ?_, by simp⟩
    · refine forall_mem_append.mpr ⟨fun x hx => ?_, forall_mem_singleton.mpr ⟨hepoch, le_rfl⟩⟩
      exact ⟨(h.times x (hsub.subset hx)).1, (hkept x hx).le⟩
    · refine forall_mem_append.mpr ⟨fun x hx => ?_, forall_mem_singleton.mpr le_rfl⟩
      exact (h.bounded x (hsub.subset hx)).trans (Nat.le_add_right _ _)
  refine ⟨hok, rfl, fun t => ?_⟩
  rw [hok.find_eq, h.find_eq]
  exact hreads t

end IndexOk

/-! ## Calls of `appendCheckpoint` -/

namespace RandomSamplingStorage

variable {calls : List Checkpoint}

/-- The calls for one node and epoch, in this order. A call that reverts changes nothing. -/
def appendAll (identityId epoch : ℕ) (calls : List Checkpoint) : RandomSamplingStorage :=
  calls.foldl (fun r x =>
    (r.appendCheckpoint identityId epoch x.timestamp x.scorePerStake36).toOption.getD r) empty

/-- The calls that do not revert. -/
def accepted (calls : List Checkpoint) : List Checkpoint :=
  calls.filter fun x => x.scorePerStake36 ≤ 2 ^ 216 - 1

lemma accepted_concat (calls : List Checkpoint) (x : Checkpoint) : accepted (calls ++ [x]) =
    if x.scorePerStake36 ≤ 2 ^ 216 - 1 then accepted calls ++ [x] else accepted calls := by
  rw [accepted, filter_append, ← accepted, filter_singleton]
  by_cases hvalue : x.scorePerStake36 ≤ 2 ^ 216 - 1
  · simp only [hvalue, decide_true, if_true, Bool.cond_true]
  · simp only [hvalue, decide_false, if_false, Bool.cond_false, append_nil]

lemma appendAll_reads (identityId epoch : ℕ)
    (h : calls.Pairwise fun x y => x.timestamp ≤ y.timestamp) :
    let mid := ((appendAll identityId epoch calls).nodeEpochIndex identityId epoch).mid
    mid.Pairwise (fun x y => x.timestamp < y.timestamp) ∧
      (∀ x ∈ mid, ∃ y ∈ calls, x.timestamp = y.timestamp) ∧
      ∀ t, valueAt Checkpoint.timestamp Checkpoint.scorePerStake36 mid t =
        valueAt Checkpoint.timestamp Checkpoint.scorePerStake36 (accepted calls) t := by
  induction calls using List.reverseRecOn with
  | nil => exact ⟨.nil, fun _ hx => absurd hx not_mem_nil, fun _ => rfl⟩
  | append_singleton calls x ih =>
    obtain ⟨hcalls, -, hlast⟩ := pairwise_append.mp h
    obtain ⟨hordered, hpast, hreads⟩ := ih hcalls
    set r := appendAll identityId epoch calls
    have hrun : appendAll identityId epoch (calls ++ [x]) =
        (r.appendCheckpoint identityId epoch x.timestamp x.scorePerStake36).toOption.getD r :=
      foldl_concat ..
    by_cases hvalue : x.scorePerStake36 ≤ 2 ^ 216 - 1
    · have hlater : ∀ y ∈ (r.nodeEpochIndex identityId epoch).mid, y.timestamp ≤ x.timestamp := by
        intro y hy
        obtain ⟨z, hz, heq⟩ := hpast y hy
        exact heq.trans_le (hlast z hz x (mem_singleton.mpr rfl))
      obtain ⟨ei, hei⟩ : ∃ ei, EpochIndex._upsertCheckpoint
          { r.nodeEpochIndex identityId epoch with lastScorePerStake36 := x.scorePerStake36 }
          x.timestamp x.scorePerStake36 = .ok ei := EpochIndex.exists_upsert hvalue hlater
      have hindex : (appendAll identityId epoch (calls ++ [x])).nodeEpochIndex identityId epoch =
          ei := by
        rw [hrun, appendCheckpoint, require_pos hvalue, ok_bind, hei]
        simp [ok_bind, pure, Except.pure, Except.toOption, store₂]
      obtain ⟨kept, -, hsub, -, heq⟩ := EpochIndex.upsert_ok hei hordered
      obtain ⟨hordered', hreads'⟩ := EpochIndex.upsert_reads hei hordered
      rw [hindex]
      refine ⟨hordered', fun y hy => ?_, fun t => ?_⟩
      · rw [heq] at hy
        rcases mem_append.mp hy with hy | hy
        · obtain ⟨z, hz, heq⟩ := hpast y (hsub.subset hy)
          exact ⟨z, mem_append_left _ hz, heq⟩
        · exact ⟨x, by simp, congrArg _ (mem_singleton.mp hy)⟩
      · rw [hreads', accepted_concat, if_pos hvalue, valueAt_concat]
        exact congrArg _ (hreads t)
    · have hsame : appendAll identityId epoch (calls ++ [x]) = r := by
        rw [hrun, appendCheckpoint, require, if_neg hvalue]
        rfl
      rw [hsame]
      refine ⟨hordered, fun y hy => ?_, fun t => ?_⟩
      · obtain ⟨z, hz, heq⟩ := hpast y hy
        exact ⟨z, mem_append_left _ hz, heq⟩
      · rw [accepted_concat, if_neg hvalue]
        exact hreads t

/-- **Checkpoint search.** After calls in the order of time the checkpoints are strictly ordered,
and a read gives the value of the last one not after `ts`, which is that of the last call not after
`ts` that did not revert. -/
theorem checkpoint_search (identityId epoch : ℕ)
    (h : calls.Pairwise fun x y => x.timestamp ≤ y.timestamp) :
    (∀ front, front <+: calls →
      ((appendAll identityId epoch front).nodeEpochIndex identityId epoch).mid.Pairwise
        fun x y => x.timestamp < y.timestamp) ∧
    ∀ ts, (appendAll identityId epoch calls).findScorePerStakeAt identityId epoch ts =
        valueAt Checkpoint.timestamp Checkpoint.scorePerStake36
          ((appendAll identityId epoch calls).nodeEpochIndex identityId epoch).mid ts ∧
      (appendAll identityId epoch calls).findScorePerStakeAt identityId epoch ts =
        valueAt Checkpoint.timestamp Checkpoint.scorePerStake36 (accepted calls) ts := by
  refine ⟨fun front hfront => (appendAll_reads _ _ (h.sublist hfront.sublist)).1, fun ts => ?_⟩
  obtain ⟨hordered, -, hreads⟩ := appendAll_reads identityId epoch h
  have hfind := EpochIndex.find_eq hordered ts
  exact ⟨hfind, hfind.trans (hreads ts)⟩

/-- Two calls in one second and a later one. -/
theorem checkpoint_search_three :
    (appendAll 1 2 [⟨5, 10⟩, ⟨5, 20⟩, ⟨7, 30⟩]).findScorePerStakeAt 1 2 6 = 20 :=
  ((checkpoint_search 1 2 (by decide)).2 6).2

end RandomSamplingStorage

end Dkg
