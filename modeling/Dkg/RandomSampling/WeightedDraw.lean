import Dkg.RandomSampling.ProofPeriods

/-! # The weighted draw of a challenge

`_pickWeightedChallenge` walks the context graphs twice. A residue that the first walk counts for a
context graph is one at which the second walk stops there (`pick_residues`).
-/

namespace Dkg.RandomSampling

open Lib

variable (h : SamplingHash) (env : SamplingEnv) (x : ℕ)

/-- The residue `r` of the total stands for the context graph. -/
def Chooses (r cgId : ℕ) : Prop := pickLoop env x r env.getLatestContextGraphId 1 0 = .ok cgId

/-- A context graph that is active and not curated. -/
def Eligible (cgId : ℕ) : Prop :=
  1 ≤ cgId ∧ cgId ≤ env.getLatestContextGraphId ∧ isCGEligible env cgId = true

variable {h env x} {r k i acc total cgId seed a : ℕ} {kcs : List ℕ}

/-- One round of the first walk: what it adds, and what the second walk does there. -/
lemma totalLoop_succ (htotal : totalLoop env x (k + 1) i acc = .ok total) : ∃ weight,
    (isCGEligible env i = true → env.getCGValueAtEpoch i x = .ok weight) ∧
    (isCGEligible env i = false → weight = 0) ∧
    totalLoop env x k (i + 1) (acc + weight) = .ok total ∧
    ∀ r, acc ≤ r → pickLoop env x r (k + 1) i acc =
      if r < acc + weight then .ok i else pickLoop env x r k (i + 1) (acc + weight) := by
  unfold totalLoop at htotal
  split at htotal
  next heligible =>
    obtain ⟨value, hvalue, sum, hsum, htotal⟩ := of_bind₂ htotal
    obtain ⟨-, rfl⟩ := addUint_eq_ok.mp hsum
    refine ⟨value, fun _ => hvalue, fun hno => ?_, htotal, fun r _ => ?_⟩
    · rw [heligible] at hno
      cases hno
    · rw [pickLoop, if_pos heligible, hvalue]
      show (addUint 256 acc value >>= _) = _
      rw [hsum]
      rfl
  next hineligible =>
    refine ⟨0, fun hyes => absurd hyes hineligible, fun _ => rfl, htotal, fun r hr => ?_⟩
    rw [pickLoop, if_neg hineligible, Nat.add_zero]
    exact (if_neg (Nat.not_lt.mpr hr)).symm

lemma le_of_totalLoop (htotal : totalLoop env x k i acc = .ok total) : acc ≤ total := by
  induction k generalizing i acc with
  | zero => exact (of_pure htotal).le
  | succ k ih =>
    obtain ⟨weight, -, -, hrest, -⟩ := totalLoop_succ htotal
    exact (Nat.le_add_right _ _).trans (ih hrest)

/-- Below the total, the second walk stops at an eligible context graph. -/
lemma exists_pick (htotal : totalLoop env x k i acc = .ok total) (hr : acc ≤ r) (hlt : r < total) :
    ∃ cgId, pickLoop env x r k i acc = .ok cgId ∧ i ≤ cgId ∧ cgId < i + k ∧
      isCGEligible env cgId = true := by
  induction k generalizing i acc with
  | zero =>
    have hend : acc = total := of_pure htotal
    omega
  | succ k ih =>
    obtain ⟨weight, -, hzero, hrest, hpick⟩ := totalLoop_succ htotal
    rw [hpick r hr]
    split
    next hhere =>
      refine ⟨i, rfl, le_rfl, by omega, ?_⟩
      by_contra hno
      have hnone := hzero (Bool.eq_false_iff.mpr hno)
      omega
    next hlater =>
      obtain ⟨cgId, hpicked, hfirst, hlast, heligible⟩ := ih hrest (Nat.le_of_not_lt hlater)
      exact ⟨cgId, hpicked, by omega, by omega, heligible⟩

/-- The residues at which the second walk stops at a context graph follow each other. -/
lemma pick_residues (htotal : totalLoop env x k i acc = .ok total) (hfirst : i ≤ cgId)
    (hlast : cgId < i + k) (heligible : isCGEligible env cgId = true) : ∃ start value,
    env.getCGValueAtEpoch cgId x = .ok value ∧ acc ≤ start ∧ start + value ≤ total ∧
    ∀ r, acc ≤ r → r < total →
      (pickLoop env x r k i acc = .ok cgId ↔ start ≤ r ∧ r < start + value) := by
  induction k generalizing i acc with
  | zero => omega
  | succ k ih =>
    obtain ⟨weight, hvalue, -, hrest, hpick⟩ := totalLoop_succ htotal
    by_cases hcg : cgId = i
    · subst hcg
      refine ⟨acc, weight, hvalue heligible, le_rfl, le_of_totalLoop hrest, fun r hr hlt => ?_⟩
      rw [hpick r hr]
      split
      next hhere => exact iff_of_true rfl ⟨hr, hhere⟩
      next hbehind =>
        refine iff_of_false (fun heq => ?_) (by omega)
        obtain ⟨later, hlater, hle, -⟩ := exists_pick hrest (Nat.le_of_not_lt hbehind) hlt
        rw [hlater] at heq
        cases heq
        omega
    · obtain ⟨start, value, hread, hle, hend, hiff⟩ := ih hrest (by omega) (by omega)
      refine ⟨start, value, hread, by omega, hend, fun r hr hlt => ?_⟩
      rw [hpick r hr]
      split
      next hhere =>
        refine iff_of_false (fun heq => ?_) (by omega)
        cases heq
        exact hcg rfl
      next hbehind => exact hiff r (Nat.le_of_not_lt hbehind) hlt

/-- A collection that the attempts come back with is one of the context graph's and not expired. -/
lemma retryLoop_live (hlength : kcs.length ≠ 0) (hne : (retryLoop h env x kcs k a seed).1 ≠ 0) :
    (retryLoop h env x kcs k a seed).1 ∈ kcs ∧
      x ≤ env.getEndEpoch (retryLoop h env x kcs k a seed).1 := by
  induction k generalizing a seed with
  | zero => exact absurd rfl hne
  | succ k ih =>
    simp only [retryLoop] at hne ⊢
    split at hne
    next hlive =>
      rw [if_pos hlive]
      refine ⟨?_, hlive⟩
      rw [List.getD_eq_getElem?_getD,
        List.getElem?_eq_getElem (Nat.mod_lt _ (Nat.pos_of_ne_zero hlength))]
      exact List.getElem_mem _
    next hexpired =>
      rw [if_neg hexpired]
      exact ih hne

/-- **The draw is exact.** Each eligible context graph is chosen by as many residues of the total as
it has value, and every residue chooses one that is eligible and has a value. What a draw returns is
a leaf of an unexpired collection of the context graph that the residue of the seed chooses. -/
theorem weighted_draw_exact (htotal : totalLoop env x env.getLatestContextGraphId 1 0 = .ok total) :
    (∀ cgId, Eligible env cgId → ∃ start value, env.getCGValueAtEpoch cgId x = .ok value ∧
      start + value ≤ total ∧ ∀ r < total, Chooses env x r cgId ↔ start ≤ r ∧ r < start + value) ∧
    (∀ r < total, ∃ cgId value, Chooses env x r cgId ∧ Eligible env cgId ∧
      env.getCGValueAtEpoch cgId x = .ok value ∧ 0 < value) ∧
    ∀ h seed cgId kcId chunkId, _pickWeightedChallenge h env seed x = .ok (cgId, kcId, chunkId) →
      Chooses env x (seed % total) cgId ∧ kcId ∈ env.contextGraphKCList cgId ∧
      x ≤ env.getEndEpoch kcId ∧ chunkId < env.getMerkleLeafCount kcId := by
  refine ⟨?_, ?_, ?_⟩
  · rintro cgId ⟨hfirst, hlast, heligible⟩
    obtain ⟨start, value, hvalue, -, hend, hiff⟩ :=
      pick_residues htotal hfirst (by omega) heligible
    exact ⟨start, value, hvalue, hend, fun r hr => hiff r (Nat.zero_le r) hr⟩
  · intro r hr
    obtain ⟨cgId, hpick, hfirst, hlast, heligible⟩ := exists_pick htotal (Nat.zero_le r) hr
    obtain ⟨start, value, hvalue, -, -, hiff⟩ := pick_residues htotal hfirst hlast heligible
    have hmem := (hiff r (Nat.zero_le r) hr).mp hpick
    exact ⟨cgId, value, hpick, ⟨hfirst, by omega, heligible⟩, hvalue, by omega⟩
  · intro h seed cgId kcId chunkId hrun
    unfold _pickWeightedChallenge at hrun
    obtain ⟨total', htotal', _, -, cg, hpick, hrun⟩ := of_bind₃ hrun
    rw [htotal] at htotal'
    cases htotal'
    obtain ⟨_, -, _, hlength, _, hkc, hrun⟩ := of_bind₃ hrun
    obtain ⟨_, hleaves, hend⟩ := of_bind hrun
    cases of_pure hend
    obtain ⟨hmem, hlive⟩ := retryLoop_live (require_eq_ok.mp hlength) (require_eq_ok.mp hkc)
    exact ⟨hpick, hmem, hlive, Nat.mod_lt _ (Nat.pos_of_ne_zero (require_eq_ok.mp hleaves))⟩

/-- Two public context graphs with the values `2` and `4`, and a curated one between them. -/
def threeGraphs : SamplingEnv := { samplingEnv with
  getLatestContextGraphId := 3
  getIsCurated := fun i => i = 2
  getCGValueAtEpoch := fun i _ => pure (i + 1) }

/-- Graph `3` is drawn by four of the six points. -/
theorem weighted_draw_exact_three : ∃ start value, threeGraphs.getCGValueAtEpoch 3 1 = .ok value ∧
    start + value ≤ 6 ∧ ∀ r < 6, Chooses threeGraphs 1 r 3 ↔ start ≤ r ∧ r < start + value := by
  have htotal : totalLoop threeGraphs 1 threeGraphs.getLatestContextGraphId 1 0 = .ok 6 := rfl
  exact (weighted_draw_exact htotal).1 3 ⟨by decide, by decide, rfl⟩

end Dkg.RandomSampling
