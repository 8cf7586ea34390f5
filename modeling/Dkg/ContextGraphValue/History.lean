import Dkg.ContextGraphValue.Ledger

/-! # Runs of ContextGraphValueStorage

A history logs the `addCGValueForEpochRange` calls that were recorded. Both kinds of ledger
refine the values of that log, whatever was finalised and when, so what a read returns depends on
the log only.
-/

namespace Dkg

open Lib List Function

/-- One recorded `addCGValueForEpochRange` call. -/
structure CGAdd where
  (cgId startEpoch lifetime value : ℕ)

namespace CGAdd

/-- The call's contribution to epoch `x`. -/
def valueAt (a : CGAdd) (x : ℕ) : ℕ :=
  if a.startEpoch ≤ x ∧ x < a.startEpoch + a.lifetime then a.value / a.lifetime else 0

end CGAdd

/-- **The abstract value of a context graph**: the contributions of its recorded calls. -/
def cgValueOf (log : List CGAdd) (cgId x : ℕ) : ℕ :=
  (log.map (fun a => if a.cgId = cgId then a.valueAt x else 0)).sum

/-- The contributions of all recorded calls. -/
def totalValueOf (log : List CGAdd) (x : ℕ) : ℕ := (log.map (fun a => a.valueAt x)).sum

lemma cgValueOf_append (log : List CGAdd) (a : CGAdd) (cgId x : ℕ) :
    cgValueOf (log ++ [a]) cgId x
      = cgValueOf log cgId x + if a.cgId = cgId then a.valueAt x else 0 := by
  simp [cgValueOf]

lemma totalValueOf_append (log : List CGAdd) (a : CGAdd) (x : ℕ) :
    totalValueOf (log ++ [a]) x = totalValueOf log x + a.valueAt x := by
  simp [totalValueOf]

lemma totalValueOf_eq_sum (log : List CGAdd) (hlog : ∀ a ∈ log, a.cgId < 2 ^ 256) (x : ℕ) :
    totalValueOf log x = ∑ cgId ∈ Finset.range (2 ^ 256), cgValueOf log cgId x := by
  induction log with
  | nil => simp [totalValueOf, cgValueOf]
  | cons a log ih =>
    have ha : a.cgId ∈ Finset.range (2 ^ 256) := Finset.mem_range.mpr (hlog a mem_cons_self)
    have ih' := ih (fun a' h => hlog a' (mem_cons_of_mem a h))
    simp only [totalValueOf, cgValueOf, map_cons, sum_cons] at ih' ⊢
    rw [Finset.sum_add_distrib, ← ih', Finset.sum_ite_eq, if_pos ha]

/-! ## Histories -/

/-- The state-changing calls of `ContextGraphValueStorage`. -/
inductive CGValueCall
  | addCGValueForEpochRange (a : CGAdd)
  | finalizeCGValueUpTo (cgId epoch : ℕ)
  | finalizeGlobalValueUpTo (epoch : ℕ)

def CGValueCall.run (c : Chronos) (b : Block) (s : ContextGraphValueStorage) :
    CGValueCall → Tx ContextGraphValueStorage
  | .addCGValueForEpochRange a =>
    s.addCGValueForEpochRange c b a.cgId a.startEpoch a.lifetime a.value
  | .finalizeCGValueUpTo cgId epoch => s.finalizeCGValueUpTo c b cgId epoch
  | .finalizeGlobalValueUpTo epoch => s.finalizeGlobalValueUpTo c b epoch

def CGValueCall.recorded : CGValueCall → List CGAdd
  | .addCGValueForEpochRange a => [a]
  | .finalizeCGValueUpTo _ _ => []
  | .finalizeGlobalValueUpTo _ => []

/-- The storage, the timestamp of the last call, and the calls recorded so far. -/
structure CGValueHistory where
  store : ContextGraphValueStorage
  now : ℕ
  log : List CGAdd

/-- Successful calls, in the order of time; context graph ids are `uint256`. -/
def cgValueMachine (c : Chronos) : Machine CGValueHistory (Block × CGValueCall) where
  init h := h.store = ContextGraphValueStorage.empty ∧ h.log = []
  step h l h' := h.now ≤ l.1.timestamp ∧ h'.now = l.1.timestamp ∧
    l.2.run c l.1 h.store = .ok h'.store ∧ h'.log = h.log ++ l.2.recorded ∧
    ∀ a ∈ l.2.recorded, a.cgId < 2 ^ 256

/-- Both kinds of ledger represent the log, and only past epochs are crystallised. -/
structure ContextGraphValueStorage.Represents (s : ContextGraphValueStorage)
    (log : List CGAdd) (currentEpoch : ℕ) : Prop where
  cg : ∀ cgId, (s.cg cgId).Refines (cgValueOf log cgId)
  total : s.total.Refines (totalValueOf log)
  cg_past : ∀ cgId, (s.cg cgId).lastFinalizedEpoch < currentEpoch
  total_past : s.total.lastFinalizedEpoch < currentEpoch

namespace ContextGraphValueStorage.Represents

variable {s s' : ContextGraphValueStorage} {log : List CGAdd} {n n' : ℕ}

lemma mono (h : s.Represents log n) (hn : n ≤ n') : s.Represents log n' :=
  ⟨h.cg, h.total, fun cgId => lt_of_lt_of_le (h.cg_past cgId) hn, lt_of_lt_of_le h.total_past hn⟩

variable {epoch : ℕ} {r : Tx ContextGraphValueStorage} {c : Chronos} {b : Block}

lemma finalizeCG (h : s.Represents log n) (cgId : ℕ) (he : epoch < n) :
    (∃ s', s._finalizeCGValueUpTo cgId epoch = .ok s' ∧ s'.Represents log n) ∨
    s._finalizeCGValueUpTo cgId epoch = .error .panic := by
  rw [_finalizeCGValueUpTo]
  rcases (h.cg cgId).finalizeUpTo epoch with ⟨l', hrun, href, hlast⟩ | herr
  · rw [hrun]
    refine .inl ⟨_, rfl, ⟨fun i => ?_, h.total, fun i => ?_, h.total_past⟩⟩
    · by_cases hi : i = cgId
      · subst hi
        simp only [update_self]
        exact href
      · simp only [update_of_ne hi]
        exact h.cg i
    · by_cases hi : i = cgId
      · subst hi
        simp only [update_self]
        have := h.cg_past i
        omega
      · simp only [update_of_ne hi]
        exact h.cg_past i
  · rw [herr]
    exact .inr rfl

lemma finalizeGlobal (h : s.Represents log n) (he : epoch < n) :
    (∃ s', s._finalizeGlobalValueUpTo epoch = .ok s' ∧ s'.Represents log n) ∨
    s._finalizeGlobalValueUpTo epoch = .error .panic := by
  rw [_finalizeGlobalValueUpTo]
  rcases h.total.finalizeUpTo epoch with ⟨l', hrun, href, hlast⟩ | herr
  · rw [hrun]
    refine .inl ⟨_, rfl, ⟨h.cg, href, h.cg_past, ?_⟩⟩
    have := h.total_past
    show l'.lastFinalizedEpoch < n
    omega
  · rw [herr]
    exact .inr rfl

/-- The diff writes of a recorded call, on both ledgers. -/
lemma addDiff (h : s.Represents log n) {a : CGAdd} (hstart : n ≤ a.startEpoch)
    (hlife : 0 < a.lifetime) {cg total : ValueLedger}
    (hcg : (s.cg a.cgId).addDiff a.startEpoch a.lifetime ((a.value / a.lifetime : ℕ) : ℤ)
      = .ok cg) (htotal : s.total.addDiff a.startEpoch a.lifetime ((a.value / a.lifetime : ℕ) : ℤ)
      = .ok total) :
    ContextGraphValueStorage.Represents
      { cg := Function.update s.cg a.cgId cg, total := total } (log ++ [a]) n := by
  obtain ⟨hrefc, hlastc⟩ := (h.cg a.cgId).addDiff
    (lt_of_lt_of_le (h.cg_past a.cgId) hstart) hlife hcg
  obtain ⟨hreft, hlastt⟩ := h.total.addDiff (lt_of_lt_of_le h.total_past hstart) hlife htotal
  refine ⟨fun i => ?_, ?_, fun i => ?_, ?_⟩
  · by_cases hi : i = a.cgId
    · subst hi
      simp only [update_self]
      have heq : cgValueOf (log ++ [a]) a.cgId = fun x => cgValueOf log a.cgId x +
          if a.startEpoch ≤ x ∧ x < a.startEpoch + a.lifetime then a.value / a.lifetime
          else 0 := by
        funext x
        rw [cgValueOf_append, if_pos rfl, CGAdd.valueAt]
      rw [heq]
      exact hrefc
    · simp only [update_of_ne hi]
      have heq : cgValueOf (log ++ [a]) i = cgValueOf log i := by
        funext x
        rw [cgValueOf_append, if_neg (Ne.symm hi), Nat.add_zero]
      rw [heq]
      exact h.cg i
  · have heq : totalValueOf (log ++ [a]) = fun x => totalValueOf log x +
        if a.startEpoch ≤ x ∧ x < a.startEpoch + a.lifetime then a.value / a.lifetime
        else 0 := by
      funext x
      rw [totalValueOf_append, CGAdd.valueAt]
    rw [heq]
    exact hreft
  · by_cases hi : i = a.cgId
    · subst hi
      simp only [update_self]
      rw [hlastc]
      exact h.cg_past a.cgId
    · simp only [update_of_ne hi]
      exact h.cg_past i
  · show total.lastFinalizedEpoch < n
    rw [hlastt]
    exact h.total_past

/-- A finalisation call at the current epoch `n`, by its two guards. -/
lemma finalizeGuarded {done : Prop} [Decidable done] {x : Tx ContextGraphValueStorage}
    (h : s.Represents log n)
    (hx : epoch < n → (∃ s', x = .ok s' ∧ s'.Represents log n) ∨ x = .error .panic) (hr : r = do
      require (¬ epoch ≥ n) .futureOrCurrentEpoch
      if done then pure s else x) :
    (∃ s', r = .ok s' ∧ s'.Represents log n) ∨ ∃ e, r = .error e ∧ e ≠ .negativeCumulative := by
  subst hr
  by_cases he : epoch ≥ n
  · refine .inr ⟨.futureOrCurrentEpoch, ?_, by decide⟩
    rw [require, if_neg (by simpa using he)]
    rfl
  · rw [require, if_pos he]
    by_cases hd : done
    · refine .inl ⟨s, ?_, h⟩
      simp only [bind, Except.bind, if_pos hd]
      rfl
    · simp only [bind, Except.bind, if_neg hd]
      rcases hx (Nat.not_le.mp he) with hok | herr
      · exact .inl hok
      · exact .inr ⟨.panic, herr, by decide⟩

/-- The finalisation at the end of `addCGValueForEpochRange`, at the current epoch `n`. -/
lemma finalizePast (h : s.Represents log n) (cgId : ℕ) (hr : r = if n > 1 then do
        let s ← s._finalizeCGValueUpTo cgId (n - 1)
        s._finalizeGlobalValueUpTo (n - 1)
      else pure s) : (∃ s', r = .ok s' ∧ s'.Represents log n) ∨ r = .error .panic := by
  subst hr
  by_cases hc : n > 1
  · rw [if_pos hc]
    have hlt : n - 1 < n := by omega
    rcases h.finalizeCG cgId hlt with ⟨s1, h1, hrep1⟩ | herr
    · rw [h1]
      exact hrep1.finalizeGlobal hlt
    · rw [herr]
      exact .inr rfl
  · rw [if_neg hc]
    exact .inl ⟨s, rfl, h⟩

/-- `addCGValueForEpochRange` records the call, or reverts for a reason other than a negative
running value. -/
lemma addCGValueForEpochRange (a : CGAdd) (h : s.Represents log (c.getCurrentEpoch b)) :
    (∃ s', s.addCGValueForEpochRange c b a.cgId a.startEpoch a.lifetime a.value = .ok s' ∧
      s'.Represents (log ++ [a]) (c.getCurrentEpoch b)) ∨
    ∃ e, s.addCGValueForEpochRange c b a.cgId a.startEpoch a.lifetime a.value = .error e ∧
      e ≠ .negativeCumulative := by
  cases hrun : s.addCGValueForEpochRange c b a.cgId a.startEpoch a.lifetime a.value with
  | ok s' =>
    refine .inl ⟨s', rfl, ?_⟩
    simp only [ContextGraphValueStorage.addCGValueForEpochRange, toInt256, bind_eq_ok,
      require_eq_ok, pure_eq_ok] at hrun
    obtain ⟨_, hlife, _, -, _, hstart, _, ⟨_, -, rfl⟩, cg, hcg, total, htotal, hrest⟩ := hrun
    have hadd := h.addDiff (Nat.not_lt.mp hstart) (Nat.pos_of_ne_zero hlife) hcg htotal
    rcases hadd.finalizePast a.cgId hrest.symm with ⟨s2, h2, hrep⟩ | herr
    · cases h2
      exact hrep
    · cases herr
  | error e =>
    refine .inr ⟨e, rfl, ?_⟩
    simp only [ContextGraphValueStorage.addCGValueForEpochRange, toInt256, bind_eq_error,
      bind_eq_ok, require_eq_error, require_eq_ok, pure_eq_ok] at hrun
    -- the four guards before the diff writes, then the writes, then the finalisation
    rcases hrun with ⟨-, rfl⟩ | ⟨_, hlife, ⟨-, rfl⟩ | ⟨_, -, ⟨-, rfl⟩ | ⟨_, hstart, hrun⟩⟩⟩
    · decide
    · decide
    · decide
    rcases hrun with (⟨-, rfl⟩ | ⟨_, -, hp⟩) | ⟨_, ⟨_, -, rfl⟩, hrun⟩
    · decide
    · exact absurd hp pure_ne_error
    rcases hrun with hp | ⟨cg, hcg, hp | ⟨total, htotal, hrest⟩⟩
    · rw [ValueLedger.addDiff_eq_error hp]
      decide
    · rw [ValueLedger.addDiff_eq_error hp]
      decide
    have hadd := h.addDiff (Nat.not_lt.mp hstart) (Nat.pos_of_ne_zero hlife) hcg htotal
    rcases hadd.finalizePast a.cgId hrest.symm with ⟨s2, h2, -⟩ | herr
    · cases h2
    · cases herr
      decide

/-- **What a call can do** to a storage that represents a log: record itself, or revert for a
reason other than a negative running value. -/
lemma run (call : CGValueCall) (h : s.Represents log (c.getCurrentEpoch b)) :
    (∃ s', call.run c b s = .ok s' ∧ s'.Represents (log ++ call.recorded) (c.getCurrentEpoch b)) ∨
    ∃ e, call.run c b s = .error e ∧ e ≠ .negativeCumulative := by
  cases call with
  | addCGValueForEpochRange a => exact h.addCGValueForEpochRange a
  | finalizeCGValueUpTo cgId epoch =>
    simp only [CGValueCall.recorded, append_nil]
    exact h.finalizeGuarded (fun he => h.finalizeCG cgId he) rfl
  | finalizeGlobalValueUpTo epoch =>
    simp only [CGValueCall.recorded, append_nil]
    exact h.finalizeGuarded (fun he => h.finalizeGlobal he) rfl

end ContextGraphValueStorage.Represents

variable {h : CGValueHistory} {s' : ContextGraphValueStorage}

lemma CGValueHistory.represents (c : Chronos) (hr : (cgValueMachine c).Reachable h) :
    h.store.Represents h.log (c.epochAtTimestamp h.now) ∧ ∀ a ∈ h.log, a.cgId < 2 ^ 256 := by
  refine hr.invariant (P := fun h : CGValueHistory =>
    h.store.Represents h.log (c.epochAtTimestamp h.now) ∧ ∀ a ∈ h.log, a.cgId < 2 ^ 256) ?_ ?_
  · rintro ⟨store, now, log⟩ ⟨rfl, rfl⟩
    exact ⟨⟨fun _ => ValueLedger.Refines.empty, ValueLedger.Refines.empty,
      fun _ => c.epochAtTimestamp_pos now, c.epochAtTimestamp_pos now⟩, by simp⟩
  · rintro h ⟨b, call⟩ h' ⟨hrep, hids⟩ ⟨hnow, hnow', hrun, hlog, hid⟩
    rw [hnow', hlog]
    refine ⟨?_, fun a ha => ?_⟩
    · rcases (hrep.mono (c.epochAtTimestamp_mono hnow)).run (c := c) (b := b) call with
        ⟨s', hs', hrep'⟩ | ⟨e, he, -⟩
      · rw [hrun] at hs'
        cases hs'
        exact hrep'
      · rw [hrun] at he
        cases he
    · rcases mem_append.mp ha with hold | hnew
      · exact hids a hold
      · exact hid a hnew

lemma CGValueHistory.represents_run (c : Chronos) (hr : (cgValueMachine c).Reachable h) {b : Block}
    (hb : h.now ≤ b.timestamp) {call : CGValueCall} (hrun : call.run c b h.store = .ok s') :
    s'.Represents (h.log ++ call.recorded) (c.getCurrentEpoch b) := by
  have hrep := (h.represents c hr).1
  rcases (hrep.mono (c.epochAtTimestamp_mono hb)).run (c := c) (b := b) call with
    ⟨s2, hs2, hrep'⟩ | ⟨e, he, -⟩
  · rw [hrun] at hs2
    cases hs2
    exact hrep'
  · rw [hrun] at he
    cases he

/-- **The context-graph value ledger.** In every history a read is the sum of the contributions
of the recorded calls, as long as these stay in the range of the `int256` running sum up to the
epoch that is read (beyond that the read panics); the total is the sum over all context graphs; a
finalisation changes no read; and no call can raise `NegativeCumulative`. -/
theorem contextGraphValue_reads (c : Chronos) {h : CGValueHistory}
    (hr : (cgValueMachine c).Reachable h) :
    (∀ cgId x, h.store.getCGValueAtEpoch cgId x
      = if ∀ y ≤ x, cgValueOf h.log cgId y < 2 ^ 255 then .ok (cgValueOf h.log cgId x)
        else .error .panic) ∧
    (∀ x, h.store.getTotalValueAtEpoch x
      = if ∀ y ≤ x, totalValueOf h.log y < 2 ^ 255 then .ok (totalValueOf h.log x)
        else .error .panic) ∧
    (∀ x, totalValueOf h.log x = ∑ cgId ∈ Finset.range (2 ^ 256), cgValueOf h.log cgId x) ∧
    (∀ (b : Block) (call : CGValueCall) (s' : ContextGraphValueStorage),
      h.now ≤ b.timestamp → call.recorded = [] → call.run c b h.store = .ok s' →
      (∀ cgId x, s'.getCGValueAtEpoch cgId x = h.store.getCGValueAtEpoch cgId x) ∧
      ∀ x, s'.getTotalValueAtEpoch x = h.store.getTotalValueAtEpoch x) ∧
    ∀ (b : Block) (call : CGValueCall), h.now ≤ b.timestamp →
      call.run c b h.store ≠ .error .negativeCumulative := by
  obtain ⟨hrep, hids⟩ := h.represents c hr
  refine ⟨fun cgId x => (hrep.cg cgId).valueAtEpoch_eq x, fun x => hrep.total.valueAtEpoch_eq x,
    totalValueOf_eq_sum h.log hids, fun b call s' hb hfin hrun => ?_, fun b call hb herr => ?_⟩
  · have hrep' := h.represents_run c hr hb hrun
    rw [hfin, append_nil] at hrep'
    refine ⟨fun cgId x => ?_, fun x => ?_⟩
    · exact ((hrep'.cg cgId).valueAtEpoch_eq x).trans ((hrep.cg cgId).valueAtEpoch_eq x).symm
    · exact (hrep'.total.valueAtEpoch_eq x).trans (hrep.total.valueAtEpoch_eq x).symm
  · rcases (hrep.mono (c.epochAtTimestamp_mono hb)).run (c := c) (b := b) call with
      ⟨s', hs', -⟩ | ⟨e, he, hne⟩
    · rw [herr] at hs'
      cases hs'
    · rw [herr] at he
      cases he
      exact hne rfl

lemma Lib.Machine.Reachable.cgValueCall {c : Chronos} (hr : (cgValueMachine c).Reachable h)
    (b : Block) (call : CGValueCall) (hnow : h.now ≤ b.timestamp)
    (hids : ∀ a ∈ call.recorded, a.cgId < 2 ^ 256) (hrun : call.run c b h.store = .ok s') :
    (cgValueMachine c).Reachable ⟨s', b.timestamp, h.log ++ call.recorded⟩ :=
  hr.step (c := (b, call)) ⟨hnow, rfl, hrun, rfl, hids⟩

/-- `7` wei over the two epochs `1`, `2` for graph `1`: `3` an epoch for the graph and in
total. -/
theorem contextGraphValue_reads_one_add :
    ∃ h, (cgValueMachine hourlyChronos).Reachable h ∧ h.log = [⟨1, 1, 2, 7⟩] ∧
      h.store.getCGValueAtEpoch 1 2 = .ok 3 ∧ h.store.getTotalValueAtEpoch 2 = .ok 3 := by
  have h0 : (cgValueMachine hourlyChronos).Reachable ⟨ContextGraphValueStorage.empty, 0, []⟩ :=
    .init ⟨rfl, rfl⟩
  have h1 := h0.cgValueCall ⟨1001, by decide⟩ (.addCGValueForEpochRange ⟨1, 1, 2, 7⟩)
    (by decide) (by simp [CGValueCall.recorded]) rfl
  obtain ⟨hcg, htotal, -⟩ := contextGraphValue_reads hourlyChronos h1
  refine ⟨_, h1, rfl, (hcg 1 2).trans ?_, (htotal 2).trans ?_⟩
  · rw [if_pos (by decide)]
    rfl
  · rw [if_pos (by decide)]
    rfl

/-- The sums alone do not describe the reads: two calls of `2^254` wei an epoch for two graphs
are both recorded, and the read of the total at epoch `2` panics instead of returning `2^255`. -/
theorem contextGraphValue_total_overflows :
    ¬ ∀ h, (cgValueMachine hourlyChronos).Reachable h →
      ∀ x, h.store.getTotalValueAtEpoch x = .ok (totalValueOf h.log x) := by
  intro hall
  have h0 : (cgValueMachine hourlyChronos).Reachable ⟨ContextGraphValueStorage.empty, 0, []⟩ :=
    .init ⟨rfl, rfl⟩
  have h1 := h0.cgValueCall ⟨1001, by decide⟩ (.addCGValueForEpochRange ⟨1, 1, 2, 2 ^ 255⟩)
    (by decide) (by simp [CGValueCall.recorded]) rfl
  have h2 := h1.cgValueCall ⟨1001, by decide⟩ (.addCGValueForEpochRange ⟨2, 2, 1, 2 ^ 254⟩)
    (by decide) (by simp [CGValueCall.recorded]) rfl
  have hread : (.error .panic : Tx ℕ) = .ok (2 ^ 255) := hall _ h2 2
  cases hread

end Dkg
