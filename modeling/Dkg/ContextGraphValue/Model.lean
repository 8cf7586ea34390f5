import Dkg.Chronos
import Dkg.Lib.Machine

/-! # ContextGraphValueStorage

The value ledger of context graphs (`storage/ContextGraphValueStorage.sol`): one difference array
per context graph and one for all of them, each crystallised lazily up to its own last finalised
epoch. The per-graph and the global functions of the source are the same code over different
mappings; here each is one function over a `ValueLedger` at its own ledger. The reserved shard
mappings are read by no function and are left out.
-/

namespace Dkg

open Function (update)

/-- A difference array with its crystallised prefix. -/
structure ValueLedger where
  diff : ℕ → ℤ
  cumulative : ℕ → ℕ
  lastFinalizedEpoch : ℕ

/-- `cgValueDiff`, `cgValueCumulative`, `cgLastFinalizedEpoch` by context graph, and
`totalValueDiff`, `totalValueCumulative`, `globalLastFinalizedEpoch`. -/
structure ContextGraphValueStorage where
  cg : ℕ → ValueLedger
  total : ValueLedger

namespace ValueLedger

def empty : ValueLedger where
  diff := fun _ => 0
  cumulative := fun _ => 0
  lastFinalizedEpoch := 0

/-- The running value a loop starts from: `int256(cumulative[lastFinalized])`, or `0`. -/
def startValue (l : ValueLedger) : ℤ :=
  if l.lastFinalizedEpoch > 0 then intOfUint 256 (l.cumulative l.lastFinalizedEpoch) else 0

/-- One iteration of every loop: add the increment, and refuse a negative running value. -/
def advance (diff : ℕ → ℤ) (e : ℕ) (running : ℤ) : Tx ℤ := do
  let running ← addInt 256 running (diff e)
  require (¬ running < 0) .negativeCumulative
  pure running

/-- The finalisation loop: `k` iterations from epoch `e`. -/
def finalizeLoop (diff : ℕ → ℤ) : ℕ → ℕ → ℤ → (ℕ → ℕ) → Tx (ℕ → ℕ)
  | 0, _, _, cumulative => pure cumulative
  | k + 1, e, running, cumulative => do
      let running ← advance diff e running
      finalizeLoop diff k (e + 1) running (update cumulative e running.toNat)

/-- `_finalizeCGValueUpTo` and `_finalizeGlobalValueUpTo`. -/
def finalizeUpTo (l : ValueLedger) (epoch : ℕ) : Tx ValueLedger :=
  if epoch ≤ l.lastFinalizedEpoch then pure l
  else do
    let cumulative ← finalizeLoop l.diff (epoch - l.lastFinalizedEpoch)
      (l.lastFinalizedEpoch + 1) l.startValue l.cumulative
    pure { l with cumulative := cumulative, lastFinalizedEpoch := epoch }

/-- The simulation loop: `k` iterations from epoch `e`. -/
def simulateLoop (diff : ℕ → ℤ) : ℕ → ℕ → ℤ → Tx ℤ
  | 0, _, running => pure running
  | k + 1, e, running => do
      let running ← advance diff e running
      simulateLoop diff k (e + 1) running

/-- `_simulateCGValueFinalization` and `_simulateGlobalValueFinalization`. -/
def simulateFinalization (l : ValueLedger) (epoch : ℕ) : Tx ℕ :=
  if epoch ≤ l.lastFinalizedEpoch then pure (l.cumulative epoch)
  else do
    let running ← simulateLoop l.diff (epoch - l.lastFinalizedEpoch) (l.lastFinalizedEpoch + 1)
      l.startValue
    pure running.toNat

/-- The read of a ledger at an epoch. -/
def valueAtEpoch (l : ValueLedger) (epoch : ℕ) : Tx ℕ :=
  if epoch ≤ l.lastFinalizedEpoch then pure (l.cumulative epoch)
  else l.simulateFinalization epoch

/-- The pair of diff writes of `addCGValueForEpochRange` on one ledger. -/
def addDiff (l : ValueLedger) (startEpoch lifetime : ℕ) (perEpochSigned : ℤ) : Tx ValueLedger := do
  let up ← addInt 256 (l.diff startEpoch) perEpochSigned
  let diff := update l.diff startEpoch up
  let endEpoch ← addUint 256 startEpoch lifetime
  let down ← addInt 256 (diff endEpoch) (-perEpochSigned)
  pure { l with diff := update diff endEpoch down }

end ValueLedger

/-- `SafeCast.toInt256`. -/
def toInt256 (value : ℕ) : Tx ℤ := do
  require (value < 2 ^ 255) .safeCastOverflowedUintToInt
  pure (value : ℤ)

namespace ContextGraphValueStorage

def empty : ContextGraphValueStorage where
  cg := fun _ => ValueLedger.empty
  total := ValueLedger.empty

def getCGValueAtEpoch (s : ContextGraphValueStorage) (cgId epoch : ℕ) : Tx ℕ :=
  (s.cg cgId).valueAtEpoch epoch

def getTotalValueAtEpoch (s : ContextGraphValueStorage) (epoch : ℕ) : Tx ℕ :=
  s.total.valueAtEpoch epoch

def _finalizeCGValueUpTo (s : ContextGraphValueStorage) (cgId epoch : ℕ) :
    Tx ContextGraphValueStorage := do
  let cg ← (s.cg cgId).finalizeUpTo epoch
  pure { s with cg := update s.cg cgId cg }

def _finalizeGlobalValueUpTo (s : ContextGraphValueStorage) (epoch : ℕ) :
    Tx ContextGraphValueStorage := do
  let total ← s.total.finalizeUpTo epoch
  pure { s with total := total }

def addCGValueForEpochRange (c : Chronos) (b : Block) (s : ContextGraphValueStorage)
    (cgId startEpoch lifetime value : ℕ) : Tx ContextGraphValueStorage := do
  require (lifetime ≠ 0) .zeroLifetime
  require (value ≠ 0) .zeroValue
  let currentEpoch := c.getCurrentEpoch b
  require (¬ startEpoch < currentEpoch) .backfillForbidden
  let perEpochSigned ← toInt256 (value / lifetime)
  let cg ← (s.cg cgId).addDiff startEpoch lifetime perEpochSigned
  let total ← s.total.addDiff startEpoch lifetime perEpochSigned
  let s : ContextGraphValueStorage := { cg := update s.cg cgId cg, total := total }
  if currentEpoch > 1 then do
    let s ← s._finalizeCGValueUpTo cgId (currentEpoch - 1)
    s._finalizeGlobalValueUpTo (currentEpoch - 1)
  else
    pure s

def finalizeCGValueUpTo (c : Chronos) (b : Block) (s : ContextGraphValueStorage)
    (cgId epoch : ℕ) : Tx ContextGraphValueStorage := do
  require (¬ epoch ≥ c.getCurrentEpoch b) .futureOrCurrentEpoch
  if epoch ≤ (s.cg cgId).lastFinalizedEpoch then pure s else s._finalizeCGValueUpTo cgId epoch

def finalizeGlobalValueUpTo (c : Chronos) (b : Block) (s : ContextGraphValueStorage)
    (epoch : ℕ) : Tx ContextGraphValueStorage := do
  require (¬ epoch ≥ c.getCurrentEpoch b) .futureOrCurrentEpoch
  if epoch ≤ s.total.lastFinalizedEpoch then pure s else s._finalizeGlobalValueUpTo epoch

end ContextGraphValueStorage

end Dkg
