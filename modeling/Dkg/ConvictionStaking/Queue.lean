import Dkg.ConvictionStaking.NodeLedger
import Dkg.Lib.DrainQueue

/-! # The expiry queue of a node

What each function of the settlement section does to a ledger whose queue is well formed. The
queue is the part of `nodeExpiryTimes` from the drain cursor on. `Settled` and `DropSet` are the
two ways a ledger's queue changes: time passes, or the drop at one second is set.
-/

namespace Dkg.NodeLedger

open Lib List
open Function (update update_eq_self update_of_ne update_self)

variable {l l' : NodeLedger} {ts drop : ℕ}

/-- The entries of the queue at indices from `nodeExpiryHead` on. -/
def pending (l : NodeLedger) : List ℕ := l.nodeExpiryTimes.drop l.nodeExpiryHead

/-- The sum of the drops of these entries. -/
def pendingDrop (l : NodeLedger) : ℕ := total l.pending l.nodeExpiryDrop

/-- The queue is well formed: its entries are strictly ascending and after the last settlement,
the presence flags are exactly theirs, and nothing is scheduled elsewhere. -/
structure QueueInv (l : NodeLedger) : Prop where
  head_le : l.nodeExpiryHead ≤ l.nodeExpiryTimes.length
  ascending : l.pending.Pairwise (· < ·)
  after : ∀ t ∈ l.pending, l.nodeLastSettledAt < t
  present_iff : ∀ t, l.nodeExpiryPresent t = true ↔ t ∈ l.pending
  drop_eq_zero : ∀ t, t ∉ l.pending → l.nodeExpiryDrop t = 0

lemma queueInv_empty : empty.QueueInv where
  head_le := le_rfl
  ascending := Pairwise.nil
  after := by intro t ht; cases ht
  present_iff := by intro t; simp [empty, pending]
  drop_eq_zero := by intro t _; rfl

namespace QueueInv

lemma nodup (h : l.QueueInv) : l.pending.Nodup := h.ascending.imp ne_of_lt

lemma drop_eq_zero_of_le (h : l.QueueInv) {t : ℕ} (ht : t ≤ l.nodeLastSettledAt) :
    l.nodeExpiryDrop t = 0 := by
  apply h.drop_eq_zero
  intro hmem
  exact absurd (h.after t hmem) (not_lt.mpr ht)

end QueueInv

/-! ## Settling -/

/-- The loop takes the due entries off, with their drops and flags. -/
lemma settleLoop_eq (ts : ℕ) (q : List ℕ) (hq : q.Pairwise (· < ·)) (d : Drain) :
    settleLoop ts q d =
      if total (due ts q) d.drop ≤ d.stake then
        .ok { head := d.head + (due ts q).length
              stake := d.stake - total (due ts q) d.drop
              drop := fun t => if t ∈ due ts q then 0 else d.drop t
              present := fun t => if t ∈ due ts q then false else d.present t }
      else .error .panic := by
  induction q generalizing d with
  | nil =>
    rw [settleLoop]
    simp [due, pure, Except.pure]
  | cons t q ih =>
    rw [pairwise_cons] at hq
    rw [settleLoop]
    by_cases ht : t > ts
    · have hdue : due ts (t :: q) = [] := by
        simp [due, Nat.not_le.mpr ht]
      rw [if_pos ht, hdue]
      simp [pure, Except.pure]
    · have hdue : due ts (t :: q) = t :: due ts q := by
        simp [due, Nat.not_lt.mp ht]
      have hnot : t ∉ due ts q := by
        intro hmem
        exact lt_irrefl t (hq.1 t ((mem_due hq.2).mp hmem).1)
      -- clearing the entry leaves the drops of the rest alone
      have hrest : ∀ v, total (due ts q) (update d.drop t v)
          = total (due ts q) d.drop := total_update_of_notMem hnot
      rw [if_neg ht, hdue, total_cons]
      by_cases hzero : d.drop t = 0
      · rw [if_neg (by simpa using hzero)]
        simp only [pure, Except.pure, bind, Except.bind]
        rw [ih hq.2]
        simp only [hzero, Nat.zero_add, length_cons]
        congr 2
        · simp only [Drain.mk.injEq, true_and]
          refine ⟨by omega, ?_, ?_⟩
          · funext x
            by_cases hx : x = t
            · subst hx; simp [hzero, hnot]
            · simp [hx]
          · funext x
            by_cases hx : x = t
            · subst hx; simp
            · simp [hx]
      · rw [if_pos (by simpa using hzero)]
        by_cases hle : d.drop t ≤ d.stake
        · simp only [subUint, hle, if_true, pure, Except.pure, bind, Except.bind]
          rw [ih hq.2]
          simp only [hrest, length_cons]
          by_cases hall : total (due ts q) d.drop ≤ d.stake - d.drop t
          · rw [if_pos hall, if_pos (by omega)]
            congr 2
            · omega
            · omega
            · funext x
              by_cases hx : x = t
              · subst hx; simp
              · simp [hx]
            · funext x
              by_cases hx : x = t
              · subst hx; simp
              · simp [hx]
          · rw [if_neg hall, if_neg (by omega)]
        · simp only [subUint, hle, if_false, bind, Except.bind]
          rw [if_neg (by omega)]

lemma simulateLoop_eq (drop : ℕ → ℕ) (ts : ℕ) (q : List ℕ) (stake : ℕ) :
    simulateLoop drop ts q stake =
      if total (due ts q) drop ≤ stake then .ok (stake - total (due ts q) drop)
      else .error .panic := by
  induction q generalizing stake with
  | nil =>
    rw [simulateLoop]
    simp [due, pure, Except.pure]
  | cons t q ih =>
    rw [simulateLoop]
    by_cases ht : t > ts
    · have hdue : due ts (t :: q) = [] := by
        simp [due, Nat.not_le.mpr ht]
      rw [if_pos ht, hdue]
      simp [pure, Except.pure]
    · have hdue : due ts (t :: q) = t :: due ts q := by
        simp [due, Nat.not_lt.mp ht]
      rw [if_neg ht, hdue, total_cons]
      by_cases hle : drop t ≤ stake
      · simp only [subUint, hle, if_true, bind, Except.bind]
        rw [ih]
        by_cases hall : total (due ts q) drop ≤ stake - drop t
        · rw [if_pos hall, if_pos (by omega)]
          congr 1
          omega
        · rw [if_neg hall, if_neg (by omega)]
      · simp only [subUint, hle, if_false, bind, Except.bind]
        rw [if_neg (by omega)]

/-- The ledger a settlement to a later second leaves. -/
def settledTo (l : NodeLedger) (ts : ℕ) : NodeLedger :=
  { l with
    nodeExpiryHead := l.nodeExpiryHead + (due ts l.pending).length
    runningNodeEffectiveStake :=
      l.runningNodeEffectiveStake - total (due ts l.pending) l.nodeExpiryDrop
    nodeExpiryDrop := fun t => if t ∈ due ts l.pending then 0 else l.nodeExpiryDrop t
    nodeExpiryPresent := fun t => if t ∈ due ts l.pending then false else l.nodeExpiryPresent t
    nodeLastSettledAt := ts }

lemma due_drop_le (hle : l.pendingDrop ≤ l.runningNodeEffectiveStake) (ts : ℕ) :
    total (due ts l.pending) l.nodeExpiryDrop ≤ l.runningNodeEffectiveStake := by
  have hsplit := total_due_add_later ts l.pending l.nodeExpiryDrop
  unfold pendingDrop at hle
  omega

lemma QueueInv._settleNodeTo_eq (h : l.QueueInv) (hts : l.nodeLastSettledAt < ts) :
    l._settleNodeTo ts =
      if total (due ts l.pending) l.nodeExpiryDrop ≤ l.runningNodeEffectiveStake then
        .ok (l.settledTo ts)
      else .error .panic := by
  have hloop := settleLoop_eq ts l.pending h.ascending
    { head := l.nodeExpiryHead
      stake := l.runningNodeEffectiveStake
      drop := l.nodeExpiryDrop
      present := l.nodeExpiryPresent }
  rw [_settleNodeTo, if_neg (Nat.not_le.mpr hts), show l.nodeExpiryTimes.drop l.nodeExpiryHead
    = l.pending from rfl, hloop]
  simp only
  split
  · rfl
  · rfl

lemma pending_settledTo (l : NodeLedger) (ts : ℕ) :
    (l.settledTo ts).pending = later ts l.pending := by
  calc (l.settledTo ts).pending = l.pending.drop (due ts l.pending).length := by
        unfold pending
        rw [drop_drop]
        rfl
    _ = (due ts l.pending ++ later ts l.pending).drop (due ts l.pending).length := by
        rw [due_append_later]
    _ = later ts l.pending := drop_left

lemma pendingDrop_settledTo (h : l.QueueInv) :
    (l.settledTo ts).pendingDrop = total (later ts l.pending) l.nodeExpiryDrop := by
  unfold pendingDrop
  rw [pending_settledTo]
  apply total_congr
  intro t ht
  have hlt := ((mem_later h.ascending).mp ht).2
  show (if t ∈ due ts l.pending then 0 else l.nodeExpiryDrop t) = l.nodeExpiryDrop t
  rw [if_neg]
  intro hd
  have := ((mem_due h.ascending).mp hd).2
  omega

lemma QueueInv.settledTo (h : l.QueueInv) (ts : ℕ) : (l.settledTo ts).QueueInv := by
  have hpend := pending_settledTo l ts
  constructor
  · have hlen := congrArg length (due_append_later ts l.pending)
    have hle := h.head_le
    have hpl : l.pending.length = l.nodeExpiryTimes.length - l.nodeExpiryHead := by
      simp [pending]
    rw [length_append] at hlen
    show l.nodeExpiryHead + (due ts l.pending).length ≤ l.nodeExpiryTimes.length
    omega
  · rw [hpend]
    exact pairwise_later h.ascending
  · intro t ht
    rw [hpend, mem_later h.ascending] at ht
    exact ht.2
  · intro t
    rw [hpend, mem_later h.ascending]
    show (if t ∈ due ts l.pending then false else l.nodeExpiryPresent t) = true ↔ _
    by_cases ht : t ∈ due ts l.pending
    · have := (mem_due h.ascending).mp ht
      simp only [ht, if_true, Bool.false_eq_true, false_iff]
      omega
    · rw [if_neg ht, h.present_iff]
      rw [mem_due h.ascending] at ht
      constructor
      · intro hm
        exact ⟨hm, not_le.mp fun hle => ht ⟨hm, hle⟩⟩
      · exact fun hm => hm.1
  · intro t ht
    rw [hpend, mem_later h.ascending] at ht
    show (if t ∈ due ts l.pending then 0 else l.nodeExpiryDrop t) = 0
    by_cases hd : t ∈ due ts l.pending
    · rw [if_pos hd]
    · rw [if_neg hd]
      rw [mem_due h.ascending] at hd
      apply h.drop_eq_zero
      intro hm
      by_cases hle : t ≤ ts
      · exact hd ⟨hm, hle⟩
      · exact ht ⟨hm, not_le.mp hle⟩

/-- `l'` is `l` settled to `ts`: the drops up to `ts` are off the running stake. -/
structure Settled (l : NodeLedger) (ts : ℕ) (l' : NodeLedger) : Prop where
  inv : l'.QueueInv
  lastSettledAt : l'.nodeLastSettledAt = max ts l.nodeLastSettledAt
  running : l'.runningNodeEffectiveStake + l.pendingDrop
    = l.runningNodeEffectiveStake + l'.pendingDrop
  drop : ∀ t, l'.nodeExpiryDrop t = if t ≤ ts then 0 else l.nodeExpiryDrop t
  stake : l'.nodeStakeV10 = l.nodeStakeV10

lemma QueueInv.settled (h : l.QueueInv) (hs : l._settleNodeTo ts = .ok l') : Settled l ts l' := by
  rcases Nat.lt_or_ge l.nodeLastSettledAt ts with hts | hts
  · rw [h._settleNodeTo_eq hts] at hs
    split at hs
    next hdue =>
      cases hs
      refine ⟨h.settledTo ts, ?_, ?_, ?_, rfl⟩
      · show ts = max ts l.nodeLastSettledAt
        omega
      · have hsplit := total_due_add_later ts l.pending l.nodeExpiryDrop
        rw [pendingDrop_settledTo h]
        show l.runningNodeEffectiveStake - total (due ts l.pending) l.nodeExpiryDrop
          + l.pendingDrop = _
        unfold pendingDrop
        omega
      · intro t
        show (if t ∈ due ts l.pending then 0 else l.nodeExpiryDrop t) = _
        by_cases hm : t ∈ l.pending
        · simp only [mem_due h.ascending, hm, true_and]
        · simp only [mem_due h.ascending, hm, false_and, h.drop_eq_zero t hm, ite_self]
    next => cases hs
  · rw [_settleNodeTo, if_pos hts] at hs
    cases hs
    refine ⟨h, by omega, rfl, ?_, rfl⟩
    intro t
    split
    next ht => exact h.drop_eq_zero_of_le (le_trans ht hts)
    next => rfl

/-- **Settling cannot fail** on a ledger whose running stake covers its pending drops. -/
lemma QueueInv.exists_settled (h : l.QueueInv)
    (hle : l.pendingDrop ≤ l.runningNodeEffectiveStake) (ts : ℕ) :
    ∃ l', l._settleNodeTo ts = .ok l' := by
  rcases Nat.lt_or_ge l.nodeLastSettledAt ts with hts | hts
  · exact ⟨l.settledTo ts, by rw [h._settleNodeTo_eq hts, if_pos (due_drop_le hle ts)]⟩
  · exact ⟨l, by rw [_settleNodeTo, if_pos hts]; rfl⟩

/-- The simulated settlement reads what settling would leave. -/
lemma simulate_of_covered (hle : l.pendingDrop ≤ l.runningNodeEffectiveStake)
    (hts : l.nodeLastSettledAt ≤ ts) :
    ∃ stake, l._simulateNodeEffectiveStakeAt ts = .ok stake ∧
      stake + total (due ts l.pending) l.nodeExpiryDrop = l.runningNodeEffectiveStake := by
  have hdue := due_drop_le hle ts
  refine ⟨l.runningNodeEffectiveStake - total (due ts l.pending) l.nodeExpiryDrop, ?_, by omega⟩
  rw [_simulateNodeEffectiveStakeAt, if_neg (Nat.not_lt.mpr hts), simulateLoop_eq]
  exact if_pos hdue

/-! ## Scheduling and cancelling -/

/-- `l'` is `l` with the drop at `ts` set to `v`. -/
structure DropSet (l : NodeLedger) (ts v : ℕ) (l' : NodeLedger) : Prop where
  inv : l'.QueueInv
  lastSettledAt : l'.nodeLastSettledAt = l.nodeLastSettledAt
  running : l'.runningNodeEffectiveStake = l.runningNodeEffectiveStake
  drop : l'.nodeExpiryDrop = update l.nodeExpiryDrop ts v
  pendingDrop : l'.pendingDrop + l.nodeExpiryDrop ts = l.pendingDrop + v
  stake : l'.nodeStakeV10 = l.nodeStakeV10

lemma DropSet.refl (h : l.QueueInv) (ts : ℕ) : DropSet l ts (l.nodeExpiryDrop ts) l where
  inv := h
  lastSettledAt := rfl
  running := rfl
  drop := (update_eq_self _ _).symm
  pendingDrop := rfl
  stake := rfl

lemma orderedInsert_concat_of_lt {ts y : ℕ} (q : List ℕ) (hy : ts < y) :
    (q ++ [y]).orderedInsert (· ≤ ·) ts = q.orderedInsert (· ≤ ·) ts ++ [y] := by
  induction q with
  | nil => simp [hy.le]
  | cons x q ih =>
    rw [cons_append, orderedInsert_cons, orderedInsert_cons]
    split
    · rfl
    · rw [ih]
      rfl

lemma orderedInsert_of_forall_lt {ts : ℕ} (q : List ℕ) (hq : ∀ x ∈ q, x < ts) :
    q.orderedInsert (· ≤ ·) ts = q ++ [ts] := by
  induction q with
  | nil => rfl
  | cons x q ih =>
    rw [orderedInsert_cons, if_neg (Nat.not_le.mpr (hq x mem_cons_self)),
      ih fun y hy => hq y (mem_cons_of_mem _ hy)]
    rfl

/-- The insertion loop puts a new second in its place behind the drain cursor. The induction is
on the entries left of the free slot. -/
lemma bubbleLeft_eq (pre q : List ℕ) (hq : q.Pairwise (· < ·)) (hts : ts ∉ q) (x : ℕ)
    (rest : List ℕ) :
    bubbleLeft pre.length ts (pre.length + q.length) (pre ++ (q ++ x :: rest))
      = pre ++ (q.orderedInsert (· ≤ ·) ts ++ rest) := by
  induction q using reverseRecOn generalizing x rest with
  | nil =>
    have hset : (pre ++ x :: rest).set pre.length ts = pre ++ ts :: rest := by
      rw [set_append_right _ _ le_rfl]
      simp
    rw [length_nil, Nat.add_zero, nil_append]
    cases hp : pre.length with
    | zero =>
      rw [bubbleLeft, ← hp, hset]
      rfl
    | succ k =>
      rw [bubbleLeft, if_neg (by omega), ← hp, hset]
      rfl
  | append_singleton q y ih =>
    have hq' : q.Pairwise (· < ·) := (pairwise_append.mp hq).1
    have hlast : ∀ z ∈ q, z < y := by
      intro z hz
      exact (pairwise_append.mp hq).2.2 z hz y (mem_singleton_self y)
    have hne : ts ≠ y := by
      rintro rfl
      exact hts (by simp)
    have hnot : ts ∉ q := fun h => hts (by simp [h])
    have hget : (pre ++ (q ++ [y] ++ x :: rest)).getD (pre.length + q.length) 0 = y := by
      simp [getD_eq_getElem?_getD]
    have hset : ∀ v, (pre ++ (q ++ [y] ++ x :: rest)).set (pre.length + q.length + 1) v
        = pre ++ (q ++ y :: v :: rest) := by
      intro v
      rw [set_append_right _ _ (by omega), append_assoc, set_append_right _ _ (by omega)]
      rw [show pre.length + q.length + 1 - pre.length - q.length = 1 by omega]
      rfl
    rw [show pre.length + (q ++ [y]).length = pre.length + q.length + 1 by
      simp [Nat.add_assoc], bubbleLeft, hget]
    by_cases hgt : y > ts
    · rw [if_pos ⟨by omega, hgt⟩, hset, ih hq' hnot, orderedInsert_concat_of_lt q hgt]
      simp
    · have hlt : y < ts := by omega
      rw [if_neg (fun h => hgt h.2), hset, orderedInsert_of_forall_lt]
      · simp
      · exact forall_mem_append.mpr ⟨fun z hz => (hlast z hz).trans hlt,
          forall_mem_singleton.mpr hlt⟩

lemma pending_bubbleLeft (h : l.QueueInv) (hts : ts ∉ l.pending) :
    (bubbleLeft l.nodeExpiryHead ts l.nodeExpiryTimes.length (l.nodeExpiryTimes ++ [ts])).drop
      l.nodeExpiryHead = l.pending.orderedInsert (· ≤ ·) ts := by
  have hlen : (l.nodeExpiryTimes.take l.nodeExpiryHead).length = l.nodeExpiryHead := by
    rw [length_take]
    exact min_eq_left h.head_le
  have hsplit : l.nodeExpiryTimes = l.nodeExpiryTimes.take l.nodeExpiryHead ++ l.pending :=
    (take_append_drop _ _).symm
  have hall : l.nodeExpiryTimes.length = l.nodeExpiryHead + l.pending.length := by
    conv_lhs => rw [hsplit, length_append, hlen]
  have hbubble := bubbleLeft_eq (l.nodeExpiryTimes.take l.nodeExpiryHead) l.pending h.ascending
    hts ts []
  rw [hlen, ← append_assoc, ← hsplit, ← hall, append_nil] at hbubble
  rw [hbubble]
  exact drop_left' hlen

lemma QueueInv.schedule (h : l.QueueInv) (hs : l._scheduleNodeExpiry ts drop = .ok l') :
    drop ≠ 0 ∧ l.nodeLastSettledAt < ts ∧ DropSet l ts (l.nodeExpiryDrop ts + drop) l' := by
  unfold _scheduleNodeExpiry at hs
  obtain ⟨hdrop, hlast, hs⟩ := of_require₂ hs
  obtain ⟨sum, hsum, hs⟩ := of_bind hs
  obtain ⟨-, rfl⟩ := addUint_eq_ok.mp hsum
  refine ⟨hdrop, hlast, ?_⟩
  dsimp only at hs
  by_cases hmem : ts ∈ l.pending
  · -- the second has its slot already
    rw [if_pos ((h.present_iff ts).mpr hmem)] at hs
    obtain rfl := of_pure hs
    refine ⟨⟨h.head_le, h.ascending, h.after, h.present_iff, ?_⟩, rfl, rfl, rfl, ?_, rfl⟩
    · intro t ht
      have hne : t ≠ ts := by
        rintro rfl
        exact ht hmem
      exact (update_of_ne hne _ _).trans (h.drop_eq_zero t ht)
    · exact total_update h.nodup hmem _
  · rw [if_neg (by rw [h.present_iff]; exact hmem)] at hs
    obtain rfl := of_pure hs
    have hpend := pending_bubbleLeft h hmem
    have hin : ∀ t, t ∈ l.pending.orderedInsert (· ≤ ·) ts ↔ t = ts ∨ t ∈ l.pending :=
      fun t => mem_orderedInsert (· ≤ ·)
    refine ⟨⟨?_, ?_, ?_, ?_, ?_⟩, rfl, rfl, rfl, ?_, rfl⟩
    · have hpos := congrArg List.length hpend
      rw [length_drop, orderedInsert_length] at hpos
      show l.nodeExpiryHead ≤ (bubbleLeft _ _ _ _).length
      omega
    · show (List.drop _ _).Pairwise _
      rw [hpend]
      exact pairwise_lt_orderedInsert h.ascending hmem
    · intro t ht
      have ht' : t ∈ l.pending.orderedInsert (· ≤ ·) ts := by
        rw [← hpend]
        exact ht
      rcases (hin t).mp ht' with rfl | ht'
      · exact hlast
      · exact h.after t ht'
    · intro t
      show update l.nodeExpiryPresent ts true t = true ↔ t ∈ List.drop _ _
      rw [hpend, hin]
      by_cases ht : t = ts
      · simp [ht]
      · rw [update_of_ne ht, h.present_iff]
        simp [ht]
    · intro t ht
      have ht' : t ∉ l.pending.orderedInsert (· ≤ ·) ts := by
        rw [← hpend]
        exact ht
      rw [hin, not_or] at ht'
      exact (update_of_ne ht'.1 _ _).trans (h.drop_eq_zero t ht'.2)
    · have hzero := h.drop_eq_zero ts hmem
      show total (List.drop _ _) (update _ _ _) + _ = _
      rw [hpend, total_orderedInsert, update_self, total_update_of_notMem hmem, hzero]
      unfold pendingDrop
      omega

/-- What a successful cancellation of a boost that is not drained yet does. -/
lemma QueueInv.cancel (h : l.QueueInv) (hlast : l.nodeLastSettledAt < ts)
    (hs : l._cancelNodeExpiry ts drop = .ok l') :
    drop ≤ l.nodeExpiryDrop ts ∧ DropSet l ts (l.nodeExpiryDrop ts - drop) l' := by
  unfold _cancelNodeExpiry at hs
  by_cases hdrop : drop = 0
  · rw [if_pos hdrop] at hs
    obtain rfl := of_pure hs
    rw [hdrop]
    exact ⟨Nat.zero_le _, DropSet.refl h ts⟩
  · rw [if_neg hdrop, if_neg (Nat.not_le.mpr hlast)] at hs
    obtain ⟨hle, hs⟩ := of_require hs
    obtain ⟨remaining, hrem, hs⟩ := of_bind hs
    obtain ⟨-, rfl⟩ := subUint_eq_ok.mp hrem
    obtain rfl := of_pure hs
    have hmem : ts ∈ l.pending := by
      by_contra hmem
      have := h.drop_eq_zero ts hmem
      omega
    refine ⟨hle, ⟨h.head_le, h.ascending, h.after, h.present_iff, ?_⟩, rfl, rfl, rfl, ?_, rfl⟩
    · intro t ht
      have hne : t ≠ ts := by
        rintro rfl
        exact ht hmem
      exact (update_of_ne hne _ _).trans (h.drop_eq_zero t ht)
    · exact total_update h.nodup hmem _

/-! ## The balance of a ledger

`Balance now k` says that the running stake is the node's raw stake plus its pending drops, up to
an imbalance `k`. Between two calls `k = 0`; inside a call each helper moves `k` by what it adds
to one side. -/

/-- The queue is well formed, was settled last at `now` or before, and the running stake is off
by `k`. -/
structure Balance (l : NodeLedger) (now : ℕ) (k : ℤ) : Prop where
  queue : l.QueueInv
  running : (l.runningNodeEffectiveStake : ℤ) = l.nodeStakeV10 + l.pendingDrop + k
  lastSettledAt_le : l.nodeLastSettledAt ≤ now

namespace Balance

variable {now : ℕ} {k : ℤ}

lemma empty (now : ℕ) : NodeLedger.empty.Balance now 0 where
  queue := queueInv_empty
  running := rfl
  lastSettledAt_le := Nat.zero_le _

variable (h : l.Balance now k)

include h

lemma mono {now' : ℕ} (hle : now ≤ now') : l.Balance now' k :=
  ⟨h.queue, h.running, le_trans h.lastSettledAt_le hle⟩

lemma settle (hnow : now ≤ ts) (hs : l._settleNodeTo ts = .ok l') :
    l'.Balance ts k ∧ l'.nodeLastSettledAt = ts ∧ l'.nodeStakeV10 = l.nodeStakeV10 ∧
      ∀ t > ts, l'.nodeExpiryDrop t = l.nodeExpiryDrop t := by
  have hset := h.queue.settled hs
  have hrun := hset.running
  have hold := h.running
  have hstake := hset.stake
  have hlast : l'.nodeLastSettledAt = ts := by
    have := h.lastSettledAt_le
    rw [hset.lastSettledAt]
    omega
  refine ⟨⟨hset.inv, ?_, hlast.le⟩, hlast, hstake, ?_⟩
  · omega
  · intro t ht
    rw [hset.drop, if_neg (by omega)]

/-- A settlement finds every pending drop in the running stake, and so does a simulated one. -/
lemma covered (hk : 0 ≤ k) : l.pendingDrop ≤ l.runningNodeEffectiveStake := by
  have := h.running
  omega

lemma applyDelta {delta : ℤ} (hs : l._applyNodeStakeDelta delta = .ok l') :
    l'.Balance now (k + delta) ∧ l'.nodeLastSettledAt = l.nodeLastSettledAt ∧
      l'.nodeStakeV10 = l.nodeStakeV10 ∧ l'.nodeExpiryDrop = l.nodeExpiryDrop := by
  have hrun := h.running
  have hset : ∀ v : ℕ, (v : ℤ) = l.runningNodeEffectiveStake + delta →
      ({ l with runningNodeEffectiveStake := v } : NodeLedger).Balance now (k + delta) := by
    intro v hv
    have hq := h.queue
    refine ⟨⟨hq.head_le, hq.ascending, hq.after, hq.present_iff, hq.drop_eq_zero⟩, ?_,
      h.lastSettledAt_le⟩
    show (v : ℤ) = l.nodeStakeV10 + l.pendingDrop + (k + delta)
    omega
  unfold _applyNodeStakeDelta at hs
  by_cases hzero : delta = 0
  · rw [if_pos hzero] at hs
    obtain rfl := of_pure hs
    exact ⟨by rw [hzero, add_zero]; exact h, rfl, rfl, rfl⟩
  · rw [if_neg hzero] at hs
    by_cases hpos : delta > 0
    · rw [if_pos hpos] at hs
      obtain ⟨stake, hadd, hs⟩ := of_bind hs
      obtain ⟨-, rfl⟩ := addUint_eq_ok.mp hadd
      obtain rfl := of_pure hs
      exact ⟨hset _ (by omega), rfl, rfl, rfl⟩
    · rw [if_neg hpos] at hs
      obtain ⟨hle, hs⟩ := of_require hs
      obtain ⟨stake, hsub, hs⟩ := of_bind hs
      obtain ⟨-, rfl⟩ := subUint_eq_ok.mp hsub
      obtain rfl := of_pure hs
      exact ⟨hset _ (by omega), rfl, rfl, rfl⟩

lemma schedule (hs : l._scheduleNodeExpiry ts drop = .ok l') :
    l'.Balance now (k - drop) ∧ l'.nodeLastSettledAt = l.nodeLastSettledAt ∧
      l'.nodeStakeV10 = l.nodeStakeV10 ∧
      ∀ t, l'.nodeExpiryDrop t = l.nodeExpiryDrop t + if t = ts then drop else 0 := by
  obtain ⟨-, -, hset⟩ := h.queue.schedule hs
  have hrun := h.running
  have hpend := hset.pendingDrop
  refine ⟨⟨hset.inv, ?_, ?_⟩, hset.lastSettledAt, hset.stake, ?_⟩
  · rw [hset.running, hset.stake]
    omega
  · rw [hset.lastSettledAt]
    exact h.lastSettledAt_le
  · intro t
    rw [hset.drop]
    by_cases ht : t = ts
    · rw [ht, update_self, if_pos rfl]
    · rw [update_of_ne ht, if_neg ht, add_zero]

lemma cancel (hlast : l.nodeLastSettledAt < ts) (hs : l._cancelNodeExpiry ts drop = .ok l') :
    l'.Balance now (k + drop) ∧ l'.nodeLastSettledAt = l.nodeLastSettledAt ∧
      l'.nodeStakeV10 = l.nodeStakeV10 ∧
      ∀ t, l'.nodeExpiryDrop t + (if t = ts then drop else 0) = l.nodeExpiryDrop t := by
  obtain ⟨hle, hset⟩ := h.queue.cancel hlast hs
  have hrun := h.running
  have hpend := hset.pendingDrop
  refine ⟨⟨hset.inv, ?_, ?_⟩, hset.lastSettledAt, hset.stake, ?_⟩
  · rw [hset.running, hset.stake]
    omega
  · rw [hset.lastSettledAt]
    exact h.lastSettledAt_le
  · intro t
    rw [hset.drop]
    by_cases ht : t = ts
    · rw [ht, update_self, if_pos rfl]
      omega
    · rw [update_of_ne ht, if_neg ht, add_zero]

lemma scheduleIf {P : Prop} [Decidable P]
    (hs : (if P then l._scheduleNodeExpiry ts drop else pure l) = .ok l') :
    l'.Balance now (k - if P then drop else 0) ∧
      l'.nodeLastSettledAt = l.nodeLastSettledAt ∧ l'.nodeStakeV10 = l.nodeStakeV10 ∧
      ∀ t, l'.nodeExpiryDrop t = l.nodeExpiryDrop t + if P ∧ t = ts then drop else 0 := by
  by_cases hP : P
  · rw [if_pos hP] at hs
    obtain ⟨hbal, hlast, hstake, hdrop⟩ := h.schedule hs
    exact ⟨by simpa [hP] using hbal, hlast, hstake, by simpa [hP] using hdrop⟩
  · rw [if_neg hP] at hs
    obtain rfl := of_pure hs
    exact ⟨by simpa [hP] using h, rfl, rfl, by simp [hP]⟩

/-- A cancellation behind a condition under which the boost is not drained yet. -/
lemma cancelIf {P : Prop} [Decidable P] (hlast : P → l.nodeLastSettledAt < ts)
    (hs : (if P then l._cancelNodeExpiry ts drop else pure l) = .ok l') :
    l'.Balance now (k + if P then drop else 0) ∧
      l'.nodeLastSettledAt = l.nodeLastSettledAt ∧ l'.nodeStakeV10 = l.nodeStakeV10 ∧
      ∀ t, l'.nodeExpiryDrop t + (if P ∧ t = ts then drop else 0) = l.nodeExpiryDrop t := by
  by_cases hP : P
  · rw [if_pos hP] at hs
    obtain ⟨hbal, hsame, hstake, hdrop⟩ := h.cancel (hlast hP) hs
    exact ⟨by simpa [hP] using hbal, hsame, hstake, by simpa [hP] using hdrop⟩
  · rw [if_neg hP] at hs
    obtain rfl := of_pure hs
    exact ⟨by simpa [hP] using h, rfl, rfl, by simp [hP]⟩

/-- The raw aggregate is on the other side of the balance. -/
lemma setStake (v : ℕ) :
    ({ l with nodeStakeV10 := v } : NodeLedger).Balance now (k + l.nodeStakeV10 - v) := by
  have hq := h.queue
  have hrun := h.running
  refine ⟨⟨hq.head_le, hq.ascending, hq.after, hq.present_iff, hq.drop_eq_zero⟩, ?_,
    h.lastSettledAt_le⟩
  show (l.runningNodeEffectiveStake : ℤ) = v + l.pendingDrop + _
  omega

end Balance

end Dkg.NodeLedger
