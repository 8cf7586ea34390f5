import Dkg.Lib.Checkpoints

/-! # Integrals over checkpoints

A cumulative value grows from checkpoint to checkpoint. The integral of a weight over a list of
checkpoints adds up the weight at the time of each one times the growth of the value at it. For the
weight that is one up to a time it is the growth of the value up to that time, read at that time.
-/

namespace Dkg.Lib

open List

variable {α : Type} {time val : α → ℕ} {w w' : ℕ → ℕ}

/-- The integral of the weight over the checkpoints after the value `v`. -/
def integral (time val : α → ℕ) (w : ℕ → ℕ) : ℕ → List α → ℕ
  | _, [] => 0
  | v, x :: l => w (time x) * (val x - v) + integral time val w (val x) l

/-- The value after the checkpoints, from the value `v` on. -/
def valueAfter (val : α → ℕ) : ℕ → List α → ℕ
  | v, [] => v
  | _, x :: l => valueAfter val (val x) l

lemma valueAfter_concat (v : ℕ) (l : List α) (x : α) : valueAfter val v (l ++ [x]) = val x := by
  induction l generalizing v with
  | nil => rfl
  | cons y l ih => exact ih (val y)

lemma integral_concat (v : ℕ) (l : List α) (x : α) : integral time val w v (l ++ [x])
    = integral time val w v l + w (time x) * (val x - valueAfter val v l) := by
  induction l generalizing v with
  | nil => simp [integral, valueAfter]
  | cons y l ih =>
    show w (time y) * (val y - v) + integral time val w (val y) (l ++ [x]) = _
    rw [ih (val y), ← Nat.add_assoc]
    rfl

variable {l l₀ : List α} {v T : ℕ} {x : α}

/-- Weights that agree at the times of the checkpoints. -/
lemma integral_congr (h : ∀ x ∈ l, w (time x) = w' (time x)) (v : ℕ) :
    integral time val w v l = integral time val w' v l := by
  induction l generalizing v with
  | nil => rfl
  | cons x l ih =>
    show w (time x) * _ + _ = w' (time x) * _ + _
    rw [h x mem_cons_self, ih fun y hy => h y (mem_cons_of_mem x hy)]

lemma integral_linear (time val : α → ℕ) (w w' : ℕ → ℕ) (a b v : ℕ) (l : List α) :
    integral time val (fun t => a * w t + b * w' t) v l
      = a * integral time val w v l + b * integral time val w' v l := by
  induction l generalizing v with
  | nil => rfl
  | cons x l ih =>
    show (a * w (time x) + b * w' (time x)) * (val x - v) + integral time val _ (val x) l = _
    rw [ih (val x)]
    show _ = a * (w (time x) * _ + _) + b * (w' (time x) * _ + _)
    ring

/-- The weight that is one on the times with the property. -/
def indicator (p : ℕ → Prop) [DecidablePred p] (t : ℕ) : ℕ := if p t then 1 else 0

/-- The growth of the value at the checkpoints whose times have the property. -/
def growth (time val : α → ℕ) (p : ℕ → Prop) [DecidablePred p] (v : ℕ) (l : List α) : ℕ :=
  integral time val (indicator p) v l

lemma growth_concat (p : ℕ → Prop) [DecidablePred p] (v : ℕ) (l : List α) (x : α) :
    growth time val p v (l ++ [x]) = growth time val p v l
      + if p (time x) then val x - valueAfter val v l else 0 := by
  unfold growth
  rw [integral_concat]
  unfold indicator
  split
  next => rw [Nat.one_mul]
  next => rw [Nat.zero_mul]

/-- The value never falls. -/
def Rising (val : α → ℕ) (v : ℕ) (l : List α) : Prop :=
  (∀ x ∈ l, v ≤ val x) ∧ l.Pairwise fun x y => val x ≤ val y

lemma Rising.init (h : Rising val v (l ++ [x])) : Rising val v l :=
  ⟨fun y hy => h.1 y (mem_append_left _ hy), (pairwise_append.mp h.2).1⟩

lemma Rising.le_valueAfter (h : Rising val v l) : v ≤ valueAfter val v l := by
  induction l using reverseRecOn with
  | nil => exact le_refl v
  | append_singleton l x ih =>
    rw [valueAfter_concat]
    exact h.1 x (mem_append_right _ (mem_singleton_self x))

lemma Rising.valueAfter_le (h : Rising val v (l ++ [x])) : valueAfter val v l ≤ val x := by
  induction l using reverseRecOn with
  | nil => exact h.1 x (mem_singleton_self x)
  | append_singleton l y ih =>
    rw [valueAfter_concat]
    have hpair := (pairwise_append.mp h.2).2.2
    exact hpair y (mem_append_right _ (mem_singleton_self y)) x (mem_singleton_self x)

/-- **All growth** is the difference of the values at the ends. -/
lemma growth_all (h : Rising val v l) :
    v + growth time val (fun _ => True) v l = valueAfter val v l := by
  induction l using reverseRecOn with
  | nil => rfl
  | append_singleton l x ih =>
    have hle := h.valueAfter_le
    have hind := ih h.init
    rw [growth_concat, if_pos trivial, valueAfter_concat]
    omega

lemma growth_or (time val : α → ℕ) {p q r : ℕ → Prop} [DecidablePred p] [DecidablePred q]
    [DecidablePred r] (hr : ∀ t, r t ↔ p t ∨ q t) (hpq : ∀ t, p t → ¬ q t) (v : ℕ) (l : List α) :
    growth time val r v l = growth time val p v l + growth time val q v l := by
  have hsum := integral_linear time val (indicator p) (indicator q) 1 1 v l
  rw [Nat.one_mul, Nat.one_mul] at hsum
  refine Eq.trans (integral_congr (fun x _ => ?_) v) hsum
  unfold indicator
  by_cases hp : p (time x)
  · simp [hp, hpq _ hp, (hr (time x)).mpr (.inl hp)]
  · by_cases hq : q (time x)
    · simp [hp, hq, (hr (time x)).mpr (.inr hq)]
    · have hneither : ¬ r (time x) := fun h => ((hr (time x)).mp h).elim hp hq
      simp [hp, hq, hneither]

/-- A weight with one value before a time and another from it on. -/
lemma integral_split {a b : ℕ} (h : ∀ t, w t = if t < T then a else b) (v : ℕ) (l : List α) :
    integral time val w v l
      = a * growth time val (· < T) v l + b * growth time val (T ≤ ·) v l := by
  unfold growth
  rw [← integral_linear]
  refine integral_congr (fun x _ => ?_) v
  rw [h]
  unfold indicator
  by_cases ht : time x < T
  · simp [ht, not_le.mpr ht]
  · simp [ht, not_lt.mp ht]

lemma valueAt_of_gt (h : ∀ x ∈ l, T < time x) : valueAt time val l T = 0 := by
  have hnone : (l.filter fun x => decide (time x ≤ T)) = [] :=
    filter_eq_nil_iff.mpr fun x hx => by simpa using h x hx
  unfold valueAt
  rw [hnone]
  rfl

lemma lastValue_append (hv : lastValue val l₀ = v) (l : List α) :
    lastValue val (l₀ ++ l) = valueAfter val v l := by
  induction l using reverseRecOn with
  | nil =>
    rw [append_nil]
    exact hv
  | append_singleton l x _ => rw [← append_assoc, lastValue_concat, valueAfter_concat]

/-- **Growth up to a time** is the value read at that time, less the value before. The checkpoints
follow those in `l₀`, the last of which has the value `v`. -/
lemma growth_upTo (hv : lastValue val l₀ = v) (hbelow : ∀ x ∈ l₀, val x ≤ v)
    (hrising : Rising val v l) (hordered : (l₀ ++ l).Pairwise fun x y => time x < time y) (T : ℕ) :
    growth time val (· ≤ T) v l = valueAt time val (l₀ ++ l) T - v := by
  induction l using reverseRecOn with
  | nil =>
    rw [append_nil, Nat.sub_eq_zero_of_le (valueAt_le hbelow T)]
    rfl
  | append_singleton l x ih =>
    rw [← append_assoc] at hordered ⊢
    have hbefore := (pairwise_append.mp hordered).1
    rw [growth_concat, ih hrising.init hbefore, valueAt_concat]
    split
    next hx =>
      have hpast : ∀ y ∈ l₀ ++ l, time y ≤ T := fun y hy =>
        ((pairwise_append.mp hordered).2.2 y hy x (mem_singleton_self x)).le.trans hx
      rw [valueAt_of_le hpast, lastValue_append hv]
      have hle := hrising.valueAfter_le
      have hlow := hrising.init.le_valueAfter
      omega
    next => rw [Nat.add_zero]

end Dkg.Lib
