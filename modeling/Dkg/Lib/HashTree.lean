import Mathlib.Tactic

/-! # Binary hash trees with a duplicated last node

One level of a pair-hash tree over a list of nodes: neighbours are hashed together, and a node
without a right neighbour is hashed with itself (`parents`). A path is checked by `walk`, which
folds siblings into a node and takes the side of each from the parity of the index.

For an injective pair hash, a walk that ends in a node of the tree determines where it started
(`walk_pins`), and with its length the siblings too (`walk_inj`); a shorter path leads to a node
above the leaves for every index (`exists_walk`). A level determines the level below it among those
of one length (`levelAbove_inj`).
-/

namespace Dkg.Lib

open List

variable {α : Type}

/-- The level above `l`. -/
def parents (h : α → α → α) : List α → List α
  | [] => []
  | [a] => [h a a]
  | a :: b :: t => h a b :: parents h t

/-- The level `k` steps above `l`. -/
def levelAbove (h : α → α → α) (l : List α) (k : ℕ) : List α := (parents h)^[k] l

/-- Fold the siblings `p` into `x`, from index `i` on. -/
def walk (h : α → α → α) : α → ℕ → List α → α
  | x, _, [] => x
  | x, i, s :: p => walk h (if i % 2 = 0 then h x s else h s x) (i / 2) p

variable {h : α → α → α}

lemma levelAbove_succ (l : List α) (k : ℕ) :
    levelAbove h l (k + 1) = levelAbove h (parents h l) k := rfl

lemma levelAbove_succ' (l : List α) (k : ℕ) :
    levelAbove h l (k + 1) = parents h (levelAbove h l k) :=
  Function.iterate_succ_apply' _ _ _

lemma length_parents (l : List α) : (parents h l).length = (l.length + 1) / 2 := by
  induction l using parents.induct with
  | case1 => simp [parents]
  | case2 a => simp [parents]
  | case3 a b t ih =>
    rw [parents, length_cons, ih, length_cons, length_cons]
    omega

/-- A parent hashes the two nodes below it; a missing right node is the left one again. -/
lemma getElem?_parents (l : List α) (m : ℕ) (y : α) (hy : (parents h l)[m]? = some y) :
    ∃ a b, y = h a b ∧ l[2 * m]? = some a ∧
      (l[2 * m + 1]? = some b ∨ l.length = 2 * m + 1) := by
  induction l using parents.induct generalizing m with
  | case1 => simp [parents] at hy
  | case2 a =>
    cases m with
    | zero =>
      refine ⟨a, a, ?_, rfl, .inr rfl⟩
      simpa [parents] using hy.symm
    | succ m => simp [parents] at hy
  | case3 a b t ih =>
    cases m with
    | zero =>
      refine ⟨a, b, ?_, rfl, .inl rfl⟩
      simpa [parents] using hy.symm
    | succ m =>
      rw [parents, getElem?_cons_succ] at hy
      obtain ⟨x, z, hxz, hx, hz⟩ := ih m hy
      refine ⟨x, z, hxz, ?_, ?_⟩
      · rw [show 2 * (m + 1) = 2 * m + 1 + 1 by ring]
        simpa using hx
      · rw [show 2 * (m + 1) = 2 * m + 1 + 1 by ring]
        simpa using hz

lemma mem_parents {l : List α} {y : α} (hy : y ∈ parents h l) :
    ∃ a b, y = h a b ∧ a ∈ l ∧ b ∈ l := by
  induction l using parents.induct with
  | case1 => simp [parents] at hy
  | case2 a =>
    rw [parents, mem_singleton] at hy
    exact ⟨a, a, hy, by simp, by simp⟩
  | case3 a b t ih =>
    rw [parents] at hy
    rcases mem_cons.mp hy with rfl | hy
    · exact ⟨a, b, rfl, by simp, by simp⟩
    · obtain ⟨x, z, hxz, hx, hz⟩ := ih hy
      exact ⟨x, z, hxz, by simp [hx], by simp [hz]⟩

/-- Levels of one length that have the same parents are the same. -/
lemma parents_inj (hinj : Function.Injective2 h) {l l' : List α} (hlen : l.length = l'.length)
    (hp : parents h l = parents h l') : l = l' := by
  induction l using parents.induct generalizing l' with
  | case1 => exact (length_eq_zero_iff.mp hlen.symm).symm
  | case2 a =>
    obtain ⟨b, rfl⟩ := length_eq_one_iff.mp hlen.symm
    rw [parents, parents, singleton_inj] at hp
    rw [(hinj hp).1]
  | case3 a b t ih =>
    match l', hlen with
    | c :: d :: t', hlen =>
      rw [parents, parents, List.cons.injEq] at hp
      obtain ⟨hac, hbd⟩ := hinj hp.1
      have htail : t = t' := by
        apply ih _ hp.2
        simpa using hlen
      rw [hac, hbd, htail]

lemma levelAbove_inj (hinj : Function.Injective2 h) (k : ℕ) {l l' : List α}
    (hlen : l.length = l'.length) (hl : levelAbove h l k = levelAbove h l' k) : l = l' := by
  induction k generalizing l l' with
  | zero => exact hl
  | succ k ih =>
    rw [levelAbove_succ, levelAbove_succ] at hl
    apply parents_inj hinj hlen
    apply ih _ hl
    rw [length_parents, length_parents, hlen]

/-! ## Walks -/

lemma walk_append (x : α) (i : ℕ) (p q : List α) :
    walk h x i (p ++ q) = walk h (walk h x i p) (i / 2 ^ p.length) q := by
  induction p generalizing x i with
  | nil => simp [walk]
  | cons s p ih =>
    rw [cons_append, walk, walk, ih, length_cons, Nat.div_div_eq_div_mul, pow_succ']

/-- A walk over at least one sibling ends in a hash. -/
lemma walk_eq_hash (x : α) (i : ℕ) (p : List α) (hp : p ≠ []) : ∃ a b, walk h x i p = h a b := by
  rw [← dropLast_append_getLast hp, walk_append]
  simp only [walk]
  split
  · exact ⟨_, _, rfl⟩
  · exact ⟨_, _, rfl⟩

/-- **A walk into the tree pins its start.** If the walk from index `i` of a level ends in the
node of the tree above that index, it started in the tree's own node. -/
lemma walk_pins (hinj : Function.Injective2 h) (p : List α) (l : List α) (i : ℕ) (x : α)
    (hi : i < l.length) (hw : (levelAbove h l p.length)[i / 2 ^ p.length]? = some (walk h x i p)) :
    l[i]? = some x := by
  induction p generalizing l i x with
  | nil => simpa [levelAbove, walk] using hw
  | cons s p ih =>
    rw [length_cons, levelAbove_succ, pow_succ', ← Nat.div_div_eq_div_mul, walk] at hw
    have hi2 : i / 2 < (parents h l).length := by
      rw [length_parents]
      omega
    obtain ⟨a, b, hab, ha, hb⟩ := getElem?_parents l (i / 2) _ (ih _ (i / 2) _ hi2 hw)
    by_cases hpar : i % 2 = 0
    · rw [if_pos hpar] at hab
      rw [(hinj hab).1, ← ha]
      congr 1
      omega
    · rw [if_neg hpar] at hab
      rw [(hinj hab).2]
      rcases hb with hb | hb
      · rw [← hb]
        congr 1
        omega
      · omega

/-- Walks of one length from one index that end alike are the same. -/
lemma walk_inj (hinj : Function.Injective2 h) {x y : α} {i : ℕ} {p q : List α}
    (hlen : p.length = q.length) (hw : walk h x i p = walk h y i q) : x = y ∧ p = q := by
  induction p generalizing x y i q with
  | nil =>
    obtain rfl := length_eq_zero_iff.mp hlen.symm
    exact ⟨hw, rfl⟩
  | cons s p ih =>
    obtain ⟨s', q, rfl⟩ := exists_cons_of_length_eq_add_one hlen.symm
    obtain ⟨hhere, rfl⟩ := ih (Nat.succ.inj hlen) hw
    split at hhere
    · exact ⟨(hinj hhere).1, by rw [(hinj hhere).2]⟩
    · exact ⟨(hinj hhere).2, by rw [(hinj hhere).1]⟩

/-- **Short paths.** For every index, a node `k` levels above is the end of a walk over `k`
siblings that starts in a node of the level. -/
lemma exists_walk (k : ℕ) (l : List α) (i : ℕ) (y : α) (hy : y ∈ levelAbove h l k) :
    ∃ x p, p.length = k ∧ x ∈ l ∧ walk h x i p = y := by
  induction k generalizing l i with
  | zero => exact ⟨y, [], rfl, hy, rfl⟩
  | succ k ih =>
    rw [levelAbove_succ] at hy
    obtain ⟨x, p, hp, hx, hw⟩ := ih (parents h l) (i / 2) hy
    obtain ⟨a, b, rfl, ha, hb⟩ := mem_parents hx
    by_cases hpar : i % 2 = 0
    · refine ⟨a, b :: p, by simp [hp], ha, ?_⟩
      rw [walk, if_pos hpar, hw]
    · refine ⟨b, a :: p, by simp [hp], hb, ?_⟩
      rw [walk, if_neg hpar, hw]

/-! ## The height -/

/-- `⌈log₂ n⌉` levels above `n ≥ 1` nodes there is one node. -/
lemma length_levelAbove_clog (l : List α) (hl : l ≠ []) :
    (levelAbove h l (Nat.clog 2 l.length)).length = 1 := by
  induction hn : l.length using Nat.strong_induction_on generalizing l with
  | _ n ih =>
    subst hn
    have hpos := length_pos_of_ne_nil hl
    by_cases h2 : 2 ≤ l.length
    · rw [Nat.clog_of_two_le (by norm_num) h2, levelAbove_succ]
      have hlen : (parents h l).length = (l.length + 2 - 1) / 2 := length_parents l
      have hne : parents h l ≠ [] := by
        apply ne_nil_of_length_pos
        omega
      have := ih (parents h l).length (by omega) (parents h l) hne rfl
      rwa [hlen] at this
    · have h1 : l.length = 1 := by omega
      rw [h1, Nat.clog_one_right]
      exact h1

end Dkg.Lib
