import Mathlib.Data.Finset.Card
import Mathlib.Data.List.Perm.Basic

/-! # Groups of a list

Sorting the elements of a list into groups by a partial key loses only the elements without a key
among the given ones (`flatMap_filter_perm`). When a renaming of the elements' names gives the same
names, with multiplicities, as another way to name them that tells different names apart, then that
way is a renaming too (`names_agree`).
-/

namespace Dkg.Lib

open scoped List

variable {α β κ : Type}

section

variable [DecidableEq κ]

lemma flatMap_single {keys : List κ} (hkeys : keys.Nodup) (k : κ) (b : β) :
    (keys.flatMap fun k' => if k = k' then [b] else []) = if k ∈ keys then [b] else [] := by
  induction keys with
  | nil => simp
  | cons k' keys ih =>
    obtain ⟨hnot, hkeys⟩ := List.nodup_cons.mp hkeys
    rw [List.flatMap_cons, ih hkeys]
    by_cases h : k = k'
    · subst h
      simp [hnot]
    · simp [h]

def underKey (keys : List κ) (key : α → Option κ) (f : κ → α → β) (x : α) : Option β :=
  ((key x).filter (· ∈ keys)).map (f · x)

lemma flatMap_filter_perm {keys : List κ} (hkeys : keys.Nodup) (key : α → Option κ)
    (f : κ → α → β) (l : List α) :
    (keys.flatMap fun k => (l.filter fun x => key x = some k).map (f k)).Perm
      (l.filterMap (underKey keys key f)) := by
  induction l with
  | nil => simp
  | cons x l ih =>
    have hfirst : (keys.flatMap fun k => if key x = some k then [f k x] else []) =
        (underKey keys key f x).toList := by
      cases hx : key x with
      | none => simp [underKey, hx]
      | some k =>
        have hswap : (keys.flatMap fun k' => if some k = some k' then [f k' x] else []) =
            keys.flatMap fun k' => if k = k' then [f k x] else [] := by
          congr 1
          funext k'
          by_cases h : k = k'
          · simp [h]
          · simp [h]
        rw [hswap, flatMap_single hkeys]
        by_cases hk : k ∈ keys
        · simp [underKey, hx, hk, Option.filter]
        · simp [underKey, hx, hk, Option.filter]
    calc keys.flatMap (fun k => ((x :: l).filter fun x => key x = some k).map (f k))
        = keys.flatMap (fun k => (if key x = some k then [f k x] else []) ++
            (l.filter fun x => key x = some k).map (f k)) := by
          congr 1
          funext k
          by_cases h : key x = some k
          · simp [h]
          · simp [h]
      _ ~ keys.flatMap (fun k => if key x = some k then [f k x] else []) ++
            keys.flatMap (fun k => (l.filter fun x => key x = some k).map (f k)) :=
          (List.flatMap_append_perm _ _ _).symm
      _ ~ (underKey keys key f x).toList ++ l.filterMap (underKey keys key f) := by
          rw [hfirst]
          exact ih.append_left _
      _ = (x :: l).filterMap (underKey keys key f) := by
          cases hx : underKey keys key f x with
          | none | some b => simp [hx]

end

/-- Two maps of a list that agree outside some of its elements agree on these, up to order. -/
lemma perm_filter_of_perm {p : α → Prop} [DecidablePred p] {f g : α → β} {l : List α}
    (hperm : (l.map f).Perm (l.map g)) (hsame : ∀ x ∈ l, ¬ p x → f x = g x) :
    ((l.filter p).map f).Perm ((l.filter p).map g) := by
  have hsplit : ∀ h : α → β, (l.map h).Perm
      ((l.filter p).map h ++ (l.filter fun x => ¬ p x).map h) := by
    intro h
    rw [← List.map_append]
    have := (List.filter_append_perm (fun x => decide (p x)) l).map h
    simpa using this.symm
  have hrest : (l.filter fun x => ¬ p x).map f = (l.filter fun x => ¬ p x).map g := by
    refine List.map_congr_left fun x hx => hsame x (List.mem_of_mem_filter hx) ?_
    simpa using List.of_mem_filter hx
  have hboth := (hsplit f).symm.trans (hperm.trans (hsplit g))
  rw [hrest] at hboth
  exact (List.perm_append_right_iff _).mp hboth

lemma names_agree {ν : Type} {own : α → ν} {f : α → β} {ρ : ν → β} {l : List α}
    (hperm : (l.map f).Perm (l.map fun x => ρ (own x)))
    (hrho : ∀ x ∈ l, ∀ y ∈ l, ρ (own x) = ρ (own y) → own x = own y)
    (hown : ∀ x ∈ l, ∀ y ∈ l, f x = f y → own x = own y) {x y : α} (hx : x ∈ l) (hy : y ∈ l)
    (h : own x = own y) : f x = f y := by
  classical
  have hcard : (l.toFinset.image f).card = (l.toFinset.image own).card := by
    have himage : l.toFinset.image f = (l.toFinset.image own).image ρ := by
      ext b
      simpa [eq_comm] using hperm.mem_iff (a := b)
    rw [himage]
    refine Finset.card_image_of_injOn fun n hn n' hn' hnn' => ?_
    obtain ⟨x, hx, rfl⟩ := Finset.mem_image.mp hn
    obtain ⟨y, hy, rfl⟩ := Finset.mem_image.mp hn'
    exact hrho x (List.mem_toFinset.mp hx) y (List.mem_toFinset.mp hy) hnn'
  -- the pairs of both names are as many as either of them
  let pairs := l.toFinset.image fun x => (f x, own x)
  have hfst : pairs.card = (l.toFinset.image f).card := by
    have himage : l.toFinset.image f = pairs.image Prod.fst := by
      simp [pairs, Finset.image_image, Function.comp_def]
    rw [himage]
    refine (Finset.card_image_of_injOn fun a ha b hb hab => ?_).symm
    obtain ⟨x, hx, rfl⟩ := Finset.mem_image.mp ha
    obtain ⟨y, hy, rfl⟩ := Finset.mem_image.mp hb
    exact Prod.ext hab (hown x (List.mem_toFinset.mp hx) y (List.mem_toFinset.mp hy) hab)
  have hsnd : (pairs.image Prod.snd).card = pairs.card := by
    rw [hfst, hcard]
    simp [pairs, Finset.image_image, Function.comp_def]
  have hinj := Finset.card_image_iff.mp hsnd
  have hpair : ∀ x ∈ l, (f x, own x) ∈ (pairs : Set (β × ν)) := by
    intro x hx
    exact Finset.mem_coe.mpr (Finset.mem_image_of_mem _ (List.mem_toFinset.mpr hx))
  exact congrArg Prod.fst (hinj (hpair x hx) (hpair y hy) h)

end Dkg.Lib
