import Mathlib.Tactic

/-! # Maps in the order of insertion

A finite map kept as the list of its entries. Setting a key that is there keeps its place, and a new
key goes to the end; no key is there twice.
-/

namespace Dkg.Lib

open List

/-- The entries of a map, with every key once. -/
structure KeyedList (κ α : Type) where
  entries : List (κ × α)
  nodup : (entries.map Prod.fst).Nodup

namespace KeyedList

variable {κ α : Type} [DecidableEq κ] {m : KeyedList κ α} {k k' : κ} {v v' : α}

def empty : KeyedList κ α := ⟨[], nodup_nil⟩

def keys (m : KeyedList κ α) : List κ := m.entries.map Prod.fst

def size (m : KeyedList κ α) : ℕ := m.entries.length

def get (m : KeyedList κ α) (k : κ) : Option α :=
  (m.entries.find? fun e => e.1 = k).map Prod.snd

/-- The entries with another value for a key that is there. -/
def overwrite (entries : List (κ × α)) (k : κ) (v : α) : List (κ × α) :=
  entries.map fun e => if e.1 = k then (k, v) else e

lemma overwrite_keys (entries : List (κ × α)) (k : κ) (v : α) :
    (overwrite entries k v).map Prod.fst = entries.map Prod.fst := by
  induction entries with
  | nil => rfl
  | cons e rest ih =>
    unfold overwrite at ih ⊢
    rw [map_cons, map_cons, map_cons, ih]
    by_cases h : e.1 = k
    · simp [h]
    · simp [h]

def set (m : KeyedList κ α) (k : κ) (v : α) : KeyedList κ α :=
  if h : k ∈ m.keys then ⟨overwrite m.entries k v, by rw [overwrite_keys]; exact m.nodup⟩
  else ⟨m.entries ++ [(k, v)], by
    rw [map_append, map_singleton, ← concat_eq_append]
    exact m.nodup.concat h⟩

def erase (m : KeyedList κ α) (k : κ) : KeyedList κ α :=
  ⟨m.entries.filter fun e => e.1 ≠ k, m.nodup.sublist (filter_sublist.map _)⟩

lemma mem_of_get (h : m.get k = some v) : (k, v) ∈ m.entries := by
  obtain ⟨⟨k', v'⟩, hfind, rfl⟩ := Option.map_eq_some_iff.mp h
  have hkey : k' = k := by simpa using find?_some hfind
  rw [← hkey]
  exact mem_of_find?_eq_some hfind

lemma exists_get_of_mem_keys (h : k ∈ m.keys) : ∃ v, m.get k = some v := by
  obtain ⟨e, he, rfl⟩ := mem_map.mp h
  have hfind : (m.entries.find? fun e' => e'.1 = e.1).isSome := by
    rw [find?_isSome]
    exact ⟨e, he, by simp⟩
  obtain ⟨e', he'⟩ := Option.isSome_iff_exists.mp hfind
  exact ⟨e'.2, by simp [get, he']⟩

/-- An entry after a write is the written one, or an old one under another key. -/
lemma mem_set (h : (k', v') ∈ (m.set k v).entries) :
    (k' = k ∧ v' = v) ∨ (k' ≠ k ∧ (k', v') ∈ m.entries) := by
  unfold set at h
  split at h
  next =>
    obtain ⟨e, he, heq⟩ := mem_map.mp h
    split at heq
    next => exact .inl (by simpa [eq_comm] using heq)
    next hne =>
      subst heq
      exact .inr ⟨hne, he⟩
  next hnew =>
    rcases mem_append.mp h with hold | hold
    · refine .inr ⟨?_, hold⟩
      rintro rfl
      exact hnew (mem_map_of_mem hold)
    · exact .inl (by simpa using hold)

lemma mem_erase (h : (k', v') ∈ (m.erase k).entries) : k' ≠ k ∧ (k', v') ∈ m.entries := by
  obtain ⟨hmem, hne⟩ := mem_filter.mp h
  exact ⟨by simpa using hne, hmem⟩

lemma find_overwrite (entries : List (κ × α)) (hk : k ∈ entries.map Prod.fst) :
    ((overwrite entries k v).find? fun e => e.1 = k) = some (k, v) := by
  induction entries with
  | nil => cases hk
  | cons e rest ih =>
    by_cases h : e.1 = k
    · simp [overwrite, h]
    · have hrest : k ∈ rest.map Prod.fst := by simpa [Ne.symm h] using hk
      simpa [overwrite, h] using ih hrest

lemma find_overwrite_of_ne (entries : List (κ × α)) (hne : k' ≠ k) :
    ((overwrite entries k v).find? fun e => e.1 = k') = entries.find? fun e => e.1 = k' := by
  induction entries with
  | nil => rfl
  | cons e rest ih =>
    unfold overwrite at ih ⊢
    by_cases h : e.1 = k
    · simp only [map_cons, h, if_true, find?_cons, Ne.symm hne, decide_false, ih]
    · simp only [map_cons, h, if_false, find?_cons, ih]

lemma get_set_self : (m.set k v).get k = some v := by
  unfold set get
  split
  next hk => rw [find_overwrite m.entries hk, Option.map_some]
  next hk =>
    have hnone : (m.entries.find? fun e => e.1 = k) = none := by
      rw [find?_eq_none]
      intro e he heq
      exact hk (of_decide_eq_true heq ▸ mem_map_of_mem he)
    simp [find?_append, hnone]

lemma get_set_of_ne (hne : k' ≠ k) : (m.set k v).get k' = m.get k' := by
  unfold set get
  split
  next => rw [find_overwrite_of_ne m.entries hne]
  next => simp [find?_append, Ne.symm hne]

lemma get_erase_of_ne (hne : k' ≠ k) : (m.erase k).get k' = m.get k' := by
  have hfilter : ((m.entries.filter fun e => e.1 ≠ k).find? fun e => e.1 = k') =
      m.entries.find? fun e => e.1 = k' := by
    rw [find?_filter]
    congr 1
    funext e
    by_cases h : e.1 = k'
    · simp [h, hne]
    · simp [h]
  unfold erase get
  rw [hfilter]

lemma get_of_mem (h : (k, v) ∈ m.entries) : m.get k = some v := by
  obtain ⟨v', hv'⟩ := exists_get_of_mem_keys (m := m) (mem_map_of_mem h)
  have hmem := mem_of_get hv'
  have heq : ((k, v') : κ × α) = (k, v) := inj_on_of_nodup_map m.nodup hmem h rfl
  rw [hv', (Prod.mk.inj heq).2]

/-- Writing keys that are not there, one after the other. -/
lemma entries_foldl_set {ks : List κ} (hks : ks.Nodup) (hnew : ∀ k ∈ ks, k ∉ m.keys) (f : κ → α) :
    (ks.foldl (fun m k => m.set k (f k)) m).entries = m.entries ++ ks.map fun k => (k, f k) := by
  induction ks generalizing m with
  | nil => simp
  | cons k ks ih =>
    obtain ⟨hnot, hks⟩ := nodup_cons.mp hks
    have hset : (m.set k (f k)).entries = m.entries ++ [(k, f k)] := by
      unfold set
      rw [dif_neg (hnew k mem_cons_self)]
    rw [foldl_cons, ih hks, hset]
    · simp
    · intro k' hk' hmem
      have hne : k' ≠ k := fun heq => hnot (heq ▸ hk')
      rw [keys, hset] at hmem
      simp only [map_append, map_cons, map_nil, mem_append, mem_singleton, hne, or_false] at hmem
      exact hnew k' (mem_cons_of_mem _ hk') hmem

/-- A map of lists with `x` added at the end of the list under `k`, when there is one. -/
def push {β : Type} (m : KeyedList κ (List β)) (k : κ) (x : β) : KeyedList κ (List β) :=
  match m.get k with
  | some xs => m.set k (xs ++ [x])
  | none => m

lemma entries_push {β : Type} (m : KeyedList κ (List β)) (k : κ) (x : β) :
    (m.push k x).entries = m.entries.map fun e => (e.1, if e.1 = k then e.2 ++ [x] else e.2) := by
  unfold push
  split
  next xs hget =>
    have hk : k ∈ m.keys := mem_map_of_mem (mem_of_get hget)
    unfold set
    rw [dif_pos hk]
    refine map_congr_left fun e he => ?_
    obtain ⟨k', v⟩ := e
    by_cases h : k' = k
    · subst h
      have hv : xs = v := Option.some.inj (hget.symm.trans (get_of_mem he))
      simp [hv]
    · simp [h]
  next hget =>
    refine (map_id m.entries).symm.trans (map_congr_left fun e he => ?_)
    have hne : e.1 ≠ k := by
      rintro rfl
      rw [get_of_mem he] at hget
      cases hget
    simp [hne]

/-- The same without a key, which adds nothing. -/
def pushAt {β : Type} (m : KeyedList κ (List β)) (k : Option κ) (x : β) : KeyedList κ (List β) :=
  match k with
  | some k => m.push k x
  | none => m

/-- Elements added under their keys, one after the other. -/
lemma entries_foldl_pushAt {β : Type} (key : β → Option κ) (xs : List β)
    (m : KeyedList κ (List β)) :
    (xs.foldl (fun m x => m.pushAt (key x) x) m).entries =
      m.entries.map fun e => (e.1, e.2 ++ xs.filter fun x => key x = some e.1) := by
  induction xs generalizing m with
  | nil => simp
  | cons x xs ih =>
    rw [foldl_cons, ih]
    cases hx : key x with
    | none => simp [pushAt, hx]
    | some k =>
      simp only [pushAt, entries_push, map_map]
      refine map_congr_left fun e _ => ?_
      by_cases h : e.1 = k
      · simp [hx, h]
      · simp [hx, h, Ne.symm h]

/-- A map of lists with `x` added at the end of the list under `k`, which may be new. -/
def append {β : Type} (m : KeyedList κ (List β)) (k : κ) (x : β) : KeyedList κ (List β) :=
  m.set k ((m.get k).getD [] ++ [x])

/-- The same for an element that may have no place. -/
def appendAt {β : Type} (m : KeyedList κ (List β)) : Option (κ × β) → KeyedList κ (List β)
  | some e => m.append e.1 e.2
  | none => m

lemma getD_append {β : Type} (m : KeyedList κ (List β)) (k k' : κ) (x : β) :
    ((m.append k x).get k').getD [] = (m.get k').getD [] ++ if k = k' then [x] else [] := by
  by_cases h : k' = k
  · subst h
    simp [append, get_set_self]
  · simp [append, get_set_of_ne h, Ne.symm h]

/-- Elements added one after the other: the list under `k` has those that belong there. -/
lemma getD_foldl_appendAt {β γ : Type} (place : γ → Option (κ × β)) (xs : List γ)
    (m : KeyedList κ (List β)) (k : κ) :
    ((xs.foldl (fun m x => m.appendAt (place x)) m).get k).getD [] = (m.get k).getD [] ++
      xs.filterMap fun x => (place x).bind fun e => if e.1 = k then some e.2 else none := by
  induction xs generalizing m with
  | nil => simp
  | cons x xs ih =>
    rw [foldl_cons, ih]
    cases hx : place x with
    | none => simp [appendAt, hx]
    | some e =>
      by_cases h : e.1 = k
      · simp [appendAt, hx, getD_append, h]
      · simp [appendAt, hx, getD_append, h]

/-- Elements set one after the other: under a key stands the last one that has it. -/
lemma get_foldl_set {β : Type} (key : β → κ) (value : β → α) (xs : List β) (m : KeyedList κ α)
    (k : κ) : (xs.foldl (fun m x => m.set (key x) (value x)) m).get k =
      ((xs.reverse.find? fun x => key x = k).map value).or (m.get k) := by
  induction xs generalizing m with
  | nil => rfl
  | cons x xs ih =>
    rw [foldl_cons, ih, reverse_cons, find?_append]
    cases hrest : xs.reverse.find? fun x => key x = k with
    | some y => simp
    | none =>
      by_cases hx : key x = k
      · subst hx
        simp [get_set_self]
      · simp [get_set_of_ne (Ne.symm hx), hx]

lemma keys_set : (m.set k v).keys = if k ∈ m.keys then m.keys else m.keys ++ [k] := by
  unfold set keys
  by_cases h : k ∈ m.entries.map Prod.fst
  · simp [h, overwrite_keys]
  · simp [h]

/-- The keys do not depend on the values. -/
lemma keys_foldl_set {β : Type} (key : β → κ) (value value' : β → α) (xs : List β)
    (m m' : KeyedList κ α) (h : m.keys = m'.keys) :
    (xs.foldl (fun m x => m.set (key x) (value x)) m).keys =
      (xs.foldl (fun m x => m.set (key x) (value' x)) m').keys := by
  induction xs generalizing m m' with
  | nil => exact h
  | cons x xs ih => exact ih _ _ (by rw [keys_set, keys_set, h])

/-- A map is known by its keys, in their order, and the values under them. -/
lemma ext_get {m m' : KeyedList κ α} (hkeys : m.keys = m'.keys) (hget : ∀ k, m.get k = m'.get k) :
    m = m' := by
  have hvalues : ∀ m : KeyedList κ α, m.entries.map (fun e => (e.1, some e.2)) =
      m.keys.map fun k => (k, m.get k) := by
    intro m
    rw [keys, map_map]
    exact map_congr_left fun e he => by
      rw [Function.comp_apply, get_of_mem (k := e.1) (v := e.2) he]
  have hentries : m.entries.map (fun e => (e.1, some e.2)) =
      m'.entries.map fun e => (e.1, some e.2) := by
    rw [hvalues, hvalues, hkeys]
    exact map_congr_left fun k _ => by rw [hget]
  have hinjective : Function.Injective fun e : κ × α => (e.1, some e.2) := by
    rintro ⟨k, v⟩ ⟨k', v'⟩ heq
    simpa using heq
  obtain ⟨entries, _⟩ := m
  obtain ⟨entries', _⟩ := m'
  cases map_injective_iff.mpr hinjective hentries
  rfl

lemma mem_keys_iff : k ∈ m.keys ↔ ∃ v, m.get k = some v :=
  ⟨exists_get_of_mem_keys, fun ⟨_, h⟩ => mem_map_of_mem (mem_of_get h)⟩

end KeyedList

end Dkg.Lib
