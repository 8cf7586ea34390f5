import Dkg.Publisher.Terms

/-! # The rate limiter

`RateLimiter` keeps for every key the times of the events that it allowed in the last `windowMs`
milliseconds. Whatever of them it still keeps, at any later time the same of them count as of all
events that it ever allowed (`Tracks`). The first event of a key that has no bucket goes through
without a look at the limit.
-/

namespace Dkg

open List Function

/-- The numbers are doubles in the code; what is left out is the rounding of `now - windowMs`, which
is none for whole milliseconds below `2^53`. -/
structure RateLimitConfig where
  (maxPerWindow windowMs : ℚ)

structure BucketEntry where
  timestamps : List ℚ
  blocked : Bool

abbrev Buckets := Term → Option BucketEntry

inductive LimiterCall
  | allow (key : Term)
  | cleanup

def LimiterCall.isAllow : LimiterCall → Bool
  | allow _ => true
  | cleanup => false

/-- The buckets, and the times of all events of a key that were allowed. -/
structure Limiter where
  buckets : Buckets
  allowed : Term → List ℚ

namespace RateLimitConfig

variable (c : RateLimitConfig)

/-- The timestamps behind the cutoff. -/
def active (now : ℚ) (timestamps : List ℚ) : List ℚ := timestamps.filter (now - c.windowMs < ·)

def allow (buckets : Buckets) (now : ℚ) (key : Term) : Bool × Buckets :=
  match buckets key with
  | none => (true, update buckets key (some ⟨[now], false⟩))
  | some entry =>
    let timestamps := c.active now entry.timestamps
    if c.maxPerWindow ≤ timestamps.length then
      (false, update buckets key (some ⟨timestamps, true⟩))
    else (true, update buckets key (some ⟨timestamps ++ [now], false⟩))

def wouldAllow (buckets : Buckets) (now : ℚ) (key : Term) : Bool :=
  match buckets key with
  | none => true
  | some entry => decide ((c.active now entry.timestamps).length < c.maxPerWindow)

def remaining (buckets : Buckets) (now : ℚ) (key : Term) : ℚ :=
  match buckets key with
  | none => c.maxPerWindow
  | some entry => max 0 (c.maxPerWindow - (c.active now entry.timestamps).length)

def cleanup (buckets : Buckets) (now : ℚ) : Buckets := fun key =>
  (buckets key).bind fun entry =>
    let timestamps := c.active now entry.timestamps
    if timestamps = [] then none else some { entry with timestamps := timestamps }

def step (s : Limiter) : ℚ × LimiterCall → Limiter
  | (now, .allow key) =>
    let (answer, buckets) := c.allow s.buckets now key
    ⟨buckets, if answer then update s.allowed key (s.allowed key ++ [now]) else s.allowed⟩
  | (now, .cleanup) => { s with buckets := c.cleanup s.buckets now }

/-- The calls and the ticks of the timer, one after the other. -/
def run (calls : List (ℚ × LimiterCall)) : Limiter :=
  calls.foldl c.step ⟨fun _ => none, fun _ => []⟩

/-- The part of the times in `(t - windowMs, t]`. -/
def inWindow (t : ℚ) (times : List ℚ) : List ℚ :=
  times.filter fun x => t - c.windowMs < x ∧ x ≤ t

/-- The calls come one after the other, and none is after `now`. -/
def InOrder (calls : List (ℚ × LimiterCall)) (now : ℚ) : Prop :=
  calls.Pairwise (fun x y => x.1 ≤ y.1) ∧ ∀ x ∈ calls, x.1 ≤ now

/-- **What a limit over a sliding window is**, in every run and for every key. -/
structure IsSlidingWindow : Prop where
  window : ∀ calls now, InOrder calls now → ∀ key t,
    (c.inWindow t ((c.run calls).allowed key)).length ≤ c.maxPerWindow
  refused : ∀ calls now, InOrder calls now → ∀ key,
    (c.allow (c.run calls).buckets now key).1 = false →
      c.maxPerWindow ≤ (c.inWindow now ((c.run calls).allowed key)).length
  peek : ∀ calls now, InOrder calls now → ∀ key,
    (c.allow (c.run calls).buckets now key).1 = c.wouldAllow (c.run calls).buckets now key
  /-- Without the ticks every answer is the same. -/
  cleanup : ∀ calls now, InOrder calls now → ∀ key,
    let ticked := (c.run calls).buckets
    let unticked := (c.run (calls.filter (·.2.isAllow))).buckets
    (c.allow ticked now key).1 = (c.allow unticked now key).1 ∧
      c.wouldAllow ticked now key = c.wouldAllow unticked now key ∧
      c.remaining ticked now key = c.remaining unticked now key

variable {c} {s : Limiter} {buckets : Buckets} {calls : List (ℚ × LimiterCall)} {now t : ℚ}
  {key : Term}

/-! ## What the buckets keep -/

/-- The timestamps in the bucket of a key. -/
def timestampsOf (buckets : Buckets) (key : Term) : List ℚ :=
  ((buckets key).map BucketEntry.timestamps).getD []

lemma active_active (h : now ≤ t) (l : List ℚ) : c.active t (c.active now l) = c.active t l := by
  rw [active, active, filter_filter]
  refine filter_congr fun x _ => ?_
  have : t - c.windowMs < x → now - c.windowMs < x := fun hx => by linarith
  simpa using this

lemma active_append (l l' : List ℚ) : c.active t (l ++ l') = c.active t l ++ c.active t l' :=
  filter_append ..

/-- What a call adds to the timestamps of its key. -/
def added (c : RateLimitConfig) (buckets : Buckets) (now : ℚ) (key : Term) : List ℚ :=
  if (c.allow buckets now key).1 then [now] else []

lemma step_allow (s : Limiter) (now : ℚ) (key : Term) : c.step s (now, .allow key) =
    ⟨update s.buckets key (some ⟨c.active now (timestampsOf s.buckets key) ++
        c.added s.buckets now key, !(c.allow s.buckets now key).1⟩),
      update s.allowed key (s.allowed key ++ c.added s.buckets now key)⟩ := by
  cases hbucket : s.buckets key with
  | none => simp [step, added, allow, timestampsOf, active, hbucket]
  | some entry =>
    by_cases hfull : c.maxPerWindow ≤ (c.active now entry.timestamps).length
    · simp [step, added, allow, timestampsOf, hbucket, hfull]
    · simp [step, added, allow, timestampsOf, hbucket, hfull]

/-- From now on the buckets tell of the allowed events all that counts. -/
structure Tracks (c : RateLimitConfig) (s : Limiter) (now : ℚ) : Prop where
  counts : ∀ key t, now ≤ t → c.active t (timestampsOf s.buckets key) = c.active t (s.allowed key)
  past : ∀ key, ∀ x ∈ s.allowed key, x ≤ now

lemma Tracks.mono (h : c.Tracks s now) (hle : now ≤ t) : c.Tracks s t :=
  ⟨fun key t' ht => h.counts key t' (hle.trans ht), fun key x hx => (h.past key x hx).trans hle⟩

lemma Tracks.allow (h : c.Tracks s now) (key : Term) :
    c.Tracks (c.step s (now, .allow key)) now := by
  rw [step_allow]
  refine ⟨fun key' t ht => ?_, fun key' x hx => ?_⟩
  · by_cases hkey : key' = key
    · subst hkey
      simp only [timestampsOf, update_self, Option.map_some, Option.getD_some,
        active_append, active_active ht]
      rw [← timestampsOf, h.counts key' t ht]
    · simp only [timestampsOf, update_of_ne hkey]
      exact h.counts key' t ht
  · by_cases hkey : key' = key
    · subst hkey
      simp only [update_self, mem_append, added] at hx
      rcases hx with hx | hx
      · exact h.past key' x hx
      · split at hx
        · exact (mem_singleton.mp hx).le
        · cases hx
    · simp only [update_of_ne hkey] at hx
      exact h.past key' x hx

lemma Tracks.cleanup (h : c.Tracks s now) : c.Tracks (c.step s (now, .cleanup)) now := by
  refine ⟨fun key t ht => ?_, h.past⟩
  refine Eq.trans ?_ (h.counts key t ht)
  simp only [step, timestampsOf, RateLimitConfig.cleanup]
  cases s.buckets key with
  | none => rfl
  | some entry =>
    have hkept : c.active t (c.active now entry.timestamps) = c.active t entry.timestamps :=
      active_active ht _
    simp only [Option.bind_some]
    split
    next hnil =>
      rw [hnil] at hkept
      exact hkept
    next => exact hkept

lemma InOrder.of_concat {call : LimiterCall} (h : InOrder (calls ++ [(t, call)]) now) :
    InOrder calls t ∧ t ≤ now := by
  obtain ⟨hcalls, -, hlast⟩ := pairwise_append.mp h.1
  exact ⟨⟨hcalls, fun y hy => hlast y hy _ (mem_singleton.mpr rfl)⟩, h.2 (t, call) (by simp)⟩

lemma InOrder.filter (h : InOrder calls now) (p : ℚ × LimiterCall → Bool) :
    InOrder (calls.filter p) now :=
  ⟨h.1.filter p, fun x hx => h.2 x (mem_of_mem_filter hx)⟩

lemma inOrder_replicate (n : ℕ) (key : Term) : InOrder (replicate n ((0 : ℚ), .allow key)) 0 :=
  ⟨pairwise_replicate.mpr (.inr le_rfl), fun x hx => by rw [eq_of_mem_replicate hx]⟩

lemma run_concat (calls : List (ℚ × LimiterCall)) (x : ℚ × LimiterCall) :
    c.run (calls ++ [x]) = c.step (c.run calls) x := foldl_concat ..

lemma tracks_run (h : InOrder calls now) : c.Tracks (c.run calls) now := by
  induction calls using List.reverseRecOn generalizing now with
  | nil => exact ⟨fun _ _ _ => rfl, fun _ _ hx => absurd hx not_mem_nil⟩
  | append_singleton calls x ih =>
    obtain ⟨t, call⟩ := x
    obtain ⟨hcalls, hle⟩ := h.of_concat
    rw [run_concat]
    cases call with
    | allow key => exact ((ih hcalls).allow key).mono hle
    | cleanup => exact (ih hcalls).cleanup.mono hle

/-! ## The answers -/

lemma wouldAllow_eq (h : 0 < c.maxPerWindow) : c.wouldAllow buckets now key =
    decide ((c.active now (timestampsOf buckets key)).length < c.maxPerWindow) := by
  rw [wouldAllow, timestampsOf]
  cases buckets key with
  | none => simpa [active] using h
  | some entry => rfl

lemma allow_eq_wouldAllow : (c.allow buckets now key).1 = c.wouldAllow buckets now key := by
  rw [allow, wouldAllow]
  cases buckets key with
  | none => rfl
  | some entry =>
    simp only
    split
    next h => exact (decide_eq_false (not_lt.mpr h)).symm
    next h => exact (decide_eq_true (not_le.mp h)).symm

lemma remaining_eq (h : 0 ≤ c.maxPerWindow) : c.remaining buckets now key =
    max 0 (c.maxPerWindow - (c.active now (timestampsOf buckets key)).length) := by
  rw [remaining, timestampsOf]
  cases buckets key with
  | none => simpa [active] using h
  | some entry => rfl

section

variable (hmax : 0 < c.maxPerWindow)

include hmax

variable (h : InOrder calls now)

include h

/-- The answer is that of the allowed events in the window. -/
lemma allow_run : (c.allow (c.run calls).buckets now key).1 =
      decide ((c.active now ((c.run calls).allowed key)).length < c.maxPerWindow) := by
  rw [allow_eq_wouldAllow, wouldAllow_eq hmax, (tracks_run h).counts key now le_rfl]

/-- The ticks do not matter for what is allowed. -/
lemma allowed_filter : (c.run (calls.filter (·.2.isAllow))).allowed = (c.run calls).allowed := by
  induction calls using List.reverseRecOn generalizing now with
  | nil => rfl
  | append_singleton calls x ih =>
    obtain ⟨t, call⟩ := x
    obtain ⟨hcalls, -⟩ := h.of_concat
    have hsame := ih hcalls
    rw [filter_append, run_concat]
    cases call with
    | cleanup =>
      show (c.run (_ ++ [])).allowed = (c.run calls).allowed
      rw [append_nil]
      exact hsame
    | allow key =>
      have hanswer : (c.allow (c.run calls).buckets t key).1 = _ := allow_run hmax hcalls
      rw [← hsame, ← allow_run hmax (hcalls.filter _)] at hanswer
      show (c.run (_ ++ [(t, LimiterCall.allow key)])).allowed = _
      rw [run_concat, step_allow, step_allow]
      simp only [added, hanswer, hsame]

lemma active_filter : c.active now (timestampsOf (c.run calls).buckets key) =
      c.active now (timestampsOf (c.run (calls.filter (·.2.isAllow))).buckets key) := by
  rw [(tracks_run h).counts key now le_rfl, (tracks_run (h.filter _)).counts key now le_rfl,
    allowed_filter hmax h]

lemma wouldAllow_filter : c.wouldAllow (c.run calls).buckets now key =
      c.wouldAllow (c.run (calls.filter (·.2.isAllow))).buckets now key := by
  rw [wouldAllow_eq hmax, wouldAllow_eq hmax, active_filter hmax h]

/-! ## The window -/

end

lemma inWindow_sublist (h : now ≤ t) (l : List ℚ) : c.inWindow t l <+ c.active now l := by
  refine monotone_filter_right l fun x hx => ?_
  have hx := of_decide_eq_true hx
  exact decide_eq_true (by linarith [hx.1])

lemma inWindow_eq_active {l : List ℚ} (h : ∀ x ∈ l, x ≤ now) : c.inWindow now l = c.active now l :=
  filter_congr fun x hx => by simp [h x hx]

lemma window_of_nat {n : ℕ} (hn : c.maxPerWindow = n) (hmax : 0 < c.maxPerWindow)
    (h : InOrder calls now) (key : Term) (t : ℚ) :
    (c.inWindow t ((c.run calls).allowed key)).length ≤ n := by
  induction calls using List.reverseRecOn generalizing now with
  | nil => exact Nat.zero_le n
  | append_singleton calls x ih =>
    obtain ⟨t', call⟩ := x
    obtain ⟨hcalls, -⟩ := h.of_concat
    have hold := ih hcalls
    rw [run_concat]
    cases call with
    | cleanup => exact hold
    | allow key' =>
      rw [step_allow]
      by_cases hkey : key = key'
      · subst hkey
        simp only [update_self, inWindow, filter_append, length_append, added]
        split
        next hanswer =>
          by_cases hin : t - c.windowMs < t' ∧ t' ≤ t
          · -- what counts at `t` beside the new event counted when it came
            rw [allow_run hmax hcalls, decide_eq_true_iff, hn, Nat.cast_lt] at hanswer
            have hle : (c.inWindow t _).length ≤ (c.active t' _).length :=
              (inWindow_sublist hin.2 ((c.run calls).allowed key)).length_le
            simp only [inWindow, filter_cons, hin, and_self, decide_true, if_true, filter_nil,
              length_singleton] at hle ⊢
            omega
          · simp only [filter_cons, hin, decide_false, Bool.false_eq_true, if_false]
            exact hold
        next => exact hold
      · simp only [update_of_ne hkey]
        exact hold

lemma window_of_empty (hw : c.windowMs ≤ 0) (t : ℚ) (l : List ℚ) : c.inWindow t l = [] := by
  refine filter_eq_nil_iff.mpr fun x _ hx => ?_
  obtain ⟨hlt, hle⟩ := of_decide_eq_true hx
  linarith

lemma allowed_replicate (hmax : 0 < c.maxPerWindow) (hw : 0 < c.windowMs) (key : Term) (n : ℕ)
    (hn : n ≤ ⌈c.maxPerWindow⌉₊) :
    (c.run (replicate n (0, .allow key))).allowed key = replicate n 0 := by
  induction n with
  | zero => rfl
  | succ n ih =>
    have hactive : c.active 0 (replicate n 0) = replicate n 0 :=
      filter_eq_self.mpr fun x hx => by simpa [eq_of_mem_replicate hx] using hw
    have hanswer : (c.allow _ 0 key).1 = _ := allow_run hmax (inOrder_replicate n key)
    rw [ih (Nat.le_of_succ_le hn), hactive, length_replicate,
      decide_eq_true (Nat.lt_ceil.mp hn)] at hanswer
    rw [replicate_succ', run_concat, step_allow, replicate_succ']
    simp only [update_self, added, hanswer, if_true, ih (Nat.le_of_succ_le hn)]

/-- **The limiter is a sliding window** just when the limit is a whole number other than zero, or
the window is empty and the limit is not zero. -/
theorem isSlidingWindow_iff (c : RateLimitConfig) (hmax : 0 ≤ c.maxPerWindow) :
    c.IsSlidingWindow ↔
      c.maxPerWindow ≠ 0 ∧ (c.windowMs ≤ 0 ∨ ∃ n : ℕ, c.maxPerWindow = n) := by
  constructor
  · intro h
    have hpos : c.maxPerWindow ≠ 0 := by
      intro hzero
      -- an event, a tick when it no longer counts, and the next event
      have horder : InOrder [(0, .allow []), (max 0 c.windowMs, .cleanup)] (max 0 c.windowMs) :=
        ⟨by simp, by simp [le_total]⟩
      obtain ⟨hanswer, -⟩ := h.cleanup _ _ horder []
      have hgone : c.active (max 0 c.windowMs) [0] = [] := by simp [active]
      simp [run, step, RateLimitConfig.allow, RateLimitConfig.cleanup, LimiterCall.isAllow,
        hgone, hzero] at hanswer
    refine ⟨hpos, or_iff_not_imp_left.mpr fun hw => ?_⟩
    have hlt := lt_of_le_of_ne hmax hpos.symm
    have hcount := h.window _ _ (inOrder_replicate ⌈c.maxPerWindow⌉₊ []) [] 0
    have hall : c.inWindow 0 (replicate ⌈c.maxPerWindow⌉₊ 0) = replicate ⌈c.maxPerWindow⌉₊ 0 :=
      filter_eq_self.mpr fun x hx => by simpa [eq_of_mem_replicate hx] using hw
    rw [allowed_replicate hlt (not_le.mp hw) [] _ le_rfl, hall, length_replicate] at hcount
    exact ⟨_, le_antisymm (Nat.le_ceil _) hcount⟩
  · rintro ⟨hne, hwhole⟩
    have hlt := lt_of_le_of_ne hmax hne.symm
    refine ⟨fun calls now h key t => ?_, fun calls now h key hanswer => ?_,
      fun _ _ _ _ => allow_eq_wouldAllow, fun calls now h key => ?_⟩
    · rcases hwhole with hw | ⟨n, hn⟩
      · rw [window_of_empty hw]
        exact_mod_cast hmax
      · rw [hn]
        exact_mod_cast window_of_nat hn hlt h key t
    · rw [allow_run hlt h, decide_eq_false_iff_not, not_lt] at hanswer
      rwa [inWindow_eq_active ((tracks_run h).past key)]
    · refine ⟨?_, wouldAllow_filter hlt h, ?_⟩
      · rw [allow_eq_wouldAllow, allow_eq_wouldAllow]
        exact wouldAllow_filter hlt h
      · rw [remaining_eq hmax, remaining_eq hmax, active_filter hlt h]

/-- A limit of three events a second. -/
theorem three_in_a_second : (⟨3, 1000⟩ : RateLimitConfig).IsSlidingWindow :=
  (isSlidingWindow_iff ⟨3, 1000⟩ (by norm_num)).mpr ⟨by norm_num, .inr ⟨3, rfl⟩⟩

/-- With a limit of zero the first event of a key is allowed. -/
theorem first_event_allowed : ¬ (⟨0, 1000⟩ : RateLimitConfig).IsSlidingWindow := by
  intro h
  have hcount := h.window [(0, .allow [])] 0 ⟨pairwise_singleton _ _, by simp⟩ [] 0
  norm_num [run, step, RateLimitConfig.allow, inWindow] at hcount

end RateLimitConfig

end Dkg
