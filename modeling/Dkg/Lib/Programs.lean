import Dkg.Lib.Machine

/-! # Programs that call operations

A program ends with a value, raises an error, or calls an operation and goes on with the answer.
Tasks run programs against one shared state, one operation at a time and in any order, and a crash
cuts all of them off (`System`).

A `CallContract` says what a program promises at each call and what it relies on about the answer.
Both may speak of an account of its calls so far, which the contract keeps; the program does not see
it. `Prog.Keeps` is proved along the text of a program, once for each, and `System.outline` makes it
an invariant of all runs.
-/

namespace Dkg.Lib

open List Function

/-- A program that calls operations and goes on with their answers. -/
inductive Prog (Op : Type) (Ans : Op → Type) (ε α : Type)
  | done (a : α)
  | raise (e : ε)
  | call (op : Op) (k : Ans op → Prog Op Ans ε α)

/-- What a program promises and relies on, and the account that this speaks of. -/
structure CallContract (Op : Type) (Ans : Op → Type) (Q : Type) where
  start : Q
  pre : Q → Op → Prop
  post : Q → (op : Op) → Ans op → Prop
  next : Q → (op : Op) → Ans op → Q

namespace Prog

variable {Op : Type} {Ans : Op → Type} {ε α β Q : Type}

def perform (op : Op) : Prog Op Ans ε (Ans op) := call op done

def bind : Prog Op Ans ε α → (α → Prog Op Ans ε β) → Prog Op Ans ε β
  | done a, f => f a
  | raise e, _ => raise e
  | call op k, f => call op fun ans => (k ans).bind f

instance monad : Monad (Prog Op Ans ε) where
  pure := done
  bind := bind

/-- The part of a `try` block: its error is a value. -/
def attempt : Prog Op Ans ε α → Prog Op Ans ε (Except ε α)
  | done a => done (.ok a)
  | raise e => done (.error e)
  | call op k => call op fun ans => (k ans).attempt

/-- `try { .. } finally`. -/
def ensuring : Prog Op Ans ε α → Prog Op Ans ε Unit → Prog Op Ans ε α
  | done a, final => final.bind fun _ => done a
  | raise e, final => final.bind fun _ => raise e
  | call op k, final => call op fun ans => (k ans).ensuring final

def ofExcept : Except ε α → Prog Op Ans ε α
  | .ok a => done a
  | .error e => raise e

/-! ## Keeping a contract -/

/-- The program keeps the contract from the account `q` on, and ends in `Φ`. -/
def Keeps (C : CallContract Op Ans Q) (Φ : Q → Except ε α → Prop) : Prog Op Ans ε α → Q → Prop
  | done a, q => Φ q (.ok a)
  | raise e, q => Φ q (.error e)
  | call op k, q => C.pre q op ∧ ∀ ans, C.post q op ans → (k ans).Keeps C Φ (C.next q op ans)

variable {C : CallContract Op Ans Q} {Φ Ψ : Q → Except ε α → Prop} {q : Q}

variable {p : Prog Op Ans ε α} {f : α → Prog Op Ans ε β} {Χ : Q → Except ε β → Prop}

lemma Keeps.mono (h : p.Keeps C Φ q) (hΦ : ∀ q r, Φ q r → Ψ q r) : p.Keeps C Ψ q := by
  induction p generalizing q with
  | done a | raise e => exact hΦ q _ h
  | call op k ih => exact ⟨h.1, fun ans hans => ih ans (h.2 ans hans)⟩

lemma Keeps.bind (h : p.Keeps C Φ q) (hok : ∀ q a, Φ q (.ok a) → (f a).Keeps C Χ q)
    (herr : ∀ q e, Φ q (.error e) → Χ q (.error e)) : (p >>= f).Keeps C Χ q := by
  show (p.bind f).Keeps C Χ q
  induction p generalizing q with
  | done a => exact hok q a h
  | raise e => exact herr q e h
  | call op k ih => exact ⟨h.1, fun ans hans => ih ans (h.2 ans hans)⟩

lemma Keeps.attempt (h : p.Keeps C Φ q) :
    p.attempt.Keeps C (fun q r => ∃ a, r = .ok a ∧ Φ q a) q := by
  induction p generalizing q with
  | done a | raise e => exact ⟨_, rfl, h⟩
  | call op k ih => exact ⟨h.1, fun ans hans => ih ans (h.2 ans hans)⟩

lemma Keeps.ofExcept_bind {x : Except ε α} (hok : ∀ a, x = .ok a → (f a).Keeps C Χ q)
    (herr : ∀ e, x = .error e → Χ q (.error e)) : (ofExcept x >>= f).Keeps C Χ q := by
  cases x with
  | ok a => exact hok a rfl
  | error e => exact herr e rfl

/-- A `finally` part that raises nothing. -/
lemma Keeps.ensuring {final : Prog Op Ans ε Unit} (h : p.Keeps C Φ q)
    (hfinal : ∀ q r, Φ q r → final.Keeps C (fun q' r' => r' = .ok () ∧ Ψ q' r) q) :
    (p.ensuring final).Keeps C Ψ q := by
  induction p generalizing q with
  | done a | raise e => exact Keeps.bind (hfinal q _ h) (fun _ _ h => h.2) fun _ _ h => by cases h.1
  | call op k ih => exact ⟨h.1, fun ans hans => ih ans (h.2 ans hans)⟩

end Prog

/-! ## Tasks -/

variable {ι σ μ Op ω ε α Q : Type} {Ans : Op → Type}

/-- A task with the part of its program that is left; a crash has cut it off when there is none. -/
structure Task (μ Op : Type) (Ans : Op → Type) (ε α : Type) where
  method : μ
  rest : Option (Prog Op Ans ε α)

/-- A call that was answered. -/
structure Event (ι μ Op : Type) (Ans : Op → Type) where
  task : ι
  method : μ
  op : Op
  ans : Ans op

/-- The shared state, the tasks, and the calls so far, the last one first. -/
structure World (ι σ μ Op : Type) (Ans : Op → Type) (ε α : Type) where
  shared : σ
  task : ι → Option (Task μ Op Ans ε α)
  log : List (Event ι μ Op Ans)

/-- A step of a run. -/
inductive Move (ι μ ω : Type)
  | start (i : ι) (m : μ)
  | go (i : ι) (o : ω)
  | crash

/-- Programs and what their operations do; `ω` is what the outside decides at a call. -/
structure System (ι σ μ Op : Type) (Ans : Op → Type) (ω ε α : Type) where
  program : μ → Prog Op Ans ε α
  perform : ι → σ → (op : Op) → ω → Option (σ × Ans op)
  crashed : σ → σ

namespace World

variable [DecidableEq ι] (w : World ι σ μ Op Ans ε α)

def begin (i : ι) (m : μ) (p : Prog Op Ans ε α) : World ι σ μ Op Ans ε α :=
  { w with task := Function.update w.task i (some ⟨m, some p⟩) }

/-- The call of task `i` is answered. -/
def advance (i : ι) (m : μ) (p : Prog Op Ans ε α) (s : σ) (op : Op) (ans : Ans op) :
    World ι σ μ Op Ans ε α where
  shared := s
  task := Function.update w.task i (some ⟨m, some p⟩)
  log := ⟨i, m, op, ans⟩ :: w.log

omit [DecidableEq ι] in
def cutOff (crashed : σ → σ) : World ι σ μ Op Ans ε α where
  shared := crashed w.shared
  task := fun i => (w.task i).map fun t => ⟨t.method, none⟩
  log := w.log

/-- The task is at the call of `op`. -/
def At (i : ι) (m : μ) (op : Op) (k : Ans op → Prog Op Ans ε α) : Prop :=
  w.task i = some ⟨m, some (.call op k)⟩

/-- The account that `C` keeps of the calls of task `i`. -/
def account (C : CallContract Op Ans Q) (i : ι) : List (Event ι μ Op Ans) → Q
  | [] => C.start
  | e :: log => if e.task = i then C.next (account C i log) e.op e.ans else account C i log

end World

namespace System

variable [DecidableEq ι] (sys : System ι σ μ Op Ans ω ε α)

def exec (w : World ι σ μ Op Ans ε α) : Move ι μ ω → World ι σ μ Op Ans ε α
  | .start i m =>
    match w.task i with
    | none => w.begin i m (sys.program m)
    | some _ => w
  | .go i o =>
    match w.task i with
    | some ⟨m, some (.call op k)⟩ =>
      match sys.perform i w.shared op o with
      | some (s, ans) => w.advance i m (k ans) s op ans
      | none => w
    | _ => w
  | .crash => w.cutOff sys.crashed

/-- All runs from the shared states `init`. -/
def machine (init : σ → Prop) : Machine (World ι σ μ Op Ans ε α) (Move ι μ ω) where
  init w := init w.shared ∧ (∀ i, w.task i = none) ∧ w.log = []
  step w l w' := w' = sys.exec w l

variable {sys}

variable (sys) in
lemma exec_cases (w : World ι σ μ Op Ans ε α) (l : Move ι μ ω) :
    sys.exec w l = w ∨
    (∃ i m, l = .start i m ∧ w.task i = none ∧ sys.exec w l = w.begin i m (sys.program m)) ∨
    (∃ i o m op k s ans, l = .go i o ∧ w.At i m op k ∧ sys.perform i w.shared op o = some (s, ans) ∧
      sys.exec w l = w.advance i m (k ans) s op ans) ∨
    (l = .crash ∧ sys.exec w l = w.cutOff sys.crashed) := by
  cases l with
  | start i m =>
    cases htask : w.task i with
    | none => exact .inr (.inl ⟨i, m, rfl, htask, by simp only [exec, htask]⟩)
    | some t => exact .inl (by simp only [exec, htask])
  | crash => exact .inr (.inr (.inr ⟨rfl, rfl⟩))
  | go i o =>
    cases htask : w.task i with
    | none => exact .inl (by simp only [exec, htask])
    | some t =>
      obtain ⟨m, rest⟩ := t
      cases rest with
      | none => exact .inl (by simp only [exec, htask])
      | some p =>
        cases p with
        | done a | raise e => exact .inl (by simp only [exec, htask])
        | call op k =>
          cases hperform : sys.perform i w.shared op o with
          | none => exact .inl (by simp only [exec, htask, hperform])
          | some r =>
            obtain ⟨s, ans⟩ := r
            refine .inr (.inr (.inl ⟨i, o, m, op, k, s, ans, rfl, htask, hperform, ?_⟩))
            simp only [exec, htask, hperform]

variable {ls : List (Move ι μ ω)} {w : World ι σ μ Op Ans ε α} {j i : ι} {C : CallContract Op Ans Q}
  {log : List (Event ι μ Op Ans)} {m : μ} {op : Op} {ans : Ans op}

lemma reachable_foldl {init : σ → Prop} (h : (sys.machine init).Reachable w) :
    (sys.machine init).Reachable (ls.foldl sys.exec w) := by
  induction ls generalizing w with
  | nil => exact h
  | cons l ls ih => exact ih (h.step (c := l) rfl)

lemma task_foldl (h : ∀ l ∈ ls, ∀ m, l ≠ .start j m) (hj : w.task j = none) :
    (ls.foldl sys.exec w).task j = none := by
  induction ls generalizing w with
  | nil => exact hj
  | cons l ls ih =>
    refine ih (fun l' hl' => h l' (mem_cons_of_mem l hl')) ?_
    rcases exec_cases sys w l with heq | ⟨i, m, rfl, _, heq⟩ |
      ⟨i, o, m, op, k, s, ans, rfl, hat, _, heq⟩ | ⟨rfl, heq⟩
    · rw [heq]
      exact hj
    · have hne : j ≠ i := by
        rintro rfl
        exact h _ mem_cons_self m rfl
      rw [heq]
      exact (update_of_ne hne ..).trans hj
    · have hne : j ≠ i := by
        rintro rfl
        rw [World.At, hj] at hat
        cases hat
      rw [heq]
      exact (update_of_ne hne ..).trans hj
    · rw [heq]
      simp [World.cutOff, hj]

/-- Every program keeps the contract of its method with what is left of it and ends in `Φ`, and a
task that has not begun has made no call. -/
structure Keeping (C : μ → CallContract Op Ans Q) (Φ : μ → Q → Except ε α → Prop)
    (w : World ι σ μ Op Ans ε α) : Prop where
  keeps : ∀ i m p, w.task i = some ⟨m, some p⟩ → p.Keeps (C m) (Φ m) (World.account (C m) i w.log)
  fresh : ∀ i, w.task i = none → ∀ e ∈ w.log, e.task ≠ i

lemma account_of_fresh (h : ∀ e ∈ log, e.task ≠ i) : World.account C i log = C.start := by
  induction log with
  | nil => rfl
  | cons e log ih =>
    rw [World.account, if_neg (h e mem_cons_self)]
    exact ih fun e' he' => h e' (mem_cons_of_mem e he')

@[simp]
lemma account_cons_self :
    World.account C i (⟨i, m, op, ans⟩ :: log) = C.next (World.account C i log) op ans :=
  if_pos rfl

lemma account_cons_of_ne (h : j ≠ i) :
    World.account C i (⟨j, m, op, ans⟩ :: log) = World.account C i log :=
  if_neg h

section

variable {C : μ → CallContract Op Ans Q} {Φ : μ → Q → Except ε α → Prop}
  {w : World ι σ μ Op Ans ε α} {i j : ι} {m : μ} {op : Op}
  {ans : Ans op} {k : Ans op → Prog Op Ans ε α} {p : Prog Op Ans ε α} {s : σ}

@[simp]
lemma advance_task_self : (w.advance i m p s op ans).task i = some ⟨m, some p⟩ :=
  update_self ..

lemma advance_task_of_ne (h : j ≠ i) : (w.advance i m p s op ans).task j = w.task j :=
  update_of_ne h ..

@[simp]
lemma begin_task_self : (w.begin i m p).task i = some ⟨m, some p⟩ :=
  update_self ..

lemma begin_task_of_ne (h : j ≠ i) : (w.begin i m p).task j = w.task j :=
  update_of_ne h ..

omit [DecidableEq ι] in
lemma cutOff_task_ne {crashed : σ → σ} : (w.cutOff crashed).task i ≠ some ⟨m, some p⟩ := by
  intro h
  obtain ⟨t, _, heq⟩ := Option.map_eq_some_iff.mp h
  cases heq

lemma Keeping.pre (h : Keeping C Φ w) (hat : w.At i m op k) :
    (C m).pre (World.account (C m) i w.log) op :=
  (h.keeps i m _ hat).1

lemma Keeping.begin (h : Keeping C Φ w) (hi : w.task i = none)
    (hp : p.Keeps (C m) (Φ m) (C m).start) : Keeping C Φ (w.begin i m p) := by
  constructor
  · intro j m' p' hj
    by_cases hji : j = i
    · subst hji
      rw [begin_task_self] at hj
      cases hj
      show p.Keeps (C m) (Φ m) (World.account (C m) j w.log)
      rw [account_of_fresh (h.fresh j hi)]
      exact hp
    · rw [begin_task_of_ne hji] at hj
      exact h.keeps j m' p' hj
  · intro j hj
    by_cases hji : j = i
    · subst hji
      exact h.fresh j hi
    · rw [begin_task_of_ne hji] at hj
      exact h.fresh j hj

lemma Keeping.advance (h : Keeping C Φ w) (hat : w.At i m op k)
    (hpost : (C m).post (World.account (C m) i w.log) op ans) :
    Keeping C Φ (w.advance i m (k ans) s op ans) := by
  constructor
  · intro j m' p' hj
    show p'.Keeps (C m') (Φ m') (World.account (C m') j (⟨i, m, op, ans⟩ :: w.log))
    by_cases hji : j = i
    · subst hji
      rw [advance_task_self] at hj
      cases hj
      rw [account_cons_self]
      exact (h.keeps j m _ hat).2 ans hpost
    · rw [advance_task_of_ne hji] at hj
      rw [account_cons_of_ne (Ne.symm hji)]
      exact h.keeps j m' p' hj
  · intro j hj e he
    have hji : j ≠ i := by
      rintro rfl
      rw [advance_task_self] at hj
      cases hj
    rw [advance_task_of_ne hji] at hj
    rcases mem_cons.mp he with rfl | he
    · exact Ne.symm hji
    · exact h.fresh j hj e he

lemma Keeping.cutOff {crashed : σ → σ} (h : Keeping C Φ w) : Keeping C Φ (w.cutOff crashed) := by
  constructor
  · intro j m' p' hj
    exact absurd hj cutOff_task_ne
  · intro j hj
    exact h.fresh j (by simpa [World.cutOff] using hj)

end

/-- **Proof outline.** Every program keeps its contract; answers meet what the contracts rely on
and the invariant `J` is preserved, at each step that the condition `D` allows. -/
lemma outline {C : μ → CallContract Op Ans Q} {Φ : μ → Q → Except ε α → Prop}
    {J : World ι σ μ Op Ans ε α → Prop}
    {D : World ι σ μ Op Ans ε α → Move ι μ ω → Prop} {init : σ → Prop}
    (hprogram : ∀ m, (sys.program m).Keeps (C m) (Φ m) (C m).start)
    (hinit : ∀ w, init w.shared → (∀ i, w.task i = none) → w.log = [] → J w)
    (hbegin : ∀ w i m, Keeping C Φ w → J w → D w (.start i m) → w.task i = none →
      J (w.begin i m (sys.program m)))
    (hgo : ∀ w i o m op k s ans, Keeping C Φ w → J w → D w (.go i o) → w.At i m op k →
      sys.perform i w.shared op o = some (s, ans) →
      (C m).post (World.account (C m) i w.log) op ans ∧ J (w.advance i m (k ans) s op ans))
    (hcrash : ∀ w, Keeping C Φ w → J w → D w .crash → J (w.cutOff sys.crashed))
    {w : World ι σ μ Op Ans ε α} (h : ((sys.machine init).restrict D).Reachable w) :
    Keeping C Φ w ∧ J w := by
  refine Machine.Reachable.invariant (P := fun w => Keeping C Φ w ∧ J w) ?_ ?_ h
  · rintro w ⟨hs, htask, hlog⟩
    refine ⟨⟨fun i m p hi => ?_, fun i _ e he => ?_⟩, hinit w hs htask hlog⟩
    · rw [htask i] at hi
      cases hi
    · rw [hlog] at he
      cases he
  · rintro w l w' ⟨hkeep, hJ⟩ ⟨hD, rfl⟩
    rcases exec_cases sys w l with heq | ⟨i, m, rfl, hi, heq⟩ |
      ⟨i, o, m, op, k, s, ans, rfl, hat, hperform, heq⟩ | ⟨rfl, heq⟩
    · rw [heq]
      exact ⟨hkeep, hJ⟩
    · rw [heq]
      exact ⟨hkeep.begin hi (hprogram m), hbegin w i m hkeep hJ hD hi⟩
    · obtain ⟨hpost, hJ'⟩ := hgo w i o m op k s ans hkeep hJ hD hat hperform
      rw [heq]
      exact ⟨hkeep.advance hat hpost, hJ'⟩
    · rw [heq]
      exact ⟨hkeep.cutOff, hcrash w hkeep hJ hD⟩

end System

end Dkg.Lib
