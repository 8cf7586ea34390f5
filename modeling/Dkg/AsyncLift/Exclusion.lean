import Dkg.AsyncLift.JobStore
import Dkg.AsyncLift.Turns

/-! # One execution at a time

A job that a running call of `processNext` has taken is not taken again, as long as nothing writes
it as accepted meanwhile (`ResetsFree`); `recover` and `retry` do so without a look at the calls
that run. A wallet has one active job at most, as long as the lock of an active job lasts until the
wallet looks for a job again (`LeasesLast`).

The calls are those of a runner, with one loop for each wallet, and of the methods for the care of
the jobs (`Paced`).
-/

namespace Dkg.AsyncLift

open Lib System List LiftJobState

/-! ## Who has which job -/

/-- The turn of task `i`, by its calls so far. -/
def turn (cfg : Config) (i : ℕ) : Log → Turn
  | [] => Turn.start
  | e :: log => if e.task = i then (turn cfg i log).next cfg e.op e.ans else turn cfg i log

/-- Task `i` is a call of `processNext` that has not ended. -/
def Runs (w : Run) (i : ℕ) (walletId : Term) : Prop := ∃ op k, w.At i (.processNext walletId) op k

/-- A running call has taken the job. -/
structure Takes (cfg : Config) (w : Run) (i : ℕ) (walletId jobId : Term) : Prop where
  runs : Runs w i walletId
  taken : (turn cfg i w.log).taken.map (·.jobId) = some jobId

/-- A running call has taken the job and deleted the record it had. -/
structure Owns (cfg : Config) (w : Run) (i : ℕ) (walletId jobId : Term) : Prop
    extends Takes cfg w i walletId jobId where
  owned : (turn cfg i w.log).owned = true

/-- The job is in an active status and refers to the wallet. -/
def ControlPlane.Engages (s : ControlPlane) (walletId jobId : Term) : Prop :=
  ∃ job ∈ s.payloads jobId, job.status.Active ∧ job.claim.map (·.walletId) = some walletId

/-- The last reading of the clock. -/
def clock : Log → ℕ
  | [] => 0
  | ⟨_, _, .now, now⟩ :: _ => now
  | _ :: log => clock log

def Leased (w : Run) (walletId : Term) : Prop :=
  ∃ expiresAt ∈ w.shared.activeExpiry walletId, clock w.log < expiresAt

/-- No job is taken by two calls, and a wallet whose lease lasts has one active job. -/
structure Exclusive (cfg : Config) (w : Run) : Prop where
  once : ∀ i j walletId walletId' jobId, Takes cfg w i walletId jobId →
    Takes cfg w j walletId' jobId → i = j
  wallet : ∀ walletId jobId jobId', Leased w walletId → w.shared.Engages walletId jobId →
    w.shared.Engages walletId jobId' → jobId = jobId'

/-! ## Conditions on the steps -/

def Operates (_ : Run) : Step → Prop
  | .start _ m => m.Operating
  | _ => True

/-- A wallet's call begins when its last one has ended. -/
def OneLoop (w : Run) : Step → Prop
  | .start _ (.processNext walletId) => ∀ i, ¬ Runs w i walletId
  | _ => True

/-- The steps that a runner makes. -/
def Paced (w : Run) (l : Step) : Prop := Operates w l ∧ OneLoop w l

/-- No job is written as accepted that a running call has taken. -/
def ResetsFree (cfg : Config) (w : Run) : Step → Prop
  | .go i _ => ∀ m job k, w.At i m (.insertJob job) k → job.status = accepted →
      ∀ j walletId, ¬ Takes cfg w j walletId job.jobId
  | _ => True

/-- A wallet that looks for a job finds the lock of each active job that refers to it. -/
def LeasesLast (cfg : Config) (w : Run) : Step → Prop
  | .go i _ => ∀ m walletId k, w.At i m (.activeExpiry walletId) k →
      ∀ jobId, w.shared.Engages walletId jobId →
        ∃ expiresAt ∈ w.shared.activeExpiry walletId, (turn cfg i w.log).time < expiresAt
  | _ => True

/-! ## The graph -/

section

variable {φ α : Type} {g quads : Graph φ} {subject : Term} {read : φ → Option α} {a : α}
  {s : ControlPlane} {jobId jobId' : Term} {job job' : LiftJob} {status : LiftJobState} {i : ℕ}

lemma Graph.mem_objects : a ∈ g.objects subject read ↔
    ∃ q ∈ g, q.1 = subject ∧ read q.2 = some a := by
  rw [Graph.objects, mem_filterMap]
  refine exists_congr fun q => and_congr_right fun _ => ?_
  by_cases h : q.1 = subject
  · simp [h]
  · simp [h]

lemma Graph.mem_insert [DecidableEq φ] {q : Term × φ} : q ∈ g.insert quads ↔ q ∈ g ∨ q ∈ quads := by
  induction quads generalizing g with
  | nil => simp [Graph.insert]
  | cons q' quads ih =>
    show q ∈ Graph.insert (if q' ∈ g then g else g ++ [q']) quads ↔ _
    rw [ih, mem_cons]
    split
    next hmem =>
      constructor
      · rintro (h | h)
        · exact .inl h
        · exact .inr (.inr h)
      · rintro (h | rfl | h)
        · exact .inl h
        · exact .inl hmem
        · exact .inr h
    next =>
      rw [mem_append, mem_singleton, or_assoc]

lemma mem_statuses_insertJob (h : status ∈ (effect i s (.insertJob job)).statuses jobId) :
    status ∈ s.statuses jobId ∨ jobId = job.jobId ∧ status = job.status := by
  obtain ⟨q, hq, rfl, hread⟩ := Graph.mem_objects.mp h
  rcases Graph.mem_insert.mp hq with hold | hnew
  · exact .inl (Graph.mem_objects.mpr ⟨q, hold, rfl, hread⟩)
  · simp only [serializeJob, mem_cons, not_mem_nil, or_false] at hnew
    rcases hnew with rfl | rfl
    · cases hread
      exact .inr ⟨rfl, rfl⟩
    · cases hread

lemma mem_payloads_insertJob (h : job' ∈ (effect i s (.insertJob job)).payloads jobId) :
    job' ∈ s.payloads jobId ∨ jobId = job.jobId ∧ job' = job := by
  obtain ⟨q, hq, rfl, hread⟩ := Graph.mem_objects.mp h
  rcases Graph.mem_insert.mp hq with hold | hnew
  · exact .inl (Graph.mem_objects.mpr ⟨q, hold, rfl, hread⟩)
  · simp only [serializeJob, mem_cons, not_mem_nil, or_false] at hnew
    rcases hnew with rfl | rfl
    · cases hread
    · cases hread
      exact .inr ⟨rfl, rfl⟩

lemma mem_objects_deleteJob {read : JobField → Option α}
    (h : a ∈ (effect i s (.deleteJob jobId)).jobs.objects jobId' read) :
    jobId' ≠ jobId ∧ a ∈ s.jobs.objects jobId' read := by
  by_cases hne : jobId' = jobId
  · subst hne
    rw [show (effect i s (.deleteJob jobId')).jobs.objects jobId' read = [] from
      Graph.objects_deleteSubject_self] at h
    cases h
  · refine ⟨hne, ?_⟩
    rwa [show (effect i s (.deleteJob jobId)).jobs.objects jobId' read = _ from
      Graph.objects_deleteSubject_of_ne hne] at h

lemma mem_rows_some (h : job ∈ s.rows (some status)) :
    ∃ subject, status ∈ s.statuses subject ∧ job ∈ s.payloads subject := by
  obtain ⟨⟨subject, field⟩, hfield, hmem⟩ := mem_flatMap.mp h
  cases field with
  | payload _ => cases hmem
  | status found =>
    simp only [reduceCtorEq, false_or, Option.some.injEq] at hmem
    split at hmem
    next heq =>
      subst heq
      exact ⟨subject, Graph.mem_objects.mpr ⟨_, hfield, rfl, rfl⟩, hmem⟩
    next => cases hmem

end

/-! ## The invariant of the turns -/

abbrev Obeying (cfg : Config) (w : Run) : Prop :=
  System.Keeping (contractOf cfg) (fun _ _ _ => True) w

lemma account_eq_turn (cfg : Config) (m : Method) (i : ℕ) (log : Log) :
    World.account (contractOf cfg m) i log = turn cfg i log := by
  induction log with
  | nil => exact contractOf_start cfg m
  | cons e log ih => rw [World.account, turn, ih, contractOf_next]

/-- Where a task is with the queue of claims. -/
def phase (cfg : Config) (w : Run) (i : ℕ) : KeyLocks.Phase ℕ :=
  if ((w.task i).bind (·.rest)).isSome then (turn cfg i w.log).queue else .outside

/-- What the calls keep about the jobs: a job is taken by one call at most, and a job whose record
it has deleted is not accepted. -/
structure Turns (cfg : Config) (w : Run) : Prop where
  operating : ∀ i m op k, w.At i m op k → m.Operating
  locks : KeyLocks.Sound w.shared.claims (fun _ => [()]) (phase cfg w)
  ids : ∀ jobId, ∀ job ∈ w.shared.payloads jobId, job.jobId = jobId
  once : ∀ i j walletId walletId' jobId, Takes cfg w i walletId jobId →
    Takes cfg w j walletId' jobId → i = j
  gone : ∀ i walletId jobId, Owns cfg w i walletId jobId → accepted ∉ w.shared.statuses jobId
  own : ∀ i walletId jobId, Owns cfg w i walletId jobId → ∀ job ∈ w.shared.payloads jobId,
    job.status.Active → job.claim.map (·.walletId) = some walletId

section

variable {cfg : Config} {w : Run} {i j : ℕ} {m : Method} {op : Op} {ans : Answer op}
  {k : Answer op → Program Unit} {p : Program Unit} {walletId walletId' jobId jobId' : Term}
  {job : LiftJob} {s : ControlPlane}

lemma Obeying.pre (h : Obeying cfg w) (hat : w.At i m op k) :
    (contractOf cfg m).pre (turn cfg i w.log) op := by
  have hpre := System.Keeping.pre h hat
  rwa [account_eq_turn] at hpre

lemma turn_advance_self :
    turn cfg i (w.advance i m p s op ans).log = (turn cfg i w.log).next cfg op ans :=
  if_pos rfl

lemma turn_advance_of_ne (h : j ≠ i) :
    turn cfg j (w.advance i m p s op ans).log = turn cfg j w.log :=
  if_neg (Ne.symm h)

lemma Runs.of_advance (hat : w.At i m op k) (h : Runs (w.advance i m p s op ans) j walletId) :
    Runs w j walletId := by
  obtain ⟨op', k', h⟩ := h
  by_cases hj : j = i
  · subst hj
    rw [World.At, advance_task_self] at h
    cases h
    exact ⟨op, k, hat⟩
  · rw [World.At, advance_task_of_ne hj] at h
    exact ⟨op', k', h⟩

lemma runs_self (hat : w.At i m op k) (h : Runs w i walletId) : m = .processNext walletId := by
  obtain ⟨op', k', h⟩ := h
  rw [World.At, hat] at h
  cases h
  rfl

/-- Only the list of the accepted jobs gives a call its job. -/
lemma Turn.taken_next {q : Turn} (h : ∀ status, op ≠ .list status) :
    (q.next cfg op ans).taken = q.taken := by
  cases op with
  | list status => exact absurd rfl (h status)
  | _ => rfl

lemma Turn.owned_next {q : Turn} (h : ∀ jobId, op ≠ .deleteJob jobId) :
    (q.next cfg op ans).owned = q.owned := by
  cases op with
  | deleteJob jobId => exact absurd rfl (h jobId)
  | list status =>
    cases status with
    | none => rfl
    | some status => cases status <;> rfl
  | _ => rfl

lemma Takes.of_advance (hat : w.At i m op k) (hop : ∀ status, op ≠ .list status)
    (h : Takes cfg (w.advance i m p s op ans) j walletId jobId) : Takes cfg w j walletId jobId := by
  refine ⟨h.runs.of_advance hat, ?_⟩
  have htaken := h.taken
  by_cases hj : j = i
  · subst hj
    rwa [turn_advance_self, Turn.taken_next hop] at htaken
  · rwa [turn_advance_of_ne hj] at htaken

lemma Owns.of_advance (hat : w.At i m op k) (hlist : ∀ status, op ≠ .list status)
    (hdelete : ∀ jobId, op ≠ .deleteJob jobId)
    (h : Owns cfg (w.advance i m p s op ans) j walletId jobId) : Owns cfg w j walletId jobId := by
  refine ⟨h.toTakes.of_advance hat hlist, ?_⟩
  have howned := h.owned
  by_cases hj : j = i
  · subst hj
    rwa [turn_advance_self, Turn.owned_next hdelete] at howned
  · rwa [turn_advance_of_ne hj] at howned

lemma operating_advance (h : Turns cfg w) (hat : w.At i m op k) :
    ∀ j m' op' k', (w.advance i m p s op ans).At j m' op' k' → m'.Operating := by
  intro j m' op' k' hat'
  by_cases hj : j = i
  · subst hj
    rw [World.At, advance_task_self] at hat'
    cases hat'
    exact h.operating _ _ _ _ hat
  · rw [World.At, advance_task_of_ne hj] at hat'
    exact h.operating _ _ _ _ hat'

/-! ### The queue of claims -/

lemma phase_at (hat : w.At i m op k) : phase cfg w i = (turn cfg i w.log).queue := by
  rw [phase, hat]
  rfl

lemma phase_advance_self :
    phase cfg (w.advance i m p s op ans) i = ((turn cfg i w.log).next cfg op ans).queue := by
  rw [phase, advance_task_self, turn_advance_self]
  rfl

lemma phase_advance_of_ne (h : j ≠ i) : phase cfg (w.advance i m p s op ans) j = phase cfg w j := by
  rw [phase, phase, advance_task_of_ne h, turn_advance_of_ne h]

/-- The queue of claims does not see the other operations. -/
def Op.OffQueue : Op → Prop
  | .enterClaims | .awaitClaims _ | .leaveClaims => False
  | _ => True

lemma Turn.queue_next {q : Turn} (h : op.OffQueue) : (q.next cfg op ans).queue = q.queue := by
  cases op with
  | enterClaims | awaitClaims _ | leaveClaims => cases h
  | list status =>
    cases status with
    | none => rfl
    | some status => cases status <;> rfl
  | _ => rfl

lemma locks_offQueue (h : Turns cfg w) (hat : w.At i m op k) (hop : op.OffQueue) :
    KeyLocks.Sound (effect i w.shared op).claims (fun _ => [()])
      (phase cfg (w.advance i m p (effect i w.shared op) op ans)) := by
  have hclaims : (effect i w.shared op).claims = w.shared.claims := by
    cases op with
    | enterClaims => cases hop
    | leaveClaims => cases hop
    | _ => rfl
  have hphase : phase cfg (w.advance i m p (effect i w.shared op) op ans) = phase cfg w := by
    funext j
    by_cases hj : j = i
    · subst hj
      rw [phase_advance_self, Turn.queue_next hop, phase_at hat]
    · exact phase_advance_of_ne hj
  rw [hclaims, hphase]
  exact h.locks

/-- Only `processNext` makes calls that are not idle. -/
lemma processNext_of_not_idle (hkeep : Obeying cfg w) (h : Turns cfg w) (hat : w.At i m op k)
    (hop : ¬ op.Idle) : ∃ walletId, m = .processNext walletId := by
  have hpre := hkeep.pre hat
  have hoperating := h.operating i m op k hat
  cases m with
  | processNext walletId => exact ⟨walletId, rfl⟩
  | claimNext _ | update _ _ _ | recordPublishResult _ _ _ | recordPublishFailure _ _ =>
    cases hoperating
  | _ => exact absurd hpre hop

/-- The jobs are left alone, and no job is taken. -/
lemma Turns.still (h : Turns cfg w) (hat : w.At i m op k) (hlist : ∀ status, op ≠ .list status)
    (hop : op.Quiet) (hlocks : KeyLocks.Sound (effect i w.shared op).claims (fun _ => [()])
      (phase cfg (w.advance i m (k ans) (effect i w.shared op) op ans))) :
    Turns cfg (w.advance i m (k ans) (effect i w.shared op) op ans) := by
  have hjobs := jobs_of_quiet (i := i) (s := w.shared) hop
  have hdelete : ∀ jobId, op ≠ .deleteJob jobId := by
    rintro jobId rfl
    exact hop
  have hpayloads : ∀ jobId, (effect i w.shared op).payloads jobId = w.shared.payloads jobId :=
    fun jobId => by rw [ControlPlane.payloads, hjobs, ControlPlane.payloads]
  have hstatuses : ∀ jobId, (effect i w.shared op).statuses jobId = w.shared.statuses jobId :=
    fun jobId => by rw [ControlPlane.statuses, hjobs, ControlPlane.statuses]
  refine ⟨operating_advance h hat, hlocks, fun jobId job hjob => ?_,
    fun j j' walletId walletId' jobId hj hj' => ?_, fun j walletId jobId hj => ?_,
    fun j walletId jobId hj job hjob => ?_⟩
  · exact h.ids jobId job (hpayloads jobId ▸ hjob)
  · exact h.once j j' walletId walletId' jobId (hj.of_advance hat hlist) (hj'.of_advance hat hlist)
  · show accepted ∉ (effect i w.shared op).statuses jobId
    rw [hstatuses]
    exact h.gone j walletId jobId (hj.of_advance hat hlist hdelete)
  · exact h.own j walletId jobId (hj.of_advance hat hlist hdelete) job (hpayloads jobId ▸ hjob)

lemma Takes.listed {status : Option LiftJobState} {k : List LiftJob → Program Unit}
    (htakes : Takes cfg (w.advance i m p w.shared (.list status) (w.shared.rows status)) i walletId
      jobId) (h : Turns cfg w) (hkeep : Obeying cfg w) (hat : w.At i m (.list status) k) :
    (turn cfg i w.log).queue = .holding ∧ (turn cfg i w.log).owned = false ∧
      accepted ∈ w.shared.statuses jobId := by
  obtain rfl := runs_self hat (htakes.runs.of_advance hat)
  obtain ⟨_, rfl, hqueue, _, howned, _⟩ := hkeep.pre hat
  refine ⟨hqueue, howned, ?_⟩
  have htaken := htakes.taken
  rw [turn_advance_self] at htaken
  obtain ⟨job, hhead, rfl⟩ := Option.map_eq_some_iff.mp htaken
  have hmem : job ∈ w.shared.rows (some accepted) :=
    (perm_insertionSort cfg.JobNotAfter _).mem_iff.mp (mem_of_mem_head? hhead)
  obtain ⟨subject, hstatus, hpayload⟩ := mem_rows_some hmem
  rwa [h.ids subject job hpayload]

section

variable (h : Turns cfg w) (hkeep : Obeying cfg w)

include h hkeep

/-- A call that holds the queue takes a job that no other call has. -/
lemma Turns.list {status : Option LiftJobState} {o : Outcome} {rows : List LiftJob}
    {k : List LiftJob → Program Unit}
    (hat : w.At i m (.list status) k) (hanswer : answer w.shared (.list status) o = some rows) :
    Turns cfg (w.advance i m (k rows) w.shared (.list status) rows) := by
  cases hanswer
  have hother : ∀ {j walletId jobId}, j ≠ i → Takes cfg (w.advance i m (k (w.shared.rows status))
      w.shared (.list status) (w.shared.rows status)) j walletId jobId →
      Takes cfg w j walletId jobId := fun hj htakes =>
    ⟨htakes.runs.of_advance hat, turn_advance_of_ne hj ▸ htakes.taken⟩
  have hfree : ∀ walletId walletId' jobId j, j ≠ i → Takes cfg (w.advance i m
      (k (w.shared.rows status)) w.shared (.list status) (w.shared.rows status)) i walletId jobId →
      ¬ Takes cfg w j walletId' jobId := by
    intro walletId walletId' jobId j hj hi htakes
    obtain ⟨hqueue, _, haccepted⟩ := hi.listed h hkeep hat
    obtain ⟨op', k', hat'⟩ := htakes.runs
    have hsome : (turn cfg j w.log).taken.isSome := by
      obtain ⟨job, hjob, _⟩ := Option.map_eq_some_iff.mp htakes.taken
      rw [hjob]
      rfl
    rcases (hkeep.pre hat').1.held hsome with howned | hholding
    · exact h.gone j walletId' jobId ⟨htakes, howned⟩ haccepted
    · have hi' : phase cfg w i = .holding := (phase_at hat).trans hqueue
      have hj' : phase cfg w j = .holding := (phase_at hat').trans hholding
      exact hj (h.locks.exclusive hj' hi' (mem_singleton_self ()) (mem_singleton_self ()))
  have howns : ∀ {j walletId jobId}, Owns cfg (w.advance i m (k (w.shared.rows status)) w.shared
      (.list status) (w.shared.rows status)) j walletId jobId → Owns cfg w j walletId jobId := by
    intro j walletId jobId hj
    by_cases hji : j = i
    · subst hji
      have howned := hj.owned
      rw [turn_advance_self, Turn.owned_next fun _ h => by cases h] at howned
      exact absurd howned (by simp [(hj.toTakes.listed h hkeep hat).2.1])
    · exact ⟨hother hji hj.toTakes, turn_advance_of_ne hji ▸ hj.owned⟩
  refine ⟨operating_advance h hat, locks_offQueue h hat trivial, h.ids,
    fun j j' walletId walletId' jobId hj hj' => ?_,
    fun j walletId jobId hj => h.gone j walletId jobId (howns hj),
    fun j walletId jobId hj => h.own j walletId jobId (howns hj)⟩
  by_cases hji : j = i
  · subst hji
    by_cases hji' : j' = j
    · exact hji'.symm
    · exact absurd (hother hji' hj') (hfree walletId walletId' jobId j' hji' hj)
  · by_cases hji' : j' = i
    · subst hji'
      exact absurd (hother hji hj) (hfree walletId' walletId jobId j hji hj')
    · exact h.once j j' walletId walletId' jobId (hother hji hj) (hother hji' hj')

lemma Turns.deleteJob {k : Unit → Program Unit} (hat : w.At i m (.deleteJob jobId) k) : Turns cfg
      (w.advance i m (k ()) (effect i w.shared (.deleteJob jobId)) (.deleteJob jobId) ()) := by
  have htakes : ∀ {j walletId jobId'}, Takes cfg (w.advance i m (k ())
      (effect i w.shared (.deleteJob jobId)) (.deleteJob jobId) ()) j walletId jobId' →
      Takes cfg w j walletId jobId' := fun hj => hj.of_advance hat fun _ h => by cases h
  have howns : ∀ {j walletId jobId'}, jobId' ≠ jobId → Owns cfg (w.advance i m (k ())
      (effect i w.shared (.deleteJob jobId)) (.deleteJob jobId) ()) j walletId jobId' →
      Owns cfg w j walletId jobId' := by
    intro j walletId jobId' hne hj
    refine ⟨htakes hj.toTakes, ?_⟩
    by_cases hji : j = i
    · subst hji
      -- a call deletes the job only that it has taken
      obtain rfl := runs_self hat (htakes hj.toTakes).runs
      have htaken := (htakes hj.toTakes).taken
      exact absurd (Option.some.inj (htaken.symm.trans (hkeep.pre hat).2)) hne
    · exact turn_advance_of_ne hji ▸ hj.owned
  refine ⟨operating_advance h hat, locks_offQueue h hat trivial, fun jobId' job hjob => ?_,
    fun j j' walletId walletId' jobId' hj hj' =>
      h.once j j' walletId walletId' jobId' (htakes hj) (htakes hj'),
    fun j walletId jobId' hj haccepted => ?_, fun j walletId jobId' hj job hjob => ?_⟩
  · exact h.ids jobId' job (mem_objects_deleteJob (i := i) hjob).2
  · obtain ⟨hne, hold⟩ := mem_objects_deleteJob (i := i) haccepted
    exact h.gone j walletId jobId' (howns hne hj) hold
  · obtain ⟨hne, hold⟩ := mem_objects_deleteJob (i := i) hjob
    exact h.own j walletId jobId' (howns hne hj) job hold

lemma insertJob_cases {k : Unit → Program Unit} (hat : w.At i m (.insertJob job) k) :
    ¬ job.status.Active ∨ ∃ walletId, m = .processNext walletId ∧ Owns cfg w i walletId job.jobId ∧
      job.status ≠ accepted ∧ Fits walletId job.jobId job := by
  have hoperating := h.operating _ _ _ _ hat
  have hpre := hkeep.pre hat
  cases m with
  | processNext walletId =>
    obtain ⟨_, howned, hstatus, taken, htaken, hfits⟩ := hpre
    refine .inr ⟨walletId, rfl, ⟨⟨⟨_, _, hat⟩, ?_⟩, howned⟩, hstatus, rfl, hfits.wallet⟩
    rw [Option.mem_def.mp htaken, Option.map_some, hfits.jobId]
  | claimNext _ | update _ _ _ | recordPublishResult _ _ _ | recordPublishFailure _ _ =>
    cases hoperating
  | _ => exact .inl hpre

lemma Turns.insertJob {k : Unit → Program Unit} {o : Outcome}
    (hat : w.At i m (.insertJob job) k) (hD : ResetsFree cfg w (.go i o)) :
    Turns cfg (w.advance i m (k ()) (effect i w.shared (.insertJob job)) (.insertJob job) ()) := by
  have htakes : ∀ {j walletId jobId}, Takes cfg (w.advance i m (k ())
      (effect i w.shared (.insertJob job)) (.insertJob job) ()) j walletId jobId →
      Takes cfg w j walletId jobId := fun hj => hj.of_advance hat fun _ h => by cases h
  have howns : ∀ {j walletId jobId}, Owns cfg (w.advance i m (k ())
      (effect i w.shared (.insertJob job)) (.insertJob job) ()) j walletId jobId →
      Owns cfg w j walletId jobId := fun hj =>
    hj.of_advance hat (fun _ h => by cases h) fun _ h => by cases h
  refine ⟨operating_advance h hat, locks_offQueue h hat trivial, fun jobId job' hjob => ?_,
    fun j j' walletId walletId' jobId hj hj' =>
      h.once j j' walletId walletId' jobId (htakes hj) (htakes hj'),
    fun j walletId jobId hj haccepted => ?_, fun j walletId jobId hj job' hjob hactive => ?_⟩
  · rcases mem_payloads_insertJob (i := i) hjob with hold | ⟨rfl, rfl⟩
    · exact h.ids jobId job' hold
    · rfl
  · rcases mem_statuses_insertJob (i := i) haccepted with hold | ⟨rfl, hstatus⟩
    · exact h.gone j walletId jobId (howns hj) hold
    · exact hD m job k hat hstatus.symm j walletId (htakes hj.toTakes)
  · rcases mem_payloads_insertJob (i := i) hjob with hold | ⟨rfl, rfl⟩
    · exact h.own j walletId jobId (howns hj) job' hold hactive
    · rcases insertJob_cases h hkeep hat with hidle | ⟨walletId', rfl, howner, _, hfits⟩
      · exact absurd hactive hidle
      · obtain rfl := h.once i j walletId' walletId _ howner.toTakes (htakes hj.toTakes)
        cases runs_self hat (htakes hj.toTakes).runs
        exact hfits.wallet hactive

lemma Turns.go {o : Outcome} (hat : w.At i m op k)
    (hD : ResetsFree cfg w (.go i o)) (hanswer : answer w.shared op o = some ans) :
    Turns cfg (w.advance i m (k ans) (effect i w.shared op) op ans) := by
  cases op with
  | list status => exact h.list hkeep hat hanswer
  | deleteJob jobId => exact h.deleteJob hkeep hat
  | insertJob job => exact h.insertJob hkeep hat hD
  | enterClaims =>
    refine h.still hat (fun _ h => by cases h) trivial ?_
    obtain ⟨walletId, rfl⟩ := processNext_of_not_idle hkeep h hat id
    cases hanswer
    exact h.locks.take (fun j hj => phase_advance_of_ne hj)
      ((phase_at hat).trans (hkeep.pre hat).2) phase_advance_self
  | awaitClaims previous =>
    refine h.still hat (fun _ h => by cases h) trivial ?_
    obtain ⟨walletId, rfl⟩ := processNext_of_not_idle hkeep h hat id
    have hready : w.shared.claims.Ready previous := by
      by_contra hnot
      simp only [answer, if_neg hnot] at hanswer
      cases hanswer
    exact h.locks.hold (fun j hj => phase_advance_of_ne hj)
      ((phase_at hat).trans (hkeep.pre hat).2) hready phase_advance_self
  | leaveClaims =>
    refine h.still hat (fun _ h => by cases h) trivial ?_
    obtain ⟨walletId, rfl⟩ := processNext_of_not_idle hkeep h hat id
    exact h.locks.release (fun j hj => phase_advance_of_ne hj)
      ((phase_at hat).trans (hkeep.pre hat).2) phase_advance_self
  | _ => exact h.still hat (fun _ h => by cases h) trivial (locks_offQueue h hat trivial)

/-! ### Beginnings and crashes -/

end

lemma turn_of_fresh (hkeep : Obeying cfg w) (hi : w.task i = none) :
    turn cfg i w.log = Turn.start := by
  rw [← account_eq_turn cfg .pause, account_of_fresh (hkeep.fresh i hi), contractOf_start]

lemma Runs.of_begin (hi : w.task i = none) (h : Runs (w.begin i m p) j walletId) :
    j = i ∧ m = .processNext walletId ∨ Runs w j walletId := by
  obtain ⟨op, k, h⟩ := h
  by_cases hj : j = i
  · subst hj
    rw [World.At, begin_task_self] at h
    cases h
    exact .inl ⟨rfl, rfl⟩
  · rw [World.At, begin_task_of_ne hj] at h
    exact .inr ⟨op, k, h⟩

lemma Takes.of_begin (hkeep : Obeying cfg w) (hi : w.task i = none)
    (h : Takes cfg (w.begin i m p) j walletId jobId) : Takes cfg w j walletId jobId := by
  rcases h.runs.of_begin hi with ⟨rfl, _⟩ | hruns
  · have htaken : (turn cfg j w.log).taken.map (·.jobId) = some jobId := h.taken
    rw [turn_of_fresh hkeep hi] at htaken
    cases htaken
  · exact ⟨hruns, h.taken⟩

lemma Turns.begin (h : Turns cfg w) (hkeep : Obeying cfg w) (hi : w.task i = none)
    (hm : m.Operating) : Turns cfg (w.begin i m p) := by
  have hphase : phase cfg (w.begin i m p) = phase cfg w := by
    funext j
    by_cases hj : j = i
    · subst hj
      rw [phase, phase, begin_task_self, hi]
      show (turn cfg j w.log).queue = _
      rw [turn_of_fresh hkeep hi]
      rfl
    · rw [phase, phase, begin_task_of_ne hj]
      rfl
  refine ⟨fun j m' op k hat => ?_, ?_, h.ids, fun j j' walletId walletId' jobId hj hj' =>
    h.once j j' walletId walletId' jobId (hj.of_begin hkeep hi) (hj'.of_begin hkeep hi),
    fun j walletId jobId hj => h.gone j walletId jobId ⟨hj.toTakes.of_begin hkeep hi, hj.owned⟩,
    fun j walletId jobId hj => h.own j walletId jobId ⟨hj.toTakes.of_begin hkeep hi, hj.owned⟩⟩
  · by_cases hj : j = i
    · subst hj
      rw [World.At, begin_task_self] at hat
      cases hat
      exact hm
    · rw [World.At, begin_task_of_ne hj] at hat
      exact h.operating j m' op k hat
  · rw [hphase]
    exact h.locks

lemma not_runs_cutOff : ¬ Runs (w.cutOff crashed) i walletId := by
  rintro ⟨op, k, hat⟩
  exact cutOff_task_ne hat

lemma Turns.cutOff (h : Turns cfg w) : Turns cfg (w.cutOff crashed) := by
  refine ⟨fun i m op k hat => absurd hat cutOff_task_ne, ?_, h.ids,
    fun i j walletId _ jobId hi => absurd hi.runs not_runs_cutOff,
    fun i walletId jobId hi => absurd hi.runs not_runs_cutOff,
    fun i walletId jobId hi => absurd hi.runs not_runs_cutOff⟩
  refine KeyLocks.sound_empty _ fun i => ?_
  rw [phase]
  refine if_neg ?_
  show ¬ (((w.task i).map _).bind _).isSome = true
  cases w.task i <;> simp

lemma turns_init (hs : Starts w.shared) (htask : ∀ i, w.task i = none) : Turns cfg w := by
  obtain ⟨hjobs, _, hclaims⟩ := hs
  have hruns : ∀ {i walletId}, ¬ Runs w i walletId := by
    rintro i walletId ⟨op, k, hat⟩
    rw [World.At, htask i] at hat
    cases hat
  refine ⟨fun i m op k hat => ?_, ?_, fun jobId job hjob => ?_,
    fun i j walletId _ jobId hi => absurd hi.runs hruns,
    fun i walletId jobId hi => absurd hi.runs hruns,
    fun i walletId jobId hi => absurd hi.runs hruns⟩
  · rw [World.At, htask i] at hat
    cases hat
  · rw [hclaims]
    refine KeyLocks.sound_empty _ fun i => ?_
    rw [phase, htask i]
    rfl
  · rw [ControlPlane.payloads, hjobs] at hjob
    cases hjob

/-! ### Wallets -/

/-- What they keep about the wallets: one call for each runs, and one active job refers to it. -/
structure Wallets (cfg : Config) (w : Run) : Prop where
  single : ∀ i j walletId, Runs w i walletId → Runs w j walletId → i = j
  engaged : ∀ i walletId jobId, Runs w i walletId → (turn cfg i w.log).free = true →
    w.shared.Engages walletId jobId → Owns cfg w i walletId jobId
  one : ∀ walletId jobId jobId', w.shared.Engages walletId jobId →
    w.shared.Engages walletId jobId' → jobId = jobId'

lemma Turn.free_next {q : Turn} (h : ∀ walletId, op ≠ .activeExpiry walletId) :
    (q.next cfg op ans).free = q.free := by
  cases op with
  | activeExpiry walletId => exact absurd rfl (h walletId)
  | list status =>
    cases status with
    | none => rfl
    | some status => cases status <;> rfl
  | _ => rfl

lemma Owns.advance (h : Owns cfg w j walletId jobId)
    (hruns : Runs (w.advance i m p s op ans) j walletId) (hlist : ∀ status, op ≠ .list status) :
    Owns cfg (w.advance i m p s op ans) j walletId jobId := by
  by_cases hj : j = i
  · subst hj
    refine ⟨⟨hruns, ?_⟩, ?_⟩
    · rw [turn_advance_self, Turn.taken_next hlist]
      exact h.taken
    · rw [turn_advance_self]
      cases op with
      | deleteJob _ => rfl
      | _ =>
        rw [Turn.owned_next fun _ h => by cases h]
        exact h.owned
  · exact ⟨⟨hruns, (turn_advance_of_ne hj).symm ▸ h.taken⟩, (turn_advance_of_ne hj).symm ▸ h.owned⟩

lemma engages_effect (h : (effect i s op).Engages walletId jobId) :
    s.Engages walletId jobId ∨ ∃ job, op = .insertJob job ∧ jobId = job.jobId ∧
      job.status.Active ∧ job.claim.map (·.walletId) = some walletId := by
  obtain ⟨job, hjob, hactive, hwallet⟩ := h
  cases op with
  | deleteJob _ =>
    exact .inl ⟨job, (mem_objects_deleteJob (i := i) hjob).2, hactive, hwallet⟩
  | insertJob written =>
    rcases mem_payloads_insertJob (i := i) hjob with hold | ⟨rfl, rfl⟩
    · exact .inl ⟨job, hold, hactive, hwallet⟩
    · exact .inr ⟨job, rfl, rfl, hactive, hwallet⟩
  | _ => exact .inl ⟨job, hjob, hactive, hwallet⟩

/-- A wallet's new active job is the one that its call has taken. -/
lemma owner_of_insertJob {k : Unit → Program Unit} (h : Turns cfg w) (hkeep : Obeying cfg w)
    (hat : w.At i m (.insertJob job) k) (hactive : job.status.Active)
    (hwallet : job.claim.map (·.walletId) = some walletId) :
    m = .processNext walletId ∧ Owns cfg w i walletId job.jobId := by
  rcases insertJob_cases h hkeep hat with hidle | ⟨walletId', rfl, howner, _, hfits⟩
  · exact absurd hactive hidle
  · obtain rfl := Option.some.inj ((hfits.wallet hactive).symm.trans hwallet)
    exact ⟨rfl, howner⟩

lemma Wallets.go {o : Outcome} (h : Wallets cfg w) (hturns : Turns cfg w) (hkeep : Obeying cfg w)
    (hat : w.At i m op k) (hL : LeasesLast cfg w (.go i o))
    (hanswer : answer w.shared op o = some ans) :
    Wallets cfg (w.advance i m (k ans) (effect i w.shared op) op ans) := by
  refine ⟨fun j j' walletId hj hj' =>
      h.single j j' walletId (hj.of_advance hat) (hj'.of_advance hat),
    fun j walletId jobId hj hfree hengages => ?_, fun walletId jobId jobId' hjob hjob' => ?_⟩
  · have hruns := hj.of_advance hat
    rcases engages_effect hengages with hold | ⟨job, rfl, rfl, hactive, hwallet⟩
    · by_cases hop : j = i ∧
          ((∃ walletId, op = .activeExpiry walletId) ∨ ∃ status, op = .list status)
      · obtain ⟨rfl, ⟨walletId', rfl⟩ | ⟨status, rfl⟩⟩ := hop
        · -- the lock of the job is there, so the wallet is not free
          obtain rfl := runs_self hat hruns
          obtain ⟨_, rfl, _⟩ := hkeep.pre hat
          cases hanswer
          rw [turn_advance_self] at hfree
          obtain ⟨expiresAt, hexpiry, hlt⟩ := hL _ _ _ hat jobId hold
          have hbusy : (w.shared.activeExpiry walletId').any
              (fun expiresAt => (turn cfg j w.log).time < expiresAt) = true := by
            rw [Option.mem_def.mp hexpiry]
            exact decide_eq_true hlt
          exact absurd hfree (by simp [Turn.next, hbusy])
        · -- no job is taken yet, so none was active
          obtain rfl := runs_self hat hruns
          obtain ⟨_, _, _, htaken, _, hfree⟩ := hkeep.pre hat
          have howns := (h.engaged j walletId jobId hruns hfree hold).taken
          rw [htaken] at howns
          cases howns
      · have hfree' : (turn cfg j w.log).free = true := by
          by_cases hji : j = i
          · subst hji
            rwa [turn_advance_self, Turn.free_next fun walletId heq =>
              hop ⟨rfl, .inl ⟨walletId, heq⟩⟩] at hfree
          · rwa [turn_advance_of_ne hji] at hfree
        have howns := h.engaged j walletId jobId hruns hfree' hold
        by_cases hji : j = i
        · exact howns.advance hj fun status heq => hop ⟨hji, .inr ⟨status, heq⟩⟩
        · exact ⟨⟨hj, (turn_advance_of_ne hji).symm ▸ howns.taken⟩,
            (turn_advance_of_ne hji).symm ▸ howns.owned⟩
    · obtain ⟨rfl, howner⟩ := owner_of_insertJob hturns hkeep hat hactive hwallet
      obtain rfl := h.single i j walletId howner.runs hruns
      exact howner.advance hj fun _ h => by cases h
  · have hmixed : ∀ {walletId jobId job}, op = .insertJob job → job.status.Active →
        job.claim.map (·.walletId) = some walletId → w.shared.Engages walletId jobId →
        jobId = job.jobId := by
      rintro walletId jobId job rfl hactive hwallet hold
      obtain ⟨rfl, howner⟩ := owner_of_insertJob hturns hkeep hat hactive hwallet
      have hsome : (turn cfg i w.log).taken.isSome := by
        obtain ⟨taken, htaken, _⟩ := Option.map_eq_some_iff.mp howner.taken
        rw [htaken]
        rfl
      have hfree := (hkeep.pre hat).1.free hsome
      have howns := h.engaged i walletId jobId howner.runs hfree hold
      exact Option.some.inj (howns.taken.symm.trans howner.taken)
    rcases engages_effect hjob with hold | ⟨job, hop, rfl, hactive, hwallet⟩
    · rcases engages_effect hjob' with hold' | ⟨job', hop', rfl, hactive', hwallet'⟩
      · exact h.one walletId jobId jobId' hold hold'
      · exact hmixed hop' hactive' hwallet' hold
    · rcases engages_effect hjob' with hold' | ⟨job', hop', rfl, _, _⟩
      · exact (hmixed hop hactive hwallet hold').symm
      · rw [hop] at hop'
        cases hop'
        rfl

lemma Wallets.begin (h : Wallets cfg w) (hkeep : Obeying cfg w) (hi : w.task i = none)
    (hloop : OneLoop w (.start i m)) : Wallets cfg (w.begin i m p) := by
  have hnew : ∀ {j j' walletId}, j = i → m = .processNext walletId →
      Runs w j' walletId → False := by
    rintro j j' walletId rfl rfl hruns
    exact hloop j' hruns
  refine ⟨fun j j' walletId hj hj' => ?_, fun j walletId jobId hj hfree hengages => ?_, h.one⟩
  · rcases hj.of_begin hi with ⟨hji, hm⟩ | hold
    · rcases hj'.of_begin hi with ⟨hji', _⟩ | hold'
      · exact hji.trans hji'.symm
      · exact (hnew hji hm hold').elim
    · rcases hj'.of_begin hi with ⟨hji', hm⟩ | hold'
      · exact (hnew hji' hm hold).elim
      · exact h.single j j' walletId hold hold'
  · rcases hj.of_begin hi with ⟨rfl, _⟩ | hold
    · have hfree : (turn cfg j w.log).free = true := hfree
      rw [turn_of_fresh hkeep hi] at hfree
      cases hfree
    · have howns := h.engaged j walletId jobId hold hfree hengages
      exact ⟨⟨hj, howns.taken⟩, howns.owned⟩

lemma Wallets.cutOff (h : Wallets cfg w) : Wallets cfg (w.cutOff crashed) :=
  ⟨fun _ _ _ hi => absurd hi not_runs_cutOff, fun _ _ _ hi => absurd hi not_runs_cutOff, h.one⟩

lemma wallets_init (hs : Starts w.shared) (htask : ∀ i, w.task i = none) : Wallets cfg w := by
  have hruns : ∀ {i walletId}, ¬ Runs w i walletId := by
    rintro i walletId ⟨op, k, hat⟩
    rw [World.At, htask i] at hat
    cases hat
  refine ⟨fun _ _ _ hi => absurd hi hruns, fun _ _ _ hi => absurd hi hruns,
    fun walletId jobId jobId' hjob => ?_⟩
  obtain ⟨job, hjob, _⟩ := hjob
  rw [ControlPlane.payloads, hs.1] at hjob
  cases hjob

end

/-! ## Runs -/

variable {cfg : Config} {op : Op} {o : Outcome} {walletId : Term}

lemma answer_post {w : Run} {i : ℕ} {m : Method} {ans : Answer op} {k : Answer op → Program Unit}
    (h : Turns cfg w) (hkeep : Obeying cfg w) (hat : w.At i m op k)
    (hanswer : answer w.shared op o = some ans) :
    (contractOf cfg m).post (World.account (contractOf cfg m) i w.log) op ans := by
  cases m with
  | processNext walletId =>
    cases op with
    | getStatus jobId =>
      cases hanswer
      intro job hjob
      have hmem := mem_of_mem_head? hjob
      obtain ⟨_, howned, htaken⟩ := hkeep.pre hat
      exact ⟨h.ids jobId job hmem, h.own i walletId jobId ⟨⟨⟨_, _, hat⟩, htaken⟩, howned⟩ job hmem⟩
    | _ => trivial
  | _ => trivial

/-- **One execution at a time.** In the runs of a runner that reset no job that is taken, and whose
leases last, no job is taken twice, and no wallet has two active jobs. -/
theorem jobs_executed_once (cfg : Config) {w : Run}
    (h : (((system cfg).machine Starts).restrict fun w l =>
      Paced w l ∧ ResetsFree cfg w l ∧ LeasesLast cfg w l).Reachable w) : Exclusive cfg w := by
  have hinv : Obeying cfg w ∧ Turns cfg w ∧ Wallets cfg w := by
    refine outline (J := fun w => Turns cfg w ∧ Wallets cfg w) (program_obeys cfg)
      ?_ ?_ ?_ ?_ h
    · exact fun w hs htask _ => ⟨turns_init hs htask, wallets_init hs htask⟩
    · exact fun w i m hkeep hinv hD hi =>
        ⟨hinv.1.begin hkeep hi hD.1.1, hinv.2.begin hkeep hi hD.1.2⟩
    · intro w i o m op k s ans hkeep hinv hD hat hperform
      obtain ⟨hanswer, rfl⟩ := perform_eq_some.mp hperform
      exact ⟨answer_post hinv.1 hkeep hat hanswer, hinv.1.go hkeep hat hD.2.1 hanswer,
        hinv.2.go hinv.1 hkeep hat hD.2.2 hanswer⟩
    · exact fun w _ hinv _ => ⟨hinv.1.cutOff, hinv.2.cutOff⟩
  obtain ⟨_, hturns, hwallets⟩ := hinv
  exact ⟨hturns.once, fun walletId jobId jobId' _ => hwallets.one walletId jobId jobId'⟩

/-! ## Runs on fixed inputs -/

def claimSteps : List Step :=
  liftSteps ++ .start 1 (.processNext ['w']) :: goes 1 [.none, .none, .none, .none, .time 6, .none,
    .none, .time 7, .none, .none, .none, .none, .none]

/-- The job is reset while the first call runs, and another wallet takes it. -/
def resetSteps : List Step :=
  claimSteps ++ .start 2 .recover :: goes 2 [.none, .time 8, .none, .none, .none, .none, .none,
    .time 9, .none, .none]

def takenAgainSteps : List Step :=
  resetSteps ++ .start 3 (.processNext ['v']) ::
    goes 3 [.none, .none, .none, .none, .time 10, .none, .none]

def sampleQuad : Quad := ⟨['r'], ['p'], ['o'], ['g']⟩

def sampleSlice : LiftJobValidationMetadata × ResolvedSlice :=
  (⟨[['r']], [], 1, ['p'], .create, none⟩, ⟨[sampleQuad], none, none, none, []⟩)

/-- The job is claimed and validated, and its quad is not found on the chain. -/
def preparedSteps : List Step :=
  claimSteps ++ goes 1 [.slice (.ok sampleSlice), .none, .none, .time 8, .none, .none,
    .none, .time 8, .none, .none, .terms []]

def tentativeResult : PublishResult :=
  ⟨['u'], ['m'], .tentative, some ⟨1, none, none, ['t'], 1, 1, ['a']⟩⟩

/-- The call ends with its job included. -/
def includedSteps : List Step :=
  preparedSteps ++ goes 1 [.includes true, .result (.ok tentativeResult), .none, .none,
    .time 9, .none, .none, .none, .time 9, .none, .none,
    .time 9, .none, .none, .none, .time 9, .none, .none]

def secondLiftSteps : List Step :=
  includedSteps ++ .start 2 (.lift sampleRequest ['k']) :: goes 2 [.none, .time 10, .none, .none]

/-- The wallet takes its next job after the lease. -/
def secondClaimSteps : List Step :=
  secondLiftSteps ++ .start 3 (.processNext ['w']) :: goes 3 [.none, .none, .none, .none,
    .time 400000, .none, .none, .time 400001, .none, .none, .none, .none]

/-! ### Checks of the conditions -/

instance decidableOperating : (m : Method) → Decidable m.Operating
  | .claimNext _ | .update .. | .recordPublishResult .. | .recordPublishFailure .. => isFalse id
  | .lift .. | .processNext _ | .recover | .retry | .cancel _ | .clear _ | .pause | .resume =>
    isTrue trivial

def checkOperates : Step → Bool
  | .start _ m => decide m.Operating
  | _ => true

lemma operates_of_check {w : Run} {l : Step} (h : checkOperates l = true) : Operates w l := by
  cases l with
  | start i m => exact (of_decide_eq_true h : m.Operating)
  | _ => trivial

def checkOneLoop (w : Run) : Step → Bool
  | .start _ (.processNext walletId) => allTasks w fun _ m _ => match m with
    | .processNext other => decide (other ≠ walletId)
    | _ => true
  | _ => true

def checkPaced (w : Run) (l : Step) : Bool := checkOperates l && checkOneLoop w l

lemma paced_of_check {w : Run} {l : Step} (hfew : FewTasks w) (h : checkPaced w l = true) :
    Paced w l := by
  obtain ⟨hoperates, hloop⟩ := Bool.and_eq_true_iff.mp h
  refine ⟨operates_of_check hoperates, ?_⟩
  cases l with
  | start i m =>
    cases m with
    | processNext walletId =>
      rintro j ⟨op, k, hat⟩
      exact absurd rfl (of_decide_eq_true (hfew.of_all hloop hat))
    | _ => trivial
  | _ => trivial

def checkResetsFree (w : Run) : Step → Bool
  | .go i _ => atTask w i fun _ op => match op with
    | .insertJob job => decide (job.status ≠ accepted) || allTasks w fun j m _ => match m with
      | .processNext _ =>
        decide ((turn plainConfig j w.log).taken.map (·.jobId) ≠ some job.jobId)
      | _ => true
    | _ => true
  | _ => true

lemma resetsFree_of_check {w : Run} {l : Step} (hfew : FewTasks w)
    (h : checkResetsFree w l = true) : ResetsFree plainConfig w l := by
  cases l with
  | go i o =>
    rintro m job k hat hstatus j walletId ⟨⟨op, k', hat'⟩, htaken⟩
    have hinsert := of_atTask h hat
    simp only [hstatus, ne_eq, not_true_eq_false, decide_false, Bool.false_or] at hinsert
    exact of_decide_eq_true (hfew.of_all hinsert hat') htaken
  | _ => trivial

/-- The lock of the wallet lasts, or no active job refers to the wallet. -/
def checkLeases (w : Run) : Step → Bool
  | .go i _ => atTask w i fun _ op => match op with
    | .activeExpiry walletId =>
      (w.shared.activeExpiry walletId).any (decide <| (turn plainConfig i w.log).time < ·) ||
        w.shared.jobs.all fun q => q.2.readPayload.all fun job =>
          decide ¬ (job.status.Active ∧ job.claim.map (·.walletId) = some walletId)
    | _ => true
  | _ => true

lemma leasesLast_of_check {w : Run} {l : Step} (h : checkLeases w l = true) :
    LeasesLast plainConfig w l := by
  cases l with
  | go i o =>
    rintro m walletId k hat jobId ⟨job, hjob, hactive⟩
    rcases Bool.or_eq_true_iff.mp (of_atTask h hat) with hlasts | hnone
    · obtain ⟨expiresAt, hexpiry, hlt⟩ := (Option.any_eq_true _ _).mp hlasts
      exact ⟨expiresAt, hexpiry, of_decide_eq_true hlt⟩
    · obtain ⟨q, hq, _, hread⟩ := Graph.mem_objects.mp hjob
      have hfree := all_eq_true.mp hnone q hq
      rw [hread, Option.all_some] at hfree
      exact absurd hactive (of_decide_eq_true hfree)
  | _ => trivial

abbrev PacedRun (w : Run) : Prop :=
  (((system plainConfig).machine Starts).restrict Paced).Reachable w

/-! ### Two wallets, and a job that is reset -/

/-- Two wallets take one of two jobs each. -/
def twoWalletsSteps : List Step :=
  liftSteps ++ .start 1 (.lift sampleRequest ['k']) :: goes 1 [.none, .time 5, .none, .none] ++
    [.start 2 (.processNext ['w']), .start 3 (.processNext ['v'])] ++
    goes 2 [.none, .none, .none, .none, .time 6, .none, .none, .time 7, .none, .none, .none, .none,
      .none] ++
    goes 3 [.none, .none, .none, .none, .time 6, .none, .none, .time 8, .none, .none, .none, .none,
      .none]

/-- Both wallets run, and neither has the other one's job. -/
theorem jobs_executed_once_claim : Exclusive plainConfig (runOf twoWalletsSteps) := by
  have hallowed : Machine.Allowed (fun w l => (startsFew l &&
      (checkPaced w l && (checkResetsFree w l && checkLeases w l))) = true)
      (system plainConfig).exec twoWalletsSteps emptyRun := by decide +kernel
  refine jobs_executed_once plainConfig (checked _ twoWalletsSteps (fun hfew h => ?_) hallowed).1
  simp only [Bool.and_eq_true] at h
  exact ⟨paced_of_check hfew h.1, resetsFree_of_check hfew h.2.1, leasesLast_of_check h.2.2⟩

/-- A run of a runner with a job taken twice, or with two active jobs of a wallet. -/
def FailsToExclude (w : Run) : Prop := PacedRun w ∧ ¬ Exclusive plainConfig w

lemma pacedRun_of_check {steps : List Step}
    (h : Machine.Allowed (fun w l => (startsFew l && checkPaced w l) = true)
      (system plainConfig).exec steps emptyRun) : PacedRun (runOf steps) :=
  (checked checkPaced steps paced_of_check h).1

/-- The job is taken again while it is executed, and the wallet has two active jobs. -/
theorem job_executed_twice :
    FailsToExclude (runOf takenAgainSteps) ∧ FailsToExclude (runOf secondClaimSteps) := by
  refine ⟨⟨pacedRun_of_check (by decide +kernel), fun h => ?_⟩,
    ⟨pacedRun_of_check (by decide +kernel), fun h => ?_⟩⟩
  · have heq := h.once 1 3 ['w'] ['v'] ['j'] ⟨⟨_, _, rfl⟩, rfl⟩ ⟨⟨_, _, rfl⟩, rfl⟩
    cases heq
  · have heq := h.wallet ['w'] ['j'] ['k'] ⟨_, rfl, by decide⟩
      ⟨_, mem_singleton_self _, by decide, rfl⟩
      ⟨_, mem_singleton_self _, by decide, rfl⟩
    cases heq

end Dkg.AsyncLift
