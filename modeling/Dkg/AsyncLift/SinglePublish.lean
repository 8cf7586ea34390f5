import Dkg.AsyncLift.Exclusion

/-! # Nothing is published twice

The executor may submit a transaction that is included, whether the call returns, throws or is cut
off. A later call for the same job publishes none of the quads of that transaction, as long as a job
is made accepted again only when it may be: no running call has taken it (`ResetsFree`), and no call
for it has committed anything, or its request is a `CREATE` (`ResetsUnpublished`), for which the
quads that are found confirmed are taken out again (`SeesCommitted`).
-/

namespace Dkg.AsyncLift

open Lib LiftJobState List

/-- A call of the executor, with the job that its task has taken. -/
structure Invocation where
  job : LiftJob
  options : PublishOptions
  commits : Bool

/-- The calls of the executor, the last one first. -/
def invocations (cfg : Config) : Log → List Invocation
  | [] => []
  | ⟨i, _, .callExecutor _ options, commits⟩ :: log =>
    ((turn cfg i log).taken.map fun job => ⟨job, options, commits⟩).toList ++ invocations cfg log
  | _ :: log => invocations cfg log

def PublishOptions.committed (options : PublishOptions) : List Quad :=
  options.quads ++ options.privateQuads.getD []

/-- What an included transaction committed is not published for the same job again. -/
def PublishedOnce (cfg : Config) (w : Run) : Prop :=
  (invocations cfg w.log).Pairwise fun new old => new.job.jobId = old.job.jobId →
    old.commits = true → ∀ quad ∈ new.options.committed, quad ∉ old.options.committed

/-! ## Conditions on the steps -/

/-- No job is written as accepted for which something is committed that is not a `CREATE`. -/
def ResetsUnpublished (cfg : Config) (w : Run) : Step → Prop
  | .go i _ => ∀ m job k, w.At i m (.insertJob job) k → job.status = accepted →
      ∀ old ∈ invocations cfg w.log, old.job.jobId = job.jobId → old.commits = true →
        old.job.request.transitionType = .create
  | _ => True

/-- The quads of a slice that an earlier `CREATE` committed are seen as confirmed. -/
def SeesCommitted (cfg : Config) (w : Run) : Step → Prop
  | .go i _ => ∀ m walletId options k, w.At i m (.callExecutor walletId options) k →
      ∀ job ∈ (turn cfg i w.log).taken, ∀ slice ∈ (turn cfg i w.log).slice,
        ∀ old ∈ invocations cfg w.log, old.job.jobId = job.jobId → old.commits = true →
          old.job.request.transitionType = .create → ∀ quad ∈ old.options.committed,
            (quad ∈ slice.quads → job.request.transitionType = .create ∧
              (turn cfg i w.log).Confirms (turn cfg i w.log).publicKeys quad) ∧
            (quad ∈ slice.privateQuads.getD [] → job.request.transitionType = .create ∧
              (turn cfg i w.log).Confirms (turn cfg i w.log).privateKeys quad)
  | _ => True

/-! ## The invariant -/

/-- What every run keeps: a job that a committed call was for, unless it is a `CREATE`, is not
accepted again, and a call that has taken it has called the executor. -/
structure Published (cfg : Config) (w : Run) : Prop where
  gone : ∀ old ∈ invocations cfg w.log, old.commits = true →
    old.job.request.transitionType ≠ .create → accepted ∉ w.shared.statuses old.job.jobId
  invoked : ∀ old ∈ invocations cfg w.log, old.commits = true →
    old.job.request.transitionType ≠ .create → ∀ i walletId,
      Takes cfg w i walletId old.job.jobId → (turn cfg i w.log).invoked = true
  once : PublishedOnce cfg w

section

variable {cfg : Config} {w : Run} {i j : ℕ} {m : Method} {op : Op} {ans : Answer op}
  {k : Answer op → Program Unit} {p : Program Unit} {s : ControlPlane} {o : Outcome}

def Op.Silent : Op → Prop
  | .callExecutor _ _ => False
  | _ => True

lemma invocations_of_silent (h : op.Silent) {log : Log} :
    invocations cfg (⟨i, m, op, ans⟩ :: log) = invocations cfg log := by
  cases op with
  | callExecutor _ _ => cases h
  | _ => rfl

lemma Turn.invoked_next {q : Turn} (h : q.invoked = true) : (q.next cfg op ans).invoked = true := by
  cases op with
  | callExecutor _ _ => rfl
  | list status =>
    cases status with
    | none => exact h
    | some status => cases status <;> exact h
  | _ => exact h

lemma invoked_advance (h : (turn cfg j w.log).invoked = true) :
    (turn cfg j (w.advance i m p s op ans).log).invoked = true := by
  by_cases hj : j = i
  · subst hj
    rw [turn_advance_self]
    exact Turn.invoked_next h
  · rwa [turn_advance_of_ne hj]

lemma accepted_effect {jobId : Term} (h : accepted ∈ (effect i s op).statuses jobId) :
    accepted ∈ s.statuses jobId ∨
      ∃ job, op = .insertJob job ∧ job.jobId = jobId ∧ job.status = accepted := by
  cases op with
  | deleteJob _ => exact .inl (mem_objects_deleteJob (i := i) h).2
  | insertJob job =>
    rcases mem_statuses_insertJob (i := i) h with hold | ⟨hid, hstatus⟩
    · exact .inl hold
    · exact .inr ⟨job, rfl, hid.symm, hstatus.symm⟩
  | _ => exact .inl h

lemma Published.silent (h : Published cfg w) (hturns : Turns cfg w) (hkeep : Obeying cfg w)
    (hat : w.At i m op k) (hop : op.Silent) (hD : ResetsUnpublished cfg w (.go i o))
    (hanswer : answer w.shared op o = some ans) :
    Published cfg (w.advance i m (k ans) (effect i w.shared op) op ans) := by
  have hinvocations : invocations cfg (w.advance i m (k ans) (effect i w.shared op) op ans).log =
      invocations cfg w.log := invocations_of_silent hop
  refine ⟨fun old hold hcommits hcreate haccepted => ?_,
    fun old hold hcommits hcreate j walletId htakes => ?_, ?_⟩
  · rw [hinvocations] at hold
    rcases accepted_effect haccepted with hold' | ⟨job, rfl, hid, hstatus⟩
    · exact h.gone old hold hcommits hcreate hold'
    · exact hcreate (hD m job k hat hstatus old hold hid.symm hcommits)
  · rw [hinvocations] at hold
    by_cases hlist : j = i ∧ ∃ status, op = .list status
    · -- a job that is taken now is accepted
      obtain ⟨rfl, status, rfl⟩ := hlist
      cases hanswer
      exact absurd (htakes.listed hturns hkeep hat).2.2 (h.gone old hold hcommits hcreate)
    · refine invoked_advance (h.invoked old hold hcommits hcreate j walletId ?_)
      by_cases hj : j = i
      · exact htakes.of_advance hat fun status heq => hlist ⟨hj, status, heq⟩
      · exact ⟨htakes.runs.of_advance hat, turn_advance_of_ne hj ▸ htakes.taken⟩
  · show (invocations cfg (_ :: w.log)).Pairwise _
    rw [invocations_of_silent hop]
    exact h.once

lemma Published.callExecutor {walletId : Term} {options : PublishOptions} {commits : Bool}
    {k : Bool → Program Unit} (h : Published cfg w) (hturns : Turns cfg w) (hkeep : Obeying cfg w)
    (hat : w.At i m (.callExecutor walletId options) k) (hD : SeesCommitted cfg w (.go i o)) :
    Published cfg
      (w.advance i m (k commits) w.shared (.callExecutor walletId options) commits) := by
  obtain ⟨wallet, rfl⟩ := processNext_of_not_idle hkeep hturns hat id
  obtain ⟨_, howned, hinvoked, job, htaken, slice, hslice, left, hleaves, hquads, hprivate⟩ :=
    hkeep.pre hat
  have htakes : Takes cfg w i wallet job.jobId := by
    refine ⟨⟨_, _, hat⟩, ?_⟩
    rw [Option.mem_def.mp htaken]
    rfl
  have hinvocations : invocations cfg (w.advance i (.processNext wallet) (k commits) w.shared
      (.callExecutor walletId options) commits).log =
      ⟨job, options, commits⟩ :: invocations cfg w.log := by
    show ((turn cfg i w.log).taken.map _).toList ++ _ = _
    rw [Option.mem_def.mp htaken]
    rfl
  have hback : ∀ {j walletId' jobId}, Takes cfg (w.advance i (.processNext wallet) (k commits)
      w.shared (.callExecutor walletId options) commits) j walletId' jobId →
      Takes cfg w j walletId' jobId := fun hj => hj.of_advance hat fun _ h => by cases h
  refine ⟨fun old hold hcommits hcreate => ?_,
    fun old hold hcommits hcreate j walletId' hj => ?_, ?_⟩
  · rw [hinvocations] at hold
    rcases mem_cons.mp hold with rfl | hold
    · exact hturns.gone i wallet job.jobId ⟨htakes, howned⟩
    · exact h.gone old hold hcommits hcreate
  · rw [hinvocations] at hold
    rcases mem_cons.mp hold with rfl | hold
    · obtain rfl := hturns.once j i walletId' wallet job.jobId (hback hj) htakes
      rw [turn_advance_self]
      rfl
    · exact invoked_advance (h.invoked old hold hcommits hcreate j walletId' (hback hj))
  · show (invocations cfg (_ :: w.log)).Pairwise _
    refine (show invocations cfg (_ :: w.log) = _ from hinvocations) ▸ pairwise_cons.mpr
      ⟨fun old hold hid hcommits quad hquad hcommitted => ?_, h.once⟩
    by_cases hcreate : old.job.request.transitionType = .create
    · obtain ⟨hpublic, hprivate'⟩ := hD _ _ _ _ hat job htaken slice hslice old hold hid.symm
        hcommits hcreate quad hcommitted
      rcases mem_append.mp hquad with hmem | hmem
      · rw [hquads] at hmem
        obtain ⟨hslice, hconfirms⟩ := hleaves.quads quad hmem
        obtain ⟨hnew, hseen⟩ := hpublic hslice
        exact hconfirms hnew hseen
      · rw [hprivate] at hmem
        obtain ⟨hslice, hconfirms⟩ := hleaves.privateQuads quad hmem
        obtain ⟨hnew, hseen⟩ := hprivate' hslice
        exact hconfirms hnew hseen
    · -- the call has taken the job, so it is the one that committed
      have hagain := h.invoked old hold hcommits hcreate i wallet (hid ▸ htakes)
      rw [hinvoked] at hagain
      cases hagain

end

/-! ## Runs -/

/-- **Single publication.** In the runs that make a job accepted only when it may be, nothing that
is committed is published again for the same job. -/
theorem published_once (cfg : Config) {w : Run}
    (h : (((system cfg).machine Starts).restrict fun w l => Operates w l ∧ ResetsFree cfg w l ∧
      ResetsUnpublished cfg w l ∧ SeesCommitted cfg w l).Reachable w) : PublishedOnce cfg w := by
  have hinv : Obeying cfg w ∧ Turns cfg w ∧ Published cfg w := by
    refine System.outline (J := fun w => Turns cfg w ∧ Published cfg w) (program_obeys cfg)
      ?_ ?_ ?_ ?_ h
    · intro w hs htask hlog
      have hnone : invocations cfg w.log = [] := by rw [hlog, invocations]
      refine ⟨turns_init hs htask, fun old hold => ?_, fun old hold => ?_, ?_⟩
      · rw [hnone] at hold
        cases hold
      · rw [hnone] at hold
        cases hold
      · rw [PublishedOnce, hnone]
        exact List.Pairwise.nil
    · intro w i m hkeep hinv hD hi
      refine ⟨hinv.1.begin hkeep hi hD.1, hinv.2.gone, ?_, hinv.2.once⟩
      exact fun old hold hcommits hcreate j walletId hj =>
        hinv.2.invoked old hold hcommits hcreate j walletId (hj.of_begin hkeep hi)
    · intro w i o m op k s ans hkeep hinv hD hat hperform
      obtain ⟨hanswer, rfl⟩ := perform_eq_some.mp hperform
      refine ⟨answer_post hinv.1 hkeep hat hanswer, hinv.1.go hkeep hat hD.2.1 hanswer, ?_⟩
      cases op with
      | callExecutor walletId options =>
        exact hinv.2.callExecutor hinv.1 hkeep hat hD.2.2.2
      | _ => exact hinv.2.silent hinv.1 hkeep hat trivial hD.2.2.1 hanswer
    · intro w _ hinv _
      exact ⟨hinv.1.cutOff, hinv.2.gone,
        fun _ _ _ _ _ _ hj => absurd hj.runs not_runs_cutOff, hinv.2.once⟩
  exact hinv.2.2.once

/-! ## Runs on fixed inputs -/

def publishSteps : List Step := preparedSteps ++ goes 1 [.includes true]

def recoverSteps (i : ℕ) : List Step :=
  .start i .recover :: goes i [.none, .time 9, .none, .none, .none, .none, .none, .time 9, .none,
    .none]

/-- A call for the only job, up to the call of the executor. -/
def executeSteps (i : ℕ) : List Step :=
  .start i (.processNext ['w']) :: goes i [.none, .none, .none, .none, .time 10, .none, .none,
    .time 10, .none, .none, .none, .none, .none, .slice (.ok sampleSlice), .none, .none, .time 11,
    .none, .none, .none, .time 11, .none, .none, .terms [], .includes true]

/-- A crash after the transaction was sent, and a recovery. -/
def crashedSteps : List Step := publishSteps ++ .crash :: recoverSteps 2 ++ executeSteps 3

/-- The call of the executor times out after the transaction was sent, and the job is retried. -/
def timedOutSteps : List Step :=
  publishSteps ++ goes 1 [.result (.error "timeout".toList), .none, .time 9, .none, .none, .time 9,
    .none, .none, .none, .none] ++
  .start 2 .retry :: goes 2 [.none, .none, .time 9, .none, .none, .none] ++ executeSteps 3

def addedQuad : Quad := { sampleQuad with predicate := ['q'] }

/-- A call that finds the first quad confirmed. -/
def resumeSteps (i : ℕ) : List Step :=
  .start i (.processNext ['w']) :: goes i [.none, .none, .none, .none, .time 10, .none, .none,
    .time 10, .none, .none, .none, .none, .none,
    .slice (.ok (sampleSlice.1, { sampleSlice.2 with quads := [sampleQuad, addedQuad] })),
    .none, .none, .time 11, .none, .none, .none, .time 11, .none, .none,
    .terms [['r']], .terms [toQuadKey sampleQuad], .terms [], .includes true]

/-- After the crash the knowledge graphs show what was sent. -/
def resumedSteps : List Step := publishSteps ++ .crash :: recoverSteps 2 ++ resumeSteps 3

def checkUnpublished (w : Run) : Step → Bool
  | .go i _ => atTask w i fun _ op => match op with
    | .insertJob _ => (invocations plainConfig w.log).all fun old =>
      decide (old.job.request.transitionType = .create)
    | _ => true
  | _ => true

lemma unpublished_of_check {w : Run} {l : Step} (h : checkUnpublished w l = true) :
    ResetsUnpublished plainConfig w l := by
  cases l with
  | go i o =>
    intro m job k hat _ old hold _ _
    exact of_decide_eq_true (all_eq_true.mp (of_atTask h hat) old hold)
  | _ => trivial

/-- The call is a `CREATE` without private quads, and it sees all that was sent before. -/
def checkSees (w : Run) : Step → Bool
  | .go i _ => atTask w i fun _ op => match op with
    | .callExecutor _ _ =>
      ((turn plainConfig i w.log).taken.all fun job =>
        decide (job.request.transitionType = .create)) &&
      ((turn plainConfig i w.log).slice.all fun slice => decide (slice.privateQuads = none)) &&
      (invocations plainConfig w.log).all fun old => old.options.committed.all fun quad =>
        decide (HasRoot quad.subject (turn plainConfig i w.log).roots ∧
          toQuadKey quad ∈ (turn plainConfig i w.log).publicKeys)
    | _ => true
  | _ => true

lemma sees_of_check {w : Run} {l : Step} (h : checkSees w l = true) :
    SeesCommitted plainConfig w l := by
  cases l with
  | go i o =>
    intro m walletId options k hat job hjob slice hslice old hold _ _ _ quad hquad
    have hcall := of_atTask h hat
    simp only [Bool.and_eq_true, Option.all_eq_true, all_eq_true, decide_eq_true_eq] at hcall
    obtain ⟨⟨hcreate, hprivate⟩, hconfirmed⟩ := hcall
    refine ⟨fun _ => ⟨hcreate job hjob, hconfirmed old hold quad hquad⟩, fun hmem => ?_⟩
    rw [hprivate slice hslice] at hmem
    cases hmem
  | _ => trivial

/-- The second call publishes the quad that the first one did not. -/
theorem published_once_first : PublishedOnce plainConfig (runOf resumedSteps) ∧
    (invocations plainConfig (runOf resumedSteps).log).map (·.options.quads) =
      [[addedQuad], [sampleQuad]] := by
  have hallowed : Machine.Allowed (fun w l => (startsFew l && (checkOperates l &&
      (checkResetsFree w l && (checkUnpublished w l && checkSees w l)))) = true)
      (system plainConfig).exec resumedSteps emptyRun := by decide +kernel
  refine ⟨published_once plainConfig (checked _ resumedSteps (fun hfew h => ?_) hallowed).1,
    by decide +kernel⟩
  simp only [Bool.and_eq_true] at h
  exact ⟨operates_of_check h.1, resetsFree_of_check hfew h.2.1, unpublished_of_check h.2.2.1,
    sees_of_check h.2.2.2⟩

/-- A run in which something is published twice. -/
def FailsToPublishOnce (w : Run) : Prop :=
  (((system plainConfig).machine Starts).restrict Operates).Reachable w ∧
    ¬ PublishedOnce plainConfig w

lemma operates_runOf {steps : List Step}
    (h : Machine.Allowed (fun _ l => (startsFew l && checkOperates l) = true)
      (system plainConfig).exec steps emptyRun) :
    (((system plainConfig).machine Starts).restrict Operates).Reachable (runOf steps) :=
  (checked (fun _ => checkOperates) steps (fun _ => operates_of_check) h).1

/-- Both runs publish the quad twice. -/
theorem published_twice :
    FailsToPublishOnce (runOf crashedSteps) ∧ FailsToPublishOnce (runOf timedOutSteps) := by
  refine ⟨⟨operates_runOf (by decide +kernel), fun h => ?_⟩,
    ⟨operates_runOf (by decide +kernel), fun h => ?_⟩⟩
  · have hpair : (invocations plainConfig (runOf crashedSteps).log).Pairwise _ := h
    cases hpair with
    | cons hhead _ =>
      exact hhead _ mem_cons_self rfl rfl sampleQuad mem_cons_self mem_cons_self
  · have hpair : (invocations plainConfig (runOf timedOutSteps).log).Pairwise _ := h
    cases hpair with
    | cons hhead _ =>
      exact hhead _ mem_cons_self rfl rfl sampleQuad mem_cons_self mem_cons_self

end Dkg.AsyncLift
