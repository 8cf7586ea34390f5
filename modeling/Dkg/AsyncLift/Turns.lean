import Dkg.AsyncLift.Publisher

/-! # The turns of `processNext`

A call of `processNext` takes the first accepted job while it holds the queue of claims. From its
first delete on it writes this job only, never as accepted, and as active under its own wallet only;
it calls the executor once, with quads that the knowledge graphs did not show. What a call has done
is its `Turn`, an account of its operations. The other methods write no job as active.
-/

namespace Dkg.AsyncLift

open Lib LiftJobState

/-! ## Contracts -/

/-- What a call of `processNext` has done. -/
structure Turn where
  queue : KeyLocks.Phase ℕ
  time : ℕ
  free : Bool
  taken : Option LiftJob
  owned : Bool
  slice : Option ResolvedSlice
  (roots publicKeys privateKeys : List Term)
  invoked : Bool

open Turn

def Turn.start : Turn := ⟨.outside, 0, false, none, false, none, [], [], [], false⟩

/-- The job is taken with the answer of `list`, and owned with the delete of its old record. The
wallet is free when its lock is not there or has expired. -/
def Turn.next (cfg : Config) (q : Turn) : (op : Op) → Answer op → Turn
  | .enterClaims, previous => { q with queue := .waiting previous }
  | .awaitClaims _, _ => { q with queue := .holding }
  | .leaveClaims, _ => { q with queue := .left }
  | .now, now => { q with time := now }
  | .activeExpiry _, expiry => { q with free := !expiry.any fun expiresAt => q.time < expiresAt }
  | .list (some accepted), rows => { q with taken := (rows.insertionSort cfg.JobNotAfter).head? }
  | .deleteJob _, _ => { q with owned := true }
  | .resolveSlice _, slice => { q with slice := slice.toOption.map Prod.snd }
  | .confirmedRoots _ _, found => { q with roots := found }
  | .publicQuadKeys _ _, found => { q with publicKeys := found }
  | .privateQuadKeys _ _, found => { q with privateKeys := found }
  | .callExecutor _ _, _ => { q with invoked := true }
  | _, _ => q

/-- The wallet was free for the job that is taken, and the queue is held until it is owned. -/
structure Turn.Settled (q : Turn) : Prop where
  free : q.taken.isSome → q.free = true
  held : q.taken.isSome → q.owned = true ∨ q.queue = .holding

/-- A record of the job that is active under this wallet only. -/
structure Fits (walletId jobId : Term) (job : LiftJob) : Prop where
  jobId : job.jobId = jobId
  wallet : job.status.Active → job.claim.map (·.walletId) = some walletId

/-- The call has read that the quad is confirmed. -/
def Turn.Confirms (q : Turn) (keys : List Term) (quad : Quad) : Prop :=
  HasRoot quad.subject q.roots ∧ toQuadKey quad ∈ keys

/-- What is left of a slice has no quad that the call could see as confirmed. -/
structure Turn.Leaves (q : Turn) (request : LiftRequest) (slice left : ResolvedSlice) : Prop where
  quads : ∀ x ∈ left.quads, x ∈ slice.quads ∧
    (request.transitionType = .create → ¬ q.Confirms q.publicKeys x)
  privateQuads : ∀ x ∈ left.privateQuads.getD [], x ∈ slice.privateQuads.getD [] ∧
    (request.transitionType = .create → ¬ q.Confirms q.privateKeys x)

/-- The quads of the options are what is left of the slice that was resolved. -/
def Turn.Publishes (q : Turn) (options : PublishOptions) : Prop :=
  ∃ job ∈ q.taken, ∃ slice ∈ q.slice, ∃ left, q.Leaves job.request slice left ∧
    options.quads = left.quads ∧
    options.privateQuads.getD [] = left.privateQuads.getD []

def turnContract (cfg : Config) (walletId : Term) : CallContract Op Answer Turn where
  start := start
  pre q op := q.Settled ∧
    match op with
    | .enterClaims => q.queue = .outside
    | .awaitClaims previous => q.queue = .waiting previous
    | .leaveClaims => q.queue = .holding
    | .activeExpiry wallet => wallet = walletId ∧ q.taken = none
    | .list status => status = some accepted ∧ q.queue = .holding ∧ q.taken = none ∧
        q.owned = false ∧ q.free = true
    | .getStatus jobId => q.owned = true ∧ q.taken.map (·.jobId) = some jobId
    | .deleteJob jobId => q.taken.map (·.jobId) = some jobId
    | .insertJob job => q.owned = true ∧ job.status ≠ accepted ∧
        ∃ taken ∈ q.taken, Fits walletId taken.jobId job
    | .callExecutor _ options => q.owned = true ∧ q.invoked = false ∧ q.Publishes options
    | _ => True
  post _ op ans :=
    match op, ans with
    | .getStatus jobId, found => ∀ job ∈ found, Fits walletId jobId job
    | _, _ => True
  next := next cfg

def Op.Idle : Op → Prop
  | .insertJob job => ¬ job.status.Active
  | .enterClaims | .awaitClaims _ | .leaveClaims | .callExecutor _ _ => False
  | _ => True

def idleContract (cfg : Config) : CallContract Op Answer Turn where
  start := start
  pre _ op := op.Idle
  post _ _ _ := True
  next := next cfg

def anyContract (cfg : Config) : CallContract Op Answer Turn where
  start := start
  pre _ _ := True
  post _ _ _ := True
  next := next cfg

/-- The methods that the runner calls, and those for the care of its jobs. -/
def Method.Operating : Method → Prop
  | .claimNext _ | .update .. | .recordPublishResult .. | .recordPublishFailure .. => False
  | _ => True

def contractOf (cfg : Config) : Method → CallContract Op Answer Turn
  | .processNext walletId => turnContract cfg walletId
  | .claimNext _ | .update .. => anyContract cfg
  | .recordPublishResult .. | .recordPublishFailure .. => anyContract cfg
  | _ => idleContract cfg

lemma contractOf_start (cfg : Config) (m : Method) : (contractOf cfg m).start = start := by
  cases m <;> rfl

lemma contractOf_next (cfg : Config) (m : Method) : (contractOf cfg m).next = next cfg := by
  cases m <;> rfl

/-! ## `processNext` -/

section

variable {cfg : Config} {walletId : Term} {q q' : Turn} {α : Type}

abbrev Obeys (cfg : Config) (walletId : Term) (p : Program α) (q : Turn)
    (Φ : Turn → Except Term α → Prop) : Prop :=
  p.Keeps (turnContract cfg walletId) Φ q

/-- Only the clock was read since. -/
def Turn.Later (q q' : Turn) : Prop := ∃ now, q' = { q with time := now }

lemma Turn.Later.refl (q : Turn) : q.Later q := ⟨q.time, rfl⟩

lemma Turn.Later.trans {q'' : Turn} (h : q.Later q') (h' : q'.Later q'') : q.Later q'' := by
  obtain ⟨now, rfl⟩ := h
  obtain ⟨now', rfl⟩ := h'
  exact ⟨now', rfl⟩

lemma Turn.later_now (q : Turn) (now : ℕ) : q.Later { q with time := now } := ⟨now, rfl⟩

/-- The call has taken the job and deleted the record it had, and its wallet was free. -/
structure Turn.Owner (q : Turn) (taken : LiftJob) : Prop where
  taken : q.taken = some taken
  owned : q.owned = true
  free : q.free = true

variable {taken job current : LiftJob}

lemma Turn.Owner.settled (h : q.Owner taken) : q.Settled :=
  ⟨fun _ => h.free, fun _ => .inl h.owned⟩

lemma Turn.settled_of_none (h : q.taken = none) : q.Settled := by
  refine ⟨fun htaken => ?_, fun htaken => ?_⟩
  · rw [h] at htaken
    cases htaken
  · rw [h] at htaken
    cases htaken

lemma Turn.Owner.later (h : q.Owner taken) (hlater : q.Later q') : q'.Owner taken := by
  obtain ⟨now, rfl⟩ := hlater
  exact ⟨h.taken, h.owned, h.free⟩

lemma Turn.Owner.jobId (h : q.Owner taken) : q.taken.map (·.jobId) = some taken.jobId := by
  rw [h.taken]
  rfl

lemma Turn.set_owned (h : q.owned = true) : { q with owned := true } = q := by
  cases q
  cases h
  rfl

lemma obeys_writeWalletLock {lock : WalletLock} (hq : q.Settled) :
    Obeys cfg walletId (writeWalletLock lock) q fun q' _ => q' = q :=
  ⟨⟨hq, trivial⟩, fun _ _ => ⟨⟨hq, trivial⟩, fun _ _ => rfl⟩⟩

lemma obeys_syncWalletLockForJob (hq : q.Owner taken) :
    Obeys cfg walletId (syncWalletLockForJob job) q fun q' _ => q.Later q' := by
  unfold syncWalletLockForJob
  split
  next => exact .refl q
  next claim _ =>
    split
    next => exact .refl q
    next =>
      refine ⟨⟨hq.settled, trivial⟩, fun lock _ => ?_⟩
      show Obeys cfg walletId (if job.status.Active then _ else _) q _
      split
      next =>
        split
        next => exact .refl q
        next =>
          refine ⟨⟨hq.settled, trivial⟩, fun now _ => ?_⟩
          have hlater := later_now q now
          refine (obeys_writeWalletLock (hq.later hlater).settled).mono fun q' _ h => ?_
          subst h
          exact hlater
      next =>
        split
        next => exact ⟨⟨hq.settled, trivial⟩, fun _ _ => .refl q⟩
        next => exact .refl q

lemma obeys_writeJob (hq : q.Owner taken) (hfits : Fits walletId taken.jobId job)
    (hstatus : job.status ≠ accepted) : Obeys cfg walletId (writeJob job) q fun q' _ => q' = q := by
  have hdeleted : (turnContract cfg walletId).next q (.deleteJob job.jobId) () = q :=
    set_owned hq.owned
  refine ⟨⟨hq.settled, ?_⟩, fun _ _ => ?_⟩
  · rw [hfits.jobId]
    exact hq.jobId
  · rw [hdeleted]
    exact ⟨⟨hq.settled, hq.owned, hstatus, taken, hq.taken, hfits⟩, fun _ _ => rfl⟩

lemma obeys_getRequiredJob (hq : q.Owner taken) :
    Obeys cfg walletId (getRequiredJob taken.jobId) q fun q' r =>
      q' = q ∧ ∀ job, r = .ok job → Fits walletId taken.jobId job := by
  refine ⟨⟨hq.settled, hq.owned, hq.jobId⟩, fun found hfound => ?_⟩
  cases found with
  | none => exact ⟨rfl, fun _ h => by cases h⟩
  | some job =>
    refine ⟨rfl, fun job' h => ?_⟩
    cases h
    exact hfound job rfl

/-! ### Updates, results and failures -/

variable {status : LiftJobState} {data : PartialLiftJob} {now : ℕ}

lemma active_of_mergeJob (h : current.status = status ∨
    canTransitionLiftJob current.status status = true) (hstatus : status ≠ claimed)
    (hactive : status.Active) : current.status.Active := by
  rcases h with h | h
  · exact h ▸ hactive
  · revert h hstatus hactive
    cases current.status <;> cases status <;> decide

variable {jobId : Term} {next : LiftJob} {lockLeaseMs : ℕ} {roots : List Term}
  {request : LiftRequest} {validation : LiftJobValidationMetadata} {resolved : ResolvedSlice}
  {options : PublishOptions}

lemma Fits.merged (h : Fits walletId jobId current)
    (hmerge : mergeJob current status data now = .ok next) (hstatus : status ≠ claimed)
    (hid : data.jobId = none) (hclaim : data.claim = none) : Fits walletId jobId next := by
  obtain ⟨hedge, rfl⟩ := mergeJob_ok hmerge
  refine ⟨?_, fun hactive => ?_⟩
  · show data.jobId.getD current.jobId = jobId
    rw [hid]
    exact h.jobId
  · show (data.claim.getD current.claim).map (·.walletId) = some walletId
    rw [hclaim]
    exact h.wallet (active_of_mergeJob hedge hstatus hactive)

lemma Fits.refreshed (h : Fits walletId jobId job) :
    Fits walletId jobId (refreshActiveLease job lockLeaseMs now) := by
  unfold refreshActiveLease
  split
  next => exact h
  next claim hclaim =>
    split
    next hactive =>
      refine ⟨h.jobId, fun _ => ?_⟩
      have hwallet := h.wallet hactive
      rw [hclaim] at hwallet
      exact hwallet
    next => exact h

lemma refreshActiveLease_status : (refreshActiveLease job lockLeaseMs now).status = job.status := by
  unfold refreshActiveLease
  split
  next => rfl
  next =>
    split
    next => rfl
    next => rfl

/-- A status that `processNext` gives a job after its claim. -/
def LiftJobState.After (status : LiftJobState) : Prop := status ≠ accepted ∧ status ≠ claimed
  deriving Decidable

section

variable (hq : q.Owner taken)

include hq

lemma obeys_transition (hfits : Fits walletId taken.jobId current)
    (hstatus : status.After) (hid : data.jobId = none) (hclaim : data.claim = none) :
    Obeys cfg walletId (transition current status data) q fun q' r =>
      q.Later q' ∧ ∀ next, r = .ok next → Fits walletId taken.jobId next := by
  refine ⟨⟨hq.settled, trivial⟩, fun now _ => ?_⟩
  have hlater := later_now q now
  refine Prog.Keeps.ofExcept_bind (fun next hmerge => ?_)
    fun _ _ => ⟨hlater, fun _ h => by cases h⟩
  refine Prog.Keeps.ofExcept_bind (fun _ _ => ?_) fun _ _ => ⟨hlater, fun _ h => by cases h⟩
  have hnext := hfits.merged hmerge hstatus.2 hid hclaim
  have hnextStatus : next.status ≠ accepted := by
    obtain ⟨_, rfl⟩ := mergeJob_ok hmerge
    exact hstatus.1
  have hq' := hq.later hlater
  refine (obeys_writeJob hq' hnext hnextStatus).bind (fun q' _ h => ?_) fun q' _ h => ?_
  · subst h
    refine (obeys_syncWalletLockForJob hq').bind (fun q' _ h => ?_) fun q' _ h => ?_
    · refine ⟨hlater.trans h, fun job hjob => ?_⟩
      cases hjob
      exact hnext
    · exact ⟨hlater.trans h, fun _ h => by cases h⟩
  · subst h
    exact ⟨hlater, fun _ h => by cases h⟩

lemma obeys_update (hstatus : status.After) (hid : data.jobId = none) (hclaim : data.claim = none) :
    Obeys cfg walletId (update taken.jobId status data) q fun q' _ => q.Later q' := by
  refine ⟨⟨hq.settled, trivial⟩, fun _ _ => ?_⟩
  refine (obeys_getRequiredJob hq).bind (fun q' current h => ?_) fun q' _ h => ?_
  · obtain ⟨rfl, hfits⟩ := h
    refine ⟨⟨hq.settled, trivial⟩, fun now _ => ?_⟩
    have hlater := later_now q' now
    refine Prog.Keeps.ofExcept_bind (fun merged hmerge => ?_) fun _ _ => hlater
    refine Prog.Keeps.ofExcept_bind (fun _ _ => ?_) fun _ _ => hlater
    have hnext : Fits walletId taken.jobId (refreshActiveLease merged lockLeaseMs now) :=
      ((hfits current rfl).merged hmerge hstatus.2 hid hclaim).refreshed
    have hnextStatus : (refreshActiveLease merged lockLeaseMs now).status ≠ accepted := by
      obtain ⟨_, rfl⟩ := mergeJob_ok hmerge
      rw [refreshActiveLease_status]
      exact hstatus.1
    have hq' := hq.later hlater
    refine (obeys_writeJob hq' hnext hnextStatus).bind (fun q'' _ h => ?_) fun q'' _ h => ?_
    · subst h
      exact (obeys_syncWalletLockForJob hq').mono fun _ _ h => hlater.trans h
    · subst h
      exact hlater
  · rw [h.1]
    exact .refl q

lemma obeys_transitionFrom {source : LiftJobState}
    (hfits : Fits walletId taken.jobId current) (hstatus : status.After) (hid : data.jobId = none)
    (hclaim : data.claim = none) :
    Obeys cfg walletId (transitionFrom source current status data) q fun q' r =>
      q.Later q' ∧ ∀ next, r = .ok next → Fits walletId taken.jobId next := by
  unfold transitionFrom
  split
  next => exact obeys_transition hq hfits hstatus hid hclaim
  next =>
    refine ⟨.refl q, fun next h => ?_⟩
    cases h
    exact hfits

lemma obeys_recordPublishResult {publishResult : PublishResult} {size : Option ℕ}
    : Obeys cfg walletId (recordPublishResult taken.jobId publishResult size) q
      fun q' _ => q.Later q' := by
  refine ⟨⟨hq.settled, trivial⟩, fun _ _ => ?_⟩
  refine (obeys_getRequiredJob hq).bind (fun q' current h => ?_) fun q' _ h => h.1 ▸ .refl q
  obtain ⟨rfl, hfits⟩ := h
  split
  next =>
    refine Prog.Keeps.ofExcept_bind (fun mapped _ => ?_) fun _ _ => .refl _
    refine (obeys_transitionFrom hq (hfits _ rfl) (by decide) rfl rfl).bind
      (fun q₁ next h₁ => ?_) fun _ _ h => h.1
    have hq₁ := hq.later h₁.1
    show Obeys cfg walletId (if mapped.status = included then _ else _) q₁ _
    split
    next =>
      exact (obeys_transition hq₁ (h₁.2 _ rfl) (by decide) rfl rfl).bind
        (fun _ _ h => h₁.1.trans h.1) fun _ _ h => h₁.1.trans h.1
    next =>
      refine (obeys_transitionFrom hq₁ (h₁.2 _ rfl) (by decide) rfl rfl).bind
        (fun q₂ last h₂ => ?_) fun _ _ h => h₁.1.trans h.1
      have hlater := h₁.1.trans h₂.1
      exact (obeys_transition (hq₁.later h₂.1) (h₂.2 _ rfl) (by decide) rfl rfl).bind
        (fun _ _ h => hlater.trans h.1) fun _ _ h => hlater.trans h.1
  next => exact .refl _

lemma obeys_fail {failure : LiftJobFailureMetadata} (hfits : Fits walletId taken.jobId current) :
    Obeys cfg walletId (transition current failed { failure := some (some failure) }) q
      fun q' _ => q.Later q' :=
  (obeys_transition hq hfits (by decide) rfl rfl).mono fun _ _ h => h.1

lemma obeys_recordPublishFailure {input : AsyncLiftPublishFailureInput} :
    Obeys cfg walletId (recordPublishFailure taken.jobId input) q fun q' _ => q.Later q' := by
  refine ⟨⟨hq.settled, trivial⟩, fun _ _ => ?_⟩
  refine (obeys_getRequiredJob hq).bind (fun q' current h => ?_) fun q' _ h => h.1 ▸ .refl q
  obtain ⟨rfl, hfits⟩ := h
  refine Prog.Keeps.ofExcept_bind (fun failure _ => ?_) fun _ _ => .refl _
  exact (obeys_fail hq (hfits _ rfl)).bind (fun _ _ h => h) fun _ _ h => h

lemma obeys_recordExecutionFailure {state : LiftJobState} {message : Term} :
    Obeys cfg walletId (recordExecutionFailure taken.jobId state message) q
      fun q' _ => q.Later q' := by
  refine (obeys_getRequiredJob hq).bind (fun q' current h => ?_) fun q' _ h => h.1 ▸ .refl q
  obtain ⟨rfl, hfits⟩ := h
  show Obeys cfg walletId (if state = claimed ∨ state = validated then _ else _) q' _
  split
  next =>
    refine Prog.Keeps.ofExcept_bind (fun failure _ => ?_) fun _ _ => .refl _
    exact (obeys_fail hq (hfits _ rfl)).bind (fun _ _ h => h) fun _ _ h => h
  next =>
    refine ⟨⟨hq.settled, trivial⟩, fun now _ => ?_⟩
    have hlater := later_now q' now
    exact (obeys_recordPublishFailure (hq.later hlater)).mono fun _ _ h => hlater.trans h

lemma obeys_finalizeNoopPublish :
    Obeys cfg walletId (finalizeNoopPublish taken.jobId) q fun q' _ => q.Later q' := by
  refine (obeys_getRequiredJob hq).bind (fun q' current h => ?_) fun q' _ h => h.1 ▸ .refl q
  obtain ⟨rfl, hfits⟩ := h
  exact (obeys_transition hq (hfits _ rfl) (by decide) rfl rfl).bind (fun _ _ h => h.1)
    fun _ _ h => h.1

/-! ### The subtraction and the options -/

end

/-- What a call knows before it calls the executor: nothing is read of the graphs yet. -/
structure Turn.Unread (q : Turn) : Prop where
  roots : q.roots = []
  publicKeys : q.publicKeys = []
  privateKeys : q.privateKeys = []
  invoked : q.invoked = false

/-- The graphs were read since. -/
structure Turn.Read (q q' : Turn) : Prop where
  taken : q'.taken = q.taken
  owned : q'.owned = q.owned
  free : q'.free = q.free
  slice : q'.slice = q.slice
  invoked : q'.invoked = q.invoked

lemma Turn.Read.owner (h : q.Read q') (hq : q.Owner taken) : q'.Owner taken :=
  ⟨h.taken.trans hq.taken, h.owned.trans hq.owned, h.free.trans hq.free⟩

lemma mem_subtractGraphExactMatches {quads : List Quad} {keys : List Term} {x : Quad} :
    x ∈ subtractGraphExactMatches quads roots keys ↔
      x ∈ quads ∧ ¬ (HasRoot x.subject roots ∧ toQuadKey x ∈ keys) := by
  rw [subtractGraphExactMatches, List.mem_filter, decide_eq_true_eq]

lemma obeys_readFor {read : Program (List Term)} {Φ : Turn → Except Term (List Term) → Prop}
    (hread : Obeys cfg walletId read q Φ) (hnone : Φ q (.ok [])) :
    Obeys cfg walletId (readFor roots read) q Φ := by
  unfold readFor
  split
  next => exact hnone
  next => exact hread

lemma obeys_subtractFinalizedExactQuads (hq : q.Owner taken) (hunread : q.Unread) :
    Obeys cfg walletId (subtractFinalizedExactQuads request validation resolved) q fun q' r =>
      q.Read q' ∧ ∀ left, r = .ok left → q'.Leaves request resolved left := by
  unfold subtractFinalizedExactQuads
  split
  next hcreate =>
    refine ⟨⟨rfl, rfl, rfl, rfl, rfl⟩, fun left h => ?_⟩
    cases h
    exact ⟨fun x hx => ⟨hx, fun h => absurd h hcreate⟩,
      fun x hx => ⟨hx, fun h => absurd h hcreate⟩⟩
  next =>
    have hroots : Obeys cfg walletId (readFor validation.canonicalRoots
        (call (.confirmedRoots request.contextGraphId validation.canonicalRoots))) q
        fun q' r => ∃ found, r = .ok found ∧ q' = { q with roots := found } := by
      refine obeys_readFor ⟨⟨hq.settled, trivial⟩, fun found _ => ⟨found, rfl, rfl⟩⟩ ⟨[], rfl, ?_⟩
      rw [← hunread.roots]
    refine hroots.bind (fun q₁ roots h => ?_) fun _ _ h => by obtain ⟨_, h, _⟩ := h; cases h
    obtain ⟨_, hr, rfl⟩ := h
    cases hr
    have hpublic : Obeys cfg walletId (readFor roots
        (call (.publicQuadKeys request.contextGraphId roots))) { q with roots := roots }
        fun q' r => ∃ found, r = .ok found ∧
          q' = { q with roots := roots, publicKeys := found } := by
      refine obeys_readFor ⟨⟨⟨hq.settled.free, hq.settled.held⟩, trivial⟩,
        fun found _ => ⟨found, rfl, rfl⟩⟩ ⟨[], rfl, ?_⟩
      rw [← hunread.publicKeys]
    refine hpublic.bind (fun q₂ publicKeys h => ?_) fun _ _ h => by obtain ⟨_, h, _⟩ := h; cases h
    obtain ⟨_, hr, rfl⟩ := h
    cases hr
    have hprivate : Obeys cfg walletId (readFor roots
        (call (.privateQuadKeys request.contextGraphId roots)))
        { q with roots := roots, publicKeys := publicKeys }
        fun q' r => ∃ found, r = .ok found ∧
          q' = { q with roots := roots, publicKeys := publicKeys, privateKeys := found } := by
      refine obeys_readFor ⟨⟨⟨hq.settled.free, hq.settled.held⟩, trivial⟩,
        fun found _ => ⟨found, rfl, rfl⟩⟩ ⟨[], rfl, ?_⟩
      rw [← hunread.privateKeys]
    refine hprivate.bind (fun q₃ privateKeys h => ?_)
      fun _ _ h => by obtain ⟨_, h, _⟩ := h; cases h
    obtain ⟨_, hr, rfl⟩ := h
    cases hr
    refine ⟨⟨rfl, rfl, rfl, rfl, rfl⟩, fun left h => ?_⟩
    cases h
    refine ⟨fun x hx => ?_, fun x hx => ?_⟩
    · have hx := mem_subtractGraphExactMatches.mp hx
      exact ⟨hx.1, fun _ => hx.2⟩
    · have hmem : x ∈ subtractGraphExactMatches (resolved.privateQuads.getD []) roots
          privateKeys := by
        revert hx
        show x ∈ Option.getD (if _ then none else some _) [] → _
        split
        next => exact fun h => by cases h
        next => exact id
      have hx := mem_subtractGraphExactMatches.mp hmem
      exact ⟨hx.1, fun _ => hx.2⟩

lemma mapLiftRequestToPublishOptions_ok
    (h : mapLiftRequestToPublishOptions request validation resolved = .ok options) :
    options.quads = resolved.quads ∧
      options.privateQuads.getD [] = resolved.privateQuads.getD [] := by
  unfold mapLiftRequestToPublishOptions at h
  simp only [bind, Except.bind, pure, Except.pure, throw, throwThe, MonadExceptOf.throw] at h
  repeat' split at h
  all_goals cases h
  -- no private quads are given as none
  all_goals first
    | exact ⟨rfl, rfl⟩
    | exact ⟨rfl, (List.length_eq_zero_iff.mp (Nat.eq_zero_of_not_pos ‹_›)).symm⟩

/-! ### The whole method -/

lemma obeys_claim (htaken : q.taken = some next) (hfree : q.free = true)
    (hqueue : q.queue = .holding) (hunread : q.Unread) :
    Obeys cfg walletId (claim walletId next) q fun q' r =>
      q'.queue = .holding ∧ q'.Settled ∧ ∀ job, r = .ok (some job) →
        q'.Owner next ∧ q'.Unread ∧ job.jobId = next.jobId ∧ job.request = next.request := by
  have hsettled : q.Settled := ⟨fun _ => hfree, fun _ => .inr hqueue⟩
  refine ⟨⟨hsettled, trivial⟩, fun now _ => ?_⟩
  refine Prog.Keeps.ofExcept_bind (fun merged hmerge => ?_)
    fun _ _ => ⟨hqueue, ⟨hsettled.free, hsettled.held⟩, fun _ h => by cases h⟩
  refine Prog.Keeps.ofExcept_bind (fun _ _ => ?_)
    fun _ _ => ⟨hqueue, ⟨hsettled.free, hsettled.held⟩, fun _ h => by cases h⟩
  obtain ⟨_, rfl⟩ := mergeJob_ok hmerge
  have howner : ({ q with time := now, owned := true } : Turn).Owner next := ⟨htaken, rfl, hfree⟩
  have hid : q.taken.map (·.jobId) = some next.jobId := by
    rw [htaken]
    rfl
  refine ⟨⟨⟨hsettled.free, hsettled.held⟩, hid⟩, fun _ _ => ⟨⟨howner.settled, rfl, ?_, next, htaken,
    rfl, fun _ => rfl⟩, fun _ _ => ?_⟩⟩
  · exact fun h => by cases h
  · refine (obeys_writeWalletLock howner.settled).bind (fun q' _ h => ?_) fun q' _ h => ?_
    · subst h
      refine ⟨hqueue, howner.settled, fun job h => ?_⟩
      cases h
      exact ⟨howner, ⟨hunread.roots, hunread.publicKeys, hunread.privateKeys, hunread.invoked⟩,
        rfl, rfl⟩
    · subst h
      exact ⟨hqueue, howner.settled, fun _ h => by cases h⟩

lemma obeys_list (htaken : q.taken = none) (howned : q.owned = false)
    (hqueue : q.queue = .holding) (hfree : q.free = true) :
    Obeys cfg walletId (list cfg (some accepted)) q fun q' r =>
      ∃ jobs, r = .ok jobs ∧ q' = { q with taken := jobs.head? } :=
  ⟨⟨settled_of_none htaken, rfl, hqueue, htaken, howned, hfree⟩, fun _ _ => ⟨_, rfl, rfl⟩⟩

lemma obeys_claimNext :
    Obeys cfg walletId (claimNext cfg walletId) start fun q' r => ∀ job, r = .ok (some job) →
      ∃ taken, q'.Owner taken ∧ q'.Unread ∧ job.jobId = taken.jobId ∧
        job.request = taken.request := by
  refine ⟨⟨settled_of_none rfl, rfl⟩, fun previous _ =>
    ⟨⟨settled_of_none rfl, rfl⟩, fun _ _ => ?_⟩⟩
  refine Prog.Keeps.ensuring (Φ := fun q' r => q'.queue = .holding ∧ q'.Settled ∧
    ∀ job, r = .ok (some job) → ∃ taken, q'.Owner taken ∧ q'.Unread ∧ job.jobId = taken.jobId ∧
      job.request = taken.request) ?_ fun q' r h => ?_
  · refine ⟨⟨settled_of_none rfl, trivial⟩, fun _ _ =>
      ⟨⟨settled_of_none rfl, trivial⟩, fun paused _ => ?_⟩⟩
    show Obeys cfg walletId (if paused = true then pure none else _) _ _
    split
    next => exact ⟨rfl, settled_of_none rfl, fun _ h => by cases h⟩
    next =>
      refine ⟨⟨settled_of_none rfl, trivial⟩, fun now _ =>
        ⟨⟨settled_of_none rfl, rfl, rfl⟩, fun expiry _ => ?_⟩⟩
      show Obeys cfg walletId (if (expiry.any fun expiresAt => now < expiresAt) = true
        then pure none else _) _ _
      split
      next => exact ⟨rfl, settled_of_none rfl, fun _ h => by cases h⟩
      next hfree =>
        have hfree : (!expiry.any fun expiresAt => now < expiresAt) = true := by
          simpa using hfree
        refine (obeys_list rfl rfl rfl hfree).bind (fun q jobs h => ?_)
          fun _ _ h => by obtain ⟨_, h, _⟩ := h; cases h
        obtain ⟨_, hjobs, rfl⟩ := h
        cases hjobs
        cases jobs with
        | nil => exact ⟨rfl, settled_of_none rfl, fun _ h => by cases h⟩
        | cons next rest =>
          refine (obeys_claim rfl hfree rfl ⟨rfl, rfl, rfl, rfl⟩).mono fun q' r h => ?_
          exact ⟨h.1, h.2.1, fun job hjob => ⟨next, h.2.2 job hjob⟩⟩
  · obtain ⟨hqueue, hsettled, hclaimed⟩ := h
    refine ⟨⟨hsettled, hqueue⟩, fun _ _ => ⟨rfl, fun job hjob => ?_⟩⟩
    obtain ⟨taken, howner, hunread, hid, hrequest⟩ := hclaimed job hjob
    exact ⟨taken, ⟨howner.taken, howner.owned, howner.free⟩,
      ⟨hunread.roots, hunread.publicKeys, hunread.privateKeys, hunread.invoked⟩, hid, hrequest⟩

lemma obeys_resolveAndValidate (hq : q.Owner taken) (hunread : q.Unread)
    (hid : job.jobId = taken.jobId) :
    Obeys cfg walletId (resolveAndValidate job) q fun q' r =>
      q'.Owner taken ∧ q'.Unread ∧ ∀ slice, r = .ok slice → q'.slice = some slice.2 := by
  refine ⟨⟨hq.settled, trivial⟩, fun slice _ => ?_⟩
  have hq' : ({ q with slice := slice.toOption.map Prod.snd } : Turn).Owner taken :=
    ⟨hq.taken, hq.owned, hq.free⟩
  refine Prog.Keeps.ofExcept_bind (fun resolved hslice => ?_)
    fun _ _ => ⟨hq', ⟨hunread.roots, hunread.publicKeys, hunread.privateKeys, hunread.invoked⟩,
      fun _ h => by cases h⟩
  rw [hid]
  refine (obeys_update hq' (by decide) rfl rfl).bind (fun q' _ h => ?_) fun q' _ h => ?_
  · obtain ⟨now, rfl⟩ := h
    refine ⟨⟨hq.taken, hq.owned, hq.free⟩,
      ⟨hunread.roots, hunread.publicKeys, hunread.privateKeys, hunread.invoked⟩, fun _ h => ?_⟩
    cases h
    rw [hslice]
    rfl
  · obtain ⟨now, rfl⟩ := h
    exact ⟨⟨hq.taken, hq.owned, hq.free⟩,
      ⟨hunread.roots, hunread.publicKeys, hunread.privateKeys, hunread.invoked⟩,
      fun _ h => by cases h⟩

lemma obeys_prepare {slice : LiftJobValidationMetadata × ResolvedSlice} (hq : q.Owner taken)
    (hunread : q.Unread) (hslice : q.slice = some slice.2) (hid : job.jobId = taken.jobId)
    (hrequest : job.request = taken.request) :
    Obeys cfg walletId (prepare job slice) q fun q' r =>
      q'.Owner taken ∧ ∀ options, r = .ok (some options) →
        q'.invoked = false ∧ q'.Publishes options := by
  refine (obeys_subtractFinalizedExactQuads hq hunread).bind (fun q' left h => ?_)
    fun _ _ h => ⟨h.1.owner hq, fun _ h => by cases h⟩
  obtain ⟨hread, hleaves⟩ := h
  have hq' := hread.owner hq
  show Obeys cfg walletId (if left.quads.length = 0 ∧
    (left.privateQuads.map (·.length)).getD 0 = 0 then _ else _) q' _
  split
  next =>
    rw [hid]
    exact (obeys_finalizeNoopPublish hq').bind
      (fun _ _ h => ⟨hq'.later h, fun _ h => by cases h⟩)
      fun _ _ h => ⟨hq'.later h, fun _ h => by cases h⟩
  next =>
    refine Prog.Keeps.ofExcept_bind (fun options hoptions => ?_)
      fun _ _ => ⟨hq', fun _ h => by cases h⟩
    refine ⟨hq', fun options' h => ?_⟩
    cases h
    obtain ⟨hquads, hprivate⟩ := mapLiftRequestToPublishOptions_ok hoptions
    have hleaves := hleaves left rfl
    rw [hrequest] at hleaves
    exact ⟨hread.invoked.trans hunread.invoked, taken, hq'.taken, slice.2,
      hread.slice.trans hslice, left, hleaves, hquads, hprivate⟩

lemma obeys_execute (hq : q.Owner taken) (hinvoked : q.invoked = false)
    (hpublishes : q.Publishes options) (hid : job.jobId = taken.jobId) :
    Obeys cfg walletId (execute job walletId options) q fun q' _ => q'.Owner taken := by
  have hq' : ({ q with invoked := true } : Turn).Owner taken := ⟨hq.taken, hq.owned, hq.free⟩
  refine ⟨⟨hq.settled, hq.owned, hinvoked, hpublishes⟩,
    fun _ _ => ⟨⟨hq'.settled, trivial⟩, fun result _ => ?_⟩⟩
  refine Prog.Keeps.ofExcept_bind (fun _ _ => ?_) fun _ _ => hq'
  rw [hid]
  exact (obeys_recordPublishResult hq').mono fun _ _ h => hq'.later h

lemma obeys_processClaimed (hq : q.Owner taken) (hunread : q.Unread)
    (hid : job.jobId = taken.jobId) (hrequest : job.request = taken.request) :
    Obeys cfg walletId (processClaimed walletId job) q fun _ _ => True := by
  have hfail : ∀ {q} state message, q.Owner taken →
      Obeys cfg walletId (recordExecutionFailure job.jobId state message) q fun _ _ => True := by
    intro q state message hq
    rw [hid]
    exact (obeys_recordExecutionFailure hq).mono fun _ _ _ => trivial
  refine (obeys_resolveAndValidate hq hunread hid).attempt.bind (fun q₁ r h => ?_)
    fun _ _ _ => trivial
  obtain ⟨_, hr, hq₁, hunread₁, hslice⟩ := h
  cases hr
  cases r with
  | error message => exact hfail _ _ hq₁
  | ok slice =>
    refine (obeys_prepare hq₁ hunread₁ (hslice slice rfl) hid hrequest).attempt.bind
      (fun q₂ r h => ?_) fun _ _ _ => trivial
    obtain ⟨_, hr, hq₂, hoptions⟩ := h
    cases hr
    rcases r with message | _ | options
    · exact hfail _ _ hq₂
    · trivial
    · obtain ⟨hinvoked, hpublishes⟩ := hoptions options rfl
      refine (obeys_execute hq₂ hinvoked hpublishes hid).attempt.bind (fun q₃ r h => ?_)
        fun _ _ _ => trivial
      obtain ⟨_, hr, hq₃⟩ := h
      cases hr
      cases r with
      | error message => exact hfail _ _ hq₃
      | ok _ => trivial

lemma obeys_processNext : Obeys cfg walletId (processNext cfg walletId) start fun _ _ => True := by
  unfold processNext
  split
  next => trivial
  next =>
    refine obeys_claimNext.bind (fun q claimed h => ?_) fun _ _ _ => trivial
    cases claimed with
    | none => trivial
    | some job =>
      obtain ⟨taken, howner, hunread, hid, hrequest⟩ := h job rfl
      exact obeys_processClaimed howner hunread hid hrequest

end

/-! ## The other methods -/

section

variable {cfg : Config} {α β : Type} {job : LiftJob}

/-- The program makes idle calls only, whatever the answers. -/
def Idles (cfg : Config) (p : Program α) : Prop :=
  ∀ q, p.Keeps (idleContract cfg) (fun _ _ => True) q

lemma Idles.bind {p : Program α} {f : α → Program β} (h : Idles cfg p)
    (hf : ∀ a, Idles cfg (f a)) : Idles cfg (p >>= f) :=
  fun q => (h q).bind (fun q' a _ => hf a q') fun _ _ _ => trivial

lemma idles_pure (a : α) : Idles cfg (pure a) := fun _ => trivial

lemma idles_raise (e : Term) : Idles cfg (.raise e : Program α) := fun _ => trivial

lemma idles_call {op : Op} (h : op.Idle) : Idles cfg (call op) :=
  fun _ => ⟨h, fun _ _ => trivial⟩

lemma idles_ofExcept_bind {x : Except Term α} {f : α → Program β}
    (hf : ∀ a, x = .ok a → Idles cfg (f a)) : Idles cfg (Prog.ofExcept x >>= f) :=
  fun q => Prog.Keeps.ofExcept_bind (fun a ha => hf a ha q) fun _ _ => trivial

lemma idles_list (status : Option LiftJobState) : Idles cfg (list cfg status) :=
  (idles_call (by trivial)).bind fun _ => idles_pure _

lemma idles_getRequiredJob (jobId : Term) : Idles cfg (getRequiredJob jobId) := by
  refine (idles_call (by trivial)).bind fun found => ?_
  cases found with
  | none => exact idles_raise _
  | some job => exact idles_pure job

lemma idles_writeJob (h : ¬ job.status.Active) : Idles cfg (writeJob job) :=
  (idles_call (by trivial)).bind fun _ => (idles_call (by exact h)).bind fun _ => idles_pure _

lemma idles_releaseWalletLockForJob : Idles cfg (releaseWalletLockForJob job) := by
  unfold releaseWalletLockForJob
  split
  next => exact idles_pure _
  next walletId _ =>
    split
    next => exact idles_pure _
    next =>
      refine (idles_call (by trivial)).bind fun lock => ?_
      cases lock with
      | none => exact idles_pure _
      | some lock =>
        show Idles cfg (if lockMatchesJob lock job then _ else _)
        split
        next => exact (idles_call (by trivial)).bind fun _ => idles_pure _
        next => exact idles_pure _

lemma idles_releaseAndWrite {next : ℕ → Except Term LiftJob}
    (h : ∀ now written, next now = .ok written → ¬ written.status.Active) :
    Idles cfg (releaseAndWrite job next) := by
  refine idles_releaseWalletLockForJob.bind fun _ => (idles_call (by trivial)).bind fun now => ?_
  exact idles_ofExcept_bind fun written hwritten => idles_writeJob (h now written hwritten)

lemma idles_forEach {f : LiftJob → Program Unit} (hf : ∀ job, Idles cfg (f job))
    (jobs : List LiftJob) : Idles cfg (forEach f jobs) := by
  induction jobs with
  | nil => exact idles_pure _
  | cons job jobs ih => exact (hf job).bind fun _ => ih

lemma not_active_of_finalizeRecoveredJob {inclusion : LiftJobInclusionMetadata}
    {finalization : LiftJobFinalizationMetadata} {now : ℕ} {written : LiftJob}
    (h : finalizeRecoveredJob job inclusion finalization now = .ok written) :
    ¬ written.status.Active := by
  have hstatus : written.status = finalized := (finalizeRecoveredJob_ok h).2.2.2.2.2.1
  rw [hstatus]
  decide

lemma not_active_of_failInconclusiveRecovery {timeoutMs now : ℕ} {written : LiftJob}
    (h : failInconclusiveRecovery job timeoutMs now = .ok written) : ¬ written.status.Active := by
  obtain ⟨failure, _, hmerge⟩ := failInconclusiveRecovery_ok h
  obtain ⟨_, rfl⟩ := mergeJob_ok hmerge
  show ¬ failed.Active
  decide

lemma idles_reset (status : LiftJobState) :
    Idles cfg (releaseAndWrite job fun now =>
      .ok (resetJobToAccepted job status (getRecoveryTxHash job) now)) := by
  refine idles_releaseAndWrite fun now written h => ?_
  cases h
  show ¬ accepted.Active
  decide

lemma idles_recoverJob : Idles cfg (recoverJob cfg job) := by
  unfold recoverJob
  split
  next => exact idles_reset _
  next =>
    split
    next =>
      refine (idles_call (by trivial)).bind fun found => idles_ofExcept_bind fun found _ => ?_
      cases found with
      | some found => exact idles_releaseAndWrite fun _ _ => not_active_of_finalizeRecoveredJob
      | none =>
        refine (idles_call (by trivial)).bind fun now => ?_
        show Idles cfg (if hasInconclusiveRecoveryTimedOut job
          cfg.recoveryLookupTimeoutMs now = true then _ else _)
        split
        next => exact idles_releaseAndWrite fun _ _ => not_active_of_failInconclusiveRecovery
        next => exact idles_pure _
    next =>
      split
      next => exact idles_reset _
      next => exact idles_pure _

lemma idles_recoverFailedJob : Idles cfg (recoverFailedJob job) := by
  unfold recoverFailedJob
  split
  next => exact idles_pure _
  next =>
    split
    next =>
      refine (idles_call (by trivial)).bind fun found => idles_ofExcept_bind fun found _ => ?_
      cases found with
      | some found => exact idles_releaseAndWrite fun _ _ => not_active_of_finalizeRecoveredJob
      | none => exact idles_pure _
    next => exact idles_pure _

lemma idles_sweepLocks (now : ℕ) (rows : List LockRow) : Idles cfg (sweepLocks now rows) := by
  induction rows with
  | nil => exact idles_pure _
  | cons row rows ih =>
    unfold sweepLocks
    split
    next => exact ih
    next =>
      have hread : Idles cfg (lockedJob row) := by
        unfold lockedJob
        split
        next => exact idles_pure _
        next => exact idles_call (by trivial)
      refine hread.bind fun found => ?_
      show Idles cfg (if staleLock row found now = true then _ else _)
      split
      next => exact (idles_call (by trivial)).bind fun _ => ih
      next => exact ih

lemma idles_recover : Idles cfg (recover cfg) := by
  have hsweep : Idles cfg sweepStaleWalletLocks :=
    (idles_call (by trivial)).bind fun now => (idles_call (by trivial)).bind fun rows =>
      idles_sweepLocks now rows
  refine (idles_call (by trivial)).bind fun _ => hsweep.bind fun _ => ?_
  refine (idles_list _).bind fun jobs => ?_
  refine (idles_forEach (fun _ => idles_recoverJob) _).bind fun _ => ?_
  show Idles cfg (if cfg.hasResolver = true then _ else _)
  split
  next => exact (idles_list _).bind fun jobs => idles_forEach (fun _ => idles_recoverFailedJob) _
  next => exact idles_pure _

lemma idles_retryJob : Idles cfg (retryJob job) := by
  unfold retryJob
  split
  next => exact idles_pure _
  next failure _ =>
    split
    next => exact idles_pure _
    next =>
      split
      next => exact idles_pure _
      next =>
        refine (idles_call (by trivial)).bind fun now => ?_
        refine idles_releaseWalletLockForJob.bind fun _ => idles_writeJob ?_
        show ¬ accepted.Active
        decide

lemma idles_retry : Idles cfg (retry cfg) :=
  (idles_call (by trivial)).bind fun _ => (idles_list _).bind fun _ =>
    idles_forEach (fun _ => idles_retryJob) _

lemma idles_lift (request : LiftRequest) (jobId : Term) : Idles cfg (lift cfg request jobId) := by
  refine (idles_call (by trivial)).bind fun _ => (idles_call (by trivial)).bind fun now => ?_
  refine idles_writeJob ?_
  show ¬ accepted.Active
  decide

lemma idles_cancel (jobId : Term) : Idles cfg (cancel jobId) := by
  refine (idles_call (by trivial)).bind fun _ => (idles_getRequiredJob jobId).bind fun job => ?_
  show Idles cfg (if job.status ≠ accepted then _ else _)
  split
  next => exact idles_raise _
  next =>
    exact idles_releaseWalletLockForJob.bind fun _ => (idles_call (by trivial)).bind fun _ =>
      idles_pure _

lemma idles_clear (status : LiftJobState) : Idles cfg (clear cfg status) := by
  refine (idles_call (by trivial)).bind fun _ => (idles_list _).bind fun _ => ?_
  refine idles_forEach (fun job => ?_) _
  unfold clearJob
  split
  next => exact idles_pure _
  next =>
    exact idles_releaseWalletLockForJob.bind fun _ => (idles_call (by trivial)).bind fun _ =>
      idles_pure _

lemma keeps_any (p : Program α) (q : Turn) : p.Keeps (anyContract cfg) (fun _ _ => True) q := by
  induction p generalizing q with
  | done a => trivial
  | raise e => trivial
  | call op k ih => exact ⟨trivial, fun ans _ => ih ans _⟩

end

/-- **Every method keeps its contract.** -/
lemma program_obeys (cfg : Config) (m : Method) :
    (program cfg m).Keeps (contractOf cfg m) (fun _ _ => True) (contractOf cfg m).start := by
  cases m with
  | processNext walletId => exact obeys_processNext
  | lift request jobId => exact idles_lift request jobId _
  | recover => exact idles_recover _
  | retry => exact idles_retry _
  | cancel jobId => exact idles_cancel jobId _
  | clear status => exact idles_clear status _
  | pause | resume => exact ⟨trivial, fun _ _ => trivial⟩
  | claimNext walletId | update jobId status data | recordPublishResult jobId publishResult size
  | recordPublishFailure jobId input => exact keeps_any _ _

end Dkg.AsyncLift
