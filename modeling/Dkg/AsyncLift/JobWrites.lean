import Dkg.AsyncLift.Publisher

/-! # What the methods write

Every method rewrites a job from the record that it last read or wrote of it (`Seen`), by a change
that the states of a job allow (`Change`). The data of `update` is the caller's, and has to leave
alone what no method changes (`Leaves`).
-/

namespace Dkg.AsyncLift

open Lib Prog.Keeps LiftJobState List Option Function

/-! ## Changes of a job -/

/-- A record that may be stored. -/
structure Valid (job : LiftJob) : Prop where
  metadata : assertJobMatchesStatus job = .ok ()
  retries : job.retries.retryCount ≤ job.retries.maxRetries
  recoverable : job.status = failed → ∀ failure ∈ job.failure,
    failure.resolution = .retryRecovery →
      job.claim.isSome ∧ job.validation.isSome ∧ job.broadcast.isSome

/-- A transition, a reset by `recover` or `retry`, or the end that `recover` found on the chain. -/
def Edge (m : Method) (old new : LiftJobState) : Prop :=
  old = new ∨ canTransitionLiftJob old new = true ∨ new = accepted ∧ (m = .recover ∨ m = .retry) ∨
    new = finalized ∧ m = .recover

/-- What only `retry` changes. -/
structure SameCore (old new : LiftJob) : Prop where
  jobId : new.jobId = old.jobId
  jobSlug : new.jobSlug = old.jobSlug
  request : new.request = old.request
  acceptedAt : new.timestamps.acceptedAt = old.timestamps.acceptedAt
  retries : new.retries = old.retries

/-- What a record of a job keeps of the one before it. -/
structure Change (m : Method) (old new : LiftJob) : Prop where
  jobId : new.jobId = old.jobId
  jobSlug : new.jobSlug = old.jobSlug
  request : new.request = old.request
  acceptedAt : new.timestamps.acceptedAt = old.timestamps.acceptedAt
  maxRetries : new.retries.maxRetries = old.retries.maxRetries
  retryCount : old.retries.retryCount ≤ new.retries.retryCount
  edge : Edge m old.status new.status
  valid : Valid new

/-- The data leaves what a job keeps, and the job recoverable. -/
structure Leaves (data : PartialLiftJob) (status : LiftJobState) (job : LiftJob) : Prop where
  jobId : ∀ x ∈ data.jobId, x = job.jobId
  jobSlug : ∀ x ∈ data.jobSlug, x = job.jobSlug
  request : ∀ x ∈ data.request, x = job.request
  acceptedAt : ∀ t ∈ data.timestamps, t.acceptedAt = job.timestamps.acceptedAt
  retries : ∀ r ∈ data.retries, r.maxRetries = job.retries.maxRetries ∧
    job.retries.retryCount ≤ r.retryCount ∧ r.retryCount ≤ r.maxRetries
  recoverable : status = failed → ∀ failure ∈ data.failure.getD job.failure,
    failure.resolution = .retryRecovery → (data.claim.getD job.claim).isSome ∧
      (data.validation.getD job.validation).isSome ∧ (data.broadcast.getD job.broadcast).isSome

section

variable {m : Method} {current next job : LiftJob} {status : LiftJobState} {data : PartialLiftJob}
  {now : ℕ}

lemma getD_eq {α : Type} {x : Option α} {a : α} (h : ∀ y ∈ x, y = a) : x.getD a = a := by
  cases x with
  | none => rfl
  | some y => exact h y rfl

variable {times : LiftJobTimestamps} {failure : LiftJobFailureMetadata}

lemma mergeTimestamps_acceptedAt {changes : Option LiftJobTimestamps}
    (h : ∀ t ∈ changes, t.acceptedAt = times.acceptedAt) :
    (mergeTimestamps times status changes now).acceptedAt = times.acceptedAt := by
  refine getD_eq fun x hx => ?_
  obtain ⟨t, ht, rfl⟩ := map_eq_some_iff.mp hx
  exact h t ht

/-- A merge, with a refreshed lease perhaps, is a change. -/
lemma change_of_merge (hleaves : Leaves data status current) (hvalid : Valid current)
    (hmerge : mergeJob current status data now = .ok job) (hcore : SameCore job next)
    (hrest : next.status = job.status ∧ next.validation = job.validation ∧
      next.broadcast = job.broadcast ∧ next.failure = job.failure)
    (hclaim : job.claim.isSome → next.claim.isSome)
    (hcheck : assertJobMatchesStatus next = .ok ()) : Change m current next := by
  obtain ⟨hedge, rfl⟩ := mergeJob_ok hmerge
  obtain ⟨hstatus, hvalidation, hbroadcast, hfailure⟩ := hrest
  have hkept : next.retries.maxRetries = current.retries.maxRetries ∧
      current.retries.retryCount ≤ next.retries.retryCount ∧
      next.retries.retryCount ≤ next.retries.maxRetries := by
    rw [hcore.retries]
    cases hdata : data.retries with
    | none => simpa [mergedJob, hdata] using hvalid.retries
    | some r => simpa [mergedJob, hdata] using hleaves.retries r hdata
  refine ⟨?_, ?_, ?_, ?_, hkept.1, hkept.2.1, ?_, ⟨hcheck, hkept.2.2, ?_⟩⟩
  · exact hcore.jobId.trans (getD_eq hleaves.jobId)
  · exact hcore.jobSlug.trans (getD_eq hleaves.jobSlug)
  · exact hcore.request.trans (getD_eq hleaves.request)
  · exact hcore.acceptedAt.trans (mergeTimestamps_acceptedAt hleaves.acceptedAt)
  · rw [hstatus]
    rcases hedge with heq | hcan
    · exact .inl heq
    · exact .inr (.inl hcan)
  · intro hfailed failure hmem hresolution
    rw [hfailure] at hmem
    obtain ⟨h₁, h₂, h₃⟩ := hleaves.recoverable (hstatus.symm.trans hfailed) failure hmem hresolution
    exact ⟨hclaim h₁, hvalidation ▸ h₂, hbroadcast ▸ h₃⟩

lemma change_of_mergeJob (hleaves : Leaves data status current) (hvalid : Valid current)
    (hmerge : mergeJob current status data now = .ok next)
    (hcheck : assertJobMatchesStatus next = .ok ()) : Change m current next :=
  change_of_merge hleaves hvalid hmerge ⟨rfl, rfl, rfl, rfl, rfl⟩ ⟨rfl, rfl, rfl, rfl⟩ id hcheck

/-- The data of the methods other than `update` leaves everything alone. -/
lemma leaves_metadata (claim : Option (Option LiftJobClaimMetadata))
    (validation : Option (Option LiftJobValidationMetadata))
    (broadcast : Option (Option LiftJobBroadcastMetadata))
    (inclusion : Option (Option LiftJobInclusionMetadata))
    (finalization : Option (Option LiftJobFinalizationMetadata)) (hstatus : status ≠ failed) :
    Leaves { claim, validation, broadcast, inclusion, finalization } status job where
  jobId := fun _ h => by cases h
  jobSlug := fun _ h => by cases h
  request := fun _ h => by cases h
  acceptedAt := fun _ h => by cases h
  retries := fun _ h => by cases h
  recoverable := fun h => absurd h hstatus

lemma leaves_failure (h : failure.resolution = .retryRecovery →
      job.claim.isSome ∧ job.validation.isSome ∧ job.broadcast.isSome) :
    Leaves { failure := some (some failure) } failed job where
  jobId := fun _ h => by cases h
  jobSlug := fun _ h => by cases h
  request := fun _ h => by cases h
  acceptedAt := fun _ h => by cases h
  retries := fun _ h => by cases h
  recoverable := by
    intro _ other hother hresolution
    cases hother
    exact h hresolution

lemma change_claim {walletId claimToken : Term} {lockExpiresAt : ℕ} (hvalid : Valid job)
    (hmerge : mergeJob job claimed { claim := some (some { walletId := walletId }) } now = .ok next)
    (hcheck : assertJobMatchesStatus
      (buildClaimedJob next walletId claimToken now lockExpiresAt) = .ok ()) :
    Change m job (buildClaimedJob next walletId claimToken now lockExpiresAt) :=
  change_of_merge (leaves_metadata _ none none none none (by decide)) hvalid hmerge
    ⟨rfl, rfl, rfl, rfl, rfl⟩ ⟨rfl, rfl, rfl, rfl⟩ (fun _ => rfl) hcheck

/-- The metadata of a job that recovery looks up on the chain. -/
lemma Valid.published (h : Valid job) (hstatus : job.status = broadcast ∨ job.status = included) :
    job.claim.isSome ∧ job.validation.isSome ∧ job.broadcast.isSome := by
  have hcheck := h.metadata
  unfold assertJobMatchesStatus at hcheck
  rcases hstatus with hstatus | hstatus
  all_goals
    rw [hstatus] at hcheck
    cases hclaim : job.claim
    · simp [hclaim] at hcheck
    · cases hvalidation : job.validation
      · simp [hvalidation] at hcheck
      · cases hbroadcast : job.broadcast
        · simp [hbroadcast] at hcheck
        · simp

lemma Valid.lifted {request : LiftRequest} {jobId slug : Term} {maxRetries : ℕ}
    {refs : Option LiftJobControlPlaneRefs} :
    Valid {
      jobId := jobId, jobSlug := slug, request := request, status := accepted
      timestamps := times, retries := { retryCount := 0, maxRetries := maxRetries }
      controlPlane := refs } where
  metadata := rfl
  retries := Nat.zero_le _
  recoverable := fun h => by cases h

lemma change_reset (hvalid : Valid job) (source : LiftJobState) (txHash : Option Term) :
    Change .recover job (resetJobToAccepted job source txHash now) where
  jobId := rfl
  jobSlug := rfl
  request := rfl
  acceptedAt := rfl
  maxRetries := rfl
  retryCount := Nat.le_refl _
  edge := .inr (.inr (.inl ⟨rfl, .inl rfl⟩))
  valid := ⟨rfl, hvalid.retries, fun h => by cases h⟩

lemma change_retried (hcount : job.retries.retryCount < job.retries.maxRetries) :
    Change .retry job (retriedJob job failure now) where
  jobId := rfl
  jobSlug := rfl
  request := rfl
  acceptedAt := rfl
  maxRetries := rfl
  retryCount := Nat.le_succ _
  edge := .inr (.inr (.inl ⟨rfl, .inr rfl⟩))
  valid := ⟨rfl, hcount, fun h => by cases h⟩

/-- The end found on the chain, for a job or for what it was before it failed. -/
lemma change_finalized {source : LiftJob} {inclusion : LiftJobInclusionMetadata}
    {finalization : LiftJobFinalizationMetadata} (hvalid : Valid job) (hcore : SameCore job source)
    (hclaim : source.claim.isSome) (hvalidation : source.validation.isSome)
    (h : finalizeRecoveredJob source inclusion finalization now = .ok next) :
    Change .recover job next := by
  obtain ⟨h₁, h₂, h₃, h₄, h₅, h₆, h₇, h₈, h₉, h₁₀, h₁₁⟩ := finalizeRecoveredJob_ok h
  have hretries : next.retries = job.retries := h₅.trans hcore.retries
  refine ⟨h₁.trans hcore.jobId, h₂.trans hcore.jobSlug, h₃.trans hcore.request,
    h₄.trans hcore.acceptedAt, ?_, ?_, ?_, ⟨?_, ?_, ?_⟩⟩
  · rw [hretries]
  · rw [hretries]
  · exact .inr (.inr (.inr ⟨h₆, rfl⟩))
  · rw [← h₇, isSome_iff_exists] at hclaim
    rw [← h₈, isSome_iff_exists] at hvalidation
    rw [isSome_iff_exists] at h₉
    obtain ⟨_, hclaim⟩ := hclaim
    obtain ⟨_, hvalidation⟩ := hvalidation
    obtain ⟨_, h₉⟩ := h₉
    simp [assertJobMatchesStatus, h₆, h₁₀, h₁₁, hclaim, hvalidation, h₉]
  · rw [hretries]
    exact hvalid.retries
  · intro hfailed
    rw [h₆] at hfailed
    cases hfailed

end

/-! ## The contract -/

/-- What a task last read or wrote of each job, and the job whose quads it has deleted. -/
structure Seen where
  basis : Term → Option LiftJob
  writing : Option Term

def Seen.next (q : Seen) : (op : Op) → Answer op → Seen
  | .getStatus jobId, found => { q with basis := Function.update q.basis jobId found }
  | .list _, jobs =>
    { q with basis := fun jobId => (jobs.find? fun job => job.jobId = jobId).or (q.basis jobId) }
  | .deleteJob jobId, _ => { q with writing := some jobId }
  | .insertJob job, _ =>
    { basis := Function.update q.basis job.jobId (some job), writing := none }
  | _, _ => q

/-- `cancel` and `clear` take jobs away. -/
def Method.Removes : Method → Prop
  | .cancel _ => True
  | .clear _ => True
  | _ => False

instance decidableRemoves : (m : Method) → Decidable m.Removes
  | .cancel _ | .clear _ => isTrue trivial
  | .lift .. | .claimNext _ | .update .. | .processNext _ | .recordPublishResult ..
  | .recordPublishFailure .. | .recover | .retry | .pause | .resume => isFalse id

/-- The record that is written in the place of `basis`. -/
def Written (m : Method) (basis : Option LiftJob) (job : LiftJob) : Prop :=
  match basis with
  | none => Valid job
  | some old => Change m old job

/-- The data of `update` leaves alone what it should. -/
def Permits : Method → LiftJob → Prop
  | .update _ status data, job => Leaves data status job
  | _, _ => True

def storeContract (m : Method) : CallContract Op Answer Seen where
  start := ⟨fun _ => none, none⟩
  pre q op :=
    match op with
    | .insertJob job => ¬ m.Removes ∧ q.writing = some job.jobId ∧
        Written m (q.basis job.jobId) job
    | _ => m.Removes ∨ q.writing = none
  post _ op ans :=
    match op, ans with
    | .getStatus jobId, found => ∀ job ∈ found, job.jobId = jobId ∧ Valid job ∧ Permits m job
    | .list _, jobs => (∀ job ∈ jobs, Valid job) ∧ (jobs.map (·.jobId)).Nodup
    | _, _ => True
  next := Seen.next

/-! ## Programs -/

section

variable {m : Method} {q : Seen} {α : Type}

/-- The program keeps the contract of `m` and ends in `Φ`, whether it raises an error or not. -/
abbrev Writes (m : Method) (p : Program α) (q : Seen) (Φ : Seen → Except Term α → Prop) : Prop :=
  p.Keeps (storeContract m) Φ q

/-- Nothing is deleted that is not written again. -/
def Seen.Closed (q : Seen) : Prop := q.writing = none

/-- The record is what the task knows of its job. -/
structure Seen.Knows (q : Seen) (job : LiftJob) : Prop where
  basis : q.basis job.jobId = some job
  valid : Valid job

lemma Seen.closed_of_written {basis : Term → Option LiftJob} : Seen.Closed ⟨basis, none⟩ := rfl

variable {job : LiftJob} {jobs : List LiftJob} {walletId : Term} {now : ℕ} {request : LiftRequest}

lemma writes_writeJob (hm : ¬ m.Removes) (hq : q.Closed) (h : Written m (q.basis job.jobId) job) :
    Writes m (writeJob job) q fun q' _ => q' = ⟨Function.update q.basis job.jobId (some job),
        none⟩ :=
  ⟨.inr hq, fun _ _ => ⟨⟨hm, rfl, h⟩, fun _ _ => rfl⟩⟩

lemma writes_writeWalletLock {lock : WalletLock} (hq : m.Removes ∨ q.Closed) :
    Writes m (writeWalletLock lock) q fun q' _ => q' = q :=
  ⟨hq, fun _ _ => ⟨hq, fun _ _ => rfl⟩⟩

lemma writes_releaseWalletLockForJob (hq : m.Removes ∨ q.Closed) :
    Writes m (releaseWalletLockForJob job) q fun q' _ => q' = q := by
  unfold releaseWalletLockForJob
  split
  next => rfl
  next walletId _ =>
    split
    next => rfl
    next =>
      refine ⟨hq, fun lock _ => ?_⟩
      cases lock with
      | none => rfl
      | some lock =>
        show Writes m (if lockMatchesJob lock job then _ else _) q _
        split
        next => exact ⟨hq, fun _ _ => rfl⟩
        next => rfl

lemma writes_syncWalletLockForJob (hq : m.Removes ∨ q.Closed) :
    Writes m (syncWalletLockForJob job) q fun q' _ => q' = q := by
  unfold syncWalletLockForJob
  split
  next => rfl
  next claim _ =>
    split
    next => rfl
    next =>
      refine ⟨hq, fun lock _ => ?_⟩
      show Writes m (if job.status.Active then _ else _) q _
      split
      next =>
        split
        next => rfl
        next => exact ⟨hq, fun _ _ => writes_writeWalletLock hq⟩
      next =>
        split
        next => exact ⟨hq, fun _ _ => rfl⟩
        next => rfl

variable {current job : LiftJob} {status : LiftJobState} {data : PartialLiftJob} {jobId : Term}

lemma Seen.Knows.written {next : LiftJob} (h : q.Knows current) (hchange : Change m current next) :
    Written m (q.basis next.jobId) next := by
  rw [hchange.jobId, h.basis]
  exact hchange

lemma writes_transition (hm : ¬ m.Removes) (hq : q.Closed) (hknows : q.Knows current)
    (hleaves : Leaves data status current) :
    Writes m (transition current status data) q fun q' r =>
      q'.Closed ∧ ∀ next, r = .ok next → q'.Knows next := by
  refine ⟨.inr hq, fun now _ => ?_⟩
  refine ofExcept_bind (fun next hmerge => ?_) fun _ _ => ⟨hq, fun _ h => by cases h⟩
  refine ofExcept_bind (fun _ hcheck => ?_) fun _ _ => ⟨hq, fun _ h => by cases h⟩
  have hchange : Change m current next := change_of_mergeJob hleaves hknows.valid hmerge hcheck
  have hwritten := hknows.written hchange
  refine (writes_writeJob hm hq hwritten).bind (fun q' _ hq' => ?_) fun q' _ hq' => ?_
  · subst hq'
    refine (writes_syncWalletLockForJob (.inr Seen.closed_of_written)).bind (fun q' _ hq' => ?_)
        fun q' _ hq' => ?_
    · subst hq'
      refine ⟨rfl, fun job hjob => ?_⟩
      cases hjob
      exact ⟨update_self .., hchange.valid⟩
    · subst hq'
      exact ⟨rfl, fun _ h => by cases h⟩
  · subst hq'
    exact ⟨rfl, fun _ h => by cases h⟩

lemma writes_getRequiredJob (hq : m.Removes ∨ q.Closed) :
    Writes m (getRequiredJob jobId) q fun q' r =>
      q'.writing = q.writing ∧ ∀ job, r = .ok job → q'.Knows job ∧ Permits m job := by
  refine ⟨hq, fun found hfound => ?_⟩
  cases found with
  | none => exact ⟨rfl, fun _ h => by cases h⟩
  | some job =>
    obtain ⟨hid, hvalid, hpermits⟩ := hfound job rfl
    refine ⟨rfl, fun job' h => ?_⟩
    cases h
    refine ⟨⟨?_, hvalid⟩, hpermits⟩
    subst hid
    exact update_self ..

/-- The task knows these records, each of another job. -/
structure Seen.KnowsAll (q : Seen) (jobs : List LiftJob) : Prop where
  knows : ∀ job ∈ jobs, q.Knows job
  nodup : (jobs.map (·.jobId)).Nodup

lemma Seen.KnowsAll.filter (h : q.KnowsAll jobs) (p : LiftJob → Bool) :
    q.KnowsAll (jobs.filter p) where
  knows := fun job hjob => h.knows job (mem_of_mem_filter hjob)
  nodup := h.nodup.sublist (filter_sublist.map _)

lemma find_of_nodup (h : (jobs.map (·.jobId)).Nodup) (hjob : job ∈ jobs) :
    (jobs.find? fun other => other.jobId = job.jobId) = some job := by
  cases hfind : jobs.find? fun other => other.jobId = job.jobId with
  | none =>
    rw [find?_eq_none] at hfind
    exact absurd (by simp) (hfind job hjob)
  | some other =>
    have hid : other.jobId = job.jobId := by simpa using find?_some hfind
    rw [inj_on_of_nodup_map h (mem_of_find?_eq_some hfind) hjob hid]

lemma writes_list (cfg : Config) (status : Option LiftJobState) (hq : m.Removes ∨ q.Closed) :
    Writes m (list cfg status) q fun q' r =>
      q'.writing = q.writing ∧ ∀ jobs, r = .ok jobs → q'.KnowsAll jobs := by
  refine ⟨hq, fun rows hrows => ⟨rfl, fun jobs h => ?_⟩⟩
  cases h
  have hperm := perm_insertionSort cfg.JobNotAfter rows
  refine ⟨fun job hjob => ?_, ?_⟩
  · have hmem := hperm.mem_iff.mp hjob
    refine ⟨?_, hrows.1 job hmem⟩
    show (rows.find? fun other => other.jobId = job.jobId).or _ = _
    rw [find_of_nodup hrows.2 hmem]
    rfl
  · exact (hperm.map _).nodup_iff.mpr hrows.2

lemma writes_claim (hm : ¬ m.Removes) (hq : q.Closed) (hknows : q.Knows job) :
    Writes m (claim walletId job) q fun q' r =>
      q'.Closed ∧ ∀ claimed, r = .ok (some claimed) → q'.Knows claimed := by
  refine ⟨.inr hq, fun now _ => ?_⟩
  refine ofExcept_bind (fun merged hmerge => ?_) fun _ _ => ⟨hq, fun _ h => by cases h⟩
  refine ofExcept_bind (fun _ hcheck => ?_) fun _ _ => ⟨hq, fun _ h => by cases h⟩
  have hchange := change_claim (m := m) hknows.valid hmerge hcheck
  have hwritten := hknows.written hchange
  refine (writes_writeJob hm hq hwritten).bind (fun q' _ hq' => ?_) fun q' _ hq' => ?_
  · subst hq'
    refine (writes_writeWalletLock (.inr Seen.closed_of_written)).bind (fun q' _ hq' => ?_)
        fun q' _ hq' => ?_
    · subst hq'
      refine ⟨rfl, fun claimed hclaimed => ?_⟩
      cases hclaimed
      exact ⟨update_self .., hchange.valid⟩
    · subst hq'
      exact ⟨rfl, fun _ h => by cases h⟩
  · subst hq'
    exact ⟨rfl, fun _ h => by cases h⟩

lemma writes_claimNext (cfg : Config) (walletId : Term) (hm : ¬ m.Removes) (hq : q.Closed) :
    Writes m (claimNext cfg walletId) q fun q' r =>
      q'.Closed ∧ ∀ claimed, r = .ok (some claimed) → q'.Knows claimed := by
  refine ⟨.inr hq, fun previous _ => ⟨.inr hq, fun _ _ => ?_⟩⟩
  refine ensuring (Φ := fun q' r =>
    q'.Closed ∧ ∀ claimed, r = .ok (some claimed) → q'.Knows claimed) ?_
    fun q' r h => ⟨.inr h.1, fun _ _ => ⟨rfl, h⟩⟩
  refine ⟨.inr hq, fun _ _ => ⟨.inr hq, fun paused _ => ?_⟩⟩
  show Writes m (if paused = true then pure none else _) q _
  split
  next => exact ⟨hq, fun _ h => by cases h⟩
  next =>
    refine ⟨.inr hq, fun now _ => ⟨.inr hq, fun expiry _ => ?_⟩⟩
    show Writes m (if (expiry.any fun expiresAt => now < expiresAt) = true then pure none else _) q
        _
    split
    next => exact ⟨hq, fun _ h => by cases h⟩
    next =>
      refine (writes_list cfg _ (.inr hq)).bind (fun q' jobs h => ?_)
        fun q' _ h => ⟨h.1.trans hq, fun _ h => by cases h⟩
      obtain ⟨hwriting, hall⟩ := h
      cases jobs with
      | nil => exact ⟨hwriting.trans hq, fun _ h => by cases h⟩
      | cons next rest =>
        exact writes_claim hm (hwriting.trans hq) ((hall _ rfl).knows _ mem_cons_self)

/-! ### Updates, results and failures -/

lemma change_update (hleaves : Leaves data status current) (hvalid : Valid current)
    (hmerge : mergeJob current status data now = .ok job)
    (hcheck : assertJobMatchesStatus (refreshActiveLease job lockLeaseMs now) = .ok ()) :
    Change m current (refreshActiveLease job lockLeaseMs now) := by
  set next := refreshActiveLease job lockLeaseMs now with hnext
  have hcore : SameCore job next ∧ next.status = job.status ∧ next.validation = job.validation ∧
      next.broadcast = job.broadcast ∧ next.failure = job.failure ∧
      (job.claim.isSome → next.claim.isSome) := by
    rw [hnext]
    unfold refreshActiveLease
    split
    next => exact ⟨⟨rfl, rfl, rfl, rfl, rfl⟩, rfl, rfl, rfl, rfl, id⟩
    next =>
      split
      next => exact ⟨⟨rfl, rfl, rfl, rfl, rfl⟩, rfl, rfl, rfl, rfl, fun _ => rfl⟩
      next => exact ⟨⟨rfl, rfl, rfl, rfl, rfl⟩, rfl, rfl, rfl, rfl, id⟩
  obtain ⟨hcore, h₁, h₂, h₃, h₄, hclaim⟩ := hcore
  exact change_of_merge hleaves hvalid hmerge hcore ⟨h₁, h₂, h₃, h₄⟩ hclaim hcheck

section

variable (hm : ¬ m.Removes)

include hm

lemma writes_update (hq : q.Closed) (hleaves : ∀ job, Permits m job → Leaves data status job) :
    Writes m (update jobId status data) q fun q' _ => q'.Closed := by
  refine ⟨.inr hq, fun _ _ => ?_⟩
  refine (writes_getRequiredJob (.inr hq)).bind (fun q' current h => ?_)
    fun _ _ h => h.1.trans hq
  obtain ⟨hknows, hpermits⟩ := h.2 current rfl
  have hq' : q'.Closed := h.1.trans hq
  refine ⟨.inr hq', fun now _ => ?_⟩
  refine ofExcept_bind (fun merged hmerge => ?_) fun _ _ => hq'
  refine ofExcept_bind (fun _ hcheck => ?_) fun _ _ => hq'
  have hwritten := hknows.written
    (change_update (m := m) (hleaves _ hpermits) hknows.valid hmerge hcheck)
  refine (writes_writeJob hm hq' hwritten).bind (fun q'' _ hq'' => ?_) fun q'' _ hq'' => ?_
  · subst hq''
    refine (writes_syncWalletLockForJob (.inr Seen.closed_of_written)).mono fun _ _ h => ?_
    subst h
    rfl
  · subst hq''
    rfl

/-- A transition to a status other than `failed`, whose data is metadata. -/
lemma writes_progress (hq : q.Closed) (hknows : q.Knows current)
    (hstatus : status ≠ failed) (broadcast : Option (Option LiftJobBroadcastMetadata))
    (inclusion : Option (Option LiftJobInclusionMetadata))
    (finalization : Option (Option LiftJobFinalizationMetadata)) :
    Writes m (transition current status { broadcast, inclusion, finalization }) q fun q' r =>
      q'.Closed ∧ ∀ next, r = .ok next → q'.Knows next :=
  writes_transition hm hq hknows (leaves_metadata none none broadcast inclusion finalization
      hstatus)

lemma writes_transitionFrom {source : LiftJobState} (hq : q.Closed)
    (hknows : q.Knows current) (hstatus : status ≠ failed)
    (broadcast : Option (Option LiftJobBroadcastMetadata))
    (inclusion : Option (Option LiftJobInclusionMetadata)) :
    Writes m (transitionFrom source current status { broadcast, inclusion }) q fun q' r =>
      q'.Closed ∧ ∀ next, r = .ok next → q'.Knows next := by
  unfold transitionFrom
  split
  next => exact writes_progress hm hq hknows hstatus _ _ none
  next =>
    refine ⟨hq, fun next h => ?_⟩
    cases h
    exact hknows

lemma writes_recordPublishResult {publishResult : PublishResult} {size : Option ℕ} (hq : q.Closed) :
    Writes m (recordPublishResult jobId publishResult size) q fun q' _ => q'.Closed := by
  refine ⟨.inr hq, fun _ _ => ?_⟩
  refine (writes_getRequiredJob (.inr hq)).bind (fun q' current h => ?_)
    fun _ _ h => h.1.trans hq
  have hknows := (h.2 current rfl).1
  have hq' : q'.Closed := h.1.trans hq
  split
  next claim _ _ _ =>
    refine ofExcept_bind (fun mapped _ => ?_) fun _ _ => hq'
    refine (writes_transitionFrom hm hq' hknows (by decide) _ _).bind (fun q'' next h => ?_)
      fun _ _ h => h.1
    obtain ⟨hq'', hnext⟩ := h
    show Writes m (if mapped.status = included then _ else _) q'' _
    split
    next =>
      exact (writes_progress hm hq'' (hnext _ rfl) (by decide) _ _ _).bind
        (fun _ _ h => h.1) fun _ _ h => h.1
    next =>
      refine (writes_transitionFrom hm hq'' (hnext _ rfl) (by decide) _ _).bind
        (fun q₃ last h => ?_) fun _ _ h => h.1
      exact (writes_progress hm h.1 (h.2 _ rfl) (by decide) _ _ _).bind
        (fun _ _ h => h.1) fun _ _ h => h.1
  next => exact hq'

lemma writes_fail {failure : LiftJobFailureMetadata} (hq : q.Closed)
    (hknows : q.Knows current) (h : failure.resolution ≠ .retryRecovery) :
    Writes m (transition current failed { failure := some (some failure) }) q
      fun q' _ => q'.Closed :=
  (writes_transition hm hq hknows (leaves_failure fun heq => absurd heq h)).mono fun _ _ h => h.1

lemma writes_recordPublishFailure {input : AsyncLiftPublishFailureInput}
    (hq : q.Closed) : Writes m (recordPublishFailure jobId input) q fun q' _ => q'.Closed := by
  refine ⟨.inr hq, fun _ _ => ?_⟩
  refine (writes_getRequiredJob (.inr hq)).bind (fun q' current h => ?_)
    fun _ _ h => h.1.trans hq
  have hq' : q'.Closed := h.1.trans hq
  refine ofExcept_bind (fun failure hfailure => ?_) fun _ _ => hq'
  have hresolution : failure.resolution ≠ .retryRecovery := by
    rw [(createLiftJobFailureMetadata_ok hfailure).2.2]
    exact classifyPublishFailureCode_resolution _ _
  exact (writes_fail hm hq' (h.2 current rfl).1 hresolution).bind (fun _ _ h => h) fun _ _ h => h

omit hm in
lemma executionFailureCode_resolution (lower : Term) :
    (executionFailureCode lower).policy.resolution ≠ .retryRecovery := by
  unfold executionFailureCode
  repeat' split
  all_goals decide

lemma writes_recordExecutionFailure {state : LiftJobState} {message : Term} (hq : q.Closed) :
    Writes m (recordExecutionFailure jobId state message) q fun q' _ => q'.Closed := by
  refine (writes_getRequiredJob (.inr hq)).bind (fun q' current h => ?_)
    fun _ _ h => h.1.trans hq
  have hq' : q'.Closed := h.1.trans hq
  show Writes m (if state = claimed ∨ state = validated then _ else _) q' _
  split
  next =>
    refine ofExcept_bind (fun failure hfailure => ?_) fun _ _ => hq'
    have hresolution : failure.resolution ≠ .retryRecovery := by
      rw [(createLiftJobFailureMetadata_ok hfailure).2.2]
      exact executionFailureCode_resolution _
    exact (writes_fail hm hq' (h.2 current rfl).1 hresolution).bind (fun _ _ h => h)
      fun _ _ h => h
  next => exact ⟨.inr hq', fun _ _ => writes_recordPublishFailure hm hq'⟩

/-! ### Processing -/

omit hm in
lemma writes_subtractFinalizedExactQuads {validation : LiftJobValidationMetadata}
    {resolved : ResolvedSlice} (hq : q.Closed) :
    Writes m (subtractFinalizedExactQuads request validation resolved) q fun q' _ => q' = q := by
  have hread : ∀ roots read, Writes m read q (fun q' _ => q' = q) →
      Writes m (readFor roots read) q fun q' _ => q' = q := by
    intro roots read hread
    unfold readFor
    split
    next => rfl
    next => exact hread
  unfold subtractFinalizedExactQuads
  split
  next => rfl
  next =>
    refine bind (hread _ _ ⟨.inr hq, fun _ _ => rfl⟩) ?_ fun _ _ h => h
    rintro q' roots rfl
    refine bind (hread _ _ ⟨.inr hq, fun _ _ => rfl⟩) ?_ fun _ _ h => h
    rintro q'' keys rfl
    exact bind (hread _ _ ⟨.inr hq, fun _ _ => rfl⟩) (fun _ _ h => h) fun _ _ h => h

lemma writes_finalizeNoopPublish (hq : q.Closed) :
    Writes m (finalizeNoopPublish jobId) q fun q' _ => q'.Closed := by
  refine (writes_getRequiredJob (.inr hq)).bind (fun q' current h => ?_)
    fun _ _ h => h.1.trans hq
  exact bind
    (writes_progress hm (h.1.trans hq) (h.2 current rfl).1 (by decide) _ _ _)
    (fun _ _ h => h.1) fun _ _ h => h.1

lemma writes_processClaimed (hq : q.Closed)
    (hpermits : ∀ job data, Permits m job → Leaves { validation := data } validated job) :
    Writes m (processClaimed walletId job) q fun q' _ => q'.Closed := by
  have hresolve : Writes m (resolveAndValidate job) q fun q' _ => q'.Closed := by
    refine ⟨.inr hq, fun slice _ => ?_⟩
    refine ofExcept_bind (fun slice _ => ?_) fun _ _ => hq
    exact bind (writes_update hm hq fun job => hpermits job _) (fun _ _ h => h) fun _ _ h => h
  have hprepare : ∀ q slice, q.Closed →
      Writes m (prepare job slice) q fun q' _ => q'.Closed := by
    intro q slice hq
    refine (writes_subtractFinalizedExactQuads hq).bind (fun q' subtracted h => ?_)
      fun _ _ h => h ▸ hq
    subst h
    show Writes m (if subtracted.quads.length = 0 ∧
      (subtracted.privateQuads.map (·.length)).getD 0 = 0 then _ else _) q' _
    split
    next =>
      exact bind (writes_finalizeNoopPublish hm hq) (fun _ _ h => h) fun _ _ h => h
    next => exact ofExcept_bind (fun _ _ => hq) fun _ _ => hq
  have hexecute : ∀ q options, q.Closed →
      Writes m (execute job walletId options) q fun q' _ => q'.Closed := by
    intro q options hq
    refine ⟨.inr hq, fun _ _ => ⟨.inr hq, fun result _ => ?_⟩⟩
    exact ofExcept_bind (fun _ _ => writes_recordPublishResult hm hq) fun _ _ => hq
  refine (hresolve.attempt).bind (fun q' r h => ?_) fun _ _ h => ?_
  · obtain ⟨r, hr, hq'⟩ := h
    cases hr
    cases r with
    | error message => exact writes_recordExecutionFailure hm hq'
    | ok slice =>
      refine ((hprepare q' slice hq').attempt).bind (fun q'' r h => ?_) fun _ _ h => ?_
      · obtain ⟨r, hr, hq''⟩ := h
        cases hr
        rcases r with message | _ | options
        · exact writes_recordExecutionFailure hm hq''
        · exact hq''
        · refine ((hexecute q'' options hq'').attempt).bind (fun q₃ r h => ?_) fun _ _ h => ?_
          · obtain ⟨r, hr, hq₃⟩ := h
            cases hr
            cases r with
            | error message => exact writes_recordExecutionFailure hm hq₃
            | ok _ => exact hq₃
          · obtain ⟨_, hr, _⟩ := h
            cases hr
      · obtain ⟨_, hr, _⟩ := h
        cases hr
  · obtain ⟨_, hr, _⟩ := h
    cases hr

/-! ### Recovery and the other methods -/

end

/-- The job may be rewritten, and what the task knows of the other jobs stays. -/
def Rewrites (m : Method) (p : Program α) (q : Seen) (jobId : Term) : Prop :=
  Writes m p q fun q' _ => q'.Closed ∧ ∀ other, other ≠ jobId → q'.basis other = q.basis other

lemma rewrites_pure (hq : q.Closed) {a : α} : Rewrites m (pure a) q jobId :=
  ⟨hq, fun _ _ => rfl⟩

lemma rewrites_ofExcept_bind {β : Type} {x : Except Term β} {f : β → Program α} (hq : q.Closed)
    (h : ∀ a, x = .ok a → Rewrites m (f a) q jobId) : Rewrites m (Prog.ofExcept x >>= f) q jobId :=
  ofExcept_bind h fun _ _ => ⟨hq, fun _ _ => rfl⟩

lemma writes_forEach {f : LiftJob → Program Unit} (hq : q.Closed) (hall : q.KnowsAll jobs)
    (hf : ∀ q, ∀ job ∈ jobs, q.Closed → q.Knows job → Rewrites m (f job) q job.jobId) :
    Writes m (forEach f jobs) q fun q' _ => q'.Closed := by
  induction jobs generalizing q with
  | nil => exact hq
  | cons job jobs ih =>
    obtain ⟨hknows, hnodup⟩ := hall
    obtain ⟨hnot, hnodup⟩ := nodup_cons.mp hnodup
    refine bind (hf q job mem_cons_self hq (hknows job mem_cons_self))
      (fun q' _ h => ih h.1 ⟨fun other hother => ?_, hnodup⟩ fun q other hother =>
        hf q other (mem_cons_of_mem job hother)) fun _ _ h => h.1
    have hne : other.jobId ≠ job.jobId := fun heq =>
      hnot (mem_map.mpr ⟨other, hother, heq⟩)
    have hother := hknows other (mem_cons_of_mem job hother)
    exact ⟨(h.2 _ hne).trans hother.basis, hother.valid⟩

lemma rewrites_releaseAndWrite {next : ℕ → Except Term LiftJob} (hm : ¬ m.Removes) (hq : q.Closed)
    (hknows : q.Knows job) (h : ∀ now written, next now = .ok written → Change m job written) :
    Rewrites m (releaseAndWrite job next) q job.jobId := by
  refine (writes_releaseWalletLockForJob (.inr hq)).bind (fun q' _ hq' => ?_) fun _ _ hq' => ?_
  · subst hq'
    refine ⟨.inr hq, fun now _ => rewrites_ofExcept_bind hq fun written hwritten => ?_⟩
    have hchange := h now written hwritten
    refine (writes_writeJob hm hq (hknows.written hchange)).mono fun q'' _ hq'' => ?_
    subst hq''
    refine ⟨rfl, fun other hother => update_of_ne ?_ ..⟩
    rwa [hchange.jobId]
  · subst hq'
    exact ⟨hq, fun _ _ => rfl⟩

lemma rewrites_recoverJob (cfg : Config) (hq : q.Closed) (hknows : q.Knows job) :
    Rewrites .recover (recoverJob cfg job) q job.jobId := by
  have hm : ¬ Method.recover.Removes := id
  unfold recoverJob
  split
  next =>
    refine rewrites_releaseAndWrite hm hq hknows fun now written h => ?_
    cases h
    exact change_reset hknows.valid _ _
  next =>
    split
    next hpublished =>
      obtain ⟨hclaim, hvalidation, hbroadcast⟩ := hknows.valid.published hpublished.1
      refine ⟨.inr hq, fun found _ => rewrites_ofExcept_bind hq fun found _ => ?_⟩
      cases found with
      | some found =>
        exact rewrites_releaseAndWrite hm hq hknows fun now written h =>
          change_finalized hknows.valid ⟨rfl, rfl, rfl, rfl, rfl⟩ hclaim hvalidation h
      | none =>
        refine ⟨.inr hq, fun now _ => ?_⟩
        show Rewrites .recover (if hasInconclusiveRecoveryTimedOut job
          cfg.recoveryLookupTimeoutMs now = true then _ else _) q job.jobId
        split
        next =>
          refine rewrites_releaseAndWrite hm hq hknows fun now written h => ?_
          obtain ⟨failure, _, hmerge⟩ := failInconclusiveRecovery_ok h
          have hleaves : Leaves { failure := some (some failure) } failed job :=
            leaves_failure fun _ => ⟨hclaim, hvalidation, hbroadcast⟩
          refine change_of_mergeJob hleaves hknows.valid hmerge ?_
          obtain ⟨_, rfl⟩ := mergeJob_ok hmerge
          rfl
        next => exact rewrites_pure hq
    next =>
      split
      next =>
        refine rewrites_releaseAndWrite hm hq hknows fun now written h => ?_
        cases h
        exact change_reset hknows.valid _ _
      next => exact rewrites_pure hq

lemma rewrites_recoverFailedJob (hq : q.Closed) (hknows : q.Knows job)
    (hfailed : job.status = failed) : Rewrites .recover (recoverFailedJob job) q job.jobId := by
  unfold recoverFailedJob
  split
  next => exact rewrites_pure hq
  next failure hfailure =>
    split
    next hretry =>
      obtain ⟨hclaim, hvalidation, _⟩ := hknows.valid.recoverable hfailed failure hfailure hretry.1
      refine ⟨.inr hq, fun found _ => rewrites_ofExcept_bind hq fun found _ => ?_⟩
      cases found with
      | some found =>
        have hcore : SameCore job (recoverableJob job failure) := ⟨rfl, rfl, rfl, rfl, rfl⟩
        exact rewrites_releaseAndWrite (m := .recover) id hq hknows fun now written h =>
          change_finalized hknows.valid hcore hclaim hvalidation h
      | none => exact rewrites_pure hq
    next => exact rewrites_pure hq

lemma rewrites_retryJob (hq : q.Closed) (hknows : q.Knows job) :
    Rewrites .retry (retryJob job) q job.jobId := by
  unfold retryJob
  split
  next => exact rewrites_pure hq
  next failure _ =>
    split
    next => exact rewrites_pure hq
    next hcount =>
      split
      next => exact rewrites_pure hq
      next =>
        refine ⟨.inr hq, fun now _ => ?_⟩
        refine (writes_releaseWalletLockForJob (.inr hq)).bind (fun q' _ hq' => ?_)
          fun _ _ hq' => ?_
        · subst hq'
          have hcount : job.retries.retryCount < job.retries.maxRetries := by
            simp only [Bool.or_eq_true, decide_eq_true_eq, not_or, not_le] at hcount
            exact hcount.2
          have hchange : Change .retry job (retriedJob job failure now) := change_retried hcount
          refine (writes_writeJob id hq (hknows.written hchange)).mono fun q'' _ hq'' => ?_
          subst hq''
          exact ⟨rfl, fun other hother => update_of_ne hother ..⟩
        · subst hq'
          exact ⟨hq, fun _ _ => rfl⟩

lemma writes_sweepLocks {rows : List LockRow} (hq : q.Closed) :
    Writes m (sweepLocks now rows) q fun q' _ => q'.Closed := by
  induction rows generalizing q with
  | nil => exact hq
  | cons row rows ih =>
    unfold sweepLocks
    split
    next => exact ih hq
    next =>
      have hread : Writes m (lockedJob row) q fun q' _ => q'.Closed := by
        unfold lockedJob
        split
        next => exact hq
        next => exact ⟨.inr hq, fun _ _ => hq⟩
      refine hread.bind (fun q' found hq' => ?_) fun _ _ h => h
      show Writes m (if staleLock row found now = true then _ else _) q' _
      split
      next => exact ⟨.inr hq', fun _ _ => ih hq'⟩
      next => exact ih hq'

lemma writes_recover (cfg : Config) (hq : q.Closed) :
    Writes .recover (recover cfg) q fun q' _ => q'.Closed := by
  refine ⟨.inr hq, fun _ _ => ?_⟩
  have hsweep : Writes .recover sweepStaleWalletLocks q fun q' _ => q'.Closed :=
    ⟨.inr hq, fun _ _ => ⟨.inr hq, fun _ _ => writes_sweepLocks hq⟩⟩
  refine hsweep.bind (fun q' _ hq' => ?_) fun _ _ h => h
  refine (writes_list cfg none (.inr hq')).bind (fun q'' jobs h => ?_) fun _ _ h => h.1.trans hq'
  refine (writes_forEach (h.1.trans hq') ((h.2 jobs rfl).filter _)
    fun _ _ _ => rewrites_recoverJob cfg).bind (fun q₃ _ hq₃ => ?_) fun _ _ h => h
  show Writes .recover (if cfg.hasResolver = true then _ else _) q₃ _
  split
  next =>
    refine (writes_list cfg (some failed) (.inr hq₃)).bind (fun q₄ jobs h => ?_)
      fun _ _ h => h.1.trans hq₃
    exact writes_forEach (h.1.trans hq₃) ((h.2 jobs rfl).filter _) fun q job hjob hq hknows =>
      rewrites_recoverFailedJob hq hknows (by simpa using (mem_filter.mp hjob).2)
  next => exact hq₃

lemma writes_retry (cfg : Config) (hq : q.Closed) :
    Writes .retry (retry cfg) q fun q' _ => q'.Closed := by
  refine ⟨.inr hq, fun _ _ => ?_⟩
  refine (writes_list cfg _ (.inr hq)).bind (fun q' jobs h => ?_) fun _ _ h => h.1.trans hq
  exact writes_forEach (h.1.trans hq) ((h.2 jobs rfl).filter _) fun _ _ _ => rewrites_retryJob

lemma writes_lift (cfg : Config) (hq : q.Closed) (hnew : q.basis jobId = none) :
    Writes (.lift request jobId) (lift cfg request jobId) q fun q' _ => q'.Closed := by
  refine ⟨.inr hq, fun _ _ => ⟨.inr hq, fun now _ => ?_⟩⟩
  refine (writes_writeJob id hq ?_).mono fun q' _ hq' => ?_
  · show Written _ (q.basis jobId) _
    rw [hnew]
    exact Valid.lifted
  · subst hq'
    rfl

lemma writes_cancel (hm : m.Removes) : Writes m (cancel jobId) q fun _ _ => True := by
  refine ⟨.inl hm, fun _ _ => ?_⟩
  refine (writes_getRequiredJob (.inl hm)).bind (fun q' job _ => ?_) fun _ _ _ => trivial
  show Writes m (if job.status ≠ accepted then _ else _) q' _
  split
  next => trivial
  next =>
    refine (writes_releaseWalletLockForJob (.inl hm)).bind (fun q' _ _ => ?_)
      fun _ _ _ => trivial
    exact ⟨.inl hm, fun _ _ => trivial⟩

lemma writes_clear (cfg : Config) (hm : m.Removes) :
    Writes m (clear cfg status) q fun _ _ => True := by
  refine ⟨.inl hm, fun _ _ => ?_⟩
  refine (writes_list cfg _ (.inl hm)).bind (fun q' jobs _ => ?_) fun _ _ _ => trivial
  clear * - hm
  induction jobs generalizing q' with
  | nil => trivial
  | cons job jobs ih =>
    have hjob : Writes m (clearJob status job) q' fun _ _ => True := by
      unfold clearJob
      split
      next => trivial
      next =>
        refine (writes_releaseWalletLockForJob (.inl hm)).bind (fun q' _ _ => ?_)
          fun _ _ _ => trivial
        exact ⟨.inl hm, fun _ _ => trivial⟩
    exact hjob.bind (fun q' _ _ => ih q') fun _ _ _ => trivial

/-- **Every method writes changes only.** -/
lemma program_writes (cfg : Config) (m : Method) :
    (program cfg m).Keeps (storeContract m) (fun q _ => m.Removes ∨ q.Closed)
      (storeContract m).start := by
  have hclosed : (storeContract m).start.Closed := rfl
  cases m with
  | lift request jobId => exact (writes_lift cfg hclosed rfl).mono fun _ _ h => .inr h
  | claimNext walletId =>
    exact (writes_claimNext cfg walletId id hclosed).bind (fun _ _ h => .inr h.1)
      fun _ _ h => .inr h.1
  | update jobId status data =>
    have hpermits : ∀ job, Permits (.update jobId status data) job → Leaves data status job :=
      fun _ h => h
    exact (writes_update id hclosed hpermits).mono fun _ _ h => .inr h
  | processNext walletId =>
    show Writes _ (processNext cfg walletId) _ _
    unfold processNext
    split
    next => exact .inr hclosed
    next =>
      refine (writes_claimNext cfg walletId id hclosed).bind (fun q claimed h => ?_)
        fun _ _ h => .inr h.1
      cases claimed with
      | none => exact .inr h.1
      | some job =>
        have hpermits : ∀ job data, Permits (.processNext walletId) job →
            Leaves { validation := data } validated job :=
          fun _ data _ => leaves_metadata none data none none none (by decide)
        exact (writes_processClaimed id h.1 hpermits).mono fun _ _ h => .inr h
  | recordPublishResult jobId publishResult size =>
    exact (writes_recordPublishResult id hclosed).mono fun _ _ h => .inr h
  | recordPublishFailure jobId input =>
    exact (writes_recordPublishFailure id hclosed).mono fun _ _ h => .inr h
  | recover => exact (writes_recover cfg hclosed).mono fun _ _ h => .inr h
  | retry => exact (writes_retry cfg hclosed).mono fun _ _ h => .inr h
  | cancel jobId =>
    exact (writes_cancel (m := .cancel jobId) trivial).mono fun _ _ _ => .inl trivial
  | clear status =>
    exact (writes_clear (m := .clear status) cfg trivial).mono fun _ _ _ => .inl trivial
  | pause | resume => exact ⟨.inr hclosed, fun _ _ => .inr hclosed⟩

end

end Dkg.AsyncLift
