import Dkg.AsyncLift.Jobs
import Dkg.Lib.KeyLocks
import Dkg.Lib.Programs

/-! # The control plane

The control graph with the records of the jobs, the graph of the wallet locks, and what the
publisher keeps in memory: the queue of `claimNext` and whether it is paused. Every operation is one
call of the triple store, or one of the calls whose answers come from outside: the shared memory,
the knowledge graphs, the executor, the resolver of the chain and the clock.

The programs are the methods of `TripleStoreAsyncLiftPublisher`. A crash loses what is in memory.
-/

namespace Dkg.AsyncLift

open Lib LiftJobState List

/-! ## Graphs -/

/-- The quads of one graph: a subject, and a predicate with its object. -/
abbrev Graph (φ : Type) := List (Term × φ)

namespace Graph

variable {φ : Type}

/-- `deleteByPattern({ subject, graph })`. -/
def deleteSubject (g : Graph φ) (subject : Term) : Graph φ := g.filter fun q => q.1 ≠ subject

def insert [DecidableEq φ] (g : Graph φ) (quads : Graph φ) : Graph φ :=
  quads.foldl (fun g q => if q ∈ g then g else g ++ [q]) g

/-- The objects of a subject, as far as `read` takes them. -/
def objects {α : Type} (g : Graph φ) (subject : Term) (read : φ → Option α) : List α :=
  g.filterMap fun q => if q.1 = subject then read q.2 else none

variable {α : Type} {g : Graph φ} {quads : Graph φ} {subject subject' : Term} {read : φ → Option α}

lemma objects_deleteSubject_self : (g.deleteSubject subject).objects subject read = [] := by
  rw [objects, deleteSubject, filterMap_filter, filterMap_eq_nil_iff]
  intro q _
  by_cases h : q.1 = subject
  · simp [h]
  · simp [h]

lemma objects_deleteSubject_of_ne (h : subject' ≠ subject) :
    (g.deleteSubject subject).objects subject' read = g.objects subject' read := by
  rw [objects, deleteSubject, filterMap_filter]
  refine filterMap_congr fun q _ => ?_
  by_cases hq : q.1 = subject'
  · simp [hq, h]
  · simp [hq]

lemma objects_append : (objects (g ++ quads) subject read) =
    g.objects subject read ++ quads.objects subject read :=
  filterMap_append

variable [DecidableEq φ]

lemma objects_insert_of_ne (h : ∀ q ∈ quads, q.1 ≠ subject) :
    (g.insert quads).objects subject read = g.objects subject read := by
  induction quads generalizing g with
  | nil => rfl
  | cons q quads ih =>
    have hq := h q mem_cons_self
    show (insert (if q ∈ g then g else g ++ [q]) quads).objects subject read = _
    rw [ih fun q' hq' => h q' (mem_cons_of_mem q hq')]
    split
    next => rfl
    next => rw [objects_append]; simp [objects, hq]

lemma insert_of_new (hnodup : quads.Nodup) (h : ∀ q ∈ quads, q ∉ g) :
    g.insert quads = g ++ quads := by
  induction quads generalizing g with
  | nil => exact (append_nil g).symm
  | cons q quads ih =>
    obtain ⟨hnot, hnodup⟩ := nodup_cons.mp hnodup
    show insert (if q ∈ g then g else g ++ [q]) quads = _
    rw [if_neg (h q mem_cons_self), ih hnodup, append_assoc, singleton_append]
    intro q' hq' hmem
    rcases mem_append.mp hmem with hold | hnew
    · exact h q' (mem_cons_of_mem q hq') hold
    · rw [mem_singleton] at hnew
      exact hnot (hnew ▸ hq')

end Graph

/-- A quad of a job that some query reads; a job is known by its id. -/
inductive JobField
  | status (status : LiftJobState)
  | payload (job : LiftJob)
  deriving DecidableEq

def JobField.readStatus : JobField → Option LiftJobState
  | status s => some s
  | payload _ => none

def JobField.readPayload : JobField → Option LiftJob
  | status _ => none
  | payload job => some job

def serializeJob (job : LiftJob) : Graph JobField :=
  [(job.jobId, .status job.status), (job.jobId, .payload job)]

/-- A quad of the lock of a wallet that some query reads. -/
inductive LockField
  | walletId (walletId : Term)
  | lockedJob (jobId : Term)
  | status (status : Term)
  | expiresAt (time : ℕ)
  | claimToken (token : Term)
  deriving DecidableEq

namespace LockField

def readLockedJob : LockField → Option Term
  | lockedJob j => some j
  | _ => none

def readStatus : LockField → Option Term
  | status s => some s
  | _ => none

def readExpiresAt : LockField → Option ℕ
  | expiresAt t => some t
  | _ => none

def readClaimToken : LockField → Option Term
  | claimToken t => some t
  | _ => none

end LockField

structure WalletLock where
  (walletId jobId : Term)
  expiresAt : ℕ
  status : Term
  claimToken : Option Term

def serializeWalletLock (lock : WalletLock) : Graph LockField :=
  [(lock.walletId, .walletId lock.walletId), (lock.walletId, .lockedJob lock.jobId),
    (lock.walletId, .status lock.status), (lock.walletId, .expiresAt lock.expiresAt)] ++
  match lock.claimToken with
  | some token => if token = [] then [] else [(lock.walletId, .claimToken token)]
  | none => []

/-- What `readWalletLock` gives. -/
structure CurrentLock where
  jobId : Term
  claimToken : Option Term

/-- A row of the query of `sweepStaleWalletLocks`. -/
structure LockRow where
  (walletId jobId : Term)
  expiresAt : ℕ

def active : Term := "active".toList

/-- The two graphs of the control plane, the queue of the claims, and the pause. -/
structure ControlPlane where
  jobs : Graph JobField
  locks : Graph LockField
  claims : KeyLocks Unit ℕ
  paused : Bool

namespace ControlPlane

variable (s : ControlPlane)

def payloads (jobId : Term) : List LiftJob := s.jobs.objects jobId JobField.readPayload

def statuses (jobId : Term) : List LiftJobState := s.jobs.objects jobId JobField.readStatus

/-- The rows of `list`: each status of a job with each payload of it. -/
def rows (status : Option LiftJobState) : List LiftJob :=
  s.jobs.flatMap fun q =>
    match q.2 with
    | .status found => if status = none ∨ status = some found then s.payloads q.1 else []
    | .payload _ => []

def lockValues {α : Type} (walletId : Term) (read : LockField → Option α) : List α :=
  s.locks.objects walletId read

/-- The first row of `hasActiveWalletLock`. -/
def activeExpiry (walletId : Term) : Option ℕ :=
  if active ∈ s.lockValues walletId LockField.readStatus then
    (s.lockValues walletId LockField.readExpiresAt).head?
  else none

/-- The first row of `readWalletLock`; an empty id of a job counts as none. -/
def currentLock (walletId : Term) : Option CurrentLock :=
  match s.lockValues walletId LockField.readLockedJob,
      s.lockValues walletId LockField.readStatus with
  | jobId :: _, _ :: _ =>
    if jobId = [] then none
    else some ⟨jobId, (s.lockValues walletId LockField.readClaimToken).head?⟩
  | _, _ => none

/-- The rows of `sweepStaleWalletLocks`. -/
def activeLocks : List LockRow :=
  s.locks.flatMap fun q =>
    match q.2 with
    | .walletId walletId =>
      if active ∈ s.lockValues q.1 LockField.readStatus then
        (s.lockValues q.1 LockField.readLockedJob).flatMap fun jobId =>
          (s.lockValues q.1 LockField.readExpiresAt).map fun expiresAt =>
            ⟨walletId, jobId, expiresAt⟩
      else []
    | _ => []

end ControlPlane

/-! ## Operations -/

inductive AccessPolicy
  | publicAccess | ownerOnly | allowList
  deriving DecidableEq

/-- `LiftResolvedPublishSlice`, as far as it is checked or published. -/
structure ResolvedSlice where
  quads : List Quad
  privateQuads : Option (List Quad)
  publisherPeerId : Option Term
  accessPolicy : Option AccessPolicy
  allowedPeers : List Term

structure PublishOptions where
  contextGraphId : Term
  quads : List Quad
  privateQuads : Option (List Quad)
  publisherPeerId : Option Term
  accessPolicy : AccessPolicy
  allowedPeers : Option (List Term)

/-- What a method calls and then waits for. -/
inductive Op
  | ensureGraph
  | now
  | isPaused
  | setPaused (paused : Bool)
  | enterClaims
  | awaitClaims (previous : List ℕ)
  | leaveClaims
  | activeExpiry (walletId : Term)
  | readWalletLock (walletId : Term)
  | activeLocks
  | deleteWalletLock (walletId : Term)
  | insertWalletLock (lock : WalletLock)
  | getStatus (jobId : Term)
  | list (status : Option LiftJobState)
  | deleteJob (jobId : Term)
  | insertJob (job : LiftJob)
  | chainRecoveryResolver (job : LiftJob)
  | resolveSlice (request : LiftRequest)
  | confirmedRoots (contextGraphId : Term) (roots : List Term)
  | publicQuadKeys (contextGraphId : Term) (confirmedRoots : List Term)
  | privateQuadKeys (contextGraphId : Term) (confirmedRoots : List Term)
  | callExecutor (walletId : Term) (options : PublishOptions)
  | executorResult

/-- The slice of the shared memory, validated, or what the validation throws. -/
abbrev Slice := Except Term (LiftJobValidationMetadata × ResolvedSlice)

abbrev Resolved := Except Term (Option (LiftJobInclusionMetadata × LiftJobFinalizationMetadata))

/-- The answer to the call of the executor tells whether a transaction that the call submits, before
or after its end, is included on the chain. No program reads it. -/
@[reducible]
def Answer : Op → Type
  | .ensureGraph => Unit
  | .now => ℕ
  | .isPaused => Bool
  | .setPaused _ => Unit
  | .enterClaims => List ℕ
  | .awaitClaims _ => Unit
  | .leaveClaims => Unit
  | .activeExpiry _ => Option ℕ
  | .readWalletLock _ => Option CurrentLock
  | .activeLocks => List LockRow
  | .deleteWalletLock _ => Unit
  | .insertWalletLock _ => Unit
  | .getStatus _ => Option LiftJob
  | .list _ => List LiftJob
  | .deleteJob _ => Unit
  | .insertJob _ => Unit
  | .chainRecoveryResolver _ => Resolved
  | .resolveSlice _ => Slice
  | .confirmedRoots _ _ => List Term
  | .publicQuadKeys _ _ => List Term
  | .privateQuadKeys _ _ => List Term
  | .callExecutor _ _ => Bool
  | .executorResult => Except Term PublishResult

/-- What comes from outside. -/
inductive Outcome
  | none
  | time (now : ℕ)
  | chain (found : Resolved)
  | slice (slice : Slice)
  | terms (found : List Term)
  | includes (commits : Bool)
  | result (result : Except Term PublishResult)

/-- What an operation of task `i` changes. -/
def effect (i : ℕ) (s : ControlPlane) : Op → ControlPlane
  | .setPaused paused => { s with paused := paused }
  | .enterClaims => { s with claims := s.claims.take i [()] }
  | .leaveClaims => { s with claims := s.claims.release i [()] }
  | .deleteWalletLock walletId => { s with locks := s.locks.deleteSubject walletId }
  | .insertWalletLock lock => { s with locks := s.locks.insert (serializeWalletLock lock) }
  | .deleteJob jobId => { s with jobs := s.jobs.deleteSubject jobId }
  | .insertJob job => { s with jobs := s.jobs.insert (serializeJob job) }
  | _ => s

/-- The answer to an operation; a task waits in the queue until those before it have left. -/
def answer (s : ControlPlane) : (op : Op) → Outcome → Option (Answer op)
  | .ensureGraph, _ => some ()
  | .now, .time now => some now
  | .isPaused, _ => some s.paused
  | .setPaused _, _ => some ()
  | .enterClaims, _ => some (s.claims.predecessors [()])
  | .awaitClaims previous, _ => if s.claims.Ready previous then some () else none
  | .leaveClaims, _ => some ()
  | .activeExpiry walletId, _ => some (s.activeExpiry walletId)
  | .readWalletLock walletId, _ => some (s.currentLock walletId)
  | .activeLocks, _ => some s.activeLocks
  | .deleteWalletLock _, _ => some ()
  | .insertWalletLock _, _ => some ()
  | .getStatus jobId, _ => some (s.payloads jobId).head?
  | .list status, _ => some (s.rows status)
  | .deleteJob _, _ => some ()
  | .insertJob _, _ => some ()
  | .chainRecoveryResolver _, .chain found => some found
  | .resolveSlice _, .slice slice => some slice
  | .confirmedRoots _ _, .terms found => some found
  | .publicQuadKeys _ _, .terms found => some found
  | .privateQuadKeys _ _, .terms found => some found
  | .callExecutor _ _, .includes commits => some commits
  | .executorResult, .result result => some result
  | _, _ => none

/-- One operation of task `i`. -/
def perform (i : ℕ) (s : ControlPlane) (op : Op) (o : Outcome) :
    Option (ControlPlane × Answer op) :=
  (answer s op o).map fun ans => (effect i s op, ans)

lemma perform_eq_some {i : ℕ} {s s' : ControlPlane} {op : Op} {o : Outcome} {ans : Answer op} :
    perform i s op o = some (s', ans) ↔ answer s op o = some ans ∧ s' = effect i s op := by
  unfold perform
  cases answer s op o with
  | none => simp
  | some found =>
    simp only [Option.map_some, Option.some.injEq, Prod.mk.injEq]
    exact ⟨fun h => ⟨h.2, h.1.symm⟩, fun h => ⟨h.2.symm, h.1⟩⟩

end Dkg.AsyncLift
