import Dkg.Sync.PageFetch
import Dkg.Sync.VerificationSoundness

/-! # Durable sync

`runDurableSync` for one context graph: the metadata, then the data, each from its checkpoint on, as
far as the deadline lets it; then the check of what this run has fetched, and the checkpoints. A run
that is cut off checks only a part, and what it rejects is not fetched again. As long as each part
is one that the check can judge (`Whole`), wherever the runs are cut off, one that ends has
everything (`durable_sync_complete`).
-/

namespace Dkg.Sync.Durable

open Lib Publisher Verification List

/-! ## A run -/

structure SyncState where
  store : TripleStore
  metaCheckpoint : Option ℕ
  dataCheckpoint : Option ℕ

structure DurableSyncSummary where
  insertedTriples : ℕ := 0
  fetchedMetaTriples : ℕ := 0
  fetchedDataTriples : ℕ := 0
  insertedMetaTriples : ℕ := 0
  insertedDataTriples : ℕ := 0
  resumedPhases : ℕ := 0
  deniedPhases : ℕ := 0
  emptyResponses : ℕ := 0
  metaOnlyResponses : ℕ := 0
  dataRejectedMissingMeta : ℕ := 0
  rejectedKcs : ℕ := 0
  failedPeers : ℕ := 0

/-- What the node that syncs is given. -/
structure Requester (B : Type) where
  hashing : Hashing B
  syncPageSize : ℕ
  contextGraphId : Term
  isSystemContextGraph : Bool

/-- How a run ends: whether both phases were completed, and what the check rejected. -/
structure Run where
  state : SyncState
  summary : DurableSyncSummary
  completed : Bool
  rejectedKcs : ℕ

variable {B : Type}

def metaPhase (requester : Requester B) (peer : Peer) : Phase where
  syncPageSize := requester.syncPageSize
  contextGraphId := requester.contextGraphId
  graphUri := contextGraphMetaUri requester.contextGraphId
  rows := peer.metaRows

def dataPhase (requester : Requester B) (peer : Peer) : Phase where
  syncPageSize := requester.syncPageSize
  contextGraphId := requester.contextGraphId
  graphUri := contextGraphDataUri requester.contextGraphId
  rows := peer.dataRows

/-- A completed phase begins anew the next time. -/
def checkpointAfter (result : SyncPageResult) : Option ℕ :=
  if result.completed then none else some result.nextOffset

/-- The run stores nothing and leaves the checkpoints. -/
def Skips (processed : DurableBatchProcessResult) : Prop :=
  0 < processed.emptyResponses ∨ 0 < processed.dataRejectedMissingMeta ∨
    (processed.verifiedData.length = 0 ∧ processed.verifiedMeta.length = 0 ∧
      0 < processed.metaOnlyResponses)
  deriving Decidable

variable [LinearOrder B] [Zero B]

/-- The part of a run after the pages. -/
def storeBatch (requester : Requester B) (state : SyncState)
    (metaResult dataResult : SyncPageResult) : Run :=
  let processed := processDurableBatch requester.hashing dataResult.quads metaResult.quads
    requester.isSystemContextGraph
  let summary : DurableSyncSummary := {
    fetchedMetaTriples := processed.totalFetchedMetaQuads
    fetchedDataTriples := processed.totalFetchedDataQuads
    resumedPhases := (if 0 < metaResult.resumedFromOffset then 1 else 0) +
      (if 0 < dataResult.resumedFromOffset then 1 else 0)
    emptyResponses := processed.emptyResponses
    metaOnlyResponses := processed.metaOnlyResponses
    dataRejectedMissingMeta := processed.dataRejectedMissingMeta }
  let completed := metaResult.completed && dataResult.completed
  if Skips processed then ⟨state, summary, completed, processed.rejectedKcs⟩
  else
    { state := {
        store := (state.store.insert processed.verifiedData).insert processed.verifiedMeta
        metaCheckpoint := checkpointAfter metaResult
        dataCheckpoint := checkpointAfter dataResult }
      summary := { summary with
        insertedTriples := processed.verifiedData.length + processed.verifiedMeta.length
        insertedMetaTriples := processed.verifiedMeta.length
        insertedDataTriples := processed.verifiedData.length
        rejectedKcs := processed.rejectedKcs }
      completed := completed
      rejectedKcs := processed.rejectedKcs }

def runDurableSync (requester : Requester B) (peer : Peer) (state : SyncState) (deadline : ℕ) :
    Run :=
  let denied : Run := ⟨state, { deniedPhases := 1, failedPeers := 1 }, false, 0⟩
  match fetchSyncPages (metaPhase requester peer) state.metaCheckpoint deadline with
  | none => denied
  | some (metaResult, deadline) =>
    match fetchSyncPages (dataPhase requester peer) state.dataCheckpoint deadline with
    | none => denied
    | some (dataResult, _) => storeBatch requester state metaResult dataResult

/-! ## Runs after each other -/

/-- The state between two runs, how the last run ended, and how many collections all runs have
rejected. -/
structure Session where
  sync : SyncState
  completed : Bool
  rejectedKcs : ℕ

def exec (requester : Requester B) (peer : Peer) (s : Session) (deadline : ℕ) : Session :=
  let run := runDurableSync requester peer s.sync deadline
  ⟨run.state, run.completed, s.rejectedKcs + run.rejectedKcs⟩

def machine (requester : Requester B) (peer : Peer) : Machine Session ℕ where
  init s := s.sync.metaCheckpoint = none ∧ s.sync.dataCheckpoint = none ∧ s.completed = false ∧
    s.rejectedKcs = 0
  step s deadline s' := s' = exec requester peer s deadline

/-! ## Peers and deadlines -/

/-- The rows are RDF in the graphs of the context graph, every collection's root matches its data,
no root entity is shared, and every data subject belongs to a collection. -/
structure Honest (requester : Requester B) (peer : Peer) : Prop where
  metaRows : (metaPhase requester peer).Served
  dataRows : (dataPhase requester peer).Served
  matching : ∀ kcUal claimed, States peer.metaRows dkgMerkleRoot kcUal claimed →
    rootsOf peer.metaRows kcUal ≠ [] →
      HasFlatRoot requester.hashing (allQuadsForKC peer.dataRows peer.metaRows kcUal)
        (privateRoots requester.hashing.ofBytes peer.metaRows kcUal) claimed
  unshared : ∀ kcUal claimed, States peer.metaRows dkgMerkleRoot kcUal claimed →
    Unshared peer.metaRows kcUal
  subjects : ∀ q ∈ peer.dataRows, ∃ kcUal claimed root,
    States peer.metaRows dkgMerkleRoot kcUal claimed ∧ root ∈ rootsOf peer.metaRows kcUal ∧
      BelongsTo peer.dataRows root q

/-- No page is beyond the greatest offset. -/
structure Fits (requester : Requester B) (peer : Peer) : Prop where
  metaOffsets : (metaPhase requester peer).WithinOffsets
  dataOffsets : (dataPhase requester peer).WithinOffsets

/-! ## Batches -/

/-- The page that each phase goes on at. -/
structure Progress where
  (metaPage dataPage : ℕ)

def SyncState.progress (requester : Requester B) (state : SyncState) : Progress :=
  ⟨state.metaCheckpoint.getD 0 / requester.syncPageSize,
    state.dataCheckpoint.getD 0 / requester.syncPageSize⟩

/-- A phase that has ended begins anew. -/
def nextPage (phase : Phase) (page deadline : ℕ) : ℕ :=
  if phase.Ends page deadline then 0 else page + deadline

section

variable (requester : Requester B) (peer : Peer) (p : Progress) (deadline : ℕ)

def pages : ℕ := (metaPhase requester peer).pages + (dataPhase requester peer).pages

/-- What the metadata leaves of the deadline. -/
def Progress.dataDeadline : ℕ := deadline - ((metaPhase requester peer).pages - p.metaPage)

def Progress.metaResult : SyncPageResult := (metaPhase requester peer).resultAt p.metaPage deadline

def Progress.dataResult : SyncPageResult :=
  (dataPhase requester peer).resultAt p.dataPage (p.dataDeadline requester peer deadline)

/-- Where the next run goes on: where this one began, if there was nothing to fetch. -/
def Progress.next : Progress :=
  if (p.metaResult requester peer deadline).quads = [] ∧
      (p.dataResult requester peer deadline).quads = [] then p
  else ⟨nextPage (metaPhase requester peer) p.metaPage deadline,
    nextPage (dataPhase requester peer) p.dataPage (p.dataDeadline requester peer deadline)⟩

variable (metaQuads dataQuads : List Quad)

/-- The collection is not compared in the batch; or the batch has the quads that its root is of, and
the private roots, too, unless it is a legacy root. -/
def Covered (kcUal : Term) : Prop :=
  rootEntitiesOf metaQuads kcUal = [] ∨ kcUal ∈ overlappingKCs metaQuads ∨
    ((∀ q, q ∈ allQuadsForKC dataQuads metaQuads kcUal ↔
        q ∈ allQuadsForKC peer.dataRows peer.metaRows kcUal) ∧
      ((∀ r, r ∈ privateRoots requester.hashing.ofBytes metaQuads kcUal ↔
          r ∈ privateRoots requester.hashing.ofBytes peer.metaRows kcUal) ∨
        ∀ claimed, States metaQuads dkgMerkleRoot kcUal claimed →
          requester.hashing.flatHex (allQuadsForKC peer.dataRows peer.metaRows kcUal) [] = claimed))

/-- A batch that the check can judge: there is metadata with the data, the collections are covered,
and no asset is there without the claim of its collection, unless there is no claim at all. Of a
system graph, unverified collections are accepted. -/
structure Whole : Prop where
  metadata : metaQuads = [] → dataQuads ≠ [] → requester.isSystemContextGraph = true
  collections : requester.isSystemContextGraph = true ∨ ∀ kcUal claimed,
    States metaQuads dkgMerkleRoot kcUal claimed → Covered requester peer metaQuads dataQuads kcUal
  assets : ∀ ka kcUal, (kaToKc metaQuads).get ka = some kcUal → kcUal ≠ [] →
    ka ∉ (kcMerkleRoots metaQuads).keys →
      kcUal ∈ (kcMerkleRoots metaQuads).keys ∨ (kcMerkleRoots metaQuads).size = 0

/-- What the run gets is whole. -/
def Progress.GetsWhole : Prop := Whole requester peer (p.metaResult requester peer deadline).quads
  (p.dataResult requester peer deadline).quads

/-- From here on there are runs that get whole batches only, up to one that ends. -/
inductive Finishes : Progress → Prop
  | last {p : Progress} {deadline : ℕ} : pages requester peer ≤ deadline →
      p.GetsWhole requester peer deadline → Finishes p
  | cut {p : Progress} {deadline : ℕ} : p.GetsWhole requester peer deadline →
      Finishes (p.next requester peer deadline) → Finishes p

/-- The run gets a whole batch, and so can those after it. -/
def Allowed (s : Session) (deadline : ℕ) : Prop :=
  (s.sync.progress requester).GetsWhole requester peer deadline ∧
    Finishes requester peer ((s.sync.progress requester).next requester peer deadline)

end

variable {requester : Requester B} {peer : Peer} {state : SyncState} {deadline : ℕ} {s : Session}
  {p : Progress} {phase : Phase} {page : ℕ} {q : Quad} {metaQuads dataQuads : List Quad}

/-! ## Checkpoints -/

omit [LinearOrder B] [Zero B] in
lemma nextPage_lt (phase : Phase) (page deadline : ℕ) : nextPage phase page deadline <
    phase.pages := by
  unfold nextPage
  by_cases h : phase.Ends page deadline
  · rw [if_pos h]
    exact Nat.succ_pos _
  · rw [if_neg h]
    exact not_le.mp h

omit [LinearOrder B] [Zero B] in
/-- Up to its next page a phase has what it had, and what it gets. -/
lemma mem_of_nextPage (phase : Phase)
    (h : q ∈ phase.rows.take (nextPage phase page deadline * phase.syncPageSize)) :
    q ∈ phase.rows.take (page * phase.syncPageSize) ∨ q ∈ phase.chunk page deadline := by
  unfold nextPage at h
  split at h
  next =>
    rw [Nat.zero_mul, take_zero] at h
    cases h
  next =>
    rw [Nat.add_mul, take_add] at h
    exact mem_append.mp h

omit [LinearOrder B] [Zero B] in
lemma mem_of_ends (h : phase.Ends page deadline) (hpos : 0 < phase.syncPageSize)
    (hq : q ∈ phase.rows) :
    q ∈ phase.rows.take (page * phase.syncPageSize) ∨ q ∈ phase.chunk page deadline := by
  rw [h.chunk_eq hpos]
  exact mem_append.mp ((take_append_drop _ _).symm ▸ hq)

/-- The checkpoints are at the beginning of a page. -/
structure Progress.Aligned (requester : Requester B) (peer : Peer) (p : Progress)
    (state : SyncState) : Prop where
  metaCheckpoint : state.metaCheckpoint.getD 0 = p.metaPage * requester.syncPageSize
  dataCheckpoint : state.dataCheckpoint.getD 0 = p.dataPage * requester.syncPageSize
  metaPage : p.metaPage < (metaPhase requester peer).pages
  dataPage : p.dataPage < (dataPhase requester peer).pages

omit [LinearOrder B] [Zero B] in
lemma Progress.Aligned.progress_eq (h : p.Aligned requester peer state)
    (hpos : 0 < requester.syncPageSize) : state.progress requester = p := by
  unfold SyncState.progress
  rw [h.metaCheckpoint, h.dataCheckpoint, Nat.mul_div_cancel _ hpos, Nat.mul_div_cancel _ hpos]

/-! ## One run -/

lemma Honest.passes_of_covered (h : Honest requester peer) (hsub : metaQuads ⊆ peer.metaRows)
    {kcUal claimed : Term} (hget : (kcMerkleRoots metaQuads).get kcUal = some claimed)
    (hcovered : Covered requester peer metaQuads dataQuads kcUal) :
    Passes requester.hashing dataQuads metaQuads (kcUal, claimed) := by
  have hstates : ∀ {predicate subject text}, States metaQuads predicate subject text →
      States peer.metaRows predicate subject text := by
    rintro _ _ _ ⟨q, hq, hrow⟩
    exact ⟨q, hsub hq, hrow⟩
  by_cases hroots : rootEntitiesOf metaQuads kcUal = []
  · exact .inl hroots
  rcases hcovered.resolve_left hroots with hoverlap | ⟨hquads, hprivate⟩
  · exact .inr (.inl hoverlap)
  · have hclaimed : States metaQuads dkgMerkleRoot kcUal claimed := states_of_get hget
    refine .inr (.inr ?_)
    rcases hprivate with hprivate | hlegacy
    · obtain ⟨root, hroot⟩ := exists_mem_of_ne_nil _ hroots
      obtain ⟨ka, hka, hentity, hne⟩ := mem_rootsOf.mp (rootEntitiesOf_subset hroot)
      have hrow := mem_rootsOf.mpr ⟨ka, mem_kasOf.mpr (hstates (mem_kasOf.mp hka)),
        hstates hentity, hne⟩
      exact (hasFlatRoot_congr hquads hprivate).mpr
        (h.matching kcUal claimed (hstates hclaimed) (ne_nil_of_mem hrow))
    · -- a legacy root is of the quads alone
      have hroot : HasFlatRoot requester.hashing (allQuadsForKC dataQuads metaQuads kcUal) []
          claimed := (hasFlatRoot_congr hquads fun _ => Iff.rfl).mpr
              (.inl (hlegacy claimed hclaimed))
      have hflat := hroot.resolve_right fun hlegacy => hlegacy.1 rfl
      by_cases hnone : privateRoots requester.hashing.ofBytes metaQuads kcUal = []
      · exact .inl (hnone.symm ▸ hflat)
      · exact .inr ⟨hnone, hflat⟩

lemma Whole.kept (h : Whole requester peer metaQuads dataQuads) (hhonest : Honest requester peer)
    (hsub : metaQuads ⊆ peer.metaRows) :
    verifySyncedData requester.hashing dataQuads metaQuads requester.isSystemContextGraph =
      ⟨dataQuads, metaQuads, 0⟩ := by
  by_cases hall : ∀ kc ∈ (kcMerkleRoots metaQuads).entries,
      Passes requester.hashing dataQuads metaQuads kc
  · exact verifySyncedData_of_passes (fun kcUal claimed hget => hall _ (KeyedList.mem_of_get hget))
      h.assets
  · obtain ⟨kc, hkc, hfails⟩ := by simpa only [not_forall] using hall
    have hget := KeyedList.get_of_mem hkc
    have hsystem := h.collections.resolve_right fun hcovered =>
      hfails (hhonest.passes_of_covered hsub hget (hcovered kc.1 kc.2 (states_of_get hget)))
    rw [hsystem]
    exact verifySyncedData_of_fails hkc hfails

variable {metaResult dataResult : SyncPageResult}

lemma storeBatch_state
    (h : ¬ Skips (processDurableBatch requester.hashing dataResult.quads metaResult.quads
      requester.isSystemContextGraph)) :
    (storeBatch requester state metaResult dataResult).state =
      { store := (state.store.insert (processDurableBatch requester.hashing dataResult.quads
          metaResult.quads requester.isSystemContextGraph).verifiedData).insert
            (processDurableBatch requester.hashing dataResult.quads metaResult.quads
              requester.isSystemContextGraph).verifiedMeta
        metaCheckpoint := checkpointAfter metaResult
        dataCheckpoint := checkpointAfter dataResult } := by
  simp only [storeBatch, if_neg h]

lemma storeBatch_rejectedKcs :
    (storeBatch requester state metaResult dataResult).rejectedKcs =
      (processDurableBatch requester.hashing dataResult.quads metaResult.quads
        requester.isSystemContextGraph).rejectedKcs := by
  simp only [storeBatch]
  split <;> rfl

lemma storeBatch_completed :
    (storeBatch requester state metaResult dataResult).completed =
      (metaResult.completed && dataResult.completed) := by
  simp only [storeBatch]
  split <;> rfl

/-- A whole batch is stored, and nothing is rejected. -/
lemma storeBatch_of_whole (h : Whole requester peer metaResult.quads dataResult.quads)
    (hhonest : Honest requester peer) (hsub : metaResult.quads ⊆ peer.metaRows) :
    (storeBatch requester state metaResult dataResult).state =
        (if metaResult.quads = [] ∧ dataResult.quads = [] then state else {
          store := (state.store.insert dataResult.quads).insert metaResult.quads
          metaCheckpoint := checkpointAfter metaResult
          dataCheckpoint := checkpointAfter dataResult }) ∧
      (storeBatch requester state metaResult dataResult).rejectedKcs = 0 := by
  have hprocessed := processDurableBatch_of_kept (h.kept hhonest hsub) h.metadata
  rw [storeBatch_rejectedKcs, hprocessed]
  refine ⟨?_, rfl⟩
  have hskips : Skips (processDurableBatch requester.hashing dataResult.quads metaResult.quads
      requester.isSystemContextGraph) ↔ metaResult.quads = [] ∧ dataResult.quads = [] := by
    rw [hprocessed]
    unfold Skips
    by_cases hmeta : metaResult.quads = [] <;> by_cases hdata : dataResult.quads = [] <;>
      simp [hmeta, hdata]
  by_cases hnil : metaResult.quads = [] ∧ dataResult.quads = []
  · rw [if_pos hnil]
    simp only [storeBatch, if_pos (hskips.mpr hnil)]
  · rw [if_neg hnil, storeBatch_state (mt hskips.mp hnil), hprocessed]

lemma runDurableSync_eq (hhonest : Honest requester peer) (hfits : Fits requester peer)
    (h : p.Aligned requester peer state) : runDurableSync requester peer state deadline =
      storeBatch requester state (p.metaResult requester peer deadline)
        (p.dataResult requester peer deadline) := by
  have hmeta : fetchSyncPages (metaPhase requester peer) state.metaCheckpoint deadline =
      some (p.metaResult requester peer deadline, p.dataDeadline requester peer deadline) :=
    hhonest.metaRows.fetchSyncPages_eq hfits.metaOffsets h.metaCheckpoint h.metaPage
  have hdata : fetchSyncPages (dataPhase requester peer) state.dataCheckpoint
      (p.dataDeadline requester peer deadline) = some (p.dataResult requester peer deadline, _) :=
    hhonest.dataRows.fetchSyncPages_eq hfits.dataOffsets h.dataCheckpoint h.dataPage
  simp only [runDurableSync, hmeta, hdata]

/-! ## All runs -/

/-- What every run keeps: all rows before the checkpoints are there. -/
structure Inv (requester : Requester B) (peer : Peer) (p : Progress) (s : Session) : Prop where
  aligned : p.Aligned requester peer s.sync
  finishes : Finishes requester peer p
  rejected : s.rejectedKcs = 0
  metaStored : ∀ q ∈ peer.metaRows.take (p.metaPage * requester.syncPageSize), q ∈ s.sync.store
  dataStored : ∀ q ∈ peer.dataRows.take (p.dataPage * requester.syncPageSize), q ∈ s.sync.store
  stored : s.completed = true → ∀ q ∈ peer.metaRows ++ peer.dataRows, q ∈ s.sync.store

omit [LinearOrder B] [Zero B] in
lemma checkpointAfter_resultAt : (checkpointAfter (phase.resultAt page deadline)).getD 0 =
    nextPage phase page deadline * phase.syncPageSize := by
  unfold checkpointAfter nextPage Phase.resultAt
  by_cases h : phase.Ends page deadline <;> simp [h]

lemma Inv.allowed (h : Inv requester peer p s) (hpos : 0 < requester.syncPageSize)
    (hwhole : p.GetsWhole requester peer deadline)
    (hfinishes : Finishes requester peer (p.next requester peer deadline)) :
    Allowed requester peer s deadline := by
  rw [Allowed, h.aligned.progress_eq hpos]
  exact ⟨hwhole, hfinishes⟩

lemma Inv.init (hbegin : Finishes requester peer ⟨0, 0⟩) (hinit : (machine requester peer).init s) :
    Inv requester peer ⟨0, 0⟩ s := by
  obtain ⟨hmeta, hdata, hcompleted, hrejected⟩ := hinit
  refine ⟨⟨?_, ?_, Nat.succ_pos _, Nat.succ_pos _⟩, hbegin, hrejected, ?_, ?_, fun hdone => ?_⟩
  · simp [hmeta]
  · simp [hdata]
  · simp
  · simp
  · rw [hcompleted] at hdone
    cases hdone

section

variable (hhonest : Honest requester peer) (hfits : Fits requester peer)

include hhonest hfits

lemma exec_completed_iff (h : p.Aligned requester peer s.sync) :
    (exec requester peer s deadline).completed = true ↔
      (metaPhase requester peer).Ends p.metaPage deadline ∧
        (dataPhase requester peer).Ends p.dataPage (p.dataDeadline requester peer deadline) := by
  show (runDurableSync requester peer s.sync deadline).completed = true ↔ _
  rw [runDurableSync_eq hhonest hfits h, storeBatch_completed, Bool.and_eq_true]
  exact and_congr decide_eq_true_iff decide_eq_true_iff

/-- A run that gets a whole batch: what it stores, and where the next one goes on. -/
lemma exec_of_whole (h : p.Aligned requester peer s.sync)
    (hwhole : p.GetsWhole requester peer deadline) :
    (∀ q, q ∈ s.sync.store ∨ q ∈ (p.metaResult requester peer deadline).quads ∨
        q ∈ (p.dataResult requester peer deadline).quads →
      q ∈ (exec requester peer s deadline).sync.store) ∧
    (p.next requester peer deadline).Aligned requester peer (exec requester peer s deadline).sync ∧
    (exec requester peer s deadline).rejectedKcs = s.rejectedKcs := by
  have hsub : (p.metaResult requester peer deadline).quads ⊆ peer.metaRows := fun q hq =>
    mem_of_mem_drop (mem_of_mem_take hq)
  have hbatch : (storeBatch requester s.sync _ _).state = _ ∧ _ :=
    storeBatch_of_whole hwhole hhonest hsub
  rw [← runDurableSync_eq hhonest hfits h] at hbatch
  obtain ⟨hstate, hrejected⟩ := hbatch
  refine ⟨?_, ?_, congrArg (s.rejectedKcs + ·) hrejected⟩
  · show ∀ q, _ → q ∈ (runDurableSync requester peer s.sync deadline).state.store
    rw [hstate]
    intro q hq
    split
    next hnil =>
      rw [hnil.1, hnil.2] at hq
      simpa using hq
    next =>
      show q ∈ (s.sync.store.insert _).insert _
      rw [TripleStore.mem_insert, TripleStore.mem_insert]
      tauto
  · show (p.next requester peer deadline).Aligned requester peer
      (runDurableSync requester peer s.sync deadline).state
    rw [hstate, Progress.next]
    split
    next => exact h
    next =>
      exact ⟨checkpointAfter_resultAt, checkpointAfter_resultAt, nextPage_lt .., nextPage_lt ..⟩

/-- **A whole batch keeps the invariant**: what is before the new checkpoints was there, or is in
the batch. -/
lemma Inv.step (h : Inv requester peer p s) (hwhole : p.GetsWhole requester peer deadline)
    (hfinishes : Finishes requester peer (p.next requester peer deadline)) :
    Inv requester peer (p.next requester peer deadline) (exec requester peer s deadline) := by
  obtain ⟨hstore, haligned, hrejected⟩ := exec_of_whole hhonest hfits h.aligned hwhole
  have hmeta : ∀ q ∈ peer.metaRows.take (p.metaPage * requester.syncPageSize),
      q ∈ (exec requester peer s deadline).sync.store := fun q hq =>
    hstore q (.inl (h.metaStored q hq))
  have hdata : ∀ q ∈ peer.dataRows.take (p.dataPage * requester.syncPageSize),
      q ∈ (exec requester peer s deadline).sync.store := fun q hq =>
    hstore q (.inl (h.dataStored q hq))
  refine ⟨haligned, hfinishes, hrejected.trans h.rejected, ?_, ?_, fun hdone q hq => ?_⟩
  · rw [Progress.next]
    split
    next => exact hmeta
    next =>
      intro q hq
      rcases mem_of_nextPage (metaPhase requester peer) hq with hold | hnew
      · exact hmeta q hold
      · exact hstore q (.inr (.inl hnew))
  · rw [Progress.next]
    split
    next => exact hdata
    next =>
      intro q hq
      rcases mem_of_nextPage (dataPhase requester peer) hq with hold | hnew
      · exact hdata q hold
      · exact hstore q (.inr (.inr hnew))
  · obtain ⟨hmetaEnds, hdataEnds⟩ := (exec_completed_iff hhonest hfits h.aligned).mp hdone
    rcases mem_append.mp hq with hq | hq
    · rcases mem_of_ends hmetaEnds hhonest.metaRows.pageSize hq with hold | hnew
      · exact hmeta q hold
      · exact hstore q (.inr (.inl hnew))
    · rcases mem_of_ends hdataEnds hhonest.dataRows.pageSize hq with hold | hnew
      · exact hdata q hold
      · exact hstore q (.inr (.inr hnew))

/-- By induction on the runs that are left: a run ends. -/
lemma exists_completed (hbegin : Finishes requester peer ⟨0, 0⟩)
    (hfinishes : Finishes requester peer p)
    {t : Session} (hsteps : ((machine requester peer).restrict (Allowed requester peer)).Steps s t)
    (h : Inv requester peer p t) : ∃ s',
      ((machine requester peer).restrict (Allowed requester peer)).Steps s s' ∧
        s'.completed = true := by
  induction hfinishes generalizing t with
  | @last p deadline hpages hwhole =>
    have hends : (metaPhase requester peer).Ends p.metaPage deadline ∧
        (dataPhase requester peer).Ends p.dataPage (p.dataDeadline requester peer deadline) := by
      unfold pages at hpages
      unfold Phase.Ends Progress.dataDeadline
      omega
    have hnext : Finishes requester peer (p.next requester peer deadline) := by
      rw [Progress.next, nextPage, nextPage, if_pos hends.1, if_pos hends.2]
      split
      next => exact .last hpages hwhole
      next => exact hbegin
    exact ⟨_, hsteps.tail ⟨h.allowed hhonest.metaRows.pageSize hwhole hnext, rfl⟩,
      (exec_completed_iff hhonest hfits h.aligned).mpr hends⟩
  | cut hwhole hnext ih =>
    exact ih (hsteps.tail ⟨h.allowed hhonest.metaRows.pageSize hwhole hnext, rfl⟩)
      (h.step hhonest hfits hwhole hnext)

/-- **A run that ends has everything**, wherever the runs before it were cut off; nothing is
rejected, and some run ends. -/
theorem durable_sync_complete (hbegin : Finishes requester peer ⟨0, 0⟩)
    (hs : ((machine requester peer).restrict (Allowed requester peer)).Reachable s) :
    s.rejectedKcs = 0 ∧
    (s.completed = true → ∀ q ∈ peer.metaRows ++ peer.dataRows, q ∈ s.sync.store) ∧
    ∃ s', ((machine requester peer).restrict (Allowed requester peer)).Steps s s' ∧
      s'.completed = true := by
  have hinv : ∃ p, Inv requester peer p s := by
    induction hs with
    | init hinit => exact ⟨_, .init hbegin hinit⟩
    | step _ hstep ih =>
      obtain ⟨p, h⟩ := ih
      obtain ⟨⟨hwhole, hfinishes⟩, rfl⟩ := hstep
      rw [h.aligned.progress_eq hhonest.metaRows.pageSize] at hwhole hfinishes
      exact ⟨_, h.step hhonest hfits hwhole hfinishes⟩
  obtain ⟨p, hinv⟩ := hinv
  exact ⟨hinv.rejected, hinv.stored, exists_completed hhonest hfits hbegin hinv.finishes .refl hinv⟩

end

/-! ## A peer with one collection -/

/-- Pages of one row. -/
def oneByOne : Requester ℕ where
  hashing := lengthHashing
  syncPageSize := 1
  contextGraphId := "c".toList
  isSystemContextGraph := false

def metaRow (subject : String) (predicate : Term) (object : String) : Quad :=
  ⟨subject.toList, predicate, object.toList, contextGraphMetaUri "c".toList⟩

/-- A row that is of no collection, and then a collection of one quad. -/
def onePeer : Peer where
  metaRows := [metaRow "n" "p".toList "o", metaRow "kc" dkgMerkleRoot "\x22d\x22",
    metaRow "ka" dkgPartOf "kc", metaRow "ka" dkgRootEntity "r"]
  dataRows := [⟨"r".toList, "p".toList, "o".toList, contextGraphDataUri "c".toList⟩]

lemma honest_onePeer : Honest oneByOne onePeer := by
  have hkcs : claimedKcs onePeer.metaRows = {"kc".toList} := by decide
  have hclaimed : ∀ kcUal claimed, States onePeer.metaRows dkgMerkleRoot kcUal claimed →
      kcUal = "kc".toList ∧ claimed = "d".toList := by
    rintro _ _ ⟨q, hq, rfl, hpredicate, rfl⟩
    exact (show ∀ q ∈ onePeer.metaRows, q.predicate = dkgMerkleRoot →
      q.subject = "kc".toList ∧ stripLiteral q.object = "d".toList by decide) q hq hpredicate
  refine ⟨⟨by decide, ?_, ?_⟩, ⟨by decide, ?_, ?_⟩, ?_, ?_, ?_⟩
  · intro q hq
    simp only [metaPhase, onePeer, mem_cons, not_mem_nil, or_false] at hq
    rcases hq with rfl | rfl | rfl | rfl
    · exact readable_of_plain (by decide) (by decide) (.uri (by decide) (by decide)) (by decide)
        (by decide)
    · refine readable_of_plain (by decide) (by decide) ?_ (by decide) (by decide)
      exact .literal (.char (by decide) (by decide) .nil) .none
    · exact readable_of_plain (by decide) (by decide) (.uri (by decide) (by decide)) (by decide)
        (by decide)
    · exact readable_of_plain (by decide) (by decide) (.uri (by decide) (by decide)) (by decide)
        (by decide)
  · intro q hq
    exact .inl ((show ∀ q ∈ onePeer.metaRows, q.graph = contextGraphMetaUri "c".toList
      by decide) q hq)
  · intro q hq
    rw [mem_singleton.mp hq]
    exact readable_of_plain (by decide) (by decide) (.uri (by decide) (by decide)) (by decide)
      (by decide)
  · intro q hq
    rw [mem_singleton.mp hq]
    exact .inl rfl
  · intro kcUal claimed hstates _
    obtain ⟨rfl, rfl⟩ := hclaimed kcUal claimed hstates
    have hquads : allQuadsForKC onePeer.dataRows onePeer.metaRows "kc".toList =
        [⟨"r".toList, "p".toList, "o".toList, contextGraphDataUri "c".toList⟩] := by decide
    have hprivate : privateRoots lengthHashing.ofBytes onePeer.metaRows "kc".toList = [] := by
      decide
    refine .inl ?_
    show Hashing.flatHex lengthHashing _ (privateRoots lengthHashing.ofBytes _ _) = _
    rw [hquads, hprivate, Hashing.flatHex, computeFlatKCRootV10_single]
    decide
  · intro kcUal claimed hstates
    rw [(hclaimed kcUal claimed hstates).1]
    exact unshared_kc hkcs
  · intro q hq
    rw [mem_singleton.mp hq]
    refine ⟨"kc".toList, "d".toList, "r".toList, ?_, by decide, .inl rfl⟩
    exact ⟨metaRow "kc" dkgMerkleRoot "\x22d\x22", by decide, rfl, rfl, by decide⟩

lemma fits_onePeer : Fits oneByOne onePeer :=
  ⟨show 4 / 1 * 1 ≤ 1000000 by decide, show 1 / 1 * 1 ≤ 1000000 by decide⟩

/-- A node that has nothing yet. -/
def emptySession : Session := ⟨⟨∅, none, none⟩, false, 0⟩

/-- Metadata that claims no root is kept with all data. -/
lemma whole_of_unclaimed (hne : metaQuads ≠ []) (h : (kcMerkleRoots metaQuads).size = 0) :
    Whole requester peer metaQuads dataQuads where
  metadata := fun hnil => absurd hnil hne
  collections := .inr fun _ _ hstates => by
    have hkey := length_pos_of_mem (mem_keys_kcMerkleRoots.mpr ⟨_, hstates⟩)
    rw [KeyedList.keys, length_map] at hkey
    exact absurd h hkey.ne'
  assets := fun _ _ _ _ _ => .inr h

/-- All rows at once are whole if the last row of each asset names a collection that claims a
root. -/
lemma whole_of_partOf (hne : peer.metaRows ≠ [])
    (hpartOf : ∀ ka kcUal, (kaToKc peer.metaRows).get ka = some kcUal → kcUal ≠ [] →
      kcUal ∈ (kcMerkleRoots peer.metaRows).keys) :
    Whole requester peer peer.metaRows peer.dataRows where
  metadata := fun hnil => absurd hnil hne
  collections := .inr fun _ _ _ => .inr (.inr ⟨fun _ => Iff.rfl, .inl fun _ => Iff.rfl⟩)
  assets := fun ka kcUal hget hkc _ => .inl (hpartOf ka kcUal hget hkc)

lemma whole_onePeer : Progress.GetsWhole oneByOne onePeer ⟨0, 0⟩ 7 := by
  show Whole oneByOne onePeer onePeer.metaRows onePeer.dataRows
  refine whole_of_partOf (by decide) fun ka kcUal hget _ => ?_
  obtain ⟨q, hq, _, hpredicate, rfl⟩ := states_of_get hget
  exact (show ∀ q ∈ onePeer.metaRows, q.predicate = dkgPartOf →
    stripLiteral q.object ∈ (kcMerkleRoots onePeer.metaRows).keys by decide) q hq hpredicate

/-- The claim of the collection, without its assets: it has no root entity to compare. -/
lemma whole_claim : Progress.GetsWhole oneByOne onePeer ⟨1, 0⟩ 1 := by
  show Whole oneByOne onePeer [metaRow "kc" dkgMerkleRoot "\x22d\x22"] []
  refine ⟨fun _ hdata => absurd rfl hdata, .inr fun kcUal _ _ => .inl ?_, fun ka kcUal hget => ?_⟩
  · rw [eq_nil_iff_forall_not_mem]
    intro root hroot
    obtain ⟨q, hq, _, hpredicate, _⟩ := states_of_get (mem_rootEntitiesOf.mp hroot).choose_spec.1
    rw [mem_singleton.mp hq] at hpredicate
    exact absurd hpredicate (by decide)
  · obtain ⟨q, hq, _, hpredicate, _⟩ := states_of_get hget
    rw [mem_singleton.mp hq] at hpredicate
    exact absurd hpredicate (by decide)

/-- Two runs of one page each, and one that goes on from there and ends. -/
theorem durable_sync_complete_onePeer :
    ([1, 1, 7].foldl (exec oneByOne onePeer) emptySession).completed = true ∧
      ([1, 1, 7].foldl (exec oneByOne onePeer) emptySession).rejectedKcs = 0 ∧
      ∀ q ∈ onePeer.metaRows ++ onePeer.dataRows,
        q ∈ ([1, 1, 7].foldl (exec oneByOne onePeer) emptySession).sync.store := by
  have hfirst : Progress.GetsWhole oneByOne onePeer ⟨0, 0⟩ 1 :=
    whole_of_unclaimed (by decide) (by decide)
  have hlast : Progress.GetsWhole oneByOne onePeer ⟨2, 0⟩ 7 :=
    whole_of_unclaimed (by decide) (by decide)
  have hbegin : Finishes oneByOne onePeer ⟨0, 0⟩ := .last (show 7 ≤ 7 from le_rfl) whole_onePeer
  have hthird : Finishes oneByOne onePeer ⟨2, 0⟩ := .last (show 7 ≤ 7 from le_rfl) hlast
  have hsecond : Finishes oneByOne onePeer ⟨1, 0⟩ := .cut whole_claim hthird
  have hinit : (machine oneByOne onePeer).init emptySession := ⟨rfl, rfl, rfl, rfl⟩
  -- the state after each run, with its checkpoints
  have hinv₀ := Inv.init hbegin hinit
  have hinv₁ := hinv₀.step honest_onePeer fits_onePeer hfirst hsecond
  have hinv₂ := hinv₁.step honest_onePeer fits_onePeer whole_claim hthird
  have hreachable : ((machine oneByOne onePeer).restrict (Allowed oneByOne onePeer)).Reachable
      ([1, 1, 7].foldl (exec oneByOne onePeer) emptySession) :=
    .step (.step (.step (.init hinit) ⟨hinv₀.allowed Nat.one_pos hfirst hsecond, rfl⟩)
      ⟨hinv₁.allowed Nat.one_pos whole_claim hthird, rfl⟩)
      ⟨hinv₂.allowed Nat.one_pos hlast hbegin, rfl⟩
  have hcompleted := (exec_completed_iff honest_onePeer fits_onePeer hinv₂.aligned).mpr
    (show (metaPhase oneByOne onePeer).Ends 2 7 ∧ (dataPhase oneByOne onePeer).Ends 0 4 by decide)
  have h := durable_sync_complete honest_onePeer fits_onePeer hbegin hreachable
  exact ⟨hcompleted, h.1, h.2.1 hcompleted⟩

/-- A run that gets the metadata only: the check keeps one row and rejects the collection. -/
lemma runDurableSync_metaOnly :
    (runDurableSync oneByOne onePeer emptySession.sync 4).state =
      ⟨{metaRow "n" "p".toList "o"}, some 4, some 0⟩ ∧
    (runDurableSync oneByOne onePeer emptySession.sync 4).rejectedKcs = 1 := by
  have haligned : (⟨0, 0⟩ : Progress).Aligned oneByOne onePeer emptySession.sync :=
    ⟨rfl, rfl, by decide, by decide⟩
  have hdata : (processDurableBatch lengthHashing [] onePeer.metaRows false).verifiedData = [] := by
    decide
  have hmeta : (processDurableBatch lengthHashing [] onePeer.metaRows false).verifiedMeta =
      [metaRow "n" "p".toList "o"] := by decide
  have hskips : ¬ Skips (processDurableBatch lengthHashing [] onePeer.metaRows false) := by decide
  have hrejected : (processDurableBatch lengthHashing [] onePeer.metaRows false).rejectedKcs =
      1 := by
    decide
  rw [runDurableSync_eq honest_onePeer fits_onePeer haligned]
  refine ⟨?_, storeBatch_rejectedKcs.trans hrejected⟩
  rw [storeBatch_state hskips]
  show SyncState.mk ((TripleStore.insert ∅ (processDurableBatch lengthHashing [] onePeer.metaRows
    false).verifiedData).insert (processDurableBatch lengthHashing [] onePeer.metaRows
      false).verifiedMeta) (some 4) (some 0) = _
  rw [hdata, hmeta]
  rfl

/-- After it a run gets the data only, which it does not keep. -/
lemma runDurableSync_dataOnly :
    (runDurableSync oneByOne onePeer ⟨{metaRow "n" "p".toList "o"}, some 4, some 0⟩ 3).state =
      ⟨{metaRow "n" "p".toList "o"}, some 4, some 0⟩ ∧
    (runDurableSync oneByOne onePeer ⟨{metaRow "n" "p".toList "o"}, some 4, some 0⟩ 3).completed =
      true := by
  have haligned : (⟨4, 0⟩ : Progress).Aligned oneByOne onePeer
      ⟨{metaRow "n" "p".toList "o"}, some 4, some 0⟩ := ⟨rfl, rfl, by decide, by decide⟩
  rw [runDurableSync_eq honest_onePeer fits_onePeer haligned]
  exact ⟨rfl, rfl⟩

/-- With more rows than the greatest offset no run completes. -/
lemma runDurableSync_long (hserved : (metaPhase requester peer).Served)
    (hlong : maxOffset + (metaPhase requester peer).syncPageSize ≤
      (metaPhase requester peer).rows.length) :
    (runDurableSync requester peer state deadline).completed = false := by
  obtain ⟨allQuads, nextOffset, hfetch⟩ : ∃ allQuads nextOffset,
      fetchSyncPages (metaPhase requester peer) state.metaCheckpoint deadline =
        some (⟨allQuads, state.metaCheckpoint.getD 0, nextOffset, false⟩, 0) :=
    hserved.fetchLoop_full hlong
  simp only [runDurableSync, hfetch]
  split
  next => rfl
  next => exact storeBatch_completed

/-- Two runs, the first cut off before the data: it rejects the collection, the second completes
both phases, and the node does not have the data. And no run completes with a peer that has more
rows than the greatest offset. -/
theorem durable_sync_incomplete :
    (Honest oneByOne onePeer ∧ (machine oneByOne onePeer).Reachable
        (exec oneByOne onePeer (exec oneByOne onePeer emptySession 4) 3) ∧
      (exec oneByOne onePeer emptySession 4).rejectedKcs = 1 ∧
      (exec oneByOne onePeer (exec oneByOne onePeer emptySession 4) 3).completed = true ∧
      ∃ q ∈ onePeer.dataRows,
        q ∉ (exec oneByOne onePeer (exec oneByOne onePeer emptySession 4) 3).sync.store) ∧
    ∀ peer, Honest oneByOne peer → maxOffset + 1 ≤ peer.metaRows.length → ∀ s deadline,
      (exec oneByOne peer s deadline).completed = false := by
  obtain ⟨hfirst, hrejected⟩ := runDurableSync_metaOnly
  obtain ⟨hsecond, hcompleted⟩ := runDurableSync_dataOnly
  have hstate : (exec oneByOne onePeer emptySession 4).sync =
      ⟨{metaRow "n" "p".toList "o"}, some 4, some 0⟩ := hfirst
  refine ⟨⟨honest_onePeer, .step (.step (.init ⟨rfl, rfl, rfl, rfl⟩) rfl) rfl, ?_, ?_, ?_⟩,
    fun peer hhonest hlong s deadline => runDurableSync_long hhonest.metaRows hlong⟩
  · show 0 + _ = 1
    rw [hrejected]
  · show (runDurableSync oneByOne onePeer (exec oneByOne onePeer emptySession 4).sync 3).completed =
        _
    rw [hstate]
    exact hcompleted
  · refine ⟨_, mem_singleton.mpr rfl, ?_⟩
    show _ ∉ (runDurableSync oneByOne onePeer (exec oneByOne onePeer emptySession 4).sync
        3).state.store
    rw [hstate, hsecond]
    decide

end Dkg.Sync.Durable
