import Dkg.AsyncLift.JobWrites

/-! # The store of the lift jobs

A job is rewritten by a delete and an insert, from a record that was read earlier. The store keeps
every job as it should (`Sound`) in the runs in which nothing comes between: no crash and no other
writer between the delete and the insert, no other record since the one that the writer knows, and
no data of `update` that changes what a job keeps (`Orderly`, `job_store_sound`). A crash between
the delete and the insert loses the job (`job_lost`).
-/

namespace Dkg.AsyncLift

open Lib List System LiftJobState

abbrev Log := List (Event ℕ Method Op Answer)

/-- What task `i` knows, by its calls so far. -/
def seen (i : ℕ) : Log → Seen
  | [] => ⟨fun _ => none, none⟩
  | e :: log => if e.task = i then (seen i log).next e.op e.ans else seen i log

/-- The records of a job that were written, the last one first, with the methods that did. -/
def history (jobId : Term) : Log → List (Method × LiftJob)
  | [] => []
  | e :: log =>
    match e.op with
    | .insertJob job =>
      if job.jobId = jobId then (e.method, job) :: history jobId log else history jobId log
    | _ => history jobId log

/-- `lift` has written the job, which it does before it returns. -/
def Lifted (w : Run) (jobId : Term) : Prop :=
  ∃ e ∈ history jobId w.log, ∃ request, e.1 = .lift request jobId

/-- The job was cancelled or cleared. -/
def Removed (w : Run) (jobId : Term) : Prop :=
  ∃ e ∈ w.log, e.method.Removes ∧ e.op = .deleteJob jobId

/-- A task is between the delete and the insert of a job. -/
def Writing (w : Run) (jobId : Term) : Prop :=
  ∃ i m job k, w.At i m (.insertJob job) k ∧ job.jobId = jobId

/-- The graph has a payload and a status that agree, and these alone. -/
def ControlPlane.Holds (s : ControlPlane) (jobId : Term) : Option LiftJob → Prop
  | none => s.jobs.objects jobId some = []
  | some job => s.jobs.objects jobId some = [.status job.status, .payload job]

/-- The steps that the store is safe with. -/
def Orderly (w : Run) : Step → Prop
  | .start _ _ => True
  | .crash => ∀ jobId, ¬ Writing w jobId
  | .go i _ =>
    (∀ m jobId k, w.At i m (.deleteJob jobId) k → ¬ m.Removes →
      w.shared.Holds jobId ((seen i w.log).basis jobId) ∧ ¬ Writing w jobId) ∧
    ∀ id status data jobId k, w.At i (.update id status data) (.getStatus jobId) k →
      ∀ job ∈ (w.shared.payloads jobId).head?, Leaves data status job

/-- The job is stored once, its status with it, and its records are changes of one another. -/
structure Sound (w : Run) (jobId : Term) : Prop where
  stored : ∃ m job rest, history jobId w.log = (m, job) :: rest ∧
    w.shared.payloads jobId = [job] ∧ w.shared.statuses jobId = [job.status]
  changes : (history jobId w.log).IsChain fun new old => Change new.1 old.2 new.2
  valid : ∀ e ∈ history jobId w.log, e.2.jobId = jobId ∧ Valid e.2

/-! ## Rows -/

section

variable {s : ControlPlane} {jobId : Term} {job : LiftJob} {o : Option LiftJob}

lemma objects_some_filterMap {φ α : Type} (g : Graph φ) (subject : Term) (read : φ → Option α) :
    g.objects subject read = (g.objects subject some).filterMap read := by
  rw [Graph.objects, Graph.objects, filterMap_filterMap]
  refine filterMap_congr fun q _ => ?_
  by_cases h : q.1 = subject
  · simp [h]
  · simp [h]

lemma ControlPlane.Holds.payloads (h : s.Holds jobId o) : s.payloads jobId = o.toList := by
  rw [ControlPlane.payloads, objects_some_filterMap]
  cases o with
  | none =>
    rw [show s.jobs.objects jobId some = [] from h]
    rfl
  | some job =>
    rw [show s.jobs.objects jobId some = [.status job.status, .payload job] from h]
    rfl

lemma ControlPlane.Holds.statuses (h : s.Holds jobId o) :
    s.statuses jobId = (o.map (·.status)).toList := by
  rw [ControlPlane.statuses, objects_some_filterMap]
  cases o with
  | none =>
    rw [show s.jobs.objects jobId some = [] from h]
    rfl
  | some job =>
    rw [show s.jobs.objects jobId some = [.status job.status, .payload job] from h]
    rfl

lemma ControlPlane.Holds.unique {o' : Option LiftJob} (h : s.Holds jobId o)
    (h' : s.Holds jobId o') : o = o' := by
  have heq := h.payloads.symm.trans h'.payloads
  cases o with
  | none =>
    cases o' with
    | none => rfl
    | some _ => cases heq
  | some _ =>
    cases o' with
    | none => cases heq
    | some _ =>
      cases heq
      rfl

lemma ControlPlane.holds_congr {s' : ControlPlane}
    (h : s'.jobs.objects jobId some = s.jobs.objects jobId some) :
    s'.Holds jobId o ↔ s.Holds jobId o := by
  cases o with
  | none | some job => rw [ControlPlane.Holds, ControlPlane.Holds, h]

def statusSubjects (g : Graph JobField) : List Term :=
  g.filterMap fun q => q.2.readStatus.map fun _ => q.1

lemma count_statusSubjects (g : Graph JobField) (subject : Term) :
    (statusSubjects g).count subject = (g.objects subject JobField.readStatus).length := by
  induction g with
  | nil => rfl
  | cons q g ih =>
    obtain ⟨k, field⟩ := q
    cases field with
    | payload job =>
      show (statusSubjects g).count subject = _
      rw [ih, Graph.objects, Graph.objects, filterMap_cons]
      simp [JobField.readStatus]
    | status found =>
      show (k :: statusSubjects g).count subject = _
      rw [count_cons, ih, Graph.objects, Graph.objects, filterMap_cons]
      by_cases h : k = subject
      · simp [h, JobField.readStatus]
      · simp [h]

lemma mem_rows {status : Option LiftJobState} (h : job ∈ s.rows status) :
    ∃ subject, job ∈ s.payloads subject := by
  obtain ⟨⟨subject, field⟩, _, hmem⟩ := mem_flatMap.mp h
  cases field with
  | payload _ => cases hmem
  | status found =>
    simp only at hmem
    split at hmem
    next => exact ⟨subject, hmem⟩
    next => cases hmem

lemma nodup_rows {status : Option LiftJobState} (hholds : ∀ jobId, ∃ o, s.Holds jobId o)
    (hid : ∀ jobId, ∀ job ∈ s.payloads jobId, job.jobId = jobId) :
    ((s.rows status).map (·.jobId)).Nodup := by
  have hsubjects : (statusSubjects s.jobs).Nodup := by
    rw [nodup_iff_count_le_one]
    intro subject
    rw [count_statusSubjects]
    obtain ⟨o, ho⟩ := hholds subject
    rw [show s.jobs.objects subject JobField.readStatus = _ from ho.statuses]
    cases o <;> simp
  refine hsubjects.sublist ?_
  unfold ControlPlane.rows statusSubjects
  generalize s.jobs = g
  induction g with
  | nil => exact List.Sublist.slnil
  | cons q g ih =>
    obtain ⟨subject, field⟩ := q
    rw [flatMap_cons, map_append, filterMap_cons]
    cases field with
    | payload _ => exact ih
    | status found =>
      have hfirst : ((if status = none ∨ status = some found then s.payloads subject
          else []).map (·.jobId)).Sublist [subject] := by
        split
        next =>
          have hids := hid subject
          obtain ⟨o, ho⟩ := hholds subject
          rw [ho.payloads] at hids ⊢
          cases o with
          | none => exact nil_sublist _
          | some job => rw [Option.toList_some, map_singleton, hids job (by simp)]
        next => exact nil_sublist _
      exact hfirst.append ih

end

/-! ## The invariant -/

/-- What a task keeps at its end. -/
def Ends (m : Method) (q : Seen) (_ : Except Term Unit) : Prop := m.Removes ∨ q.Closed

abbrev Keeping (w : Run) : Prop := System.Keeping storeContract Ends w

lemma account_eq (m : Method) (i : ℕ) (log : Log) :
    World.account (storeContract m) i log = seen i log := by
  induction log with
  | nil => rfl
  | cons e log ih =>
    rw [World.account, seen, ih]
    rfl

/-- The record written last. -/
def lastRecord (jobId : Term) (log : Log) : Option LiftJob := (history jobId log).head?.map Prod.snd

/-- Task `i` has deleted the job and not yet written it. -/
def Open (w : Run) (i : ℕ) (jobId : Term) : Prop :=
  ∃ m p, w.task i = some ⟨m, some p⟩ ∧ ¬ m.Removes ∧ (seen i w.log).writing = some jobId

/-- What orderly runs keep: a job is stored as its last record says, or one task alone has deleted
it to write it again. -/
structure Inv (w : Run) : Prop where
  holds : ∀ jobId, w.shared.Holds jobId none ∨ w.shared.Holds jobId (lastRecord jobId w.log)
  present : ∀ jobId, ¬ Removed w jobId → (∀ i, ¬ Open w i jobId) →
    w.shared.Holds jobId (lastRecord jobId w.log)
  writing : ∀ i jobId, Open w i jobId → w.shared.Holds jobId none ∧
    (¬ Removed w jobId → lastRecord jobId w.log = (seen i w.log).basis jobId)
  alone : ∀ i j jobId, Open w i jobId → Open w j jobId → i = j
  changes : ∀ jobId, ¬ Removed w jobId →
    (history jobId w.log).IsChain fun new old => Change new.1 old.2 new.2
  valid : ∀ jobId, ∀ e ∈ history jobId w.log, e.2.jobId = jobId ∧ Valid e.2

section

variable {w : Run} {i j : ℕ} {m : Method} {op : Op} {ans : Answer op}
  {k : Answer op → Program Unit} {jobId jobId' : Term} {job : LiftJob} {s : ControlPlane}

/-- Every record that is stored is one that was written. -/
lemma Inv.stored (h : Inv w) (hjob : job ∈ w.shared.payloads jobId) :
    job.jobId = jobId ∧ Valid job := by
  rcases h.holds jobId with hnone | hlast
  · rw [hnone.payloads] at hjob
    cases hjob
  · rw [hlast.payloads, Option.mem_toList, lastRecord] at hjob
    obtain ⟨e, he, rfl⟩ := Option.map_eq_some_iff.mp hjob
    exact h.valid jobId e (mem_of_mem_head? he)

lemma Inv.unique (h : Inv w) (jobId : Term) : ∃ o, w.shared.Holds jobId o := by
  rcases h.holds jobId with hnone | hlast
  · exact ⟨_, hnone⟩
  · exact ⟨_, hlast⟩

/-- The answers are as the contracts expect. -/
lemma Inv.post {o : Outcome} (h : Inv w) (hD : Orderly w (.go i o)) (hat : w.At i m op k)
    (hperform : perform i w.shared op o = some (s, ans)) :
    (storeContract m).post (World.account (storeContract m) i w.log) op ans := by
  have hanswer := (perform_eq_some.mp hperform).1
  cases op with
  | getStatus jobId =>
    cases hanswer
    intro job hjob
    obtain ⟨hid, hvalid⟩ := h.stored (mem_of_mem_head? hjob)
    refine ⟨hid, hvalid, ?_⟩
    cases m with
    | update id status data => exact hD.2 id status data jobId k hat job hjob
    | _ => trivial
  | list status =>
    cases hanswer
    refine ⟨fun job hjob => ?_, nodup_rows h.unique fun jobId job hjob => (h.stored hjob).1⟩
    obtain ⟨subject, hmem⟩ := mem_rows hjob
    exact (h.stored hmem).2
  | _ => trivial

/-- A task that has deleted a job is at its insert. -/
lemma open_iff (hkeep : Keeping w) :
    Open w i jobId ↔ ∃ m job k, w.At i m (.insertJob job) k ∧ job.jobId = jobId := by
  constructor
  · rintro ⟨m, p, htask, hm, h⟩
    have hkeeps := hkeep.keeps i m p htask
    rw [account_eq] at hkeeps
    have hopen : ¬ (m.Removes ∨ (seen i w.log).writing = none) := by
      rw [h]
      simpa using hm
    cases p with
    | done a | raise e => exact absurd hkeeps hopen
    | call op k =>
      have hpre := hkeeps.1
      cases op with
      | insertJob job => exact ⟨m, job, k, htask, Option.some.inj (hpre.2.1.symm.trans h)⟩
      | _ => exact absurd hpre hopen
  · rintro ⟨m, job, k, hat, rfl⟩
    have hpre := hkeep.pre hat
    rw [account_eq] at hpre
    exact ⟨m, _, hat, hpre.1, hpre.2.1⟩

lemma writing_iff (hkeep : Keeping w) : Writing w jobId ↔ ∃ i, Open w i jobId :=
  exists_congr fun _ => (open_iff hkeep).symm

def Op.Quiet : Op → Prop
  | .deleteJob _ => False
  | .insertJob _ => False
  | _ => True

lemma history_of_quiet (h : op.Quiet) {log : Log} :
    history jobId (⟨i, m, op, ans⟩ :: log) = history jobId log := by
  cases op with
  | insertJob _ => cases h
  | _ => rfl

lemma jobs_of_quiet (h : op.Quiet) : (effect i s op).jobs = s.jobs := by
  cases op with
  | deleteJob _ => cases h
  | insertJob _ => cases h
  | _ => rfl

lemma writing_of_quiet (h : op.Quiet) (q : Seen) : (q.next op ans).writing = q.writing := by
  cases op with
  | deleteJob _ => cases h
  | insertJob _ => cases h
  | _ => rfl

variable {p : Program Unit}

/-- A job that is not removed in the end was not before. -/
lemma not_removed_of_advance (h : ¬ Removed (w.advance i m p s op ans) jobId) : ¬ Removed w jobId :=
  fun ⟨e, he, hremoves⟩ => h ⟨e, mem_cons_of_mem _ he, hremoves⟩

lemma seen_advance_self : seen i (w.advance i m p s op ans).log = (seen i w.log).next op ans :=
  if_pos rfl

lemma seen_advance_of_ne (h : j ≠ i) : seen j (w.advance i m p s op ans).log = seen j w.log :=
  if_neg (Ne.symm h)

lemma open_advance_of_ne (h : j ≠ i) :
    Open (w.advance i m p s op ans) j jobId ↔ Open w j jobId := by
  unfold Open
  rw [seen_advance_of_ne h, advance_task_of_ne h]

lemma open_advance_self :
    Open (w.advance i m p s op ans) i jobId ↔
      ¬ m.Removes ∧ ((seen i w.log).next op ans).writing = some jobId := by
  constructor
  · rintro ⟨m', p', htask, hm, h⟩
    rw [advance_task_self] at htask
    cases htask
    exact ⟨hm, seen_advance_self ▸ h⟩
  · rintro ⟨hm, h⟩
    exact ⟨m, p, advance_task_self, hm, seen_advance_self.symm ▸ h⟩

lemma open_at (hat : w.At i m op k) :
    Open w i jobId ↔ ¬ m.Removes ∧ (seen i w.log).writing = some jobId := by
  constructor
  · rintro ⟨m', p', htask, hm, h⟩
    rw [hat] at htask
    cases htask
    exact ⟨hm, h⟩
  · rintro ⟨hm, h⟩
    exact ⟨m, _, hat, hm, h⟩

/-- A task at another operation than an insert has nothing deleted. -/
lemma not_open_at (hkeep : Keeping w) (hat : w.At i m op k)
    (hop : ∀ job, op ≠ .insertJob job) : ¬ Open w i jobId := by
  intro hopen
  obtain ⟨m', job, k', hat', _⟩ := (open_iff hkeep).mp hopen
  rw [World.At, hat] at hat'
  cases hat'
  exact hop job rfl

lemma Op.Quiet.not_insert (h : op.Quiet) (job : LiftJob) : op ≠ .insertJob job := by
  rintro rfl
  exact h

lemma Inv.quiet (h : Inv w) (hkeep : Keeping w) (hop : op.Quiet) (hat : w.At i m op k) :
    Inv (w.advance i m (k ans) (effect i w.shared op) op ans) := by
  have hopen : ∀ j jobId, Open (w.advance i m (k ans) (effect i w.shared op) op ans) j jobId ↔
      Open w j jobId := by
    intro j jobId
    by_cases hj : j = i
    · subst hj
      rw [open_advance_self, open_at hat, writing_of_quiet hop]
    · exact open_advance_of_ne hj
  have hholds : ∀ jobId o, (effect i w.shared op).Holds jobId o ↔ w.shared.Holds jobId o :=
    fun _ _ => ControlPlane.holds_congr (by rw [jobs_of_quiet hop])
  have hhistory : ∀ jobId, history jobId (⟨i, m, op, ans⟩ :: w.log) = history jobId w.log :=
    fun _ => history_of_quiet hop
  have hlast : ∀ jobId, lastRecord jobId (⟨i, m, op, ans⟩ :: w.log) = lastRecord jobId w.log :=
    fun jobId => by rw [lastRecord, hhistory, lastRecord]
  refine ⟨fun jobId => ?_, fun jobId hkept hclosed => ?_, fun j jobId hj => ?_,
    fun j j' jobId hj hj' => ?_, fun jobId hkept => ?_, fun jobId e he => ?_⟩
  · show (effect i w.shared op).Holds _ _ ∨ (effect i w.shared op).Holds _ (lastRecord _ (_ :: _))
    rw [hlast, hholds, hholds]
    exact h.holds jobId
  · show (effect i w.shared op).Holds _ (lastRecord _ (_ :: _))
    rw [hlast, hholds]
    exact h.present jobId (not_removed_of_advance hkept) fun j hj =>
        hclosed j ((hopen j jobId).mpr hj)
  · obtain ⟨hnone, hbasis⟩ := h.writing j jobId ((hopen j jobId).mp hj)
    refine ⟨(hholds _ _).mpr hnone, fun hkept => ?_⟩
    have hbasis := hbasis (not_removed_of_advance hkept)
    show lastRecord jobId (⟨i, m, op, ans⟩ :: w.log) = _
    rw [hlast, hbasis]
    by_cases hji : j = i
    · subst hji
      exact absurd ((hopen j jobId).mp hj) (not_open_at hkeep hat hop.not_insert)
    · rw [seen_advance_of_ne hji]
  · exact h.alone j j' jobId ((hopen j jobId).mp hj) ((hopen j' jobId).mp hj')
  · show (history jobId (⟨i, m, op, ans⟩ :: w.log)).IsChain _
    rw [hhistory]
    exact h.changes jobId (not_removed_of_advance hkept)
  · have he : e ∈ history jobId (⟨i, m, op, ans⟩ :: w.log) := he
    rw [hhistory] at he
    exact h.valid jobId e he

lemma holds_deleteJob_self : (effect i s (.deleteJob jobId)).Holds jobId none :=
  Graph.objects_deleteSubject_self

lemma holds_deleteJob_of_ne {o : Option LiftJob} (hne : jobId' ≠ jobId) :
    (effect i s (.deleteJob jobId)).Holds jobId' o ↔ s.Holds jobId' o :=
  ControlPlane.holds_congr (Graph.objects_deleteSubject_of_ne hne)

lemma holds_deleteJob_none (h : s.Holds jobId' none) :
    (effect i s (.deleteJob jobId)).Holds jobId' none := by
  by_cases hne : jobId' = jobId
  · exact hne ▸ holds_deleteJob_self
  · exact (holds_deleteJob_of_ne hne).mpr h

lemma holds_insertJob_self (h : s.Holds job.jobId none) :
    (effect i s (.insertJob job)).Holds job.jobId (some job) := by
  have hnew : ∀ q ∈ serializeJob job, q ∉ s.jobs := by
    intro q hq hmem
    have hsubject : q.1 = job.jobId := by
      simp only [serializeJob, mem_cons, not_mem_nil, or_false] at hq
      rcases hq with rfl | rfl
      · rfl
      · rfl
    have hnone := filterMap_eq_nil_iff.mp (show s.jobs.objects job.jobId some = [] from h) q hmem
    simp [hsubject] at hnone
  have hinsert : s.jobs.insert (serializeJob job) = s.jobs ++ serializeJob job :=
    Graph.insert_of_new (by simp [serializeJob]) hnew
  show (s.jobs.insert (serializeJob job)).objects job.jobId some = _
  rw [hinsert, Graph.objects_append, show s.jobs.objects job.jobId some = [] from h]
  simp [Graph.objects, serializeJob]

lemma holds_insertJob_of_ne {o : Option LiftJob} (hne : jobId ≠ job.jobId) :
    (effect i s (.insertJob job)).Holds jobId o ↔ s.Holds jobId o := by
  refine ControlPlane.holds_congr (Graph.objects_insert_of_ne fun q hq => ?_)
  simp only [serializeJob, mem_cons, not_mem_nil, or_false] at hq
  rcases hq with rfl | rfl
  · exact Ne.symm hne
  · exact Ne.symm hne

variable (h : Inv w) (hkeep : Keeping w)

include h hkeep

/-- A job is taken away, or its record is about to be replaced. -/
lemma Inv.deleteJob {k : Unit → Program Unit} (hat : w.At i m (.deleteJob jobId) k)
    (hD : ¬ m.Removes → w.shared.Holds jobId ((seen i w.log).basis jobId) ∧ ¬ Writing w jobId) :
    Inv (w.advance i m (k ()) (effect i w.shared (.deleteJob jobId)) (.deleteJob jobId) ()) := by
  have hnot : ∀ jobId, ¬ Open w i jobId := fun _ =>
    not_open_at hkeep hat fun _ h => by cases h
  have hself : ∀ {jobId'}, Open (w.advance i m (k ()) (effect i w.shared (.deleteJob jobId))
      (.deleteJob jobId) ()) i jobId' → ¬ m.Removes ∧ jobId = jobId' := by
    intro jobId' hopen
    obtain ⟨hm, heq⟩ := open_advance_self.mp hopen
    exact ⟨hm, Option.some.inj heq⟩
  have hkept : ∀ {jobId'}, ¬ Removed (w.advance i m (k ()) (effect i w.shared (.deleteJob jobId))
      (.deleteJob jobId) ()) jobId' → ¬ Removed w jobId' := not_removed_of_advance
  refine ⟨fun jobId' => ?_, fun jobId' hremoved hclosed => ?_, fun j jobId' hj => ?_,
    fun j j' jobId' hj hj' => ?_, fun jobId' hremoved => h.changes jobId' (hkept hremoved), h.valid⟩
  · by_cases hne : jobId' = jobId
    · subst hne
      exact .inl (holds_deleteJob_self (i := i))
    · rcases h.holds jobId' with hnone | hlast
      · exact .inl ((holds_deleteJob_of_ne (i := i) hne).mpr hnone)
      · exact .inr ((holds_deleteJob_of_ne (i := i) hne).mpr hlast)
  · have hne : jobId' ≠ jobId := by
      rintro rfl
      by_cases hm : m.Removes
      · exact hremoved ⟨_, mem_cons_self, hm, rfl⟩
      · exact hclosed i (open_advance_self.mpr ⟨hm, rfl⟩)
    refine (holds_deleteJob_of_ne (i := i) hne).mpr (h.present jobId' (hkept hremoved) fun j hj =>
        ?_)
    have hji : j ≠ i := by
      rintro rfl
      exact hnot jobId' hj
    exact hclosed j ((open_advance_of_ne hji).mpr hj)
  · by_cases hji : j = i
    · subst hji
      obtain ⟨hm, rfl⟩ := hself hj
      obtain ⟨hbasis, hwriting⟩ := hD hm
      refine ⟨holds_deleteJob_self (i := j), fun hremoved => ?_⟩
      have hlast := h.present jobId (hkept hremoved) fun j' hj' =>
        hwriting ((writing_iff hkeep).mpr ⟨j', hj'⟩)
      rw [seen_advance_self]
      exact hlast.unique hbasis
    · obtain ⟨hnone, hbasis⟩ := h.writing j jobId' ((open_advance_of_ne hji).mp hj)
      refine ⟨holds_deleteJob_none (i := i) hnone, fun hremoved => ?_⟩
      rw [seen_advance_of_ne hji]
      exact hbasis (hkept hremoved)
  · -- the job was not open when the new task deleted it
    have hnew : ∀ {j}, j ≠ i → Open w j jobId → m.Removes := by
      intro j _ hj
      by_contra hm
      exact (hD hm).2 ((writing_iff hkeep).mpr ⟨j, hj⟩)
    by_cases hji : j = i
    · subst hji
      by_cases hji' : j' = j
      · exact hji'.symm
      · obtain ⟨hm, rfl⟩ := hself hj
        exact absurd (hnew hji' ((open_advance_of_ne hji').mp hj')) hm
    · have hold := (open_advance_of_ne hji).mp hj
      by_cases hji' : j' = i
      · subst hji'
        obtain ⟨hm, rfl⟩ := hself hj'
        exact absurd (hnew hji hold) hm
      · exact h.alone j j' jobId' hold ((open_advance_of_ne hji').mp hj')

/-- A record is written in the place of the one that the task knows. -/
lemma Inv.insertJob {k : Unit → Program Unit} (hat : w.At i m (.insertJob job) k) :
    Inv (w.advance i m (k ()) (effect i w.shared (.insertJob job)) (.insertJob job) ()) := by
  have hpre := hkeep.pre hat
  rw [account_eq] at hpre
  obtain ⟨hm, hwriting, hwritten⟩ := hpre
  have hopen : Open w i job.jobId := (open_at hat).mpr ⟨hm, hwriting⟩
  obtain ⟨hnone, hbasis⟩ := h.writing i job.jobId hopen
  have hhistory : ∀ jobId, history jobId (⟨i, m, .insertJob job, ()⟩ :: w.log) =
      if job.jobId = jobId then (m, job) :: history jobId w.log else history jobId w.log :=
    fun _ => rfl
  set w' := w.advance i m (k ()) (effect i w.shared (.insertJob job)) (.insertJob job) ()
  have hself : ∀ {jobId}, ¬ Open w' i jobId := fun hopen => by cases (open_advance_self.mp hopen).2
  have hother : ∀ {j jobId}, Open w' j jobId → j ≠ i ∧ Open w j jobId := by
    intro j jobId hj
    have hji : j ≠ i := by
      rintro rfl
      exact hself hj
    exact ⟨hji, (open_advance_of_ne hji).mp hj⟩
  have hkept : ∀ {jobId}, ¬ Removed w' jobId → ¬ Removed w jobId := not_removed_of_advance
  have hlast : lastRecord job.jobId (⟨i, m, .insertJob job, ()⟩ :: w.log) = some job := by
    rw [lastRecord, hhistory, if_pos rfl]
    rfl
  have hlast_of_ne : ∀ {jobId}, jobId ≠ job.jobId →
      lastRecord jobId (⟨i, m, .insertJob job, ()⟩ :: w.log) = lastRecord jobId w.log := by
    intro jobId hne
    rw [lastRecord, hhistory, if_neg (Ne.symm hne)]
    rfl
  refine ⟨fun jobId => ?_, fun jobId hremoved hclosed => ?_, fun j jobId hj => ?_,
    fun j j' jobId hj hj' => h.alone j j' jobId (hother hj).2 (hother hj').2,
    fun jobId hremoved => ?_, fun jobId e he => ?_⟩
  · by_cases hne : jobId = job.jobId
    · subst hne
      refine .inr ?_
      show (effect i w.shared (.insertJob job)).Holds _ (lastRecord _ (_ :: _))
      rw [hlast]
      exact holds_insertJob_self hnone
    · show (effect i w.shared (.insertJob job)).Holds _ none ∨
        (effect i w.shared (.insertJob job)).Holds _ (lastRecord _ (_ :: _))
      rw [hlast_of_ne hne, holds_insertJob_of_ne hne, holds_insertJob_of_ne hne]
      exact h.holds jobId
  · show (effect i w.shared (.insertJob job)).Holds _ (lastRecord _ (_ :: _))
    by_cases hne : jobId = job.jobId
    · subst hne
      rw [hlast]
      exact holds_insertJob_self hnone
    · rw [hlast_of_ne hne, holds_insertJob_of_ne hne]
      refine h.present jobId (hkept hremoved) fun j hj => ?_
      have hji : j ≠ i := by
        rintro rfl
        have heq := ((open_at hat).mp hj).2.symm.trans hwriting
        exact hne (Option.some.inj heq)
      exact hclosed j ((open_advance_of_ne hji).mpr hj)
  · obtain ⟨hji, hj⟩ := hother hj
    have hne : jobId ≠ job.jobId := by
      rintro rfl
      exact hji (h.alone j i _ hj hopen)
    obtain ⟨hnone', hbasis'⟩ := h.writing j jobId hj
    refine ⟨(holds_insertJob_of_ne (i := i) hne).mpr hnone', fun hremoved => ?_⟩
    show lastRecord _ (_ :: _) = _
    rw [hlast_of_ne hne, seen_advance_of_ne hji]
    exact hbasis' (hkept hremoved)
  · show (history jobId (⟨i, m, .insertJob job, ()⟩ :: w.log)).IsChain _
    have hchanges := h.changes jobId (hkept hremoved)
    rw [hhistory]
    split
    next heq =>
      subst heq
      have hbasis := hbasis (hkept hremoved)
      rw [← hbasis, lastRecord] at hwritten
      revert hwritten hchanges
      cases history job.jobId w.log with
      | nil => exact fun _ _ => isChain_singleton _
      | cons e rest => exact fun hwritten hchanges => List.IsChain.cons_cons hwritten hchanges
    next => exact hchanges
  · have he : e ∈ history jobId (⟨i, m, .insertJob job, ()⟩ :: w.log) := he
    rw [hhistory] at he
    split at he
    next heq =>
      rcases mem_cons.mp he with rfl | he
      · refine ⟨heq, ?_⟩
        revert hwritten
        cases (seen i w.log).basis job.jobId with
        | none => exact id
        | some old => exact fun hchange => hchange.valid
      · exact h.valid jobId e he
    next => exact h.valid jobId e he

lemma Inv.begin (hi : w.task i = none) : Inv (w.begin i m p) := by
  have hseen : ∀ jobId, (seen i w.log).writing ≠ some jobId := by
    intro jobId hwriting
    have hstart : seen i w.log = ⟨fun _ => none, none⟩ :=
      (account_eq m i w.log).symm.trans (account_of_fresh (hkeep.fresh i hi))
    rw [hstart] at hwriting
    cases hwriting
  have hopen : ∀ j jobId, Open (w.begin i m p) j jobId ↔ Open w j jobId := by
    intro j jobId
    by_cases hj : j = i
    · subst hj
      constructor
      · rintro ⟨_, _, _, _, hwriting⟩
        exact absurd hwriting (hseen jobId)
      · rintro ⟨_, _, _, _, hwriting⟩
        exact absurd hwriting (hseen jobId)
    · unfold Open
      rw [begin_task_of_ne hj]
      exact Iff.rfl
  exact ⟨h.holds, fun jobId hkept hclosed =>
    h.present jobId hkept fun j hj => hclosed j ((hopen j jobId).mpr hj),
    fun j jobId hj => h.writing j jobId ((hopen j jobId).mp hj),
    fun j j' jobId hj hj' => h.alone j j' jobId ((hopen j jobId).mp hj) ((hopen j' jobId).mp hj'),
    h.changes, h.valid⟩

lemma Inv.cutOff (hD : ∀ jobId, ¬ Writing w jobId) : Inv (w.cutOff crashed) := by
  have hopen : ∀ j jobId, ¬ Open (w.cutOff crashed) j jobId := by
    rintro j jobId ⟨m, p, htask, _⟩
    exact cutOff_task_ne htask
  exact ⟨h.holds, fun jobId hkept _ =>
    h.present jobId hkept fun j hj => hD jobId ((writing_iff hkeep).mpr ⟨j, hj⟩),
    fun j jobId hj => absurd hj (hopen j jobId), fun j _ jobId hj => absurd hj (hopen j jobId),
    h.changes, h.valid⟩

end

/-! ## Runs -/

variable {w : Run} {m : Method} {op : Op}

/-- **In every orderly run** the invariant holds. -/
lemma inv_of_reachable {cfg : Config}
    (h : (((system cfg).machine Starts).restrict Orderly).Reachable w) : Keeping w ∧ Inv w := by
  refine outline (J := Inv) (program_writes cfg) ?_ ?_ ?_ ?_ h
  · rintro w ⟨hjobs, _, _⟩ htask hlog
    have hnone : ∀ jobId, w.shared.Holds jobId none := by
      intro jobId
      rw [ControlPlane.Holds, hjobs]
      rfl
    have hhistory : ∀ jobId, history jobId w.log = [] := fun jobId => by rw [hlog, history]
    have hopen : ∀ i jobId, ¬ Open w i jobId := by
      rintro i jobId ⟨m, p, hi, _⟩
      rw [htask i] at hi
      cases hi
    refine ⟨fun jobId => .inl (hnone jobId), fun jobId _ _ => ?_,
      fun i jobId hi => absurd hi (hopen i jobId), fun i _ jobId hi => absurd hi (hopen i jobId),
      fun jobId _ => ?_, fun jobId e he => ?_⟩
    · rw [lastRecord, hhistory]
      exact hnone jobId
    · rw [hhistory]
      exact isChain_nil
    · rw [hhistory] at he
      cases he
  · exact fun w i m hkeep hinv _ hi => hinv.begin hkeep hi
  · intro w i o m op k s ans hkeep hinv hD hat hperform
    refine ⟨hinv.post hD hat hperform, ?_⟩
    obtain ⟨hanswer, rfl⟩ := perform_eq_some.mp hperform
    cases op with
    | deleteJob jobId => exact hinv.deleteJob hkeep hat (hD.1 m jobId k hat)
    | insertJob job => exact hinv.insertJob hkeep hat
    | _ => exact hinv.quiet hkeep trivial hat
  · exact fun w hkeep hinv hD => hinv.cutOff hkeep hD

/-- **The job store.** In the runs whose steps are all orderly, every job that was lifted and not
removed is stored as it should be, whenever no task is between the delete and the insert of it. -/
theorem job_store_sound (cfg : Config) {w : Run} {jobId : Term}
    (h : (((system cfg).machine Starts).restrict Orderly).Reachable w) (hlifted : Lifted w jobId)
    (hkept : ¬ Removed w jobId) (hrest : ¬ Writing w jobId) : Sound w jobId := by
  obtain ⟨hkeep, hinv⟩ := inv_of_reachable h
  have hholds := hinv.present jobId hkept fun i hi => hrest ((writing_iff hkeep).mpr ⟨i, hi⟩)
  obtain ⟨e, he, _⟩ := hlifted
  obtain ⟨⟨m, job⟩, rest, hhistory⟩ := exists_cons_of_ne_nil (ne_nil_of_mem he)
  rw [lastRecord, hhistory] at hholds
  exact ⟨⟨m, job, rest, hhistory, hholds.payloads, hholds.statuses⟩, hinv.changes jobId hkept,
    hinv.valid jobId⟩

/-! ## Runs on fixed inputs -/

/-- A publisher as it is by default, without a resolver. -/
def plainConfig : Config where
  maxRetries := 3
  recoveryLookupTimeoutMs := 900000
  hasExecutor := true
  hasResolver := false
  notAfter := fun _ _ => true

def sampleRequest : LiftRequest where
  swmId := ['s']
  shareOperationId := ['o']
  roots := [['r']]
  contextGraphId := ['g']
  namespaceName := ['n']
  scope := ['c']
  transitionType := .create
  authority := ⟨.owner, ['p']⟩
  priorVersion := none

def emptyRun : Run := ⟨⟨[], [], KeyLocks.empty, false⟩, fun _ => none, []⟩

def goes (i : ℕ) (os : List Outcome) : List Step := os.map (.go i)

def liftSteps : List Step :=
  .start 0 (.lift sampleRequest ['j']) :: goes 0 [.none, .time 5, .none, .none]

def runOf (steps : List Step) : Run := steps.foldl (system plainConfig).exec emptyRun

lemma reachable_emptyRun {D : Run → Step → Prop} :
    (((system plainConfig).machine Starts).restrict D).Reachable emptyRun :=
  .init ⟨⟨rfl, rfl, rfl⟩, fun _ => rfl, rfl⟩

lemma reachable_runOf (steps : List Step) :
    ((system plainConfig).machine Starts).Reachable (runOf steps) :=
  reachable_foldl (.init ⟨⟨rfl, rfl, rfl⟩, fun _ => rfl, rfl⟩)

/-! ### Checked runs

The conditions on the steps are about all tasks. In a run of few tasks they can be computed.
-/

/-- What holds of the task's next call, if it has one. -/
def atTask (w : Run) (i : ℕ) (p : Method → Op → Bool) : Bool :=
  match w.task i with
  | some ⟨m, some (.call op _)⟩ => p m op
  | _ => true

def allTasks (w : Run) (p : ℕ → Method → Op → Bool) : Bool :=
  (range 4).all fun i => atTask w i (p i)

/-- Only the first four tasks have begun. -/
def FewTasks (w : Run) : Prop := ∀ i, 4 ≤ i → w.task i = none

def startsFew : Step → Bool
  | .start i _ => decide (i < 4)
  | _ => true

lemma of_atTask {i : ℕ} {k : Answer op → Program Unit} {p : Method → Op → Bool}
    (h : atTask w i p = true) (hat : w.At i m op k) : p m op = true := by
  rw [atTask, show w.task i = _ from hat] at h
  exact h

lemma FewTasks.of_all {i : ℕ} {k : Answer op → Program Unit} {p : ℕ → Method → Op → Bool}
    (hfew : FewTasks w) (h : allTasks w p = true) (hat : w.At i m op k) : p i m op = true := by
  refine of_atTask (all_eq_true.mp h i (mem_range.mpr ?_)) hat
  by_contra hi
  rw [World.At, hfew i (not_lt.mp hi)] at hat
  cases hat

/-- A run that passes a check of the condition. -/
lemma checked {D : Run → Step → Prop} (check : Run → Step → Bool) (steps : List Step)
    (hsound : ∀ {w l}, FewTasks w → check w l = true → D w l)
    (hcheck : Machine.Allowed (fun w l => (startsFew l && check w l) = true)
      (system plainConfig).exec steps emptyRun) :
    (((system plainConfig).machine Starts).restrict D).Reachable (runOf steps) ∧
      FewTasks (runOf steps) := by
  have hstep : ∀ w l, FewTasks w → (startsFew l && check w l) = true →
      D w l ∧ FewTasks ((system plainConfig).exec w l) := by
    intro w l hfew h
    obtain ⟨hstart, hchecked⟩ := Bool.and_eq_true_iff.mp h
    refine ⟨hsound hfew hchecked, fun i hi => ?_⟩
    refine task_foldl (forall_mem_singleton.mpr fun m heq => ?_) (hfew i hi)
    rw [heq] at hstart
    exact absurd (of_decide_eq_true hstart) (not_lt.mpr hi)
  obtain ⟨hallowed, hfew⟩ := hcheck.imp hstep fun _ _ => rfl
  exact ⟨reachable_emptyRun.foldl (fun _ _ h => And.intro h rfl) hallowed, hfew⟩

/-- No task is between the delete and the insert of one of the jobs. -/
def noneWrites (w : Run) (jobs : Term → Bool) : Bool :=
  allTasks w fun _ _ op => match op with
    | .insertJob job => !jobs job.jobId
    | _ => true

lemma not_writing_of_check {jobs : Term → Bool} {jobId : Term} (hfew : FewTasks w)
    (h : noneWrites w jobs = true) (hjob : jobs jobId = true) : ¬ Writing w jobId := by
  rintro ⟨i, m, job, k, hat, rfl⟩
  have hother := hfew.of_all h hat
  simp [hjob] at hother

instance decidableHolds (s : ControlPlane) (jobId : Term) :
    (o : Option LiftJob) → Decidable (s.Holds jobId o)
  | none | some _ => inferInstanceAs (Decidable (_ = _))

def checkOrderly (w : Run) : Step → Bool
  | .start _ _ => true
  | .crash => noneWrites w fun _ => true
  | .go i _ => atTask w i fun m op => match m, op with
    | m, .deleteJob jobId =>
      decide (m.Removes ∨ w.shared.Holds jobId ((seen i w.log).basis jobId)) &&
        noneWrites w fun id => decide (id = jobId)
    | .update .., .getStatus _ => false
    | _, _ => true

lemma orderly_of_check {l : Step} (hfew : FewTasks w) (h : checkOrderly w l = true) :
    Orderly w l := by
  cases l with
  | start i m => trivial
  | crash =>
    intro jobId
    exact not_writing_of_check hfew (show noneWrites w (fun _ => true) = true from h) rfl
  | go i o =>
    refine ⟨fun m jobId k hat hm => ?_, fun id status data jobId k hat => ?_⟩
    · have hdelete := of_atTask h hat
      simp only [Bool.and_eq_true, decide_eq_true_eq] at hdelete
      exact ⟨hdelete.1.resolve_left hm, not_writing_of_check hfew hdelete.2 (decide_eq_true rfl)⟩
    · cases of_atTask h hat

/-- The job was lifted, and nothing was removed. -/
def keeps (w : Run) (jobId : Term) : Bool :=
  ((history jobId w.log).any fun e => match e.1 with
    | .lift _ id => decide (id = jobId)
    | _ => false) && w.log.all fun e => !decide e.method.Removes

lemma lifted_of_keeps {jobId : Term} (h : keeps w jobId = true) :
    Lifted w jobId ∧ ¬ Removed w jobId := by
  obtain ⟨hlifted, hkept⟩ := Bool.and_eq_true_iff.mp h
  constructor
  · obtain ⟨⟨m, job⟩, he, hm⟩ := any_eq_true.mp hlifted
    cases m with
    | lift request id => exact ⟨_, he, request, by rw [of_decide_eq_true hm]⟩
    | _ => cases hm
  · rintro ⟨e, he, hm, _⟩
    simpa [hm] using all_eq_true.mp hkept e he

/-! ### A run that is sound, and two that are not -/

/-- Two jobs are lifted at the same time, and the first one is claimed. -/
def claimedSteps : List Step :=
  [.start 0 (.lift sampleRequest ['j']), .start 1 (.lift sampleRequest ['k'])] ++
    goes 0 [.none, .time 4, .none] ++ goes 1 [.none, .time 5, .none] ++ goes 0 [.none] ++
    goes 1 [.none] ++
  .start 2 (.claimNext ['w']) :: goes 2 [.none, .none, .none, .none, .time 6, .none, .none,
    .time 7, .none, .none]

/-- Both jobs are stored as they should be. -/
theorem job_store_sound_lift :
    Sound (runOf claimedSteps) ['j'] ∧ Sound (runOf claimedSteps) ['k'] := by
  have hallowed : Machine.Allowed (fun w l => (startsFew l && checkOrderly w l) = true)
      (system plainConfig).exec claimedSteps emptyRun := by decide +kernel
  obtain ⟨hrun, hfew⟩ := checked checkOrderly claimedSteps orderly_of_check hallowed
  have hrest : noneWrites (runOf claimedSteps) (fun _ => true) = true := by decide +kernel
  have hsound : ∀ jobId, keeps (runOf claimedSteps) jobId = true →
      Sound (runOf claimedSteps) jobId := fun jobId h =>
    job_store_sound plainConfig hrun (lifted_of_keeps h).1 (lifted_of_keeps h).2
      (not_writing_of_check hfew hrest rfl)
  exact ⟨hsound _ (by decide +kernel), hsound _ (by decide +kernel)⟩

/-- A crash after the delete of a claim. -/
def lostSteps : List Step :=
  liftSteps ++ .start 1 (.claimNext ['w']) :: goes 1 [.none, .none, .none, .none, .time 6, .none,
    .none, .time 7, .none] ++ [.crash]

/-- Two updates at the same time that change nothing but the time of the update. -/
def doubledSteps : List Step :=
  liftSteps ++ [.start 1 (.update ['j'] accepted {}), .start 2 (.update ['j'] accepted {})] ++
    goes 1 [.none, .none] ++ goes 2 [.none, .none] ++ goes 1 [.time 6, .none] ++
    goes 2 [.time 7, .none] ++ goes 1 [.none] ++ goes 2 [.none]

/-- A lifted job that nobody has removed and nobody is writing, and that is not sound. -/
def FailsFor (w : Run) (jobId : Term) : Prop :=
  ((system plainConfig).machine Starts).Reachable w ∧ Lifted w jobId ∧ ¬ Removed w jobId ∧
    ¬ Writing w jobId ∧ ¬ Sound w jobId

lemma failsFor_of_check {steps : List Step} {jobId : Term} (hsteps : steps.all startsFew = true)
    (hkeeps : keeps (runOf steps) jobId = true)
    (hrest : noneWrites (runOf steps) (fun _ => true) = true)
    (hstored : ((runOf steps).shared.payloads jobId).length ≠ 1) :
    FailsFor (runOf steps) jobId := by
  have hfew : FewTasks (runOf steps) := by
    refine fun i hi => task_foldl (fun l hl m heq => ?_) rfl
    have hstart := all_eq_true.mp hsteps l hl
    rw [heq] at hstart
    exact absurd (of_decide_eq_true hstart) (not_lt.mpr hi)
  refine ⟨reachable_runOf _, (lifted_of_keeps hkeeps).1, (lifted_of_keeps hkeeps).2,
    not_writing_of_check hfew hrest rfl, ?_⟩
  rintro ⟨⟨m, job, rest, _, hpayloads, _⟩, _, _⟩
  exact hstored (by rw [hpayloads]; rfl)

/-- The job is lost, and the job is stored twice. -/
theorem job_lost : FailsFor (runOf lostSteps) ['j'] ∧ FailsFor (runOf doubledSteps) ['j'] :=
  ⟨failsFor_of_check (by decide +kernel) (by decide +kernel) (by decide +kernel)
      (by decide +kernel),
    failsFor_of_check (by decide +kernel) (by decide +kernel) (by decide +kernel)
      (by decide +kernel)⟩

end Dkg.AsyncLift
