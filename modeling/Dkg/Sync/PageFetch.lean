import Dkg.Publisher.NQuadLines
import Dkg.Publisher.Store
import Dkg.Sync.Authorization

/-! # Pages of a sync

The responder answers a request with the lines of one page of its rows, and `fetchSyncPages` asks
for one page after the other until a page is short or the deadline has passed. The deadline is a
number of pages: it passes when so many have been fetched. While no offset is beyond `maxOffset`,
the pages are the rows in order (`fetchSyncPages_eq`); past it the responder repeats a page
(`fetchSyncPages_full`).
-/

namespace Dkg.Sync

open Lib List

/-! ## The responder -/

/-- The rows that a peer serves for a context graph, in the order of its queries. -/
structure Peer where
  (dataRows metaRows : List Quad)

def maxOffset : ℕ := 1000000

/-- `Number.isSafeInteger`, for a number that is not negative. -/
def IsSafeInteger (n : ℕ) : Prop := n < 2 ^ 53
  deriving Decidable

def clampOffset (offset : ℕ) : ℕ :=
  max 0 (min (if IsSafeInteger offset then offset else 0) maxOffset)

def clampLimit (syncPageSize limit : ℕ) : ℕ :=
  max 1 (min (if IsSafeInteger limit then limit else syncPageSize) syncPageSize)

/-- The handler's answer to an authorized request, over the rows of the phase. -/
def respond (syncPageSize : ℕ) (rows : List Quad) (offset limit : ℕ) : Term :=
  writeLines ((rows.drop (clampOffset offset)).take (clampLimit syncPageSize limit))

/-! ## The requester -/

def syncDeniedResponse : Term := "__DKG_SYNC_DENIED__".toList

def extraDeniedResponses : List Term := ["#DKG-SYNC-ACCESS-DENIED".toList]

/-- `parseAndFilterNQuads`: the quads of the graph or under the context graph, and how many there
were. Its parser is the publisher's. -/
def parseAndFilter (nquadsText graphUri contextGraphId : Term) : List Quad × ℕ :=
  let quads := parseSimpleNQuads nquadsText
  (quads.filter fun q => q.graph = graphUri ∨
    contextGraphDataUri contextGraphId ++ ['/'] <+: q.graph, quads.length)

structure SyncPageResult where
  quads : List Quad
  (resumedFromOffset nextOffset : ℕ)
  completed : Bool

/-- What the requests of a phase are about. -/
structure Phase where
  syncPageSize : ℕ
  (contextGraphId graphUri : Term)
  rows : List Quad

/-- The loop over the pages, with what is left of the deadline; it throws when access is denied. -/
def fetchLoop (phase : Phase) (resumedFromOffset : ℕ) :
    ℕ → ℕ → List Quad → Option (SyncPageResult × ℕ)
  | 0, offset, allQuads => some (⟨allQuads, resumedFromOffset, offset, false⟩, 0)
  | deadline + 1, offset, allQuads =>
    let nquadsText := trim (respond phase.syncPageSize phase.rows offset phase.syncPageSize)
    if nquadsText = syncDeniedResponse ∨ nquadsText ∈ extraDeniedResponses then none
    else if nquadsText = [] then
      some (⟨allQuads, resumedFromOffset, offset, true⟩, deadline)
    else
      let parsed := parseAndFilter nquadsText phase.graphUri phase.contextGraphId
      if parsed.2 = 0 then some (⟨allQuads, resumedFromOffset, offset, true⟩, deadline)
      else if parsed.2 < phase.syncPageSize then
        some (⟨allQuads ++ parsed.1, resumedFromOffset, offset + parsed.2, true⟩, deadline)
      else fetchLoop phase resumedFromOffset deadline (offset + parsed.2) (allQuads ++ parsed.1)

def fetchSyncPages (phase : Phase) (checkpoint : Option ℕ) (deadline : ℕ) :
    Option (SyncPageResult × ℕ) :=
  fetchLoop phase (checkpoint.getD 0) deadline (checkpoint.getD 0) []

/-! ## A page -/

variable {phase : Phase} {rows quads : List Quad} {q : Quad}
  {offset deadline resumed k : ℕ}

/-- Rows that can be read, in the graphs of the phase. -/
structure Phase.Served (phase : Phase) : Prop where
  pageSize : 0 < phase.syncPageSize
  readable : ∀ q ∈ phase.rows, Readable q
  graph : ∀ q ∈ phase.rows, q.graph = phase.graphUri ∨
    contextGraphDataUri phase.contextGraphId ++ ['/'] <+: q.graph

lemma clampOffset_of_le (h : offset ≤ maxOffset) : clampOffset offset = offset := by
  have hsafe : IsSafeInteger offset := by
    unfold IsSafeInteger maxOffset at *
    omega
  rw [clampOffset, if_pos hsafe, min_eq_left h, Nat.zero_max]

lemma clampOffset_le (offset : ℕ) : clampOffset offset ≤ maxOffset :=
  max_le (Nat.zero_le _) (min_le_right _ _)

lemma clampLimit_self {syncPageSize : ℕ} (h : 0 < syncPageSize) :
    clampLimit syncPageSize syncPageSize = syncPageSize := by
  rw [clampLimit, ite_self, min_self]
  exact max_eq_right h

lemma head?_writeLines (q : Quad) (quads : List Quad) :
    (writeLines (q :: quads)).head? = some '<' := by
  cases quads with
  | nil | cons p quads => simp [writeLines, writeLine]

lemma getLast?_writeLines (q : Quad) (quads : List Quad) :
    (writeLines (quads ++ [q])).getLast? = some '.' := by
  have hline : (writeLine q).getLast? = some '.' := by
    rw [writeLine_eq, show " .".toList = [' '] ++ ['.'] from rfl, ← append_assoc, getLast?_concat]
  induction quads with
  | nil => simpa [writeLines] using hline
  | cons p quads ih =>
    have hlines : writeLines (p :: quads ++ [q]) =
        writeLine p ++ ['\n'] ++ writeLines (quads ++ [q]) := by
      cases quads <;> simp [writeLines]
    rw [hlines, getLast?_append, ih]
    rfl

lemma trim_writeLines (quads : List Quad) : trim (writeLines quads) = writeLines quads := by
  apply trim_eq_self
  · intro c hc
    cases quads with
    | nil => cases hc
    | cons q quads =>
      rw [head?_writeLines] at hc
      cases hc
      decide
  · intro c hc
    cases quads using List.reverseRecOn with
    | nil => cases hc
    | append_singleton quads q =>
      rw [getLast?_writeLines] at hc
      cases hc
      decide

lemma Phase.Served.parseAndFilter_page (h : phase.Served) (hquads : ∀ q ∈ quads, q ∈ phase.rows) :
    parseAndFilter (writeLines quads) phase.graphUri phase.contextGraphId =
      (quads, quads.length) := by
  have hread : parseSimpleNQuads (writeLines quads) = quads :=
    parseSimpleNQuads_writeLines fun q hq => h.readable q (hquads q hq)
  have hfilter : (quads.filter fun q => q.graph = phase.graphUri ∨
      contextGraphDataUri phase.contextGraphId ++ ['/'] <+: q.graph) = quads := by
    apply filter_eq_self.mpr
    intro q hq
    exact decide_eq_true (h.graph q (hquads q hq))
  simp only [parseAndFilter, hread, hfilter]

def Phase.page (phase : Phase) (offset : ℕ) : List Quad :=
  (phase.rows.drop (clampOffset offset)).take phase.syncPageSize

/-- The next page: the last one, or a full one and then the rest. -/
lemma Phase.Served.fetchLoop_succ (h : phase.Served) :
    fetchLoop phase resumed (deadline + 1) offset quads =
      if (phase.page offset).length < phase.syncPageSize then
        some (⟨quads ++ phase.page offset, resumed, offset + (phase.page offset).length, true⟩,
          deadline)
      else fetchLoop phase resumed deadline (offset + phase.syncPageSize)
        (quads ++ phase.page offset) := by
  set page := phase.page offset with hpage
  have hsub : ∀ q ∈ page, q ∈ phase.rows := fun q hq =>
    mem_of_mem_drop (mem_of_mem_take hq)
  have htext : trim (respond phase.syncPageSize phase.rows offset phase.syncPageSize) =
      writeLines page := by
    rw [respond, clampLimit_self h.pageSize, trim_writeLines, hpage, Phase.page]
  have hparse := h.parseAndFilter_page hsub
  rw [fetchLoop]
  simp only [htext, hparse]
  cases hcases : page with
  | nil =>
    have hempty : writeLines ([] : List Quad) = [] := rfl
    have hdenied : ¬ (([] : Term) = syncDeniedResponse ∨ [] ∈ extraDeniedResponses) := by decide
    rw [hempty, if_neg hdenied, if_pos rfl, if_pos (by simpa using h.pageSize)]
    simp
  | cons q rest =>
    have hhead := head?_writeLines q rest
    have hdenied : ¬ (writeLines (q :: rest) = syncDeniedResponse ∨
        writeLines (q :: rest) ∈ extraDeniedResponses) := by
      rintro (heq | hmem)
      · rw [heq] at hhead
        revert hhead
        decide
      · rw [mem_singleton.mp hmem] at hhead
        revert hhead
        decide
    have hnil : writeLines (q :: rest) ≠ [] := by
      intro heq
      rw [heq] at hhead
      cases hhead
    rw [if_neg hdenied, if_neg hnil, if_neg (by simp)]
    split
    next => rfl
    next hfull =>
      have hlength : (q :: rest).length = phase.syncPageSize := by
        have hle : page.length ≤ phase.syncPageSize := length_take_le ..
        rw [hcases] at hle
        omega
      rw [hlength]

/-! ## All pages -/

/-- The pages of a phase that has no time-out, from its first row on. -/
def Phase.pages (phase : Phase) : ℕ := phase.rows.length / phase.syncPageSize + 1

/-- No request is beyond the greatest offset. -/
def Phase.WithinOffsets (phase : Phase) : Prop :=
  phase.rows.length / phase.syncPageSize * phase.syncPageSize ≤ maxOffset

/-- What is left from a page on is the page and what is left from the next one on. -/
lemma drop_page (rows : List Quad) (k size : ℕ) : rows.drop (k * size) =
    (rows.drop (k * size)).take size ++ rows.drop ((k + 1) * size) := by
  rw [Nat.add_mul, Nat.one_mul, ← drop_drop, take_append_drop]

lemma take_pages (rows : List Quad) (k n size : ℕ) :
    (rows.drop (k * size)).take ((n + 1) * size) =
      (rows.drop (k * size)).take size ++ (rows.drop ((k + 1) * size)).take (n * size) := by
  rw [Nat.add_mul n, Nat.one_mul, Nat.add_comm, take_add, drop_drop, Nat.add_mul, Nat.one_mul]

/-- The loop gets the rest of the rows, or as many full pages as the deadline leaves. -/
lemma Phase.Served.fetchLoop_eq (h : phase.Served) (hwithin : phase.WithinOffsets) (k : ℕ)
    (hk : k ≤ phase.rows.length / phase.syncPageSize) :
    fetchLoop phase resumed deadline (k * phase.syncPageSize) quads =
      if phase.rows.length / phase.syncPageSize < k + deadline then
        some (⟨quads ++ phase.rows.drop (k * phase.syncPageSize), resumed, phase.rows.length, true⟩,
          deadline - (phase.rows.length / phase.syncPageSize - k + 1))
      else some (⟨quads ++ (phase.rows.drop (k * phase.syncPageSize)).take
          (deadline * phase.syncPageSize), resumed, (k + deadline) * phase.syncPageSize, false⟩,
            0) := by
  have hpos := h.pageSize
  have hdiv : ∀ m, m ≤ phase.rows.length / phase.syncPageSize ↔
      m * phase.syncPageSize ≤ phase.rows.length := fun m => Nat.le_div_iff_mul_le hpos
  induction deadline generalizing k quads with
  | zero =>
    rw [if_neg (by omega)]
    simp [fetchLoop]
  | succ deadline ih =>
    have hoffset : k * phase.syncPageSize ≤ maxOffset := (Nat.mul_le_mul_right _ hk).trans hwithin
    rw [h.fetchLoop_succ, Phase.page, clampOffset_of_le hoffset, length_take, length_drop]
    have hrows := (hdiv k).mp hk
    by_cases hlast : k = phase.rows.length / phase.syncPageSize
    · -- the last page is short
      have hshort : phase.rows.length < (k + 1) * phase.syncPageSize := by
        have := (not_congr (hdiv (k + 1))).mp (by omega)
        omega
      have hlt : phase.rows.length - k * phase.syncPageSize < phase.syncPageSize := by
        rw [Nat.add_mul, Nat.one_mul] at hshort
        omega
      have htake : (phase.rows.drop (k * phase.syncPageSize)).take phase.syncPageSize =
          phase.rows.drop (k * phase.syncPageSize) :=
        take_of_length_le (by rw [length_drop]; omega)
      have hmin : min phase.syncPageSize (phase.rows.length - k * phase.syncPageSize) =
          phase.rows.length - k * phase.syncPageSize := by omega
      rw [hmin, if_pos hlt, if_pos (by omega), htake]
      congr 3
      · omega
      · omega
    · -- a full page, and then the next one
      have hnext : k + 1 ≤ phase.rows.length / phase.syncPageSize := by omega
      have hfull := (hdiv (k + 1)).mp hnext
      rw [Nat.add_mul, Nat.one_mul] at hfull
      have hmin : min phase.syncPageSize (phase.rows.length - k * phase.syncPageSize) =
          phase.syncPageSize := by omega
      have hstep : k * phase.syncPageSize + phase.syncPageSize = (k + 1) * phase.syncPageSize := by
        rw [Nat.add_mul, Nat.one_mul]
      rw [hmin, if_neg (lt_irrefl _), hstep, ih (k + 1) hnext]
      by_cases hdone : phase.rows.length / phase.syncPageSize < k + 1 + deadline
      · rw [if_pos hdone, if_pos (by omega), append_assoc, ← drop_page]
        congr 2
        omega
      · rw [if_neg hdone, if_neg (by omega), append_assoc]
        rw [take_pages, show k + 1 + deadline = k + (deadline + 1) by omega]

/-- The rows of the pages from one on, as many pages as the deadline leaves. -/
def Phase.chunk (phase : Phase) (page deadline : ℕ) : List Quad :=
  (phase.rows.drop (page * phase.syncPageSize)).take (deadline * phase.syncPageSize)

/-- The deadline leaves the last page, too. -/
def Phase.Ends (phase : Phase) (page deadline : ℕ) : Prop := phase.pages ≤ page + deadline
  deriving Decidable

lemma Phase.Ends.chunk_eq (h : phase.Ends k deadline) (hpos : 0 < phase.syncPageSize) :
    phase.chunk k deadline = phase.rows.drop (k * phase.syncPageSize) := by
  have hlength : phase.rows.length < (k + deadline) * phase.syncPageSize :=
    (Nat.div_lt_iff_lt_mul hpos).mp h
  rw [Nat.add_mul] at hlength
  apply take_of_length_le
  rw [length_drop]
  omega

/-- What a phase gets that goes on at a page. -/
def Phase.resultAt (phase : Phase) (page deadline : ℕ) : SyncPageResult where
  quads := phase.chunk page deadline
  resumedFromOffset := page * phase.syncPageSize
  nextOffset := if phase.Ends page deadline then phase.rows.length
    else (page + deadline) * phase.syncPageSize
  completed := phase.Ends page deadline

lemma Phase.Served.fetchSyncPages_eq (h : phase.Served) (hwithin : phase.WithinOffsets)
    {checkpoint : Option ℕ} (hcheckpoint : checkpoint.getD 0 = k * phase.syncPageSize)
    (hk : k < phase.pages) : fetchSyncPages phase checkpoint deadline =
      some (phase.resultAt k deadline, deadline - (phase.pages - k)) := by
  have hpages : phase.pages = phase.rows.length / phase.syncPageSize + 1 := rfl
  rw [fetchSyncPages, hcheckpoint, h.fetchLoop_eq hwithin k (Nat.le_of_lt_succ hk), Phase.resultAt]
  by_cases hends : phase.Ends k deadline
  · have hlast : phase.rows.length / phase.syncPageSize < k + deadline := hends
    rw [if_pos hlast, if_pos hends, hends.chunk_eq h.pageSize, nil_append, decide_eq_true hends]
    congr 2
    omega
  · have hcut : ¬ phase.rows.length / phase.syncPageSize < k + deadline := hends
    rw [if_neg hcut, if_neg hends, nil_append, decide_eq_false hends]
    congr 2
    omega

/-- A phase with a full page at the greatest offset never comes to its end. -/
lemma Phase.Served.fetchLoop_full (h : phase.Served)
    (hlong : maxOffset + phase.syncPageSize ≤ phase.rows.length) :
    ∃ allQuads nextOffset, fetchLoop phase resumed deadline offset quads =
      some (⟨allQuads, resumed, nextOffset, false⟩, 0) := by
  induction deadline generalizing offset quads with
  | zero => exact ⟨quads, offset, rfl⟩
  | succ deadline ih =>
    have hfull : (phase.page offset).length = phase.syncPageSize := by
      have hclamp := clampOffset_le offset
      rw [Phase.page, length_take, length_drop]
      omega
    rw [h.fetchLoop_succ, hfull, if_neg (lt_irrefl _)]
    exact ih

/-! ## Checkpoints -/

/-- What the loop has got so far stands in front of what it gets. -/
lemma fetchLoop_append (front : List Quad) (resumed' : ℕ) :
    fetchLoop phase resumed deadline offset (front ++ quads) =
      (fetchLoop phase resumed' deadline offset quads).map fun y =>
        (⟨front ++ y.1.quads, resumed, y.1.nextOffset, y.1.completed⟩, y.2) := by
  induction deadline generalizing offset quads with
  | zero => rfl
  | succ deadline ih =>
    simp only [fetchLoop]
    split_ifs
    · rfl
    · rfl
    · rfl
    · rw [append_assoc]
      rfl
    · rw [append_assoc]
      exact ih

/-- The loop goes on where its deadline cut it off. -/
lemma fetchLoop_add (first second : ℕ) : fetchLoop phase resumed (first + second) offset quads =
    (fetchLoop phase resumed first offset quads).bind fun x =>
      if x.1.completed = true then some (x.1, x.2 + second)
      else fetchLoop phase x.1.resumedFromOffset second x.1.nextOffset x.1.quads := by
  induction first generalizing offset quads with
  | zero =>
    rw [Nat.zero_add]
    rfl
  | succ first ih =>
    rw [Nat.add_right_comm]
    simp only [fetchLoop]
    split_ifs
    · rfl
    · rfl
    · rfl
    · rfl
    · exact ih

/-- **An interrupted phase is resumed without loss.** Pages that are fetched up to a deadline and
then on from the checkpoint are those of one fetch with both deadlines: the quads in the same order,
the same next offset, and the phase completed or access denied alike. -/
theorem fetchSyncPages_resume (phase : Phase) (checkpoint : Option ℕ) (first second : ℕ) :
    fetchSyncPages phase checkpoint (first + second) =
      (fetchSyncPages phase checkpoint first).bind fun x =>
        if x.1.completed = true then some (x.1, x.2 + second)
        else (fetchSyncPages phase (some x.1.nextOffset) second).map fun y =>
          (⟨x.1.quads ++ y.1.quads, x.1.resumedFromOffset, y.1.nextOffset, y.1.completed⟩,
            y.2) := by
  rw [fetchSyncPages, fetchLoop_add]
  refine congrArg (Option.bind _) (funext fun x => ?_)
  split
  · rfl
  · have happend : fetchLoop phase x.1.resumedFromOffset second x.1.nextOffset
        (x.1.quads ++ []) = _ := fetchLoop_append x.1.quads x.1.nextOffset
    rw [append_nil] at happend
    exact happend

end Dkg.Sync
