import Dkg.PrivateAccess.AccessHandler

/-! # The agent's own verifier

The agent verifies a synced batch with a copy of the worker's function. The copy reads literals in
its own way: it resolves escapes, and it takes off a language tag; without these the readings agree
(`stripLiteral_plain`). The two verifiers agree as far as their readings of the metadata do, of the
rows that are read (`verifySyncedData_eq`).
-/

namespace Dkg

open Lib KeyedList Publisher

namespace Sync

namespace AgentUtils

open Verification (Hashing Checked SyncVerifyResult codeUnits parseByte dkgPartOf dkgRootEntity
  dkgPrivateMerkleRoot)
open PrivateAccess (literalBody)

/-! ## Literals -/

/-- `replace(/\\c/g, by)`. -/
def replaceEscape (c by' : Char) : Term → Term
  | '\\' :: d :: rest =>
    if d = c then by' :: replaceEscape c by' rest else '\\' :: replaceEscape c by' (d :: rest)
  | d :: rest => d :: replaceEscape c by' rest
  | [] => []

def unescapeLiteralContent (value : Term) : Term :=
  replaceEscape '\\' '\\' (replaceEscape '\x22' '\x22' (replaceEscape 't' '\t'
    (replaceEscape 'r' '\r' (replaceEscape 'n' '\n' value))))

def stripLiteral (s : Term) : Term :=
  if ['\x22'] <+: s ∧ ['\x22'] <:+ s then unescapeLiteralContent s.tail.dropLast
  else if ['\x22'] <+: s then ((literalBody s.tail).map unescapeLiteralContent).getD s
  else s

section

variable {s body : Term}

lemma replaceEscape_eq {c by' : Char} (h : '\\' ∉ s) : replaceEscape c by' s = s := by
  fun_induction replaceEscape c by' s with
  | case1 | case2 => simp at h
  | case3 d rest _ ih =>
    rw [ih fun hmem => h (List.mem_cons_of_mem d hmem)]
  | case4 => rfl

lemma unescapeLiteralContent_eq (h : '\\' ∉ s) : unescapeLiteralContent s = s := by
  simp only [unescapeLiteralContent, replaceEscape_eq h]

lemma cutDatatype_eq (hquote : '\x22' ∉ s) (hcaret : '^' ∉ s) : Verification.cutDatatype s = s := by
  induction s with
  | nil => rfl
  | cons c s ih =>
    rw [List.mem_cons, not_or] at hquote hcaret
    have hstart : ¬ Verification.StartsDatatype (c :: s) := by
      rintro ⟨hstart, -⟩
      simp [hquote.1, hcaret.1] at hstart
    rw [Verification.cutDatatype, if_neg hstart, ih hquote.2 hcaret.2]

/-- On a text without quotation marks, escapes and carets, and on the literal of it, the two
strippers agree. -/
lemma stripLiteral_plain (hquote : '\x22' ∉ body) (hcaret : '^' ∉ body) (hescape : '\\' ∉ body) :
    (stripLiteral body = body ∧ Verification.stripLiteral body = body) ∧
      stripLiteral ('\x22' :: (body ++ ['\x22'])) = body ∧
        Verification.stripLiteral ('\x22' :: (body ++ ['\x22'])) = body := by
  have hcut := cutDatatype_eq hquote hcaret
  have hstart : ¬ ['\x22'] <+: body := fun h => hquote (h.subset (by simp))
  have hend : ¬ ['\x22'] <:+ body := fun h => hquote (h.subset (by simp))
  have hclosed : ['\x22'] <:+ body ++ ['\x22'] := List.suffix_append body _
  have hquoted : ['\x22'] <:+ '\x22' :: (body ++ ['\x22']) := hclosed.trans (List.suffix_cons _ _)
  refine ⟨⟨?_, ?_⟩, ?_, ?_⟩
  · rw [stripLiteral, if_neg fun h => hstart h.1, if_neg hstart]
  · rw [Verification.stripLiteral, Verification.dropQuotes, if_neg hstart, if_neg hend, hcut]
  · rw [stripLiteral, if_pos ⟨by simp, hquoted⟩, List.tail_cons, List.dropLast_concat,
      unescapeLiteralContent_eq hescape]
  · have hdrop : Verification.dropQuotes ('\x22' :: (body ++ ['\x22'])) = body := by
      simp [Verification.dropQuotes, hclosed]
    rw [Verification.stripLiteral, hdrop, hcut]

end

/-! ## The metadata -/

def lastObjects (predicate : Term) (metaQuads : List Quad) : KeyedList Term Term :=
  metaQuads.foldl (fun m q =>
    if q.predicate = predicate then m.set q.subject (stripLiteral q.object) else m) empty

/-- The maps that are read from the metadata. -/
structure Tables where
  (kcMerkleRoots kaToKc kaRootEntity : KeyedList Term Term)

def tables (metaQuads : List Quad) : Tables where
  kcMerkleRoots := lastObjects dkgMerkleRoot metaQuads
  kaToKc := lastObjects dkgPartOf metaQuads
  kaRootEntity := lastObjects dkgRootEntity metaQuads

namespace Tables

variable (t : Tables)

def rootEntityOf (ka : Term × Term) : Option (Term × Term) :=
  ((t.kaRootEntity.get ka.1).filter (· ≠ [])).bind fun rootEntity =>
    if ka.2 ∈ t.kcMerkleRoots.keys then some (ka.2, rootEntity) else none

def kcRootEntities : KeyedList Term (List Term) :=
  t.kaToKc.entries.foldl (fun m ka => m.appendAt (t.rootEntityOf ka)) empty

def rootEntitiesOf (kcUal : Term) : List Term := (t.kcRootEntities.get kcUal).getD []

def rootEntityToKCs : KeyedList Term (List Term) :=
  t.kcRootEntities.entries.foldl (fun m kc => kc.2.foldl (fun m re => m.append re kc.1) m) empty

def overlappingKCs : List Term :=
  t.rootEntityToKCs.entries.flatMap fun e => if e.2.length > 1 then e.2 else []

variable {B : Type}

def privateRoot (ofBytes : List ℕ → B) (object : Term) : Option B :=
  let text := stripLiteral object
  let hex := codeUnits (if "0x".toList <+: text then text.drop 2 else text)
  if hex.length = 64 then
    some (ofBytes ((List.range 32).map fun i =>
      parseByte (hex.getD (2 * i) none) (hex.getD (2 * i + 1) none)))
  else none

def kcPrivateRoots (ofBytes : List ℕ → B) (metaQuads : List Quad) (kcUal : Term) : List B :=
  t.kaToKc.entries.flatMap fun ka =>
    if ka.2 = kcUal then metaQuads.filterMap fun mq =>
      if mq.subject = ka.1 ∧ mq.predicate = dkgPrivateMerkleRoot then
        privateRoot ofBytes mq.object
      else none
    else []

/-! ## The check -/

variable [LinearOrder B] [Zero B]

def allQuadsForKC (dataQuads : List Quad) (kcUal : Term) : List Quad :=
  (t.rootEntitiesOf kcUal).flatMap fun re => ((Publisher.autoPartition dataQuads).get re).getD []

/-- The loop over the collections. -/
def checkKc (hashing : Hashing B) (dataQuads metaQuads : List Quad) (checked : Checked)
    (kc : Term × Term) : Checked :=
  let verified := { checked with verifiedKcUals := checked.verifiedKcUals ++ [kc.1] }
  let rejected := { checked with rejected := checked.rejected + 1 }
  if t.rootEntitiesOf kc.1 = [] then verified
  else if kc.1 ∈ t.overlappingKCs then verified
  else
    let quads := t.allQuadsForKC dataQuads kc.1
    let privateRoots := t.kcPrivateRoots hashing.ofBytes metaQuads kc.1
    if hashing.flatHex quads privateRoots = kc.2 then verified
    else if privateRoots.length > 0 then
      if hashing.flatHex quads [] = kc.2 then verified else rejected
    else rejected

def checkAll (hashing : Hashing B) (dataQuads metaQuads : List Quad) : Checked :=
  t.kcMerkleRoots.entries.foldl (t.checkKc hashing dataQuads metaQuads) ⟨[], 0⟩

def KeepsData (verifiedKcUals : List Term) (q : Quad) : Prop :=
  if q.subject ∈ t.kcRootEntities.entries.flatMap Prod.snd then
    q.subject ∈ verifiedKcUals.flatMap t.rootEntitiesOf
  else (∃ re ∈ verifiedKcUals.flatMap t.rootEntitiesOf, re <+: q.subject) ∨ True

def KeepsMeta (verifiedKcUals : List Term) (q : Quad) : Prop :=
  if q.subject ∈ t.kcMerkleRoots.keys then q.subject ∈ verifiedKcUals
  else ∀ kcUri ∈ (t.kaToKc.get q.subject).filter (· ≠ []), kcUri ∈ verifiedKcUals

instance decidableKeepsData (verifiedKcUals : List Term) (q : Quad) :
    Decidable (t.KeepsData verifiedKcUals q) :=
  inferInstanceAs (Decidable (if q.subject ∈ t.kcRootEntities.entries.flatMap Prod.snd then _
    else _))

instance decidableKeepsMeta (verifiedKcUals : List Term) (q : Quad) :
    Decidable (t.KeepsMeta verifiedKcUals q) :=
  inferInstanceAs (Decidable (if q.subject ∈ t.kcMerkleRoots.keys then _ else _))

end Tables

variable {B : Type} [LinearOrder B] [Zero B]

def verifySyncedData (hashing : Hashing B) (dataQuads metaQuads : List Quad)
    (acceptUnverified : Bool) : SyncVerifyResult :=
  let t := tables metaQuads
  if metaQuads.length = 0 then ⟨dataQuads, metaQuads, 0⟩
  else if t.kcMerkleRoots.size = 0 then ⟨dataQuads, metaQuads, 0⟩
  else
    let checked := t.checkAll hashing dataQuads metaQuads
    if acceptUnverified ∧ 0 < checked.rejected ∧
        checked.verifiedKcUals.length < t.kcMerkleRoots.size then ⟨dataQuads, metaQuads, 0⟩
    else
      { verified := dataQuads.filter (t.KeepsData checked.verifiedKcUals)
        metadata := metaQuads.filter (t.KeepsMeta checked.verifiedKcUals)
        rejected := checked.rejected }

/-! ## The two verifiers -/

/-- The row that a map of the metadata keeps for a subject: its last one. -/
def lastRow (predicate subject : Term) (metaQuads : List Quad) : Option Quad :=
  metaQuads.reverse.find? fun q => q.predicate = predicate ∧ q.subject = subject

/-- The flat root of the collection is compared with the claimed one. -/
def IsCompared (metaQuads : List Quad) (kcUal : Term) : Prop :=
  kcUal ∈ (Verification.kcMerkleRoots metaQuads).keys ∧
    Verification.rootEntitiesOf metaQuads kcUal ≠ [] ∧
      kcUal ∉ Verification.overlappingKCs metaQuads
  deriving Decidable

/-- The two ways to read an object agree on the rows that a verifier reads: the last ones of each
subject, and the private roots of the assets of a collection that is compared. -/
structure ReadAlike (ofBytes : List ℕ → B) (metaQuads : List Quad) : Prop where
  rows : ∀ predicate ∈ [dkgMerkleRoot, dkgPartOf, dkgRootEntity], ∀ subject,
    ∀ q ∈ lastRow predicate subject metaQuads,
      stripLiteral q.object = Verification.stripLiteral q.object
  privateRoots : ∀ q ∈ metaQuads, q.predicate = dkgPrivateMerkleRoot →
    ∀ kcUal ∈ (Verification.kaToKc metaQuads).get q.subject, IsCompared metaQuads kcUal →
      Tables.privateRoot ofBytes q.object = Verification.privateRoot ofBytes q.object

variable {metaQuads : List Quad} {predicate : Term} {ofBytes : List ℕ → B}

omit [LinearOrder B] [Zero B] in
lemma ReadAlike.lastObjects_eq (h : ReadAlike ofBytes metaQuads)
    (hpredicate : predicate ∈ [dkgMerkleRoot, dkgPartOf, dkgRootEntity]) :
    lastObjects predicate metaQuads = Verification.lastObjects predicate metaQuads := by
  have hfilter : ∀ strip : Term → Term, metaQuads.foldl (fun m q =>
      if q.predicate = predicate then m.set q.subject (strip q.object) else m) empty =
        (metaQuads.filter (·.predicate = predicate)).foldl
          (fun m q => m.set q.subject (strip q.object)) empty := by
    intro strip
    rw [List.foldl_filter]
    simp only [decide_eq_true_eq]
  rw [lastObjects, Verification.lastObjects, hfilter, hfilter]
  refine ext_get (keys_foldl_set _ _ _ _ _ _ rfl) fun subject => ?_
  rw [get_foldl_set, get_foldl_set, ← List.filter_reverse, List.find?_filter]
  congr 1
  refine Option.map_congr fun q hq => h.rows predicate hpredicate subject q ?_
  simpa [lastRow] using hq

omit [LinearOrder B] [Zero B] in
lemma ReadAlike.tables_eq (h : ReadAlike ofBytes metaQuads) : tables metaQuads =
    ⟨Verification.kcMerkleRoots metaQuads, Verification.kaToKc metaQuads,
      Verification.kaRootEntity metaQuads⟩ := by
  rw [tables, h.lastObjects_eq (by simp), h.lastObjects_eq (by simp), h.lastObjects_eq (by simp)]
  rfl

omit [LinearOrder B] [Zero B] in
lemma ReadAlike.kcPrivateRoots_eq (h : ReadAlike ofBytes metaQuads) {kcUal : Term}
    (hcompared : IsCompared metaQuads kcUal) :
    (tables metaQuads).kcPrivateRoots ofBytes metaQuads kcUal =
      Verification.privateRoots ofBytes metaQuads kcUal := by
  rw [h.tables_eq]
  refine List.flatMap_congr fun ka hka => ?_
  by_cases hkc : ka.2 = kcUal
  · rw [if_pos hkc, if_pos hkc]
    refine List.filterMap_congr fun q hq => ?_
    by_cases hread : q.subject = ka.1 ∧ q.predicate = dkgPrivateMerkleRoot
    · rw [if_pos hread, if_pos hread]
      refine h.privateRoots q hq hread.2 kcUal ?_ hcompared
      rw [hread.1, ← hkc]
      exact get_of_mem hka
    · rw [if_neg hread, if_neg hread]
  · rw [if_neg hkc, if_neg hkc]

lemma overlappingKCs_eq : Tables.overlappingKCs ⟨Verification.kcMerkleRoots metaQuads,
    Verification.kaToKc metaQuads, Verification.kaRootEntity metaQuads⟩ =
      Verification.overlappingKCs metaQuads := by
  refine List.flatMap_congr fun e _ => ?_
  by_cases hlong : e.2.length > 1
  · rw [if_pos hlong, if_neg (by omega)]
  · rw [if_neg hlong, if_pos (by omega)]

lemma ReadAlike.checkKc_eq {hashing : Hashing B} (h : ReadAlike hashing.ofBytes metaQuads)
    (dataQuads : List Quad) (checked : Checked) {kc : Term × Term}
    (hclaimed : kc ∈ (Verification.kcMerkleRoots metaQuads).entries) :
    (tables metaQuads).checkKc hashing dataQuads metaQuads checked kc =
      Verification.checkKc hashing dataQuads metaQuads checked kc := by
  simp only [Tables.checkKc, Verification.checkKc]
  by_cases hnone : Verification.rootEntitiesOf metaQuads kc.1 = []
  · rw [h.tables_eq]
    exact (if_pos hnone).trans (if_pos hnone).symm
  by_cases hshared : kc.1 ∈ Verification.overlappingKCs metaQuads
  · rw [h.tables_eq, overlappingKCs_eq]
    exact ((if_neg hnone).trans (if_pos hshared)).trans ((if_neg hnone).trans (if_pos hshared)).symm
  rw [h.kcPrivateRoots_eq ⟨List.mem_map_of_mem hclaimed, hnone, hshared⟩, h.tables_eq,
    overlappingKCs_eq]
  refine if_congr Iff.rfl rfl (if_congr Iff.rfl rfl ?_)
  -- The branches of the two functions differ only in how they are nested.
  unfold Verification.HasFlatRoot
  split
  next hflat => exact (if_pos (.inl hflat)).symm
  next hflat =>
    split
    next hroots =>
      refine if_congr ?_ rfl rfl
      exact ⟨fun hlegacy => .inr ⟨List.ne_nil_of_length_pos hroots, hlegacy⟩,
        fun hroot => (hroot.resolve_left hflat).2⟩
    next hroots =>
      refine (if_neg ?_).symm
      rintro (hroot | ⟨hne, -⟩)
      · exact hflat hroot
      · exact hroots (List.length_pos_iff.mpr hne)

/-- **The two verifiers agree** where they read alike what they read of the metadata. -/
theorem verifySyncedData_eq (hashing : Hashing B) (dataQuads metaQuads : List Quad)
    (acceptUnverified : Bool) (h : ReadAlike hashing.ofBytes metaQuads) :
    verifySyncedData hashing dataQuads metaQuads acceptUnverified =
      Verification.verifySyncedData hashing dataQuads metaQuads acceptUnverified := by
  have hall : (tables metaQuads).checkAll hashing dataQuads metaQuads =
      Verification.checkAll hashing dataQuads metaQuads := by
    rw [Tables.checkAll, Verification.checkAll, h.tables_eq]
    refine List.foldl_ext _ _ _ fun checked kc hkc => ?_
    rw [← h.tables_eq]
    exact h.checkKc_eq dataQuads checked hkc
  unfold verifySyncedData
  simp only [hall]
  rw [h.tables_eq]
  rfl

/-! ## A language tag -/

namespace Tagged

/-- The asset names its collection by a literal with a language tag. -/
def rows (tag : Term) : List Quad :=
  [⟨['k'], dkgMerkleRoot, "\x22x\x22".toList, []⟩,
    ⟨['a'], dkgPartOf, "\x22k\x22".toList ++ tag, []⟩, ⟨['a'], dkgRootEntity, ['r'], []⟩]

def hashing : Hashing ℕ := ⟨List.length, (· + ·), fun n => Nat.toDigits 10 n, List.sum⟩

/-- Two collections, and rows that are read apart but not read at all: one that a later row of its
subject replaces, and a private root of an asset without a collection. -/
def twoCollections : List Quad :=
  [⟨['a'], dkgPartOf, "\x22l\x22@en".toList, []⟩, ⟨['k'], dkgMerkleRoot, "\x2213\x22".toList, []⟩,
    ⟨['a'], dkgPartOf, ['k'], []⟩, ⟨['a'], dkgRootEntity, ['r'], []⟩,
    ⟨['l'], dkgMerkleRoot, "\x220\x22".toList, []⟩, ⟨['b'], dkgPartOf, ['l'], []⟩,
    ⟨['b'], dkgRootEntity, ['s'], []⟩, ⟨['c'], dkgPrivateMerkleRoot, "\x22k\x22@en".toList, []⟩]

def data : List Quad := [⟨['r'], ['p'], ['o'], []⟩, ⟨['s'], ['p'], ['o'], []⟩]

end Tagged

open Tagged in
/-- One collection is verified and one is dropped, by both verifiers. -/
theorem verifySyncedData_eq_untagged :
    verifySyncedData hashing data twoCollections false =
        Verification.verifySyncedData hashing data twoCollections false ∧
      (verifySyncedData hashing data twoCollections false).verified = data.take 1 ∧
      (verifySyncedData hashing data twoCollections false).rejected = 1 := by
  refine ⟨verifySyncedData_eq hashing data twoCollections false ⟨?_, by decide +kernel⟩,
    by decide +kernel, by decide +kernel⟩
  intro predicate hpredicate subject q hq
  have hall : ∀ q ∈ twoCollections, lastRow q.predicate q.subject twoCollections = some q →
      q.predicate ≠ dkgPrivateMerkleRoot →
        stripLiteral q.object = Verification.stripLiteral q.object := by decide +kernel
  obtain ⟨hmem, rfl, rfl⟩ : q ∈ twoCollections ∧ q.predicate = predicate ∧ q.subject = subject := by
    refine ⟨List.mem_reverse.mp (List.mem_of_find?_eq_some hq), ?_⟩
    simpa using List.find?_some hq
  refine hall q hmem hq fun hprivate => ?_
  rw [hprivate] at hpredicate
  exact absurd hpredicate (by decide)

open Tagged in
/-- The agent rejects the collection. The worker finds no asset of it, and accepts it on trust. -/
theorem tagged_verified_apart :
    (verifySyncedData hashing [] (rows "@en".toList) false).rejected = 1 ∧
      (Verification.verifySyncedData hashing [] (rows "@en".toList) false).rejected = 0 := by
  decide +kernel

end AgentUtils

end Sync

end Dkg
