import Dkg.Merkle.Binding
import Dkg.Publisher.UpdateHandler
import Dkg.Sync.Authorization

/-! # Verification of a synced batch

`processDurableBatch` takes the data and the metadata that a peer sent. The metadata gives each
knowledge collection a Merkle root and, over its assets, its root entities. `verifySyncedData`
partitions the data, compares the flat root of each collection with the claimed one, and leaves out
what failed. A collection without root entities, or one that shares a root entity, is not compared
(`Passes`).
-/

namespace Dkg.Sync.Verification

open Lib Publisher KeyedList Option

/-! ## Literals -/

def isLineTerminator (c : Char) : Bool :=
  c = '\n' || c = '\r' || c.toNat = 0x2028 || c.toNat = 0x2029

/-- The pattern `"?\^\^.*$` matches here. -/
def StartsDatatype (value : Term) : Prop :=
  ("^^".toList <+: value ∨ ['\x22', '^', '^'] <+: value) ∧ value.any isLineTerminator = false
  deriving Decidable

def cutDatatype : Term → Term
  | [] => []
  | c :: rest => if StartsDatatype (c :: rest) then [] else c :: cutDatatype rest

/-- Without a quotation mark at its start and one at its end. -/
def dropQuotes (value : Term) : Term :=
  let opened := if ['\x22'] <+: value then value.tail else value
  if ['\x22'] <:+ opened then opened.dropLast else opened

def stripLiteral (value : Term) : Term := cutDatatype (dropQuotes value)

example : stripLiteral "\x2212\x22^^<i>".toList = "12".toList := by decide

/-! ## Private roots -/

/-- The code units of a text; the halves of a surrogate pair are no characters. -/
def codeUnits (text : Term) : List (Option Char) :=
  text.flatMap fun c => if c.toNat < 0x10000 then [some c] else [none, none]

/-- `parseInt` of two code units in base 16, as the byte that an array keeps of it. -/
def parseByte (u v : Option Char) : ℕ :=
  match u.bind digitValue, v.bind digitValue with
  | some a, some b => 16 * a + b
  | some a, none => a
  | none, some b =>
    if u = some '-' then (256 - b) % 256
    else if u = some '+' ∨ u.any isWhiteSpace then b
    else 0
  | none, none => 0

variable {B : Type}

/-- The 32 bytes of a private root, unless the text has another length. -/
def privateRoot (ofBytes : List ℕ → B) (object : Term) : Option B :=
  let text := stripLiteral object
  let hex := codeUnits (if "0x".toList <+: text then text.drop 2 else text)
  if hex.length = 64 then
    some (ofBytes ((List.range 32).map fun i =>
      parseByte (hex.getD (2 * i) none) (hex.getD (2 * i + 1) none)))
  else none

/-! ## The metadata -/

def dkgPartOf : Term := "http://dkg.io/".toList ++ "ontology/partOf".toList

def dkgRootEntity : Term := "http://dkg.io/".toList ++ "ontology/rootEntity".toList

def dkgPrivateMerkleRoot : Term := "http://dkg.io/".toList ++ "ontology/privateMerkleRoot".toList

/-- The last object that each subject has under a predicate. -/
def lastObjects (predicate : Term) (metaQuads : List Quad) : KeyedList Term Term :=
  metaQuads.foldl (fun m q =>
    if q.predicate = predicate then m.set q.subject (stripLiteral q.object) else m) empty

def kcMerkleRoots (metaQuads : List Quad) : KeyedList Term Term :=
  lastObjects dkgMerkleRoot metaQuads

def kaToKc (metaQuads : List Quad) : KeyedList Term Term := lastObjects dkgPartOf metaQuads

def kaRootEntity (metaQuads : List Quad) : KeyedList Term Term :=
  lastObjects dkgRootEntity metaQuads

/-- The root entity that an asset brings to its collection. -/
def rootEntityOf (metaQuads : List Quad) (ka : Term × Term) : Option (Term × Term) :=
  (((kaRootEntity metaQuads).get ka.1).filter (· ≠ [])).bind fun rootEntity =>
    if ka.2 ∈ (kcMerkleRoots metaQuads).keys then some (ka.2, rootEntity) else none

def kcRootEntities (metaQuads : List Quad) : KeyedList Term (List Term) :=
  (kaToKc metaQuads).entries.foldl (fun m ka => m.appendAt (rootEntityOf metaQuads ka)) empty

def rootEntitiesOf (metaQuads : List Quad) (kcUal : Term) : List Term :=
  ((kcRootEntities metaQuads).get kcUal).getD []

def rootEntityToKCs (metaQuads : List Quad) : KeyedList Term (List Term) :=
  (kcRootEntities metaQuads).entries.foldl (fun m kc =>
    kc.2.foldl (fun m rootEntity => m.append rootEntity kc.1) m) empty

def overlappingKCs (metaQuads : List Quad) : List Term :=
  (rootEntityToKCs metaQuads).entries.flatMap fun e => if e.2.length ≤ 1 then [] else e.2

def privateRoots (ofBytes : List ℕ → B) (metaQuads : List Quad) (kcUal : Term) : List B :=
  (kaToKc metaQuads).entries.flatMap fun ka =>
    if ka.2 = kcUal then metaQuads.filterMap fun mq =>
      if mq.subject = ka.1 ∧ mq.predicate = dkgPrivateMerkleRoot then
        privateRoot ofBytes mq.object
      else none
    else []

/-! ## The check -/

/-- The hashes of the flat Merkle tree, and their text. -/
structure Hashing (B : Type) where
  keccak256 : Term → B
  hashPair : B → B → B
  toHex : B → Term
  ofBytes : List ℕ → B

variable [LinearOrder B] [Zero B]

def Hashing.flatHex (hashing : Hashing B) (quads : List Quad) (privateRoots : List B) : Term :=
  hashing.toHex (computeFlatKCRootV10 hashing.keccak256 hashing.hashPair quads privateRoots)

def allQuadsForKC (dataQuads metaQuads : List Quad) (kcUal : Term) : List Quad :=
  (rootEntitiesOf metaQuads kcUal).flatMap fun rootEntity =>
    ((autoPartition dataQuads).get rootEntity).getD []

/-- The flat root is the claimed one, with the private roots or, as a legacy root, without them. -/
def HasFlatRoot (hashing : Hashing B) (quads : List Quad) (privateRoots : List B)
    (claimedHex : Term) : Prop :=
  hashing.flatHex quads privateRoots = claimedHex ∨
    (privateRoots ≠ [] ∧ hashing.flatHex quads [] = claimedHex)
  deriving Decidable

/-- What a check of the collections keeps and rejects. -/
structure Checked where
  verifiedKcUals : List Term
  rejected : ℕ

/-- The loop over the collections. -/
def checkKc (hashing : Hashing B) (dataQuads metaQuads : List Quad) (checked : Checked)
    (kc : Term × Term) : Checked :=
  if rootEntitiesOf metaQuads kc.1 = [] then
    { checked with verifiedKcUals := checked.verifiedKcUals ++ [kc.1] }
  else if kc.1 ∈ overlappingKCs metaQuads then
    { checked with verifiedKcUals := checked.verifiedKcUals ++ [kc.1] }
  else if HasFlatRoot hashing (allQuadsForKC dataQuads metaQuads kc.1)
      (privateRoots hashing.ofBytes metaQuads kc.1) kc.2 then
    { checked with verifiedKcUals := checked.verifiedKcUals ++ [kc.1] }
  else { checked with rejected := checked.rejected + 1 }

def checkAll (hashing : Hashing B) (dataQuads metaQuads : List Quad) : Checked :=
  (kcMerkleRoots metaQuads).entries.foldl (checkKc hashing dataQuads metaQuads) ⟨[], 0⟩

/-! ## The filters -/

def allKnownRootEntities (metaQuads : List Quad) : List Term :=
  (kcRootEntities metaQuads).entries.flatMap Prod.snd

def verifiedRootEntities (metaQuads : List Quad) (verifiedKcUals : List Term) : List Term :=
  verifiedKcUals.flatMap (rootEntitiesOf metaQuads)

/-- The loop over the prefixes comes to the same as its end. -/
def KeepsData (metaQuads : List Quad) (verifiedKcUals : List Term) (q : Quad) : Prop :=
  if q.subject ∈ allKnownRootEntities metaQuads then
    q.subject ∈ verifiedRootEntities metaQuads verifiedKcUals
  else (∃ rootEntity ∈ verifiedRootEntities metaQuads verifiedKcUals, rootEntity <+: q.subject) ∨
    True
  deriving Decidable

def KeepsMeta (metaQuads : List Quad) (verifiedKcUals : List Term) (q : Quad) : Prop :=
  if q.subject ∈ (kcMerkleRoots metaQuads).keys then q.subject ∈ verifiedKcUals
  else ∀ kcUri ∈ ((kaToKc metaQuads).get q.subject).filter (· ≠ []), kcUri ∈ verifiedKcUals
  deriving Decidable

structure SyncVerifyResult where
  (verified metadata : List Quad)
  rejected : ℕ

def verifySyncedData (hashing : Hashing B) (dataQuads metaQuads : List Quad)
    (acceptUnverified : Bool) : SyncVerifyResult :=
  if metaQuads.length = 0 then ⟨dataQuads, metaQuads, 0⟩
  else if (kcMerkleRoots metaQuads).size = 0 then ⟨dataQuads, metaQuads, 0⟩
  else
    let checked := checkAll hashing dataQuads metaQuads
    if acceptUnverified ∧ 0 < checked.rejected ∧
        checked.verifiedKcUals.length < (kcMerkleRoots metaQuads).size then
      ⟨dataQuads, metaQuads, 0⟩
    else
      { verified := dataQuads.filter (KeepsData metaQuads checked.verifiedKcUals)
        metadata := metaQuads.filter (KeepsMeta metaQuads checked.verifiedKcUals)
        rejected := checked.rejected }

structure DurableBatchProcessResult where
  (verifiedData verifiedMeta : List Quad)
  (totalFetchedDataQuads totalFetchedMetaQuads rejectedKcs emptyResponses metaOnlyResponses : ℕ)
  dataRejectedMissingMeta : ℕ

def processDurableBatch (hashing : Hashing B) (dataQuads metaQuads : List Quad)
    (acceptUnverified : Bool) : DurableBatchProcessResult :=
  if dataQuads.length = 0 ∧ metaQuads.length = 0 then
    { verifiedData := []
      verifiedMeta := []
      totalFetchedDataQuads := dataQuads.length
      totalFetchedMetaQuads := metaQuads.length
      rejectedKcs := 0
      emptyResponses := 1
      metaOnlyResponses := 0
      dataRejectedMissingMeta := 0 }
  else if acceptUnverified = false ∧ 0 < dataQuads.length ∧ metaQuads.length = 0 then
    { verifiedData := []
      verifiedMeta := []
      totalFetchedDataQuads := dataQuads.length
      totalFetchedMetaQuads := metaQuads.length
      rejectedKcs := 0
      emptyResponses := 0
      metaOnlyResponses := 0
      dataRejectedMissingMeta := 1 }
  else
    let verified := verifySyncedData hashing dataQuads metaQuads acceptUnverified
    { verifiedData := verified.verified
      verifiedMeta := verified.metadata
      totalFetchedDataQuads := dataQuads.length
      totalFetchedMetaQuads := metaQuads.length
      rejectedKcs := verified.rejected
      emptyResponses := 0
      metaOnlyResponses :=
        if acceptUnverified = false ∧ 0 < metaQuads.length ∧ dataQuads.length = 0 then 1 else 0
      dataRejectedMissingMeta := 0 }

/-! ## The rows of the metadata -/

/-- A row of the metadata. -/
def States (metaQuads : List Quad) (predicate subject text : Term) : Prop :=
  ∃ q ∈ metaQuads, q.subject = subject ∧ q.predicate = predicate ∧ stripLiteral q.object = text

variable {metaQuads dataQuads : List Quad} {predicate subject text root kcUal ka : Term}

section

omit [LinearOrder B] [Zero B]

lemma get_lastObjects (predicate subject : Term) (metaQuads : List Quad) :
    (lastObjects predicate metaQuads).get subject =
      ((metaQuads.filter fun q => q.predicate = predicate ∧ q.subject = subject).getLast?).map
        fun q => stripLiteral q.object := by
  induction metaQuads using List.reverseRecOn with
  | nil => rfl
  | append_singleton rest q ih =>
    have hstep : lastObjects predicate (rest ++ [q]) =
        if q.predicate = predicate then
          (lastObjects predicate rest).set q.subject (stripLiteral q.object)
        else lastObjects predicate rest := by
      rw [lastObjects, List.foldl_append]
      rfl
    rw [hstep, List.filter_append]
    by_cases hpredicate : q.predicate = predicate
    · by_cases hsubject : q.subject = subject
      · subst hsubject
        simp [hpredicate, get_set_self]
      · rw [if_pos hpredicate, get_set_of_ne (Ne.symm hsubject), ih]
        simp [hsubject]
    · rw [if_neg hpredicate, ih]
      simp [hpredicate]

lemma states_of_get (h : (lastObjects predicate metaQuads).get subject = some text) :
    States metaQuads predicate subject text := by
  rw [get_lastObjects] at h
  obtain ⟨q, hq, htext⟩ := map_eq_some_iff.mp h
  have hrow := List.mem_of_getLast? hq
  simp only [List.mem_filter, decide_eq_true_eq] at hrow
  exact ⟨q, hrow.1, hrow.2.2, hrow.2.1, htext⟩

lemma exists_get_of_states (h : States metaQuads predicate subject text) :
    ∃ text', (lastObjects predicate metaQuads).get subject = some text' := by
  obtain ⟨q, hq, hsubject, hpredicate, _⟩ := h
  have hrow : q ∈ metaQuads.filter fun q => q.predicate = predicate ∧ q.subject = subject := by
    simp [hq, hsubject, hpredicate]
  refine ⟨stripLiteral (List.getLast _ (List.ne_nil_of_mem hrow)).object, ?_⟩
  rw [get_lastObjects, List.getLast?_eq_some_getLast (List.ne_nil_of_mem hrow), map_some]

lemma mem_keys_kcMerkleRoots :
    kcUal ∈ (kcMerkleRoots metaQuads).keys ↔ ∃ claimed,
        States metaQuads dkgMerkleRoot kcUal claimed :=
  ⟨fun h => (mem_keys_iff.mp h).imp fun _ => states_of_get,
    fun ⟨_, h⟩ => mem_keys_iff.mpr (exists_get_of_states h)⟩

/-! ## Root entities -/

lemma rootEntitiesOf_eq (metaQuads : List Quad) (kcUal : Term) :
    rootEntitiesOf metaQuads kcUal = (kaToKc metaQuads).entries.filterMap fun ka =>
      (rootEntityOf metaQuads ka).bind fun e => if e.1 = kcUal then some e.2 else none := by
  rw [rootEntitiesOf, kcRootEntities, getD_foldl_appendAt]
  rfl

lemma mem_rootEntitiesOf : root ∈ rootEntitiesOf metaQuads kcUal ↔
    ∃ ka, (kaToKc metaQuads).get ka = some kcUal ∧ (kaRootEntity metaQuads).get ka = some root ∧
      root ≠ [] ∧ kcUal ∈ (kcMerkleRoots metaQuads).keys := by
  rw [rootEntitiesOf_eq, List.mem_filterMap]
  constructor
  · rintro ⟨⟨ka, kc⟩, hka, hroot⟩
    obtain ⟨e, he, hkc⟩ := bind_eq_some_iff.mp hroot
    obtain ⟨rootEntity, hentity, hkey⟩ := bind_eq_some_iff.mp he
    obtain ⟨hget, hne⟩ := filter_eq_some_iff.mp hentity
    split at hkey
    next hmem =>
      cases hkey
      split at hkc
      next heq =>
        cases hkc
        have heq : kc = kcUal := heq
        subst heq
        exact ⟨ka, get_of_mem hka, hget, by simpa using hne, hmem⟩
      next => cases hkc
    next => cases hkey
  · rintro ⟨ka, hka, hget, hne, hmem⟩
    have hentity : (some root).filter (fun r => decide (r ≠ [])) = some root :=
      filter_eq_some_iff.mpr ⟨rfl, by simpa using hne⟩
    exact ⟨(ka, kcUal), mem_of_get hka, by
      simp only [rootEntityOf, hget, hentity]
      simp [hmem]⟩

lemma mem_allKnownRootEntities : root ∈ allKnownRootEntities metaQuads ↔
    ∃ kcUal, root ∈ rootEntitiesOf metaQuads kcUal := by
  rw [allKnownRootEntities, List.mem_flatMap]
  constructor
  · rintro ⟨⟨kcUal, roots⟩, hkc, hroot⟩
    exact ⟨kcUal, by rw [rootEntitiesOf, get_of_mem hkc]; exact hroot⟩
  · rintro ⟨kcUal, hroot⟩
    cases hget : (kcRootEntities metaQuads).get kcUal with
    | none =>
      rw [rootEntitiesOf, hget] at hroot
      cases hroot
    | some roots =>
      rw [rootEntitiesOf, hget] at hroot
      exact ⟨(kcUal, roots), mem_of_get hget, hroot⟩

end

/-! ## What passes -/

variable {hashing : Hashing B} {q : Quad}

/-- The collection is not compared, or its flat root is the claimed one. -/
def Passes (hashing : Hashing B) (dataQuads metaQuads : List Quad) (kc : Term × Term) : Prop :=
  rootEntitiesOf metaQuads kc.1 = [] ∨ kc.1 ∈ overlappingKCs metaQuads ∨
    HasFlatRoot hashing (allQuadsForKC dataQuads metaQuads kc.1)
      (privateRoots hashing.ofBytes metaQuads kc.1) kc.2
  deriving Decidable

lemma checkKc_eq (checked : Checked) (kc : Term × Term) :
    checkKc hashing dataQuads metaQuads checked kc =
      if Passes hashing dataQuads metaQuads kc then
        { checked with verifiedKcUals := checked.verifiedKcUals ++ [kc.1] }
      else { checked with rejected := checked.rejected + 1 } := by
  unfold checkKc
  by_cases hroots : rootEntitiesOf metaQuads kc.1 = []
  · have hpasses : Passes hashing dataQuads metaQuads kc := .inl hroots
    rw [if_pos hroots, if_pos hpasses]
  · rw [if_neg hroots]
    by_cases hoverlap : kc.1 ∈ overlappingKCs metaQuads
    · have hpasses : Passes hashing dataQuads metaQuads kc := .inr (.inl hoverlap)
      rw [if_pos hoverlap, if_pos hpasses]
    · rw [if_neg hoverlap]
      by_cases hroot : HasFlatRoot hashing (allQuadsForKC dataQuads metaQuads kc.1)
          (privateRoots hashing.ofBytes metaQuads kc.1) kc.2
      · have hpasses : Passes hashing dataQuads metaQuads kc := .inr (.inr hroot)
        rw [if_pos hroot, if_pos hpasses]
      · have hfails : ¬ Passes hashing dataQuads metaQuads kc := by
          rintro (h | h | h)
          · exact hroots h
          · exact hoverlap h
          · exact hroot h
        rw [if_neg hroot, if_neg hfails]

lemma foldl_checkKc (kcs : List (Term × Term)) (checked : Checked) :
    kcs.foldl (checkKc hashing dataQuads metaQuads) checked =
      { verifiedKcUals := checked.verifiedKcUals ++
          (kcs.filter fun kc => Passes hashing dataQuads metaQuads kc).map Prod.fst
        rejected := checked.rejected +
          (kcs.filter fun kc => ¬ Passes hashing dataQuads metaQuads kc).length } := by
  induction kcs generalizing checked with
  | nil => simp
  | cons kc kcs ih =>
    rw [List.foldl_cons, ih, checkKc_eq]
    by_cases h : Passes hashing dataQuads metaQuads kc
    · simp [h]
    · simp [h]
      omega

lemma mem_checkAll : kcUal ∈ (checkAll hashing dataQuads metaQuads).verifiedKcUals ↔
    ∃ claimed, (kcMerkleRoots metaQuads).get kcUal = some claimed ∧
      Passes hashing dataQuads metaQuads (kcUal, claimed) := by
  rw [checkAll, foldl_checkKc]
  simp only [List.nil_append, List.mem_map, List.mem_filter, decide_eq_true_eq]
  constructor
  · rintro ⟨⟨kc, claimed⟩, ⟨hkc, hpasses⟩, rfl⟩
    exact ⟨claimed, get_of_mem hkc, hpasses⟩
  · rintro ⟨claimed, hget, hpasses⟩
    exact ⟨(kcUal, claimed), ⟨mem_of_get hget, hpasses⟩, rfl⟩

lemma mem_verifiedRootEntities {verifiedKcUals : List Term} :
    root ∈ verifiedRootEntities metaQuads verifiedKcUals ↔
      ∃ kcUal ∈ verifiedKcUals, root ∈ rootEntitiesOf metaQuads kcUal := List.mem_flatMap

lemma keepsData_iff {verifiedKcUals : List Term} : KeepsData metaQuads verifiedKcUals q ↔
    ((∃ kcUal, q.subject ∈ rootEntitiesOf metaQuads kcUal) →
      ∃ kcUal ∈ verifiedKcUals, q.subject ∈ rootEntitiesOf metaQuads kcUal) := by
  unfold KeepsData
  rw [← mem_allKnownRootEntities, ← mem_verifiedRootEntities]
  split
  next hknown => exact ⟨fun h _ => h, fun h => h hknown⟩
  next hnew => exact ⟨fun _ h => absurd h hnew, fun _ => .inr trivial⟩

/-- What a batch comes to, when it is verified and some collection claims a root. -/
lemma processDurableBatch_eq (h : ∃ kcUal claimed, States metaQuads dkgMerkleRoot kcUal claimed) :
    processDurableBatch hashing dataQuads metaQuads false =
      { verifiedData := dataQuads.filter (KeepsData metaQuads
          (checkAll hashing dataQuads metaQuads).verifiedKcUals)
        verifiedMeta := metaQuads.filter (KeepsMeta metaQuads
          (checkAll hashing dataQuads metaQuads).verifiedKcUals)
        totalFetchedDataQuads := dataQuads.length
        totalFetchedMetaQuads := metaQuads.length
        rejectedKcs := (checkAll hashing dataQuads metaQuads).rejected
        emptyResponses := 0
        metaOnlyResponses := if dataQuads.length = 0 then 1 else 0
        dataRejectedMissingMeta := 0 } := by
  obtain ⟨kcUal, claimed, hclaimed⟩ := h
  have hmeta : metaQuads.length ≠ 0 := by
    obtain ⟨q, hq, _⟩ := hclaimed
    exact (List.length_pos_of_mem hq).ne'
  have hsize : (kcMerkleRoots metaQuads).size ≠ 0 := by
    have hkey := mem_keys_kcMerkleRoots.mpr ⟨claimed, hclaimed⟩
    have := List.length_pos_of_mem hkey
    rw [keys, List.length_map] at this
    exact this.ne'
  have hpos : 0 < metaQuads.length := Nat.pos_of_ne_zero hmeta
  simp [processDurableBatch, verifySyncedData, hmeta, hsize, hpos]

/-- A batch is kept whole if all collections pass, and the assets are of collections that claim a
root or no collection does. -/
lemma verifySyncedData_of_passes {acceptUnverified : Bool}
    (hpasses : ∀ kcUal claimed, (kcMerkleRoots metaQuads).get kcUal = some claimed →
      Passes hashing dataQuads metaQuads (kcUal, claimed))
    (hpartOf : ∀ ka kcUal, (kaToKc metaQuads).get ka = some kcUal → kcUal ≠ [] →
      ka ∉ (kcMerkleRoots metaQuads).keys →
        kcUal ∈ (kcMerkleRoots metaQuads).keys ∨ (kcMerkleRoots metaQuads).size = 0) :
    verifySyncedData hashing dataQuads metaQuads acceptUnverified = ⟨dataQuads, metaQuads, 0⟩ := by
  have hrejected : (checkAll hashing dataQuads metaQuads).rejected = 0 := by
    rw [checkAll, foldl_checkKc]
    show 0 + List.length _ = 0
    rw [Nat.zero_add, List.length_eq_zero_iff, List.filter_eq_nil_iff]
    intro kc hkc
    simpa using hpasses kc.1 kc.2 (get_of_mem hkc)
  have hall : ∀ kcUal ∈ (kcMerkleRoots metaQuads).keys,
      kcUal ∈ (checkAll hashing dataQuads metaQuads).verifiedKcUals := by
    intro kcUal hkey
    obtain ⟨claimed, hget⟩ := mem_keys_iff.mp hkey
    exact mem_checkAll.mpr ⟨claimed, hget, hpasses kcUal claimed hget⟩
  have hdata : dataQuads.filter (KeepsData metaQuads
      (checkAll hashing dataQuads metaQuads).verifiedKcUals) = dataQuads := by
    apply List.filter_eq_self.mpr
    intro q _
    refine decide_eq_true (keepsData_iff.mpr ?_)
    rintro ⟨kcUal, hkc⟩
    exact ⟨kcUal, hall kcUal (mem_rootEntitiesOf.mp hkc).choose_spec.2.2.2, hkc⟩
  rw [verifySyncedData]
  split
  next => rfl
  split
  next => rfl
  next hsome =>
    have hmetaQuads : metaQuads.filter (KeepsMeta metaQuads
        (checkAll hashing dataQuads metaQuads).verifiedKcUals) = metaQuads := by
      apply List.filter_eq_self.mpr
      intro q _
      refine decide_eq_true ?_
      unfold KeepsMeta
      split
      next hkey => exact hall q.subject hkey
      next hnokc =>
        intro kcUri hkc
        obtain ⟨hget, hne⟩ := filter_eq_some_iff.mp hkc
        have hclaims := hpartOf q.subject kcUri hget (by simpa using hne) hnokc
        exact hall kcUri (hclaims.resolve_right hsome)
    simp only [hrejected, hdata, hmetaQuads]
    simp

/-- Where unverified data is accepted, a collection that fails lets everything through. -/
lemma verifySyncedData_of_fails {kc : Term × Term} (hkc : kc ∈ (kcMerkleRoots metaQuads).entries)
    (hfails : ¬ Passes hashing dataQuads metaQuads kc) :
    verifySyncedData hashing dataQuads metaQuads true = ⟨dataQuads, metaQuads, 0⟩ := by
  have hrejected : 0 < (checkAll hashing dataQuads metaQuads).rejected := by
    rw [checkAll, foldl_checkKc]
    show 0 < 0 + List.length _
    rw [Nat.zero_add]
    exact List.length_pos_of_mem (List.mem_filter.mpr ⟨hkc, by simpa using hfails⟩)
  have hverified : (checkAll hashing dataQuads metaQuads).verifiedKcUals.length <
      (kcMerkleRoots metaQuads).size := by
    rw [checkAll, foldl_checkKc, List.nil_append, List.length_map]
    exact List.length_filter_lt_length_iff_exists.mpr ⟨kc, hkc, by simpa using hfails⟩
  rw [verifySyncedData]
  split
  next => rfl
  split
  next => rfl
  next => exact if_pos ⟨rfl, hrejected, hverified⟩

/-- A batch that is kept whole, unless it is data without metadata. -/
lemma processDurableBatch_of_kept {acceptUnverified : Bool}
    (h : verifySyncedData hashing dataQuads metaQuads acceptUnverified = ⟨dataQuads, metaQuads, 0⟩)
    (hmeta : metaQuads = [] → dataQuads ≠ [] → acceptUnverified = true) :
    processDurableBatch hashing dataQuads metaQuads acceptUnverified =
      { verifiedData := dataQuads
        verifiedMeta := metaQuads
        totalFetchedDataQuads := dataQuads.length
        totalFetchedMetaQuads := metaQuads.length
        rejectedKcs := 0
        emptyResponses := if dataQuads = [] ∧ metaQuads = [] then 1 else 0
        metaOnlyResponses :=
          if acceptUnverified = false ∧ metaQuads ≠ [] ∧ dataQuads = [] then 1 else 0
        dataRejectedMissingMeta := 0 } := by
  unfold processDurableBatch
  by_cases hnil : dataQuads = [] ∧ metaQuads = []
  · obtain ⟨rfl, rfl⟩ := hnil
    simp
  · have hrefused : ¬ (acceptUnverified = false ∧ 0 < dataQuads.length ∧ metaQuads.length = 0) := by
      rintro ⟨hverify, hdata, hlength⟩
      rw [hmeta (List.length_eq_zero_iff.mp hlength) (List.ne_nil_of_length_pos hdata)] at hverify
      cases hverify
    rw [if_neg (by simpa only [List.length_eq_zero_iff] using hnil), if_neg hrefused, h,
        if_neg hnil]
    simp only [List.length_pos_iff, List.length_eq_zero_iff]

end Dkg.Sync.Verification
