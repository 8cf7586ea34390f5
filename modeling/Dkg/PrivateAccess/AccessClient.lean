import Dkg.PrivateAccess.Confinement
import Dkg.Publisher.NQuadLines

/-! # What the requester of private triples reads

`AccessClient.requestAccess` reads the lines of a response and compares their root with the root of
the response. The handler writes the object of a triple as the store gives it, an IRI without angle
brackets, and no term of a line begins with such a character. So the client reads the triples
without an IRI as their object (`parseSimpleNQuads_nquads`).
-/

namespace Dkg.PrivateAccess

open Lib List Publisher SharedMemory Option
open Sync.Verification (Hashing)

/-! ## The client -/

/-- A decoded response; the root is `none` when it has not 32 bytes. -/
structure DecodedResponse (B : Type) where
  granted : Bool
  nquads : Term
  privateMerkleRoot : Option B
  rejectionReason : Term

structure AccessResult (B : Type) where
  granted : Bool
  quads : List Quad
  privateMerkleRoot : Option B
  verified : Bool
  rejectionReason : Option Term

/-- The response of a granted request, as it arrives. -/
def AccessResponse.decoded {B : Type} (response : AccessResponse B) : DecodedResponse B where
  granted := true
  nquads := response.nquads
  privateMerkleRoot := some response.privateMerkleRoot
  rejectionReason := []

section

variable {B : Type} [LinearOrder B] [Zero B] {hashing : Hashing B}

def zeroBytes (hashing : Hashing B) : B := hashing.ofBytes (replicate 32 0)

/-- `requestAccess`, from the decoded response on. -/
def requestAccess (hashing : Hashing B) (response : DecodedResponse B) : AccessResult B :=
  if response.granted then
    let quads := parseSimpleNQuads response.nquads
    { granted := true
      quads := quads
      privateMerkleRoot := response.privateMerkleRoot
      verified := response.privateMerkleRoot.any fun root =>
        root ≠ zeroBytes hashing ∧ computePrivateRootV10 hashing quads = some root
      rejectionReason := none }
  else
    { granted := false
      quads := []
      privateMerkleRoot := none
      verified := false
      rejectionReason := some response.rejectionReason }

/-- **Verified triples** have the root that came with them, whatever the response is. -/
theorem computePrivateRootV10_of_verified {response : DecodedResponse B}
    (h : (requestAccess hashing response).verified = true) :
    ∃ root, response.privateMerkleRoot = some root ∧
      computePrivateRootV10 hashing (requestAccess hashing response).quads = some root := by
  unfold requestAccess at h ⊢
  split at h
  next hgranted =>
    rw [if_pos hgranted]
    obtain ⟨root, hroot, hverified⟩ := (any_eq_true _ _).mp h
    exact ⟨root, hroot, (of_decide_eq_true hverified).2⟩
  next => cases h

end

/-! ## The lines of a response -/

/-- An object as the store gives it. An IRI begins with the letter of its scheme. -/
inductive StoredObject : Term → Prop
  | iri {c : Char} {rest : List Char} : c.isAlpha → StoredObject (c :: rest)
  | blank {label : List Char} : ' ' ∉ label → StoredObject ('_' :: ':' :: label)
  | literal {value suffix : List Char} : Escaped value → IsSuffix suffix →
      StoredObject ('\x22' :: (value ++ '\x22' :: suffix))

/-- A row of `getPrivateTriples`, its subject an IRI. -/
structure StoredRow (q : Quad) : Prop where
  subject : IsPlainTerm q.subject
  predicate : IsPlainTerm q.predicate
  object : StoredObject q.object
  graph : IsPlainTerm q.graph
  line : '\n' ∉ q.object

variable {q : Quad} {object : Term}

/-- A literal or a blank node is one term of the line. -/
lemma StoredObject.isOneTerm (h : StoredObject object) (hiri : ¬ IsIri object) :
    IsOneTerm object := by
  intro n rest hrest
  cases h with
  | @iri c object hc =>
    refine absurd ⟨?_, ?_⟩ hiri
    · rintro ⟨_, heq⟩
      cases heq
      cases hc
    · rintro ⟨_, heq⟩
      cases heq
      cases hc
  | @blank label hlabel =>
    have hword : ∀ c ∈ ':' :: label, decide (c ≠ ' ') = true := by
      intro c hc
      rcases mem_cons.mp hc with rfl | hc
      · rfl
      · exact decide_eq_true fun heq => hlabel (heq ▸ hc)
    have hstop : rest.takeWhile (· ≠ ' ') = [] ∧ rest.dropWhile (· ≠ ' ') = rest := by
      cases rest with
      | nil => exact ⟨rfl, rfl⟩
      | cons c rest =>
        cases hrest c rfl
        exact ⟨rfl, rfl⟩
    show ('_' :: (':' :: label ++ rest).takeWhile (· ≠ ' ')) ::
      splitNQuadLine n ((':' :: label ++ rest).dropWhile (· ≠ ' ')) = _
    rw [takeWhile_append_of_pos hword, dropWhile_append_of_pos hword, hstop.1, hstop.2, append_nil]
  | @literal value suffix hvalue hsuffix =>
    have hobject := splitNQuadLine_object n (.literal hvalue hsuffix) hrest
    rwa [writeObject, if_pos ⟨_, rfl⟩] at hobject

lemma StoredObject.no_term (h : StoredObject object) (hiri : IsIri object) (n : ℕ)
    (rest : List Char) : splitNQuadLine n (' ' :: (object ++ rest)) = [] := by
  cases n with
  | zero => rfl
  | succ n =>
    cases h with
    | @iri c object hc =>
      have hspace : c ≠ ' ' := by
        rintro rfl
        cases hc
      have hdrop : (' ' :: (c :: object ++ rest)).dropWhile (· = ' ') = c :: (object ++ rest) := by
        rw [dropWhile_cons_of_pos (by rfl), cons_append,
          dropWhile_cons_of_neg (by simpa using hspace)]
      rw [splitNQuadLine, hdrop]
      split
      next heq => cases heq; cases hc
      next heq => cases heq; cases hc
      next heq => cases heq; cases hc
      next => rfl
    | blank => exact absurd ⟨_, rfl⟩ hiri.1
    | literal => exact absurd ⟨_, rfl⟩ hiri.2

lemma StoredObject.stripped (h : StoredObject object) :
    (if ['\x22'] <+: object then object else stripAngleBrackets object) = object := by
  have hbracket : ¬ ['<'] <+: object := by
    rintro ⟨_, heq⟩
    cases h with
    | iri hc => cases heq; cases hc
    | blank => cases heq
    | literal => cases heq
  have hstrip : stripAngleBrackets object = object := if_neg fun h => hbracket h.1
  rw [hstrip, ite_self]

/-- The client reads a row unless its object is an IRI. -/
lemma StoredRow.parseLine (h : StoredRow q) :
    parseLine (lineBody q q.object ++ " .".toList) = if IsIri q.object then none else some q := by
  by_cases hiri : IsIri q.object
  · rw [if_pos hiri]
    exact parseLine_of_no_term h.subject.1 h.predicate.1 (h.object.no_term hiri)
  · rw [if_neg hiri, parseLine_of_isOneTerm h.subject.1 h.predicate.1 h.graph.1
      (h.object.isOneTerm hiri), h.object.stripped]

lemma StoredRow.no_break (h : StoredRow q) : '\n' ∉ lineBody q q.object ++ " .".toList := by
  simp [lineBody, h.subject.2, h.predicate.2, h.graph.2, h.line]

/-- **What the client reads** of a response: the rows without an IRI as their object. -/
lemma parseSimpleNQuads_nquads {B : Type} {response : AccessResponse B}
    (h : ∀ q ∈ response.privateQuads, StoredRow q) :
    parseSimpleNQuads response.nquads = response.privateQuads.filter fun q => ¬ IsIri q.object := by
  have hwrite : response.nquads = ['\n'].intercalate
      (response.privateQuads.map fun q => lineBody q q.object ++ " .".toList) := by
    simp [AccessResponse.nquads, lineBody]
  by_cases hnil : response.privateQuads = []
  · rw [hwrite, hnil]
    rfl
  · have hlines : ∀ l ∈ response.privateQuads.map (fun q => lineBody q q.object ++ " .".toList),
        '\n' ∉ l := by
      intro l hl
      obtain ⟨q, hq, rfl⟩ := mem_map.mp hl
      exact (h q hq).no_break
    rw [hwrite, parseSimpleNQuads, splitOn_intercalate _ hlines (by simpa using hnil),
      filterMap_map]
    calc response.privateQuads.filterMap
          (parseLine ∘ fun q => lineBody q q.object ++ " .".toList)
        = response.privateQuads.filterMap fun q => if IsIri q.object then none else some q :=
          filterMap_congr fun q hq => (h q hq).parseLine
      _ = response.privateQuads.filter fun q => ¬ IsIri q.object := by
          rw [← filterMap_eq_filter]
          refine filterMap_congr fun q _ => ?_
          by_cases hiri : IsIri q.object <;> simp [hiri, Option.guard]

/-! ## Granted requests -/

section

variable {B : Type} [LinearOrder B] [Zero B] {hashing : Hashing B} {store : TripleStore}
variable {ed25519Verify : List ℕ → Term → List ℕ → Bool} {tracked : Bool}
variable {request : AccessRequest} {fromPeerId : PeerId} {answer : Option Row} {rows : List Quad}
variable {response : AccessResponse B}

/-- The recorded root is the root of the rows. -/
def RecordsRoot (hashing : Hashing B) (rows : List Quad) (row : Row) : Prop :=
  (recordedRoot row.privateMerkleRoot).map (Option.map hashing.ofBytes) =
    .ok (computePrivateRootV10 hashing rows)

/-- **Granted private triples.** The requester gets exactly the triples, verified, if and only if
there are any and none has an IRI as its object. Verified triples have the root that came with them,
whatever the response is. -/
theorem granted_triples_iff
    (hresponse : handleAccess hashing ed25519Verify tracked store request fromPeerId answer rows =
      .ok response) (hrows : ∀ q ∈ rows, StoredRow q)
    (hroot : ∀ row ∈ answer, RecordsRoot hashing rows row)
    (hzero : computePrivateRootV10 hashing rows ≠ some (zeroBytes hashing)) :
    (((∀ q, q ∈ (requestAccess hashing response.decoded).quads ↔ q ∈ rows) ∧
        (requestAccess hashing response.decoded).verified = true) ↔
      rows ≠ [] ∧ ∀ q ∈ rows, ¬ IsIri q.object) ∧
    ∀ received : DecodedResponse B, (requestAccess hashing received).verified = true →
      ∃ root, received.privateMerkleRoot = some root ∧
        computePrivateRootV10 hashing (requestAccess hashing received).quads = some root := by
  refine ⟨?_, fun received => computePrivateRootV10_of_verified⟩
  obtain ⟨row, hrow, _, recorded, hrecorded, rfl⟩ := handleAccess_ok hresponse
  have hquads : (requestAccess hashing (AccessResponse.decoded
      ⟨rows, responseRoot hashing recorded rows⟩)).quads = rows.filter fun q => ¬ IsIri q.object :=
    parseSimpleNQuads_nquads hrows
  -- The response has the recorded root.
  have hmap : recorded.map hashing.ofBytes = computePrivateRootV10 hashing rows := by
    have h := hroot row hrow
    rw [RecordsRoot, hrecorded] at h
    exact Except.ok.inj h
  constructor
  · rintro ⟨hall, hverified⟩
    obtain ⟨root, _, hcomputed⟩ := computePrivateRootV10_of_verified hverified
    have hiri : ∀ q ∈ rows, ¬ IsIri q.object := by
      intro q hq
      have hread := (hall q).mpr hq
      rw [hquads] at hread
      simpa using (mem_filter.mp hread).2
    refine ⟨?_, hiri⟩
    rintro rfl
    rw [hquads] at hcomputed
    cases hcomputed
  · rintro ⟨hne, hiri⟩
    have hsame : (rows.filter fun q => ¬ IsIri q.object) = rows :=
      filter_eq_self.mpr fun q hq => decide_eq_true (hiri q hq)
    obtain ⟨root, hcomputed⟩ : ∃ root, computePrivateRootV10 hashing rows = some root :=
      ⟨_, if_neg hne⟩
    obtain ⟨bytes, rfl, hbytes⟩ := map_eq_some_iff.mp (hmap.trans hcomputed)
    rw [hquads, hsame]
    refine ⟨fun _ => Iff.rfl, ?_⟩
    have hread : (requestAccess hashing (AccessResponse.decoded
        ⟨rows, responseRoot hashing (some bytes) rows⟩)).quads = rows :=
      hquads.trans hsame
    refine decide_eq_true ⟨fun heq => hzero (hcomputed.trans ?_), ?_⟩
    · exact congrArg some (hbytes.symm.trans heq)
    · exact (congrArg _ hread).trans (hcomputed.trans (congrArg some hbytes.symm))

end

/-! ## One triple -/

namespace Delivery

/-- A number for a hash, and as many bytes. -/
def hashing : Hashing ℕ where
  keccak256 := List.length
  hashPair := (· + ·)
  toHex _ := []
  ofBytes := List.length

def triple (object : Term) : Quad := ⟨"urn:r".toList, ['p'], object, privateGraph ['g'] none⟩

/-- A public collection with one asset, and the number of bytes of its private root. -/
def row (bytes : ℕ) : Row where
  rootEntity := "urn:r".toList
  contextGraph := contextGraphDataUri ['g']
  kc := "u/v".toList
  privateMerkleRoot := some (lit (replicate (2 * bytes) '0'))
  privateTripleCount := none
  accessPolicy := some (lit "public".toList)
  publisherPeerId := none
  attributedTo := none
  sgName := none

def kaUal : Term := "u/v/1".toList

def store (bytes : ℕ) (object : Term) : TripleStore :=
  let graph := (row bytes).graph
  {⟨kaUal, dkg "rootEntity", (row bytes).rootEntity, graph⟩,
    ⟨kaUal, dkg "partOf", (row bytes).kc, graph⟩,
    ⟨(row bytes).kc, dkg "paranet", (row bytes).contextGraph, graph⟩,
    ⟨kaUal, dkg "privateMerkleRoot", lit (replicate (2 * bytes) '0'), graph⟩,
    ⟨(row bytes).kc, dkg "accessPolicy", lit "public".toList, graph⟩, triple object}

def answered (bytes : ℕ) (object : Term) : Except Denial (AccessResponse ℕ) :=
  handleAccess hashing Replay.verify false (store bytes object) (Replay.request kaUal)
    Replay.stranger (some (row bytes)) [triple object]

lemma computePrivateRootV10_single (q : Quad) :
    computePrivateRootV10 hashing [q] = some (hashTripleV10 hashing.keccak256 q) := by
  rw [← computeFlatKCRootV10_single hashing.keccak256 hashing.hashPair]
  rfl

lemma recordsRoot {bytes : ℕ} {object : Term}
    (h : (recordedRoot (row bytes).privateMerkleRoot).toOption.map (Option.map length) =
      some (some (hashTripleV10 length (triple object)))) :
    RecordsRoot hashing [triple object] (row bytes) := by
  rw [RecordsRoot, computePrivateRootV10_single]
  cases hroot : recordedRoot (row bytes).privateMerkleRoot with
  | error denial => rw [hroot] at h; cases h
  | ok recorded => rw [hroot] at h; exact congrArg Except.ok (Option.some.inj h)

end Delivery

open Delivery in
/-- A triple with a literal is delivered. -/
theorem literal_is_delivered : ∃ response, answered 17 "\x22x\x22".toList = .ok response ∧
    (requestAccess hashing response.decoded).verified = true := by
  have hok : (answered 17 "\x22x\x22".toList).toOption.isSome := by decide +kernel
  obtain ⟨response, hresponse⟩ := isSome_iff_exists.mp hok
  have heq := eq_ok_of_toOption hresponse
  have hrow : StoredRow (triple "\x22x\x22".toList) := {
    subject := by decide
    predicate := by decide
    object := .literal (.char (by decide) (by decide) .nil) .none
    graph := by decide +kernel
    line := by decide }
  have hdelivered := granted_triples_iff heq (forall_mem_singleton.mpr hrow)
    (by rintro _ ⟨rfl⟩; exact recordsRoot (by decide +kernel))
    (by rw [computePrivateRootV10_single]; decide +kernel)
  have hiri : ∀ q ∈ [triple "\x22x\x22".toList], ¬ IsIri q.object := by decide +kernel
  exact ⟨response, heq, (hdelivered.1.mpr ⟨cons_ne_nil _ _, hiri⟩).2⟩

open Delivery in
/-- A triple with an IRI is granted, and the requester reads nothing. -/
theorem iri_is_dropped : IsAnswer (store 21 "urn:o".toList) kaUal (some (row 21)) ∧
    ArePrivateTriples (store 21 "urn:o".toList) (row 21).privateGraph (row 21).rootEntity
      [triple "urn:o".toList] ∧
    RecordsRoot hashing [triple "urn:o".toList] (row 21) ∧
    ∃ response, answered 21 "urn:o".toList = .ok response ∧
      (requestAccess hashing response.decoded).quads = [] ∧
      (requestAccess hashing response.decoded).verified = false := by
  have hok : (answered 21 "urn:o".toList).toOption.isSome := by decide +kernel
  obtain ⟨response, hresponse⟩ := isSome_iff_exists.mp hok
  have heq := eq_ok_of_toOption hresponse
  have hread : parseSimpleNQuads response.nquads = [] := by
    obtain ⟨_, _, _, _, _, rfl⟩ := handleAccess_ok heq
    show parseSimpleNQuads (AccessResponse.nquads (⟨[triple _], 0⟩ : AccessResponse ℕ)) = []
    decide +kernel
  refine ⟨by constructor <;> decide +kernel, Replay.arePrivateTriples_singleton (by decide +kernel),
    recordsRoot (by decide +kernel), response, heq, hread, ?_⟩
  refine decide_eq_false fun hverified => ?_
  have hcomputed := hverified.2
  rw [show parseSimpleNQuads response.decoded.nquads = [] from hread] at hcomputed
  cases hcomputed

end Dkg.PrivateAccess
