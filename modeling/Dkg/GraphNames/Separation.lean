import Dkg.GraphNames.Uris

/-! # When the URIs are separated

A graph's URI is the data graph of its context graph and a path of segments, of which only the ids
under `/context/` and of verified memories may have slashes. A record's URI ends with an address and
a name.
-/

namespace Dkg.GraphNames

open Assertions Lib SharedMemory List Named

/-! ## Segments -/

namespace GraphKind

def segments : GraphKind → List Term
  | .data none => []
  | .data (some subGraphId) => ["context".toList, subGraphId]
  | .metadata none => ["_meta".toList]
  | .metadata (some subGraphId) => ["context".toList, subGraphId, "_meta".toList]
  | .privateData => ["_private".toList]
  | .sharedMemory none => ["_shared_memory".toList]
  | .sharedMemory (some subGraphName) => [subGraphName, "_shared_memory".toList]
  | .sharedMemoryMeta none => ["_shared_memory_meta".toList]
  | .sharedMemoryMeta (some subGraphName) => [subGraphName, "_shared_memory_meta".toList]
  | .verifiedMemory verifiedMemoryId => ["_verified_memory".toList, verifiedMemoryId]
  | .verifiedMemoryMeta verifiedMemoryId =>
    ["_verified_memory".toList, verifiedMemoryId, "_meta".toList]
  | .assertion agentAddress name none => ["assertion".toList, agentAddress, name]
  | .assertion agentAddress name (some subGraphName) =>
    [subGraphName, "assertion".toList, agentAddress, name]
  | .rules => ["_rules".toList]
  | .subGraph subGraphName => [subGraphName]
  | .subGraphMeta subGraphName => [subGraphName, "_meta".toList]
  | .subGraphPrivate subGraphName => [subGraphName, "_private".toList]

def path (kind : GraphKind) : Term := separated '/' kind.segments

lemma uri_eq (contextGraphId : Term) (kind : GraphKind) :
    kind.uri contextGraphId = contextGraphDataUri contextGraphId ++ kind.path := by
  have hscope : scopeUri contextGraphId none = contextGraphDataUri contextGraphId := append_nil _
  have hsub : ∀ subGraphName, scopeUri contextGraphId (some subGraphName) =
      contextGraphDataUri contextGraphId ++ '/' :: subGraphName := fun _ => rfl
  unfold path
  cases kind with
  | data subGraphId =>
    cases subGraphId with
    | none => exact (append_nil _).symm
    | some id =>
      show contextGraphDataUri contextGraphId ++ _ ++ id = _
      simp only [segments, separated, flatMap_cons, flatMap_nil, cons_append, append_nil,
          append_assoc]
      rfl
  | metadata subGraphId =>
    cases subGraphId with
    | none =>
      show contextGraphDataUri contextGraphId ++ _ = _
      simp only [segments, separated, flatMap_cons, flatMap_nil, append_nil]
      rfl
    | some id =>
      show contextGraphDataUri contextGraphId ++ _ ++ id ++ _ = _
      simp only [segments, separated, flatMap_cons, flatMap_nil, cons_append, append_nil,
          append_assoc]
      rfl
  | sharedMemory subGraphName | sharedMemoryMeta subGraphName =>
    cases subGraphName with
    | none =>
      show scopeUri contextGraphId none ++ _ = _
      simp only [hscope, segments, separated, flatMap_cons, flatMap_nil, append_nil]
      rfl
    | some subGraphName =>
      show scopeUri contextGraphId (some subGraphName) ++ _ = _
      simp only [hsub, segments, separated, flatMap_cons, flatMap_nil, cons_append, append_nil,
        append_assoc]
      rfl
  | assertion agentAddress name subGraphName =>
    cases subGraphName with
    | none =>
      show scopeUri contextGraphId none ++ _ ++ agentAddress ++ _ = _
      simp only [hscope, segments, separated, flatMap_cons, flatMap_nil, cons_append, append_nil,
          append_assoc]
      rfl
    | some subGraphName =>
      show scopeUri contextGraphId (some subGraphName) ++ _ ++ agentAddress ++ _ = _
      simp only [hsub, segments, separated, flatMap_cons, flatMap_nil, cons_append, append_nil,
        append_assoc]
      rfl
  | privateData | rules =>
    show contextGraphDataUri contextGraphId ++ _ = _
    simp only [segments, separated, flatMap_cons, flatMap_nil, append_nil]
    rfl
  | verifiedMemory id =>
    show contextGraphDataUri contextGraphId ++ _ ++ id = _
    simp only [segments, separated, flatMap_cons, flatMap_nil, cons_append, append_nil,
        append_assoc]
    rfl
  | verifiedMemoryMeta id =>
    show contextGraphDataUri contextGraphId ++ _ ++ id ++ _ = _
    simp only [segments, separated, flatMap_cons, flatMap_nil, cons_append, append_nil,
        append_assoc]
    rfl
  | subGraph subGraphName =>
    show contextGraphDataUri contextGraphId ++ '/' :: subGraphName = _
    simp only [segments, separated, flatMap_cons, flatMap_nil, append_nil]
  | subGraphMeta subGraphName | subGraphPrivate subGraphName =>
    show contextGraphDataUri contextGraphId ++ '/' :: subGraphName ++ _ = _
    simp only [segments, separated, flatMap_cons, flatMap_nil, cons_append, append_nil,
        append_assoc, cons_append]
    rfl

def ofSegments : List Term → Option GraphKind
  | [] => some (.data none)
  | [first] =>
    if first = "_meta".toList then some (.metadata none)
    else if first = "_private".toList then some .privateData
    else if first = "_shared_memory".toList then some (.sharedMemory none)
    else if first = "_shared_memory_meta".toList then some (.sharedMemoryMeta none)
    else if first = "_rules".toList then some .rules
    else some (.subGraph first)
  | [first, second] =>
    if second = "_meta".toList then some (.subGraphMeta first)
    else if second = "_private".toList then some (.subGraphPrivate first)
    else if second = "_shared_memory".toList then some (.sharedMemory (some first))
    else if second = "_shared_memory_meta".toList then some (.sharedMemoryMeta (some first))
    else none
  | [_, second, third] => some (.assertion second third none)
  | [first, _, third, fourth] => some (.assertion third fourth (some first))
  | _ => none

/-- The path has no id that lacks a validator. -/
def Plain : GraphKind → Prop
  | .data (some _) | .metadata (some _) | .verifiedMemory _ | .verifiedMemoryMeta _ => False
  | _ => True

end GraphKind

/-- The two places of the ids that lack a validator. -/
inductive Place
  | context
  | verifiedMemory

namespace Place

def word : Place → Term
  | .context => "context".toList
  | .verifiedMemory => "_verified_memory".toList

def ids (w : Vocabulary) : Place → Set Term
  | .context => w.subGraphIds
  | .verifiedMemory => w.verifiedMemoryIds

def graph : Place → Term → GraphKind
  | .context, id => .data (some id)
  | .verifiedMemory, id => .verifiedMemory id

def metaGraph : Place → Term → GraphKind
  | .context, id => .metadata (some id)
  | .verifiedMemory, id => .verifiedMemoryMeta id

lemma word_slash (place : Place) : '/' ∉ place.word := by
  cases place with
  | context => decide
  | verifiedMemory => decide

lemma path_graph (place : Place) (id : Term) :
    (place.graph id).path = separated '/' [place.word, id] := by
  cases place with
  | context => rfl
  | verifiedMemory => rfl

lemma path_metaGraph (place : Place) (id : Term) :
    (place.metaGraph id).path = separated '/' [place.word, id, "_meta".toList] := by
  cases place with
  | context => rfl
  | verifiedMemory => rfl

lemma word_injective : Function.Injective Place.word := by
  intro place place' h
  cases place with
  | context =>
    cases place' with
    | context => rfl
    | verifiedMemory => exact absurd h (by decide)
  | verifiedMemory =>
    cases place' with
    | context => exact absurd h (by decide)
    | verifiedMemory => rfl

end Place

/-! ## What the validators exclude -/

variable {name address : Term}

lemma subGraphName_valid (h : validateSubGraphName name = none) :
    ¬ ['_'] <+: name ∧ '/' ∉ name ∧ name ≠ "context".toList ∧ name ≠ "assertion".toList := by
  unfold validateSubGraphName at h
  split_ifs at h with hempty hunderscore hslash hunsafe hreserved
  refine ⟨hunderscore, hslash, fun hcontext => hreserved ?_, fun hassertion => hreserved ?_⟩
  · rw [hcontext]
    decide
  · rw [hassertion]
    decide

lemma assertionName_valid (h : validateAssertionName name = none) : '/' ∉ name := by
  unfold validateAssertionName at h
  split_ifs at h with hempty hslash hunsafe hlong
  exact hslash

lemma mem_address (h : IsAgentAddress address) {c : Char} (hc : c ∈ address) :
    c = 'x' ∨ isHexDigit c := by
  have hsplit : address = '0' :: 'x' :: address.drop 2 := by
    cases h.1 with
    | intro digits hdigits =>
      rw [← hdigits]
      rfl
  rw [hsplit] at hc
  rcases mem_cons.mp hc with rfl | hc
  · exact .inr (by decide)
  rcases mem_cons.mp hc with rfl | hc
  · exact .inl rfl
  · exact .inr (all_eq_true.mp h.2 c hc)

lemma address_slash (h : IsAgentAddress address) : '/' ∉ address := fun hc =>
  absurd (mem_address h hc) (by decide)

lemma address_colon (h : IsAgentAddress address) : ':' ∉ address := fun hc =>
  absurd (mem_address h hc) (by decide)

namespace Vocabulary

variable {w : Vocabulary} {kind kind' : GraphKind}

open GraphKind

lemma subGraphName_ne (w : Vocabulary) {name word : Term} (hname : name ∈ w.subGraphNames)
    (hword : ['_'] <+: word) : name ≠ word := fun h =>
  (subGraphName_valid (w.subGraphs_valid name hname)).1 (h ▸ hword)

lemma ofSegments_segments (hplain : kind.Plain) (hkind : w.Has kind) :
    ofSegments kind.segments = some kind := by
  cases kind with
  | data subGraphId | metadata subGraphId =>
    cases subGraphId with
    | none => rfl
    | some id => exact hplain.elim
  | privateData | rules => decide
  | sharedMemory subGraphName | sharedMemoryMeta subGraphName =>
    cases subGraphName with
    | none => decide
    | some name => simp [segments, ofSegments]
  | verifiedMemory id | verifiedMemoryMeta id => exact hplain.elim
  | assertion agentAddress name subGraphName =>
    cases subGraphName with
    | none => rfl
    | some subGraphName => rfl
  | subGraph name =>
    have hne : ∀ word, ['_'] <+: word → name ≠ word := fun word => w.subGraphName_ne hkind
    simp only [segments, ofSegments]
    rw [if_neg (hne _ (by decide)), if_neg (hne _ (by decide)), if_neg (hne _ (by decide)),
      if_neg (hne _ (by decide)), if_neg (hne _ (by decide))]
  | subGraphMeta name | subGraphPrivate name => simp [segments, ofSegments]

lemma segments_valid (hplain : kind.Plain) (hkind : w.Has kind) :
    (∀ segment ∈ kind.segments, '/' ∉ segment) ∧ ∀ segment ∈ kind.segments.head?,
      segment ≠ "context".toList ∧ segment ≠ "_verified_memory".toList := by
  have hsub : ∀ name ∈ w.subGraphNames, '/' ∉ name ∧
      name ≠ "context".toList ∧ name ≠ "_verified_memory".toList := fun name hname =>
    have hvalid := subGraphName_valid (w.subGraphs_valid name hname)
    ⟨hvalid.2.1, hvalid.2.2.1, w.subGraphName_ne hname (by decide)⟩
  have haddress : ∀ address ∈ w.agentAddresses, '/' ∉ address := fun address h =>
    address_slash (w.addresses_valid address h)
  have hname : ∀ name ∈ w.assertionNames, '/' ∉ name := fun name h =>
    assertionName_valid (w.names_valid name h)
  cases kind with
  | data subGraphId | metadata subGraphId =>
    cases subGraphId with
    | none => decide
    | some id => exact hplain.elim
  | privateData | rules => decide
  | sharedMemory subGraphName | sharedMemoryMeta subGraphName =>
    cases subGraphName with
    | none => decide
    | some name => simpa [segments] using hsub name (hkind name rfl)
  | verifiedMemory id | verifiedMemoryMeta id => exact hplain.elim
  | assertion agentAddress name subGraphName =>
    have hscope := haddress _ hkind.1
    have hlast := hname _ hkind.2.1
    cases subGraphName with
    | none => simpa [segments] using ⟨hscope, hlast⟩
    | some subGraphName => simpa [segments, hscope, hlast] using hsub _ (hkind.2.2 _ rfl)
  | subGraph name | subGraphMeta name | subGraphPrivate name =>
    simpa [segments] using hsub name hkind

lemma segments_slash (hplain : kind.Plain) (hkind : w.Has kind) :
    ∀ segment ∈ kind.segments, '/' ∉ segment := (segments_valid hplain hkind).1

/-- The first segments of the paths that are not plain begin no plain one. -/
lemma head_plain (hplain : kind.Plain) (hkind : w.Has kind) :
    ∀ segment ∈ kind.segments.head?, ∀ place : Place, segment ≠ place.word := by
  intro segment hsegment place
  have hwords := (segments_valid hplain hkind).2 segment hsegment
  cases place with
  | context => exact hwords.1
  | verifiedMemory => exact hwords.2

/-- A graph whose path is not plain has an id in one of the two places. -/
lemma not_plain (hraw : ¬ kind.Plain) (hkind : w.Has kind) :
    ∃ place : Place, ∃ id ∈ place.ids w, kind = place.graph id ∨ kind = place.metaGraph id := by
  cases kind with
  | data subGraphId =>
    cases subGraphId with
    | none => exact absurd trivial hraw
    | some id => exact ⟨.context, id, hkind id rfl, .inl rfl⟩
  | metadata subGraphId =>
    cases subGraphId with
    | none => exact absurd trivial hraw
    | some id => exact ⟨.context, id, hkind id rfl, .inr rfl⟩
  | verifiedMemory id => exact ⟨.verifiedMemory, id, hkind, .inl rfl⟩
  | verifiedMemoryMeta id => exact ⟨.verifiedMemory, id, hkind, .inr rfl⟩
  | _ => exact absurd trivial hraw

lemma path_not_plain (hraw : ¬ kind.Plain) (hkind : w.Has kind) :
    ∃ place : Place, ∃ tail, kind.path = separated '/' (place.word :: tail) := by
  obtain ⟨place, id, -, rfl | rfl⟩ := not_plain hraw hkind
  · exact ⟨place, _, place.path_graph id⟩
  · exact ⟨place, _, place.path_metaGraph id⟩

/-- A plain path does not begin as one that is not. -/
lemma path_plain_ne (hplain : kind.Plain) (hkind : w.Has kind) (hraw : ¬ kind'.Plain)
    (hkind' : w.Has kind') : kind.path ≠ kind'.path := by
  intro h
  obtain ⟨place, tail, hpath⟩ := path_not_plain hraw hkind'
  have hhead := head_plain hplain hkind
  have hslash := segments_slash hplain hkind
  rw [hpath] at h
  unfold path at h
  cases hfirst : kind.segments with
  | nil =>
    rw [hfirst] at h
    cases h
  | cons first rest =>
    rw [hfirst] at h hhead hslash
    have heq := (separated_cons_injective (hslash first (by simp)) place.word_slash h).1
    exact hhead first rfl place heq

lemma path_injective_plain (hplain : kind.Plain) (hplain' : kind'.Plain) (hkind : w.Has kind)
    (hkind' : w.Has kind') (h : kind.path = kind'.path) : kind = kind' := by
  have hsegments : kind.segments = kind'.segments :=
    separated_injective (segments_slash hplain hkind) (segments_slash hplain' hkind') h
  apply Option.some.inj
  rw [← ofSegments_segments hplain hkind, hsegments, ofSegments_segments hplain' hkind']

section

variable (hw : w.Unambiguous)

include hw

section

variable (hids : w.contextGraphIds.Nonempty)

include hids

lemma Unambiguous.place (place : Place) :
    ∀ id ∈ place.ids w, id ++ "/_meta".toList ∉ place.ids w := by
  cases place with
  | context => exact hw.subGraphIds hids
  | verifiedMemory => exact hw.verifiedMemoryIds hids

/-- An id in a place is no other one with the path of its metadata. -/
lemma graph_ne_metaGraph {place : Place}
    {id id' : Term} (hid : id ∈ place.ids w) (hid' : id' ∈ place.ids w)
    (h : separated '/' [id] = separated '/' [id', "_meta".toList]) : False := by
  have heq : id ++ [] = id' ++ "/_meta".toList := (cons.inj h).2
  rw [append_nil] at heq
  exact hw.place hids place id' hid' (heq ▸ hid)

lemma path_injective_raw
    (hraw : ¬ kind.Plain) (hraw' : ¬ kind'.Plain) (hkind : w.Has kind) (hkind' : w.Has kind')
    (h : kind.path = kind'.path) : kind = kind' := by
  obtain ⟨place, id, hid, hform⟩ := not_plain hraw hkind
  obtain ⟨place', id', hid', hform'⟩ := not_plain hraw' hkind'
  have hcut : ∀ tail tail', separated '/' (place.word :: tail) =
      separated '/' (place'.word :: tail') →
        place = place' ∧ separated '/' tail = separated '/' tail' :=
    fun tail tail' heq =>
      have hboth := separated_cons_injective place.word_slash place'.word_slash heq
      ⟨Place.word_injective hboth.1, hboth.2⟩
  rcases hform with rfl | rfl
  · rw [Place.path_graph] at h
    rcases hform' with rfl | rfl
    · rw [Place.path_graph] at h
      obtain ⟨rfl, htail⟩ := hcut _ _ h
      rw [append_cancel_right (cons.inj htail).2]
    · rw [Place.path_metaGraph] at h
      obtain ⟨rfl, htail⟩ := hcut _ _ h
      exact (graph_ne_metaGraph hw hids hid hid' htail).elim
  · rw [Place.path_metaGraph] at h
    rcases hform' with rfl | rfl
    · rw [Place.path_graph] at h
      obtain ⟨rfl, htail⟩ := hcut _ _ h
      exact (graph_ne_metaGraph hw hids hid' hid htail.symm).elim
    · rw [Place.path_metaGraph] at h
      obtain ⟨rfl, htail⟩ := hcut _ _ h
      rw [append_cancel_right (cons.inj htail).2]

lemma path_injective
    (hkind : w.Has kind) (hkind' : w.Has kind') (h : kind.path = kind'.path) : kind = kind' := by
  by_cases hplain : kind.Plain
  · by_cases hplain' : kind'.Plain
    · exact path_injective_plain hplain hplain' hkind hkind' h
    · exact absurd h (path_plain_ne hplain hkind hplain' hkind')
  · by_cases hplain' : kind'.Plain
    · exact absurd h.symm (path_plain_ne hplain' hkind' hplain hkind)
    · exact path_injective_raw hw hids hplain hplain' hkind hkind' h

/-! ## Graphs of different context graphs -/

end

omit hw in
lemma head_path (kind : GraphKind) : ∀ c ∈ kind.path.head?, c = '/' :=
  head_separated kind.segments

omit hw in
lemma isGraphOf_iff {contextGraphId graph : Term} : IsGraphOf contextGraphId graph ↔
    ∃ rest : Term, (∀ c ∈ rest.head?, c = '/') ∧
      graph = contextGraphDataUri contextGraphId ++ rest := by
  constructor
  · rintro (h | ⟨rest, h⟩)
    · exact ⟨[], by simp, by rw [h, append_nil]⟩
    · refine ⟨'/' :: rest, by simp, ?_⟩
      rw [← h, append_assoc]
      rfl
  · rintro ⟨rest, hrest, h⟩
    cases rest with
    | nil => exact .inl (by rw [h, append_nil])
    | cons c rest =>
      have hc : c = '/' := hrest c rfl
      subst hc
      refine .inr ⟨rest, ?_⟩
      rw [h, append_assoc]
      rfl

lemma Unambiguous.id_eq {a b rest rest' : Term} (ha : a ∈ w.contextGraphIds)
    (hb : b ∈ w.contextGraphIds) (hrest : ∀ c ∈ rest.head?, c = '/')
    (hrest' : ∀ c ∈ rest'.head?, c = '/')
    (h : contextGraphDataUri a ++ rest = contextGraphDataUri b ++ rest') :
    a = b ∧ rest = rest' := by
  have htext : a ++ rest = b ++ rest' := by
    have hassoc : "did:dkg:context-graph:".toList ++ (a ++ rest) =
        "did:dkg:context-graph:".toList ++ (b ++ rest') := by
      rw [← append_assoc, ← append_assoc]
      exact h
    exact append_cancel_left hassoc
  exact append_injective_of_apart hrest hrest' (hw.ids a ha b hb) (hw.ids b hb a ha) htext

lemma Unambiguous.confined {a b : Term} (ha : a ∈ w.contextGraphIds)
    (hb : b ∈ w.contextGraphIds) (hne : a ≠ b) : ¬ IsGraphOf a (kind.uri b) := by
  intro h
  obtain ⟨rest, hrest, heq⟩ := isGraphOf_iff.mp h
  rw [uri_eq] at heq
  exact hne (hw.id_eq hb ha (head_path kind) hrest heq).1.symm

/-! ## Records -/

end

/-- The id with the name of the sub-graph, as the record of an assertion has it. -/
def scope (a : AssertionId) : Term :=
  a.contextGraphId ++ (a.subGraphName.map (':' :: ·)).getD []

lemma lifecycleUri_eq (a : AssertionId) : assertionLifecycleUri a =
    "urn:dkg:assertion:".toList ++ (scope a ++ ':' :: a.agentAddress ++ ':' :: a.name) := by
  show "urn:dkg:assertion:".toList ++ a.contextGraphId ++ _ ++ _ ++ _ = _
  unfold scope
  simp only [append_assoc]

lemma scope_mem {a : AssertionId} (ha : a.contextGraphId ∈ w.contextGraphIds)
    (hsub : ∀ name ∈ a.subGraphName, name ∈ w.subGraphNames) : scope a ∈ w.scopes := by
  refine ⟨a.contextGraphId, ha, ?_⟩
  unfold scope
  cases hname : a.subGraphName with
  | none => exact .inl (append_nil _)
  | some name => exact .inr ⟨name, hsub name hname, rfl⟩

lemma exists_record {text address name : Term} (htext : text ∈ w.scopes)
    (haddress : address ∈ w.agentAddresses) (hname : name ∈ w.assertionNames) :
    ∃ a : AssertionId, scope a = text ∧ a.agentAddress = address ∧ a.name = name ∧
      record a ∈ w.named := by
  obtain ⟨contextGraphId, hid, htext⟩ := htext
  rcases htext with heq | ⟨sub, hsub, heq⟩
  · exact ⟨⟨contextGraphId, address, name, none⟩, (append_nil _).trans heq.symm, rfl, rfl, hid,
      haddress, hname, by simp⟩
  · exact ⟨⟨contextGraphId, address, name, some sub⟩, heq.symm, rfl, rfl, hid, haddress, hname,
      by simpa using hsub⟩

lemma Unambiguous.scope_injective (hw : w.Unambiguous) {a b : AssertionId}
    (ha : record a ∈ w.named) (hb : record b ∈ w.named) (h : scope a = scope b) :
    a.contextGraphId = b.contextGraphId ∧ a.subGraphName = b.subGraphName := by
  have haddresses : w.agentAddresses.Nonempty := ⟨_, ha.2.1⟩
  have hnames : w.assertionNames.Nonempty := ⟨_, ha.2.2.1⟩
  unfold scope at h
  cases hasub : a.subGraphName with
  | none =>
    cases hbsub : b.subGraphName with
    | none =>
      rw [hasub, hbsub] at h
      exact ⟨append_cancel_right h, rfl⟩
    | some name =>
      rw [hasub, hbsub] at h
      have heq : a.contextGraphId = b.contextGraphId ++ ':' :: name := by
        rw [← append_nil a.contextGraphId]
        exact h
      exact absurd heq (hw.idsWithNames haddresses hnames _ hb.1 _ ha.1 name (hb.2.2.2 _ hbsub))
  | some name =>
    cases hbsub : b.subGraphName with
    | none =>
      rw [hasub, hbsub] at h
      have heq : b.contextGraphId = a.contextGraphId ++ ':' :: name := by
        rw [← append_nil b.contextGraphId]
        exact h.symm
      exact absurd heq (hw.idsWithNames haddresses hnames _ ha.1 _ hb.1 name (ha.2.2.2 _ hasub))
    | some name' =>
      rw [hasub, hbsub] at h
      have hid : a.contextGraphId = b.contextGraphId :=
        hw.namesWithNames haddresses hnames _ ha.1 _ hb.1 name (ha.2.2.2 _ hasub) name'
          (hb.2.2.2 _ hbsub) h
      rw [hid] at h
      have hname : name = name' := (cons.inj (append_cancel_left h)).2
      exact ⟨hid, by rw [hname]⟩

lemma Unambiguous.record_injective (hw : w.Unambiguous) {a b : AssertionId}
    (ha : record a ∈ w.named) (hb : record b ∈ w.named)
    (h : assertionLifecycleUri a = assertionLifecycleUri b) : a = b := by
  rw [lifecycleUri_eq, lifecycleUri_eq] at h
  have htext := append_cancel_left h
  have hcolon : ∀ address ∈ w.agentAddresses, ':' ∉ address := fun address haddress =>
    address_colon (w.addresses_valid address haddress)
  have hascope := scope_mem ha.1 ha.2.2.2
  have hbscope := scope_mem hb.1 hb.2.2.2
  rcases three_parts (hcolon _ ha.2.1) (hcolon _ hb.2.1) htext with
    ⟨hscope, haddress, hname⟩ | ⟨between, hname, hscope⟩ | ⟨between, hname, hscope⟩
  · have hboth := hw.scope_injective ha hb hscope
    cases a
    cases b
    simp_all
  · exact absurd hscope
      (hw.names _ hascope _ hbscope _ ha.2.1 _ hb.2.1 _ ha.2.2.1 _ hb.2.2.1 between hname)
  · exact absurd hscope
      (hw.names _ hbscope _ hascope _ hb.2.1 _ ha.2.1 _ hb.2.2.1 _ ha.2.2.1 between hname)

/-! ## Both ways -/

lemma graph_ne_record (contextGraphId : Term) (kind : GraphKind) (a : AssertionId) :
    kind.uri contextGraphId ≠ assertionLifecycleUri a := by
  intro h
  rw [uri_eq, lifecycleUri_eq] at h
  have hfirst : some 'd' = some 'u' := congrArg head? h
  exact absurd hfirst (by decide)

lemma Unambiguous.separated (hw : w.Unambiguous) : w.Separated where
  injective := by
    intro x hx y hy h
    cases x with
    | graph a kind =>
      cases y with
      | graph b kind' =>
        have huri : kind.uri a = kind'.uri b := h
        rw [uri_eq, uri_eq] at huri
        have hid := hw.id_eq hx.1 hy.1 (head_path kind) (head_path kind') huri
        rw [hid.1, path_injective hw ⟨a, hx.1⟩ hx.2 hy.2 hid.2]
      | record b => exact absurd h (graph_ne_record a kind b)
    | record a =>
      cases y with
      | graph b kind' => exact absurd h.symm (graph_ne_record b kind' a)
      | record b => rw [hw.record_injective hx hy h]
  confined := fun _ ha _ hb hne _ _ => hw.confined ha hb hne

lemma Separated.graph_injective (hw : w.Separated) {a b : Term} (ha : a ∈ w.contextGraphIds)
    (hb : b ∈ w.contextGraphIds) (hkind : w.Has kind) (hkind' : w.Has kind')
    (h : kind.uri a = kind'.uri b) : kind = kind' := by
  have hx : graph a kind ∈ w.named := ⟨ha, hkind⟩
  have hy : graph b kind' ∈ w.named := ⟨hb, hkind'⟩
  exact (graph.inj (hw.injective hx hy h)).2

lemma Separated.record_injective (hw : w.Separated) {a b : AssertionId}
    (ha : record a ∈ w.named) (hb : record b ∈ w.named)
    (h : scope a ++ ':' :: a.agentAddress ++ ':' :: a.name =
      scope b ++ ':' :: b.agentAddress ++ ':' :: b.name) : a = b := by
  have huri : assertionLifecycleUri a = assertionLifecycleUri b := by
    rw [lifecycleUri_eq, lifecycleUri_eq, h]
  exact record.inj (hw.injective ha hb huri)

lemma Separated.unambiguous (hw : w.Separated) : w.Unambiguous where
  ids := by
    intro a ha b hb hlonger
    have hne : a ≠ b := by
      rintro rfl
      simpa using hlonger.length_le
    refine hw.confined a ha b hb hne (.data none) (fun id hid => by cases hid) (.inr ?_)
    cases hlonger with
    | intro rest hrest =>
      refine ⟨rest, ?_⟩
      show "did:dkg:context-graph:".toList ++ a ++ ['/'] ++ rest = _ ++ b
      rw [← hrest, append_assoc, append_assoc, append_assoc]
  subGraphIds := by
    rintro ⟨a, ha⟩ id hid hmeta
    have hdata : w.Has (.data (some (id ++ "/_meta".toList))) := by
      rintro _ ⟨⟩
      exact hmeta
    have hmetadata : w.Has (.metadata (some id)) := by
      rintro _ ⟨⟩
      exact hid
    cases hw.graph_injective ha ha hdata hmetadata (append_assoc _ _ _).symm
  verifiedMemoryIds := by
    rintro ⟨a, ha⟩ id hid hmeta
    have hmemory : w.Has (.verifiedMemory (id ++ "/_meta".toList)) := hmeta
    have hmetadata : w.Has (.verifiedMemoryMeta id) := hid
    cases hw.graph_injective ha ha hmemory hmetadata (append_assoc _ _ _).symm
  idsWithNames := by
    rintro ⟨address, haddress⟩ ⟨name, hname⟩ a ha b hb sub hsub rfl
    have hlong : record ⟨a ++ ':' :: sub, address, name, none⟩ ∈ w.named :=
      ⟨hb, haddress, hname, by simp⟩
    have hshort : record ⟨a, address, name, some sub⟩ ∈ w.named :=
      ⟨ha, haddress, hname, by simpa using hsub⟩
    have heq := hw.record_injective hlong hshort (by simp [scope])
    exact absurd (congrArg AssertionId.subGraphName heq) (by simp)
  namesWithNames := by
    rintro ⟨address, haddress⟩ ⟨name, hname⟩ a ha b hb sub hsub sub' hsub' h
    have hfirst : record ⟨a, address, name, some sub⟩ ∈ w.named :=
      ⟨ha, haddress, hname, by simpa using hsub⟩
    have hsecond : record ⟨b, address, name, some sub'⟩ ∈ w.named :=
      ⟨hb, haddress, hname, by simpa using hsub'⟩
    have heq := hw.record_injective hfirst hsecond (by simp [scope, h])
    exact congrArg AssertionId.contextGraphId heq
  names := by
    intro text htext text' htext' address haddress address' haddress' name hname name' hname'
      between hbetween htexts
    obtain ⟨a, hascope, haaddress, haname, ha⟩ := exists_record htext haddress hname
    obtain ⟨b, hbscope, hbaddress, hbname, hb⟩ := exists_record htext' haddress' hname'
    have heq : a = b := by
      apply hw.record_injective ha hb
      rw [hascope, hbscope, haaddress, hbaddress, haname, hbname, hbetween]
      calc
        text ++ ':' :: address ++ ':' :: (between ++ address' ++ ':' :: name')
          = (text ++ ':' :: address ++ ':' :: between) ++ (address' ++ ':' :: name') := by simp
        _ = (text' ++ [':']) ++ (address' ++ ':' :: name') := by rw [htexts]
        _ = text' ++ ':' :: address' ++ ':' :: name' := by simp
    have hnames : name = name' := by rw [← haname, ← hbname, heq]
    have hlength := congrArg length hbetween
    rw [hnames] at hlength
    simp at hlength
    omega

/-- The graphs and records in use have URIs of their own, and every filter keeps to its context
graph, if and only if no names in use can be read in two ways. -/
theorem separated_iff_unambiguous (w : Vocabulary) : w.Separated ↔ w.Unambiguous :=
  ⟨Separated.unambiguous, Unambiguous.separated⟩

/-- It is enough that ids have neither slashes nor colons and names of assertions no colons. -/
lemma unambiguous_of_flat (hids : ∀ id ∈ w.contextGraphIds, '/' ∉ id ∧ ':' ∉ id)
    (hnames : ∀ name ∈ w.assertionNames, ':' ∉ name) (hsub : ∀ id ∈ w.subGraphIds, '/' ∉ id)
    (hverified : ∀ id ∈ w.verifiedMemoryIds, '/' ∉ id) : w.Unambiguous where
  ids := fun _ _ b hb => apart_of_notMem (hids b hb).1
  subGraphIds := fun _ id _ hmeta => hsub _ hmeta (mem_append_right id (by decide))
  verifiedMemoryIds := fun _ id _ hmeta =>
    hverified _ hmeta (mem_append_right id (by decide))
  idsWithNames := by
    intro _ _ a _ b hb name _ h
    exact (hids b hb).2 (h ▸ mem_append_right a mem_cons_self)
  namesWithNames := by
    intro _ _ a ha b hb name _ name' _ h
    exact (append_injective_of_apart (by simp) (by simp) (apart_of_notMem (hids b hb).2)
      (apart_of_notMem (hids a ha).2) h).1
  names := by
    intro _ _ _ _ _ _ address' _ name hname name' _ between h _
    exact hnames name hname (h ▸ mem_append_right _ mem_cons_self)

/-- **Flat names.** Where the ids of context graphs have neither slashes nor colons, those of the
sub-graphs and of the verified memory no slashes and the names of assertions no colons: the graphs
and records in use have URIs of their own, a node serves a quad as data of no other context graph
than that of its graph, and a view discovers below its context graph only the graphs of it. -/
theorem flat_names_separated (hids : ∀ id ∈ w.contextGraphIds, '/' ∉ id ∧ ':' ∉ id)
    (hnames : ∀ name ∈ w.assertionNames, ':' ∉ name) (hsub : ∀ id ∈ w.subGraphIds, '/' ∉ id)
    (hverified : ∀ id ∈ w.verifiedMemoryIds, '/' ∉ id) :
    Set.InjOn Named.uri w.named ∧
    ∀ a ∈ w.contextGraphIds, ∀ b ∈ w.contextGraphIds, ∀ kind, w.Has kind →
      (∀ store q, q.graph = kind.uri b → ServedAsData store a q → a = b) ∧
      ∀ store front, kind.uri b ∈
        Query.discoverGraphsByPrefix store (contextGraphDataUri a ++ '/' :: front) → a = b := by
  have hw : w.Separated := (unambiguous_of_flat hids hnames hsub hverified).separated
  refine ⟨hw.injective, fun a ha b hb kind hkind =>
    ⟨fun store q hgraph h => ?_, fun _ front h => ?_⟩⟩
  · by_contra hne
    have hselected : IsGraphOf a q.graph := h.1
    exact hw.confined a ha b hb hne kind hkind (hgraph ▸ hselected)
  · by_contra hne
    have hfront : contextGraphDataUri a ++ '/' :: front <+: kind.uri b :=
      (of_decide_eq_true (mem_filter.mp h).2).1
    refine hw.confined a ha b hb hne kind hkind (.inr (List.IsPrefix.trans ?_ hfront))
    exact ⟨front, by rw [append_assoc]; rfl⟩

end Vocabulary

/-! ## Everything that the validators accept -/

/-- The ids on the chain are numerals. -/
def IsNumeral (id : Term) : Prop := id ≠ [] ∧ id.all Query.isDigit

def acceptedNames : Vocabulary where
  contextGraphIds := {id | validateContextGraphId id = none}
  subGraphNames := {name | validateSubGraphName name = none}
  assertionNames := {name | validateAssertionName name = none}
  agentAddresses := {address | IsAgentAddress address}
  subGraphIds := {id | IsNumeral id}
  verifiedMemoryIds := {id | IsNumeral id}
  ids_valid := fun _ h => h
  subGraphs_valid := fun _ h => h
  names_valid := fun _ h => h
  addresses_valid := fun _ h => h

/-- The names without slashes and colons among them. -/
def flatNames : Vocabulary where
  contextGraphIds := {id | validateContextGraphId id = none ∧ '/' ∉ id ∧ ':' ∉ id}
  subGraphNames := {name | validateSubGraphName name = none}
  assertionNames := {name | validateAssertionName name = none ∧ ':' ∉ name}
  agentAddresses := {address | IsAgentAddress address}
  subGraphIds := {id | '/' ∉ id}
  verifiedMemoryIds := {id | '/' ∉ id}
  ids_valid := fun _ h => h.1
  subGraphs_valid := fun _ h => h
  names_valid := fun _ h => h.1
  addresses_valid := fun _ h => h

/-- All flat names together. -/
theorem flat_names_separated_all : Set.InjOn Named.uri flatNames.named :=
  (Vocabulary.flat_names_separated (w := flatNames) (fun _ h => h.2) (fun _ h => h.2) (fun _ h => h)
    fun _ h => h).1

/-- The data graph of `games/chess` is the sub-graph `chess` of `games`. -/
theorem nested_id_shares_graph :
    ("games".toList ∈ acceptedNames.contextGraphIds ∧
      "games/chess".toList ∈ acceptedNames.contextGraphIds ∧
        "chess".toList ∈ acceptedNames.subGraphNames) ∧
    (GraphKind.data none).uri "games/chess".toList =
      (GraphKind.subGraph "chess".toList).uri "games".toList ∧ ¬ acceptedNames.Separated := by
  have hgames : "games".toList ∈ acceptedNames.contextGraphIds := by
    show validateContextGraphId _ = none
    decide +kernel
  have hchess : "games/chess".toList ∈ acceptedNames.contextGraphIds := by
    show validateContextGraphId _ = none
    decide +kernel
  have hsub : "chess".toList ∈ acceptedNames.subGraphNames := by
    show validateSubGraphName _ = none
    decide +kernel
  refine ⟨⟨hgames, hchess, hsub⟩, by decide +kernel, fun hseparated => ?_⟩
  have hdata : acceptedNames.Has (.data none) := fun _ hid => by cases hid
  have heq : (GraphKind.data none) = GraphKind.subGraph "chess".toList :=
    hseparated.graph_injective hchess hgames hdata hsub (by decide +kernel)
  cases heq

end Dkg.GraphNames
