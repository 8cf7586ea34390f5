import Dkg.PrivateAccess.Publish

/-! # Rows of the metadata

Which rows a store has after a record was added to it. A row of another collection is a row of the
store before (`IsRow.of_added`), because the URI of an asset names its collection
(`WellFormed`); a row of the recorded collection, when the collection is new, says what the record
says (`IsRow.of_record`).
-/

namespace Dkg.PrivateAccess

open Lib Publisher SharedMemory List Option Finset
open Sync.Verification (Hashing)

variable {B : Type} {store store' : TripleStore} {metaGraph kaUal ual : Term} {row : Row} {q : Quad}

/-! ## Literals -/

lemma stripLiteral_lit (val : Term) : stripLiteral (lit val) = val.flatMap escape := by
  have hfirst : ['\x22'] <+: lit val := ⟨_, rfl⟩
  have hlast : ['\x22'] <:+ lit val := ⟨'\x22' :: val.flatMap escape, rfl⟩
  rw [stripLiteral, if_pos ⟨hfirst, hlast⟩, lit, tail_cons, dropLast_concat]

lemma readOptional_lit (val : Term) :
    readOptional (some (lit val)) = some (val.flatMap escape) := by
  have hne : lit val ≠ [] := cons_ne_nil _ _
  rw [readOptional, filter_some_pos (by simpa using hne), map_some, stripLiteral_lit]

variable {val contextGraphId : Term}

/-- An escaped text without a backslash is the text. -/
lemma flatMap_escape_eq (h : '\\' ∉ val.flatMap escape) : val.flatMap escape = val := by
  induction val with
  | nil => rfl
  | cons c val ih =>
    rw [flatMap_cons, mem_append, not_or] at h
    have hc : escape c = [c] := by
      have hno := h.1
      unfold escape at hno ⊢
      split_ifs at hno ⊢ <;> simp at hno ⊢
    rw [flatMap_cons, hc, ih h.2, singleton_append]

lemma PeerId.no_backslash (p : PeerId) : '\\' ∉ p.text := by
  intro h
  exact absurd (p.isAlphanum _ h) (by decide)

/-- Only a peer's own id is written as the peer's id. -/
lemma PeerId.eq_of_escape {p : PeerId} (h : val.flatMap escape = p.text) : val = p.text := by
  rw [← h]
  exact (flatMap_escape_eq (h ▸ p.no_backslash)).symm

lemma policy_of_name (policy : AccessPolicy) :
    (readOptional (some (lit policy.name))).bind accessPolicyOf = some policy := by
  cases policy <;> decide +kernel

/-! ## URIs of assets -/

lemma slash_notMem_digits (n : ℕ) : '/' ∉ Nat.toDigits 10 n := by
  intro h
  exact absurd (Nat.isDigit_of_mem_toDigits (by decide) (by decide) h) (by decide)

lemma assetUri_injective {kc kc' : Term} {n n' : ℕ} (h : assetUri kc n = assetUri kc' n') :
    kc = kc' :=
  (append_last_injective (slash_notMem_digits n) (slash_notMem_digits n') h).1

/-! ## Context graphs -/

lemma indexOf_front (front rest : Term) (hne : front ≠ []) :
    indexOf front (front ++ rest) = some 0 := by
  cases front with
  | nil => exact absurd rfl hne
  | cons c front => exact if_pos ⟨rest, rfl⟩

lemma contextGraphId_of_uri (h : row.contextGraph = contextGraphDataUri contextGraphId) :
    row.contextGraphId = contextGraphId := by
  have hfront := indexOf_front "did:dkg:context-graph:".toList contextGraphId (by decide)
  have huri : row.contextGraph = "did:dkg:context-graph:".toList ++ contextGraphId := h
  unfold Row.contextGraphId
  rw [huri]
  simp only [hfront]
  rw [take_zero, nil_append, Nat.zero_add]
  exact drop_left

lemma graph_of_uri (h : row.contextGraph = contextGraphDataUri contextGraphId) :
    row.graph = contextGraphMetaUri contextGraphId := by
  rw [Row.graph, h, contextGraphMetaUri]

lemma isMetaGraph_graph (row : Row) : IsMetaGraph row.graph := ⟨row.contextGraph, rfl⟩

/-! ## Records in metadata graphs -/

/-- The predicates that the lookups read. -/
def rowPredicates : List Term :=
  prov "wasAttributedTo" :: ["rootEntity", "partOf", "paranet", "privateMerkleRoot",
    "privateTripleCount", "accessPolicy", "publisherPeerId", "subGraphName", "allowedPeer"].map dkg

/-- Assets and their collections in metadata graphs: the URI of an asset is that of its collection
with a number, and every collection is of a context graph. -/
structure WellFormed (Q : Quad → Prop) : Prop where
  rootEntity : ∀ {ka r g}, IsMetaGraph g → Q ⟨ka, dkg "rootEntity", r, g⟩ →
    ∃ kc n c, ka = assetUri kc n ∧ Q ⟨kc, dkg "paranet", contextGraphDataUri c, g⟩
  partOf : ∀ {ka kc g}, IsMetaGraph g → Q ⟨ka, dkg "partOf", kc, g⟩ →
    ∃ n c, ka = assetUri kc n ∧ Q ⟨kc, dkg "paranet", contextGraphDataUri c, g⟩
  paranet : ∀ {kc o g}, IsMetaGraph g → Q ⟨kc, dkg "paranet", o, g⟩ → ∃ c, o = contextGraphDataUri c

/-- What the lookups read is from before, or new. -/
structure Grows (New : Quad → Prop) (store store' : TripleStore) : Prop where
  added : ∀ {q}, q ∈ store' → IsMetaGraph q.graph → q.predicate ∈ rowPredicates → q ∈ store ∨ New q
  kept : ∀ {q}, q ∈ store → q.predicate ∈ rowPredicates → q ∈ store'
  recorded : ∀ {q}, New q → q ∈ store'

/-- A quad about a collection or about one of its assets. -/
structure OfCollection (metaGraph ual : Term) (q : Quad) : Prop where
  graph : q.graph = metaGraph
  subject : (q.subject = ual ∧ q.predicate ∉ assetPredicates) ∨
    ((∃ n, q.subject = assetUri ual n) ∧ q.predicate ∈ assetPredicates)
  partOf : q.predicate = dkg "partOf" → q.object = ual

section

variable {New : Quad → Prop}

lemma Grows.wellFormed (h : Grows New store store') (hwf : WellFormed (· ∈ store))
    (hnew : WellFormed New) : WellFormed (· ∈ store') := by
  have hparanet : ∀ {kc c g}, (⟨kc, dkg "paranet", contextGraphDataUri c, g⟩ : Quad) ∈ store ∨
      New ⟨kc, dkg "paranet", contextGraphDataUri c, g⟩ →
      (⟨kc, dkg "paranet", contextGraphDataUri c, g⟩ : Quad) ∈ store' := by
    intro kc c g hq
    rcases hq with hold | hq
    · exact h.kept hold (by simp [rowPredicates])
    · exact h.recorded hq
  constructor
  · intro ka r g hg hq
    rcases h.added hq hg (by simp [rowPredicates]) with hold | hq
    · obtain ⟨kc, n, c, hka, hkc⟩ := hwf.rootEntity hg hold
      exact ⟨kc, n, c, hka, hparanet (.inl hkc)⟩
    · obtain ⟨kc, n, c, hka, hkc⟩ := hnew.rootEntity hg hq
      exact ⟨kc, n, c, hka, hparanet (.inr hkc)⟩
  · intro ka kc g hg hq
    rcases h.added hq hg (by simp [rowPredicates]) with hold | hq
    · obtain ⟨n, c, hka, hkc⟩ := hwf.partOf hg hold
      exact ⟨n, c, hka, hparanet (.inl hkc)⟩
    · obtain ⟨n, c, hka, hkc⟩ := hnew.partOf hg hq
      exact ⟨n, c, hka, hparanet (.inr hkc)⟩
  · intro kc o g hg hq
    rcases h.added hq hg (by simp [rowPredicates]) with hold | hq
    · exact hwf.paranet hg hold
    · exact hnew.paranet hg hq

/-- What is bound about a subject that no new quad is about was bound before. -/
lemma Grows.binds {g s p : Term} {o : Option Term} (h : Grows New store store')
    (hg : IsMetaGraph g) (hp : p ∈ rowPredicates) (hno : ∀ o, ¬ New ⟨s, p, o, g⟩)
    (hbinds : Binds store' g s p o) : Binds store g s p o := by
  cases o with
  | some o => exact (h.added hbinds hg hp).resolve_right (hno o)
  | none =>
    intro q hq hthis
    exact hbinds q (h.kept hq (hthis.2.2 ▸ hp)) hthis

variable (hof : ∀ q, New q → OfCollection metaGraph ual q) (hwf : WellFormed (· ∈ store))

include hof

lemma not_new_of_kc {kc p o g : Term} (hp : p ∉ assetPredicates)
    (hne : ¬ (g = metaGraph ∧ kc = ual)) : ¬ New ⟨kc, p, o, g⟩ := by
  intro hnew
  rcases (hof _ hnew).subject with ⟨hsubject, _⟩ | ⟨_, hasset⟩
  · exact hne ⟨(hof _ hnew).graph, hsubject⟩
  · exact hp hasset

/-- No new quad is about an asset of another collection. -/
lemma not_new_of_asset {kc p o g : Term} {n : ℕ} (hp : p ∈ assetPredicates)
    (hne : ¬ (g = metaGraph ∧ kc = ual)) : ¬ New ⟨assetUri kc n, p, o, g⟩ := by
  intro hnew
  rcases (hof _ hnew).subject with ⟨_, hno⟩ | ⟨⟨n', hsubject⟩, _⟩
  · exact hno hp
  · exact hne ⟨(hof _ hnew).graph, assetUri_injective hsubject⟩

include hwf

/-- **A row of another collection** is a row of the store before. -/
lemma Grows.isRow (h : Grows New store store') (hrow : IsRow store' kaUal row)
    (hne : ¬ (row.graph = metaGraph ∧ row.kc = ual)) : IsRow store kaUal row := by
  have hg := isMetaGraph_graph row
  have hpart : (⟨kaUal, dkg "partOf", row.kc, row.graph⟩ : Quad) ∈ store := by
    refine (h.added hrow.partOf hg (by simp [rowPredicates])).resolve_right fun hnew => ?_
    exact hne ⟨(hof _ hnew).graph, (hof _ hnew).partOf rfl⟩
  obtain ⟨n, c, rfl, -⟩ := hwf.partOf hg hpart
  have hasset : ∀ {p o}, p ∈ assetPredicates → ¬ New ⟨assetUri row.kc n, p, o, row.graph⟩ :=
    fun hp => not_new_of_asset hof hp hne
  have hkc : ∀ {p o}, p ∉ assetPredicates → ¬ New ⟨row.kc, p, o, row.graph⟩ :=
    fun hp => not_new_of_kc hof hp hne
  exact {
    rootEntity := (h.added hrow.rootEntity hg (by simp [rowPredicates])).resolve_right
      (hasset (by simp [assetPredicates]))
    partOf := hpart
    paranet := (h.added hrow.paranet hg (by simp [rowPredicates])).resolve_right
      (hkc (by simp [assetPredicates]))
    privateMerkleRoot := h.binds hg (by simp [rowPredicates])
      (fun _ => hasset (by simp [assetPredicates])) hrow.privateMerkleRoot
    privateTripleCount := h.binds hg (by simp [rowPredicates])
      (fun _ => hasset (by simp [assetPredicates])) hrow.privateTripleCount
    accessPolicy := h.binds hg (by simp [rowPredicates])
      (fun _ => hkc (by simp [assetPredicates])) hrow.accessPolicy
    publisherPeerId := h.binds hg (by simp [rowPredicates])
      (fun _ => hkc (by simp [assetPredicates])) hrow.publisherPeerId
    attributedTo := h.binds hg (by simp [rowPredicates])
      (fun _ => hkc (by simp [assetPredicates])) hrow.attributedTo
    sgName := h.binds hg (by simp [rowPredicates])
      (fun _ => hkc (by simp [assetPredicates])) hrow.sgName }

/-- The allowed peers of another collection are those from before. -/
lemma Grows.allowedPeers_eq (h : Grows New store store') (hrow : IsRow store kaUal row)
    (hne : ¬ (row.graph = metaGraph ∧ row.kc = ual)) :
    allowedPeers store' row = allowedPeers store row := by
  obtain ⟨c, hc⟩ := hwf.paranet (isMetaGraph_graph row) hrow.paranet
  have hgraph : contextGraphMetaUri row.contextGraphId = row.graph := by
    rw [contextGraphId_of_uri hc, graph_of_uri hc]
  have hsame : ∀ q : Quad, q.graph = row.graph → q.subject = row.kc →
      q.predicate = dkg "allowedPeer" → (q ∈ store' ↔ q ∈ store) := by
    rintro ⟨s, p, o, g⟩ rfl rfl rfl
    constructor
    · intro hq
      refine (h.added hq (isMetaGraph_graph row) (by simp [rowPredicates])).resolve_right ?_
      exact not_new_of_kc hof (by simp [assetPredicates]) hne
    · intro hq
      exact h.kept hq (by simp [rowPredicates])
  unfold allowedPeers
  congr 1
  ext q
  rw [Finset.mem_filter, Finset.mem_filter, hgraph]
  constructor
  · rintro ⟨hq, hg, hs, hp, ho⟩
    exact ⟨(hsame q hg hs hp).mp hq, hg, hs, hp, ho⟩
  · rintro ⟨hq, hg, hs, hp, ho⟩
    exact ⟨(hsame q hg hs hp).mpr hq, hg, hs, hp, ho⟩

end

/-! ## The quads of a record -/

section

variable {toHex : B → Term} {kc : KCMetadata B} {assets : List (KAMetadata B)}

/-- A quad of a record that the lookups read, as it stands in the metadata graph. -/
structure IsRecorded (toHex : B → Term) (kc : KCMetadata B) (assets : List (KAMetadata B))
    (metaGraph : Term) (q : Quad) : Prop where
  graph : q.graph = metaGraph
  read : q.predicate ∈ rowPredicates
  mem : ({ q with graph := contextGraphMetaUri kc.contextGraphId } : Quad) ∈
    generateKCMetadata toHex kc assets

lemma rdfType_notMem_rowPredicates : rdfType ∉ rowPredicates := by
  simp [rowPredicates]

lemma IsRecorded.mem_collection (h : IsRecorded toHex kc assets metaGraph q)
    (hp : q.predicate ∉ assetPredicates) :
    ({ q with graph := contextGraphMetaUri kc.contextGraphId } : Quad) ∈
      collectionQuads toHex kc := by
  rcases mem_append.mp h.mem with hkc | hka
  · exact hkc
  · obtain ⟨ka, _, hka⟩ := mem_flatMap.mp hka
    exact absurd (mem_assetQuads hka).2.2.1 hp

lemma IsRecorded.exists_asset (h : IsRecorded toHex kc assets metaGraph q)
    (hp : q.predicate ∈ assetPredicates) : ∃ ka ∈ assets, q.subject = ka.uri ∧
      (q.predicate = dkg "rootEntity" → q.object = ka.rootEntity) ∧
      (q.predicate = dkg "partOf" → q.object = ka.kcUal) := by
  rcases mem_append.mp h.mem with hkc | hka
  · rcases (mem_collectionQuads hkc).2.2 with hrdf | hno
    · exact absurd (hrdf ▸ h.read) rdfType_notMem_rowPredicates
    · exact absurd hp hno
  · obtain ⟨ka, hmem, hka⟩ := mem_flatMap.mp hka
    obtain ⟨_, hs, _, hroot, hpart⟩ := mem_assetQuads hka
    exact ⟨ka, hmem, hs, hroot, hpart⟩

lemma IsRecorded.ofCollection (hassets : ∀ ka ∈ assets, ka.kcUal = kc.ual)
    (h : IsRecorded toHex kc assets metaGraph q) : OfCollection metaGraph kc.ual q := by
  by_cases hp : q.predicate ∈ assetPredicates
  · obtain ⟨ka, hka, hs, _, hpart⟩ := h.exists_asset hp
    have huri : q.subject = assetUri kc.ual ka.tokenId := by
      rw [hs, KAMetadata.uri, hassets ka hka]
    exact ⟨h.graph, .inr ⟨⟨_, huri⟩, hp⟩, fun h => (hpart h).trans (hassets ka hka)⟩
  · have hs := (mem_collectionQuads (h.mem_collection hp)).2.1
    exact ⟨h.graph, .inl ⟨hs, hp⟩,
      fun heq => absurd (heq ▸ (by simp [assetPredicates] : dkg "partOf" ∈ assetPredicates)) hp⟩

lemma isRecorded_paranet : IsRecorded toHex kc assets metaGraph
    ⟨kc.ual, dkg "paranet", contextGraphDataUri kc.contextGraphId, metaGraph⟩ :=
  ⟨rfl, by simp [rowPredicates], mem_append_left _ (collection_paranet.mpr ⟨rfl, rfl, rfl⟩)⟩

lemma wellFormed_isRecorded (hassets : ∀ ka ∈ assets, ka.kcUal = kc.ual) :
    WellFormed (IsRecorded toHex kc assets metaGraph) := by
  constructor
  · intro ka r g _ h
    obtain ⟨asset, hasset, hs, _⟩ := h.exists_asset (by simp [assetPredicates])
    have hg : g = metaGraph := h.graph
    refine ⟨kc.ual, asset.tokenId, kc.contextGraphId, ?_, hg ▸ isRecorded_paranet⟩
    rw [show ka = asset.uri from hs, KAMetadata.uri, hassets asset hasset]
  · intro ka ual g _ h
    obtain ⟨asset, hasset, hs, _, hpart⟩ := h.exists_asset (by simp [assetPredicates])
    have hg : g = metaGraph := h.graph
    have hual : ual = kc.ual := (hpart rfl).trans (hassets asset hasset)
    refine ⟨asset.tokenId, kc.contextGraphId, ?_, hual ▸ hg ▸ isRecorded_paranet⟩
    rw [show ka = asset.uri from hs, KAMetadata.uri, hassets asset hasset, hual]
  · intro ual o g _ h
    exact ⟨_, (collection_paranet.mp (h.mem_collection (by simp [assetPredicates]))).2.1⟩

/-! ## Rows of a recorded collection -/

lemma contextGraph_of_graph {contextGraphId : Term}
    (h : row.graph = contextGraphMetaUri contextGraphId) :
    row.contextGraph = contextGraphDataUri contextGraphId := append_cancel_right h

section

variable (h : Grows (IsRecorded toHex kc assets metaGraph) store store')
  (hassets : ∀ ka ∈ assets, ka.kcUal = kc.ual) (hwf : WellFormed (· ∈ store))
  (hrow : IsRow store' kaUal row) (hg : row.graph = metaGraph) (hkc : row.kc = kc.ual)

include h hassets hwf hrow hg hkc

omit hg in
lemma asset_of_isRow : ∃ n, kaUal = assetUri kc.ual n := by
  have hmeta := isMetaGraph_graph row
  rcases h.added hrow.partOf hmeta (by simp [rowPredicates]) with hold | hnew
  · obtain ⟨n, _, hka, _⟩ := hwf.partOf hmeta hold
    exact ⟨n, hkc ▸ hka⟩
  · obtain ⟨ka, hka, hs, _⟩ := hnew.exists_asset (by simp [assetPredicates])
    exact ⟨ka.tokenId, by rw [show kaUal = ka.uri from hs, KAMetadata.uri, hassets ka hka]⟩

/-- The root entity of the row is one of the record, or was recorded before. -/
lemma rootEntity_of_isRow : row.rootEntity ∈ assets.map KAMetadata.rootEntity ∨
    ∃ n, (⟨assetUri kc.ual n, dkg "rootEntity", row.rootEntity, metaGraph⟩ : Quad) ∈ store := by
  obtain ⟨n, hka⟩ := asset_of_isRow h hassets hwf hrow hkc
  rcases h.added hrow.rootEntity (isMetaGraph_graph row) (by simp [rowPredicates]) with hold | hnew
  · exact .inr ⟨n, hka ▸ hg ▸ hold⟩
  · obtain ⟨ka, hmem, _, hroot, _⟩ := hnew.exists_asset (by simp [assetPredicates])
    exact .inl (mem_map.mpr ⟨ka, hmem, (hroot rfl).symm⟩)

end

/-- What a row says about a collection that was new. -/
structure SaysRecord (kc : KCMetadata B) (assets : List (KAMetadata B)) (row : Row) : Prop where
  contextGraph : row.contextGraph = contextGraphDataUri kc.contextGraphId
  rootEntity : row.rootEntity ∈ assets.map KAMetadata.rootEntity
  accessPolicy : row.accessPolicy = some (lit (kc.accessPolicy.getD .publicAccess).name)
  publisherPeerId : row.publisherPeerId = some (lit (orUnknown kc.publisherPeerId))
  sgName : row.sgName = (kc.subGraphName.filter (· ≠ [])).map lit

section

variable (h : Grows (IsRecorded toHex kc assets metaGraph) store store')
  (hfresh : ∀ q ∈ store, q.graph = metaGraph → q.subject ≠ kc.ual)

include h hfresh

/-- What is said about a new collection is of its record. -/
lemma recorded_of_fresh {p o : Term} (hmeta : IsMetaGraph metaGraph) (hread : p ∈ rowPredicates)
    (hp : p ∉ assetPredicates) : (⟨kc.ual, p, o, metaGraph⟩ : Quad) ∈ store' ↔
      (⟨kc.ual, p, o, contextGraphMetaUri kc.contextGraphId⟩ : Quad) ∈
        collectionQuads toHex kc := by
  constructor
  · intro hq
    rcases h.added hq hmeta hread with hold | hnew
    · exact absurd rfl (hfresh _ hold rfl)
    · exact hnew.mem_collection hp
  · intro hq
    exact h.recorded ⟨rfl, hread, mem_append_left _ hq⟩

/-- The only value that a record has under a predicate is bound. -/
lemma binds_of_fresh {p value : Term} {o : Option Term} (hmeta : IsMetaGraph metaGraph)
    (hread : p ∈ rowPredicates) (hp : p ∉ assetPredicates)
    (hvalue : ∀ o, (⟨kc.ual, p, o, contextGraphMetaUri kc.contextGraphId⟩ : Quad) ∈
      collectionQuads toHex kc ↔ o = value)
    (hbinds : Binds store' metaGraph kc.ual p o) : o = some value := by
  cases o with
  | some o =>
    have hmem := (recorded_of_fresh h hfresh hmeta hread hp).mp hbinds
    rw [(hvalue o).mp hmem]
  | none =>
    have hmem := (recorded_of_fresh h hfresh hmeta hread hp).mpr ((hvalue value).mpr rfl)
    exact absurd ⟨rfl, rfl, rfl⟩ (hbinds _ hmem)

/-- **A row of a new collection** says what its record says. -/
lemma says_of_fresh (hassets : ∀ ka ∈ assets, ka.kcUal = kc.ual) (hwf : WellFormed (· ∈ store))
    (hrow : IsRow store' kaUal row) (hg : row.graph = metaGraph) (hkc : row.kc = kc.ual) :
    SaysRecord kc assets row := by
  have hmeta : IsMetaGraph metaGraph := hg ▸ isMetaGraph_graph row
  refine ⟨?_, ?_, ?_, ?_, ?_⟩
  · have hq := hrow.paranet
    rw [hg, hkc, recorded_of_fresh h hfresh hmeta (by simp [rowPredicates])
      (by simp [assetPredicates]), collection_paranet] at hq
    exact hq.2.1
  · rcases rootEntity_of_isRow h hassets hwf hrow hg hkc with hroot | ⟨n, hold⟩
    · exact hroot
    · obtain ⟨kc', n', c, huri, hpara⟩ := hwf.rootEntity hmeta hold
      exact absurd (assetUri_injective huri).symm (hfresh _ hpara rfl)
  · refine binds_of_fresh h hfresh hmeta (by simp [rowPredicates]) (by simp [assetPredicates])
      (fun o => ?_) (hg ▸ hkc ▸ hrow.accessPolicy)
    rw [collection_accessPolicy]
    exact ⟨fun h => h.2.1, fun h => ⟨rfl, h, rfl⟩⟩
  · refine binds_of_fresh h hfresh hmeta (by simp [rowPredicates]) (by simp [assetPredicates])
      (fun o => ?_) (hg ▸ hkc ▸ hrow.publisherPeerId)
    rw [collection_publisherPeerId]
    exact ⟨fun h => h.2.1, fun h => ⟨rfl, h, rfl⟩⟩
  · have hbinds : Binds store' metaGraph kc.ual (dkg "subGraphName") row.sgName :=
      hg ▸ hkc ▸ hrow.sgName
    have hmem : ∀ o, (⟨kc.ual, dkg "subGraphName", o, metaGraph⟩ : Quad) ∈ store' ↔
        ∃ name ∈ kc.subGraphName, name ≠ [] ∧ o = lit name := by
      intro o
      rw [recorded_of_fresh h hfresh hmeta (by simp [rowPredicates]) (by simp [assetPredicates]),
        collection_subGraphName]
      exact ⟨fun h => h.2.1, fun h => ⟨rfl, h, rfl⟩⟩
    cases hsg : row.sgName with
    | some o =>
      rw [hsg] at hbinds
      obtain ⟨name, hname, hne, rfl⟩ := (hmem o).mp hbinds
      rw [show kc.subGraphName = some name from hname,
        filter_some_pos (by simpa using hne), map_some]
    | none =>
      rw [hsg] at hbinds
      cases hname : kc.subGraphName.filter (· ≠ []) with
      | none => rfl
      | some name =>
        obtain ⟨hsome, hne⟩ := filter_eq_some_iff.mp hname
        refine absurd ⟨rfl, rfl, rfl⟩ (hbinds _ ((hmem (lit name)).mpr ⟨name, hsome, ?_, rfl⟩))
        simpa using hne

/-- The allowed peers of a new collection, as they are written. -/
lemma allowedPeers_of_fresh {peer : Term} (hg : row.graph = metaGraph) (hkc : row.kc = kc.ual)
    (hgraph : contextGraphMetaUri row.contextGraphId = row.graph)
    (hpeer : peer ∈ allowedPeers store' row) :
    ∃ peerId ∈ kc.allowedPeers, peer = peerId.flatMap escape := by
  obtain ⟨⟨s, p, o, g⟩, hq, rfl⟩ := mem_image.mp hpeer
  obtain ⟨hq, hgq, hs, hp, _⟩ := mem_filter.mp hq
  have hmem : (⟨kc.ual, dkg "allowedPeer", o, metaGraph⟩ : Quad) ∈ store' := by
    rw [show s = kc.ual from hs.trans hkc, show p = dkg "allowedPeer" from hp,
      show g = metaGraph from (hgq.trans hgraph).trans hg] at hq
    exact hq
  rw [recorded_of_fresh h hfresh (hg ▸ isMetaGraph_graph row) (by simp [rowPredicates])
    (by simp [assetPredicates]), collection_allowedPeer] at hmem
  obtain ⟨_, ⟨peerId, hpeerId, rfl⟩, _⟩ := hmem
  exact ⟨peerId, hpeerId, stripLiteral_lit peerId⟩

end

end

end Dkg.PrivateAccess
