import Dkg.PrivateAccess.Runs

/-! # Who gets private triples

The invariant is `Sealed`: whatever row of the metadata admits a peer leads to triples that some
publish admits the peer to. A publish and a message keep it when they are confined
(`Invariant.exec`), so it holds in every state of a confined run (`private_triples_confined`). The
replay of a public triple under another UAL shows what happens otherwise.
-/

namespace Dkg.PrivateAccess

open Lib TripleStore Assertions List Gossip Publisher SharedMemory
open Sync.Verification (Hashing)

variable {B : Type} {store store' : TripleStore} {kaUal : Term} {row : Row} {q : Quad}

/-! ## The invariant -/

/-- Whatever row admits a peer leads to triples that some publish admits the peer to. -/
def Sealed (store : TripleStore) (publishes : List LocalPublish) : Prop :=
  ∀ kaUal row, IsRow store kaUal row → ∀ peer : PeerId, row.Opens store peer.text →
    ∀ t ∈ store, IsPrivateTriple row.privateGraph row.rootEntity t → Entitled publishes t peer.text

/-- What every run keeps: the store is well formed and confines what was published as private. -/
structure Invariant (s : State) : Prop where
  wellFormed : WellFormed (· ∈ s.node.store)
  closed : Sealed s.node.store s.publishes

lemma Entitled.mono {publishes publishes' : List LocalPublish} {t : Quad} {peer : Term}
    (h : Entitled publishes t peer) (hsub : publishes ⊆ publishes') :
    Entitled publishes' t peer := by
  obtain ⟨publish, hmem, ht⟩ := h
  exact ⟨publish, hsub hmem, ht⟩

lemma isPrivateGraph_privateGraph (contextGraphId : Term) (subGraphName : Option Term) :
    IsPrivateGraph (privateGraph contextGraphId subGraphName) := ⟨_, rfl⟩

/-- A graph is not of metadata and of private triples at once. -/
lemma not_isMetaGraph_of_isPrivateGraph {graph : Term} (h : IsPrivateGraph graph) :
    ¬ IsMetaGraph graph := by
  intro hmeta
  obtain ⟨front, rfl⟩ := h
  exact not_isMetaGraph_of_append (by decide) (by decide) hmeta

/-- **What stays sealed** when the store grows: old rows lead to new triples only where some publish
admits the peer, and so do the rows of the new record. -/
lemma Sealed.grow {New : Quad → Prop} {metaGraph ual : Term}
    {publishes publishes' : List LocalPublish} (h : Sealed store publishes)
    (hgrow : Grows New store store') (hof : ∀ q, New q → OfCollection metaGraph ual q)
    (hwf : WellFormed (· ∈ store)) (hsub : publishes ⊆ publishes')
    (htriples : ∀ t ∈ store', t ∉ store → IsPrivateGraph t.graph → ∀ kaUal row,
      IsRow store kaUal row → IsPrivateTriple row.privateGraph row.rootEntity t →
        ∀ peer : PeerId, row.Opens store peer.text → Entitled publishes' t peer.text)
    (hrows : ∀ kaUal row, IsRow store' kaUal row → row.graph = metaGraph → row.kc = ual →
      ∀ peer : PeerId, row.Opens store' peer.text → ∀ t ∈ store',
        IsPrivateTriple row.privateGraph row.rootEntity t → Entitled publishes' t peer.text) :
    Sealed store' publishes' := by
  intro kaUal row hrow peer hopens t ht hprivate
  by_cases hnew : row.graph = metaGraph ∧ row.kc = ual
  · exact hrows kaUal row hrow hnew.1 hnew.2 peer hopens t ht hprivate
  · have hold := hgrow.isRow hof hwf hrow hnew
    have hopens' : row.Opens store peer.text := by
      rw [Row.Opens, ← hgrow.allowedPeers_eq hof hwf hold hnew]
      exact hopens
    by_cases hmem : t ∈ store
    · exact (h kaUal row hold peer hopens' t hmem hprivate).mono hsub
    · refine htriples t ht hmem ?_ kaUal row hold hprivate peer hopens'
      exact hprivate.1 ▸ isPrivateGraph_privateGraph _ _

/-! ## What the node stores -/

variable {toHex : B → Term} {kc : KCMetadata B} {assets : List (KAMetadata B)} {metaGraph : Term}
  {extra : List Quad}

lemma graph_of_mem_generateKCMetadata (h : q ∈ generateKCMetadata toHex kc assets) :
    q.graph = contextGraphMetaUri kc.contextGraphId := by
  rcases mem_append.mp h with hkc | hka
  · exact (mem_collectionQuads hkc).1
  · obtain ⟨ka, _, hka⟩ := mem_flatMap.mp hka
    exact (mem_assetQuads hka).1

/-- A record with quads that the lookups do not read. -/
lemma isRecorded_iff (hextra : ∀ q ∈ extra, q.predicate ∉ rowPredicates)
    (hread : q.predicate ∈ rowPredicates) :
    q ∈ inGraph metaGraph (generateKCMetadata toHex kc assets ++ extra) ↔
      IsRecorded toHex kc assets metaGraph q := by
  rw [inGraph, mem_map]
  constructor
  · rintro ⟨q', hq', rfl⟩
    rcases mem_append.mp hq' with hmem | hmem
    · refine ⟨rfl, hread, ?_⟩
      have hsame : ({ q' with graph := contextGraphMetaUri kc.contextGraphId } : Quad) = q' := by
        rw [← graph_of_mem_generateKCMetadata hmem]
      exact hsame ▸ hmem
    · exact absurd hread (hextra q' hmem)
  · intro h
    refine ⟨_, mem_append_left _ h.mem, ?_⟩
    obtain ⟨s, p, o, g⟩ := q
    rw [show g = metaGraph from h.graph]

lemma statusQuad_not_read (status : String) (ual contextGraphId : Term) :
    (statusQuad status ual contextGraphId).predicate ∉ rowPredicates := by
  simp [statusQuad, mq, rowPredicates]

lemma confirmedMetadata_not_read (ual contextGraphId : Term) (provenance : OnChainProvenance) :
    ∀ q ∈ generateConfirmedMetadata ual contextGraphId provenance, q.predicate ∉ rowPredicates := by
  intro q h
  unfold generateConfirmedMetadata at h
  fin_cases h <;> simp [mq, rowPredicates]

lemma authorshipQuads_not_read (ual contextGraphId : Term) (authorship : Option Authorship) :
    ∀ q ∈ authorshipQuads ual contextGraphId authorship, q.predicate ∉ rowPredicates := by
  intro q h
  obtain ⟨a, _, h⟩ := mem_flatMap.mp h
  unfold generateAuthorshipProof at h
  fin_cases h <;> simp [mq, rowPredicates]

lemma schemaName_notMem_rowPredicates : "http://schema.org/name".toList ∉ rowPredicates := by
  decide +kernel

lemma registration_not_read (reg : SubGraphRegistration) :
    ∀ q ∈ generateSubGraphRegistration reg, q.predicate ∉ rowPredicates := by
  intro q h
  unfold generateSubGraphRegistration at h
  fin_cases h <;> first | exact schemaName_notMem_rowPredicates | simp [mq, rowPredicates]

/-! ## Publishes -/

section

variable [LinearOrder B] [Zero B] {hashing : Hashing B} {config : Config} {p : Prepared}
  {settlement : Settlement} {s : State} {ual timestamp : Term}

lemma assets_of_collection : ∀ ka ∈ p.assets hashing ual, ka.kcUal = ual := by
  intro ka h
  obtain ⟨_, _, rfl⟩ := mem_map.mp h
  rfl

lemma rootEntity_of_assets {root : Term}
    (h : root ∈ (p.assets hashing ual).map KAMetadata.rootEntity) : root ∈ p.kaMap.keys := by
  obtain ⟨ka, hka, rfl⟩ := mem_map.mp h
  obtain ⟨⟨entry, i⟩, hentry, rfl⟩ := mem_map.mp hka
  exact mem_map_of_mem (fst_mem_of_mem_zipIdx hentry)

lemma record_eq (hashing : Hashing B) (config : Config) (seq : ℕ) (h : p.isRecorded settlement) :
    ∃ ual timestamp extra,
    settlement.ual config seq = some ual ∧ (∀ q ∈ extra, q.predicate ∉ rowPredicates) ∧
      p.record hashing config seq settlement = inGraph p.options.metaGraph
        (generateKCMetadata hashing.toHex (p.collection hashing ual timestamp)
          (p.assets hashing ual) ++ extra) := by
  cases settlement with
  | throws => cases h
  | tentative timestamp =>
    refine ⟨_, timestamp, [_], rfl, fun q hq => ?_, rfl⟩
    rw [mem_singleton.mp hq]
    exact statusQuad_not_read _ _ _
  | confirmed timestamp result authorship =>
    refine ⟨_, timestamp, generateConfirmedMetadata (confirmedUal config result)
      p.options.contextGraphId (provenance config result) ++ authorshipQuads
      (confirmedUal config result) p.options.contextGraphId authorship, rfl, fun q hq => ?_, ?_⟩
    · rcases mem_append.mp hq with hq | hq
      · exact confirmedMetadata_not_read _ _ _ q hq
      · exact authorshipQuads_not_read _ _ _ q hq
    · rw [Prepared.record, generateConfirmedFullMetadata, append_assoc]
      rfl

lemma privateTriples_graph {options : PublishOptions} {graph : Term} {roots : List Term}
    {t : Quad} (h : t ∈ (privateToStore options graph roots).1) : t.graph = graph := by
  induction roots with
  | nil => cases h
  | cons root rest ih =>
    unfold privateToStore at h
    simp only at h
    split at h
    · exact ih h
    · split at h
      · cases h
      · rcases mem_append.mp h with hown | hrest
        · obtain ⟨_, _, rfl⟩ := mem_map.mp hown
          rfl
        · exact ih hrest

lemma mem_storeTriples : q ∈ p.storeTriples store ↔
    q ∈ store ∨ q ∈ inGraph p.dataGraph (allQuads p.kaMap) ∨
      q ∈ p.privateTriples.1 := by
  rw [Prepared.storeTriples, mem_insert, mem_insert, or_assoc]

section

variable (h : ConfinedPublish config s p settlement)

include h

lemma ConfinedPublish.isDataGraph
    (hq : q ∈ inGraph p.dataGraph (allQuads p.kaMap)) : IsDataGraph q.graph := by
  obtain ⟨q', hq', rfl⟩ := mem_map.mp hq
  exact h.dataGraph (ne_nil_of_mem hq')

lemma ConfinedPublish.storeTriples
    (hq : q ∈ p.storeTriples s.node.store) (hmeta : IsMetaGraph q.graph) : q ∈ s.node.store := by
  rcases mem_storeTriples.mp hq with hold | hdata | hprivate
  · exact hold
  · exact absurd hmeta (h.isDataGraph hdata).1
  · refine absurd hmeta (not_isMetaGraph_of_isPrivateGraph ?_)
    exact privateTriples_graph hprivate ▸ isPrivateGraph_privateGraph _ _

omit h in
lemma admits_of_says {peer : PeerId} {collection : List (KAMetadata B)}
    (hrecord : SaysRecord (p.collection hashing ual timestamp) collection row)
    (hpeers : ∀ text ∈ allowedPeers store row,
      ∃ peerId ∈ normalizedAllowedPeers p.options, text = peerId.flatMap escape)
    (hopens : row.Opens store peer.text) : p.localPublish.Admits peer.text := by
  have hpolicy : row.policy = some (effectiveAccessPolicy p.options) := by
    rw [Row.policy, hrecord.accessPolicy]
    exact policy_of_name _
  have henforced := hopens.2
  rw [hpolicy] at henforced
  have hresolved : resolveAccessPolicy (some (effectiveAccessPolicy p.options)) true =
      effectiveAccessPolicy p.options := rfl
  rw [hresolved] at henforced
  show PolicyAdmits (effectiveAccessPolicy p.options) (trim p.options.publisherPeerId)
    (normalizedAllowedPeers p.options) peer.text
  cases hcase : effectiveAccessPolicy p.options with
  | publicAccess => trivial
  | ownerOnly =>
    rw [hcase] at henforced
    obtain ⟨hpublisher, hknown⟩ := enforcePolicy_ownerOnly henforced
    rw [Row.publisher, hrecord.publisherPeerId, readOptional_lit, Option.some_or,
      Option.some_inj] at hpublisher
    have htext := PeerId.eq_of_escape hpublisher
    have hpeer : orUnknown (orUnknown (trim p.options.publisherPeerId)) = peer.text := htext
    unfold orUnknown at hpeer
    by_cases hempty : trim p.options.publisherPeerId = []
    · rw [if_pos hempty, if_neg (by decide)] at hpeer
      exact absurd hpeer.symm hknown
    · rw [if_neg hempty, if_neg hempty] at hpeer
      exact hpeer.symm
  | allowList =>
    rw [hcase] at henforced
    obtain ⟨peerId, hmem, htext⟩ := hpeers _ (enforcePolicy_allowList henforced)
    exact PeerId.eq_of_escape htext.symm ▸ hmem

/-- The triples alone add nothing that the lookups read. -/
lemma ConfinedPublish.grows_triples :
    Grows (fun _ => False) s.node.store (p.storeTriples s.node.store) where
  added hq hmeta _ := .inl (h.storeTriples hq hmeta)
  kept hq _ := mem_storeTriples.mpr (.inl hq)
  recorded hno := absurd hno not_false

lemma ConfinedPublish.stored_of_new {t : Quad}
    (ht : t ∈ p.storeTriples s.node.store) (hnew : t ∉ s.node.store)
    (hgraph : IsPrivateGraph t.graph) : t ∈ p.privateTriples.1 := by
  rcases mem_storeTriples.mp ht with hold | hdata | hprivate
  · exact absurd hold hnew
  · exact absurd hgraph (h.isDataGraph hdata).2
  · exact hprivate

end

/-- A store that grows without a record. -/
lemma Invariant.unrecorded (h : Invariant s) (hgrow : Grows (fun _ => False) s.node.store store')
    (htriples : ∀ t ∈ store', t ∉ s.node.store → IsPrivateGraph t.graph → ∀ kaUal row,
      IsRow s.node.store kaUal row → IsPrivateTriple row.privateGraph row.rootEntity t →
        ∀ peer : PeerId, row.Opens s.node.store peer.text → Entitled s.publishes t peer.text) :
    WellFormed (· ∈ store') ∧ Sealed store' s.publishes := by
  have hwf : WellFormed fun _ : Quad => False :=
    ⟨fun _ hno => absurd hno not_false, fun _ hno => absurd hno not_false,
      fun _ hno => absurd hno not_false⟩
  have hof : ∀ q : Quad, False → OfCollection [] [] q := fun _ hno => absurd hno not_false
  refine ⟨hgrow.wellFormed h.wellFormed hwf, ?_⟩
  refine h.closed.grow hgrow hof h.wellFormed (Subset.refl _) htriples ?_
  intro kaUal row _ hgraph
  exact absurd hgraph (append_ne_nil_of_right_ne_nil _ (by decide))

lemma Invariant.storeTriples (h : Invariant s) (hc : ConfinedPublish config s p settlement)
    (hrecorded : p.isRecorded settlement = false) :
    WellFormed (· ∈ p.storeTriples s.node.store) ∧
      Sealed (p.storeTriples s.node.store) s.publishes := by
  refine h.unrecorded hc.grows_triples ?_
  intro t ht hnew hgraph kaUal row hrow hprivate peer hopens
  have hstored := hc.stored_of_new ht hnew hgraph
  rcases hc.stored t hstored kaUal row hrow hprivate peer hopens with ⟨hrec, _⟩ | hentitled
  · exact absurd hrec (by simp [hrecorded])
  · exact hentitled

omit [LinearOrder B] [Zero B] in
/-- What the lookups read after a publish is from before, or of its record. -/
lemma ConfinedPublish.grows_record (h : ConfinedPublish config s p settlement)
    (hextra : ∀ q ∈ extra, q.predicate ∉ rowPredicates) :
    Grows (IsRecorded toHex kc assets metaGraph) s.node.store
      ((p.storeTriples s.node.store).insert
        (inGraph metaGraph (generateKCMetadata toHex kc assets ++ extra))) where
  added hq hmeta hread := by
    rcases mem_insert.mp hq with hstored | hrecord
    · exact .inl (h.storeTriples hstored hmeta)
    · exact .inr ((isRecorded_iff hextra hread).mp hrecord)
  kept hq _ := mem_insert.mpr (.inl (mem_storeTriples.mpr (.inl hq)))
  recorded hq := mem_insert.mpr (.inr ((isRecorded_iff hextra hq.read).mpr hq))

lemma Invariant.record (hashing : Hashing B) (h : Invariant s)
    (hc : ConfinedPublish config s p settlement) (hrecorded : p.isRecorded settlement) :
    WellFormed (· ∈ (p.run hashing config s.node settlement).store) ∧
      Sealed (p.run hashing config s.node settlement).store (s.publishes ++ [p.localPublish]) := by
  obtain ⟨ual, timestamp, extra, hual, hextra, hrecord⟩ :=
    record_eq hashing config (s.node.tentativeCounter + 1) hrecorded
  have hstore : (p.run hashing config s.node settlement).store =
      (p.storeTriples s.node.store).insert (inGraph p.options.metaGraph
        (generateKCMetadata hashing.toHex (p.collection hashing ual timestamp)
          (p.assets hashing ual) ++ extra)) := by
    rw [Prepared.run, if_pos hrecorded, ← hrecord]
  have hassets : ∀ ka ∈ p.assets hashing ual,
      ka.kcUal = (p.collection hashing ual timestamp).ual := assets_of_collection
  have hgrow : Grows (IsRecorded hashing.toHex (p.collection hashing ual timestamp)
      (p.assets hashing ual) p.options.metaGraph) s.node.store _ := hc.grows_record hextra
  have hfresh : ∀ q ∈ s.node.store, q.graph = p.options.metaGraph →
      q.subject ≠ (p.collection hashing ual timestamp).ual := hc.ual hrecorded ual hual
  rw [hstore]
  refine ⟨hgrow.wellFormed h.wellFormed (wellFormed_isRecorded hassets), ?_⟩
  -- a new triple in a private graph is one that the publish stores
  have hnewTriple : ∀ t ∈ (p.storeTriples s.node.store).insert
      (inGraph p.options.metaGraph (generateKCMetadata hashing.toHex
        (p.collection hashing ual timestamp) (p.assets hashing ual) ++ extra)),
      t ∉ s.node.store → IsPrivateGraph t.graph → t ∈ p.privateTriples.1 := by
    intro t ht hnew hgraph
    rcases mem_insert.mp ht with ht | ht
    · exact hc.stored_of_new ht hnew hgraph
    · obtain ⟨_, _, rfl⟩ := mem_map.mp ht
      exact absurd hgraph hc.metaGraph
  have hown : ∀ t ∈ p.privateTriples.1, ∀ peer, p.localPublish.Admits peer →
      Entitled (s.publishes ++ [p.localPublish]) t peer := by
    intro t ht peer hadmits
    exact ⟨p.localPublish, mem_append_right _ mem_cons_self, ht, hadmits⟩
  have hsub : s.publishes ⊆ s.publishes ++ [p.localPublish] := subset_append_left _ _
  refine h.closed.grow hgrow (fun _ => IsRecorded.ofCollection hassets) h.wellFormed hsub ?_ ?_
  · intro t ht hnew hgraph kaUal row hrow hprivate peer hopens
    have hstored := hnewTriple t ht hnew hgraph
    rcases hc.stored t hstored kaUal row hrow hprivate peer hopens with ⟨_, hadmits⟩ | hentitled
    · exact hown t hstored _ hadmits
    · exact hentitled.mono hsub
  · intro kaUal row hrow hg hkc peer hopens t ht hprivate
    have hrecord := says_of_fresh hgrow hfresh hassets h.wellFormed hrow hg hkc
    have huri : row.contextGraph = contextGraphDataUri p.options.contextGraphId :=
      hrecord.contextGraph
    have hid := contextGraphId_of_uri huri
    have hgraph : contextGraphMetaUri row.contextGraphId = row.graph := by
      rw [hid, graph_of_uri huri]
    have hadmits := admits_of_says hrecord
      (fun _ => allowedPeers_of_fresh hgrow hfresh hg hkc hgraph) hopens
    by_cases hnew : t ∈ s.node.store
    · have hmeta : p.options.metaGraph = contextGraphMetaUri p.options.contextGraphId := by
        rw [← hg, ← hgraph, hid]
      have hrecordedGraph : row.privateGraph =
          recordedGraph p.options.contextGraphId p.options.subGraphName := by
        rw [Row.privateGraph, hid, Row.subGraphName, hrecord.sgName]
        rfl
      have hroot := rootEntity_of_assets hrecord.rootEntity
      rcases hc.admitted hrecorded hmeta row.rootEntity hroot t hnew (hrecordedGraph ▸ hprivate)
          peer
        hadmits with hstored | hentitled
      · exact hown t hstored _ hadmits
      · exact hentitled.mono hsub
    · refine hown t (hnewTriple t ht hnew ?_) _ hadmits
      exact hprivate.1 ▸ isPrivateGraph_privateGraph _ _

/-! ## Messages -/

variable {world : Gossip.World B} {msg : Gossip.Message B} {stored : Gossip.Stored B}
  {metaSynced : KeyedList Term Bool} {c : Gossip.Collection B}

/-- What a message stores besides its data. -/
structure StoresMetadata (stored : Gossip.Stored B) : Prop where
  registration : ∀ q ∈ stored.registration, q.predicate ∉ rowPredicates ∧ IsMetaGraph q.graph
  assets : ∀ c ∈ stored.collection, ∀ ka ∈ c.assets, ka.kcUal = c.kc.ual

lemma storesMetadata_of_receive {node : Gossip.Node}
    (h : receive hashing world node msg = .ok (metaSynced, .ok stored)) :
    StoresMetadata stored := by
  obtain ⟨contextGraphId, subGraphName, registration, normalized, isReplay, _, hregistration,
    rfl⟩ := receive_ok h
  constructor
  · intro q hq
    rcases registration_of_ok hregistration with hnone | ⟨reg, _, hreg⟩
    · exact absurd (hnone ▸ hq : q ∈ []) not_mem_nil
    · have hq' : q ∈ generateSubGraphRegistration reg := hreg ▸ hq
      refine ⟨registration_not_read reg q hq', ?_⟩
      unfold generateSubGraphRegistration at hq'
      fin_cases hq' <;> exact isMetaGraph_contextGraphMetaUri _
  · intro c hc
    unfold storedBy at hc
    simp only at hc
    split at hc
    · cases hc
    · cases hc
      exact collectionOf_assets

section

omit [LinearOrder B] [Zero B]

lemma tentative_eq : generateTentativeMetadata toHex kc assets =
    generateKCMetadata toHex kc assets ++ [statusQuad "tentative" kc.ual kc.contextGraphId] := rfl

lemma inGraph_tentative : inGraph (contextGraphMetaUri kc.contextGraphId)
    (generateTentativeMetadata toHex kc assets) = generateTentativeMetadata toHex kc assets := by
  refine map_congr_left (g := id) ?_ |>.trans (map_id _)
  intro q hq
  have hgraph : q.graph = contextGraphMetaUri kc.contextGraphId := by
    rcases mem_append.mp hq with hq | hq
    · exact graph_of_mem_generateKCMetadata hq
    · rw [mem_singleton.mp hq]
      rfl
  show ({ q with graph := contextGraphMetaUri kc.contextGraphId } : Quad) = q
  rw [← hgraph]

/-- What the lookups read of a stored collection. -/
lemma mem_storeCollection (hread : q.predicate ∈ rowPredicates) :
    q ∈ storeCollection hashing store c ↔ q ∈ store ∨
      IsRecorded hashing.toHex c.kc c.assets (contextGraphMetaUri c.kc.contextGraphId) q := by
  have hstatus : ∀ status : String,
      q ≠ statusQuad status c.kc.ual c.kc.contextGraphId := by
    rintro status rfl
    exact statusQuad_not_read _ _ _ hread
  have htentative : q ∈ store.insert (generateTentativeMetadata hashing.toHex c.kc c.assets) ↔
      q ∈ store ∨
        IsRecorded hashing.toHex c.kc c.assets (contextGraphMetaUri c.kc.contextGraphId) q := by
    rw [mem_insert, ← inGraph_tentative, tentative_eq]
    refine or_congr_right (isRecorded_iff (fun q hq => ?_) hread)
    rw [mem_singleton.mp hq]
    exact statusQuad_not_read _ _ _
  unfold storeCollection
  simp only
  split
  · have hfound : [getTentativeStatusQuad c.kc.ual c.kc.contextGraphId].map Quad.reparsed =
        [getTentativeStatusQuad c.kc.ual c.kc.contextGraphId] := rfl
    rw [promoteGossipToConfirmed, mem_delete, hfound, mem_insert, htentative, mem_singleton,
      mem_singleton]
    have hconfirmed : q ≠ getConfirmedStatusQuad c.kc.ual c.kc.contextGraphId := hstatus _
    have htent : q ≠ getTentativeStatusQuad c.kc.ual c.kc.contextGraphId := hstatus _
    simp [hconfirmed, htent]
  · exact htentative

lemma graph_of_mem_storeCollection (hq : q ∈ storeCollection hashing store c) :
    q ∈ store ∨ IsMetaGraph q.graph := by
  have htentative : ∀ q ∈ store.insert (generateTentativeMetadata hashing.toHex c.kc c.assets),
      q ∈ store ∨ IsMetaGraph q.graph := by
    intro q hq
    rcases mem_insert.mp hq with hold | hnew
    · exact .inl hold
    · rw [← inGraph_tentative] at hnew
      obtain ⟨_, _, rfl⟩ := mem_map.mp hnew
      exact .inr (isMetaGraph_contextGraphMetaUri _)
  unfold storeCollection at hq
  simp only at hq
  split at hq
  · rw [promoteGossipToConfirmed, mem_delete, mem_insert] at hq
    rcases hq.1 with hold | hconfirmed
    · exact htentative q hold
    · rw [mem_singleton.mp hconfirmed]
      exact .inr (isMetaGraph_contextGraphMetaUri _)
  · exact htentative q hq

/-- The store before a message's collection is stored. -/
def withData (store : TripleStore) (stored : Gossip.Stored B) : TripleStore :=
  (store.insert stored.registration).insert stored.data

lemma mem_withData : q ∈ withData store stored ↔
    q ∈ store ∨ q ∈ stored.registration ∨ q ∈ stored.data := by
  rw [withData, mem_insert, mem_insert, or_assoc]

/-- A message adds no private triple. -/
lemma ConfinedMessage.private_old (hc : ConfinedMessage s stored) (hm : StoresMetadata stored)
    (hq : q ∈ stored.run hashing s.node.store) (hgraph : IsPrivateGraph q.graph) :
    q ∈ s.node.store := by
  have hno := not_isMetaGraph_of_isPrivateGraph hgraph
  have hdata : q ∈ withData s.node.store stored := by
    unfold Stored.run at hq
    simp only at hq
    split at hq
    · exact hq
    · exact (graph_of_mem_storeCollection hq).resolve_right hno
  rcases mem_withData.mp hdata with hold | hregistration | hdata
  · exact hold
  · exact absurd (hm.registration q hregistration).2 hno
  · exact absurd hgraph (hc.data q hdata).2

/-- The lookups read nothing of the data and the registration. -/
lemma ConfinedMessage.mem_withData (hc : ConfinedMessage s stored) (hm : StoresMetadata stored)
    (hq : q ∈ withData s.node.store stored) (hmeta : IsMetaGraph q.graph)
    (hread : q.predicate ∈ rowPredicates) : q ∈ s.node.store := by
  rcases PrivateAccess.mem_withData.mp hq with hold | hregistration | hdata
  · exact hold
  · exact absurd hread (hm.registration q hregistration).1
  · exact absurd hmeta (hc.data q hdata).1

/-- A row of the message's collection leads to what the message names. -/
lemma names_of_isRow
    (hgrow : Grows (IsRecorded toHex c.kc c.assets (contextGraphMetaUri c.kc.contextGraphId)) store
      store') (hassets : ∀ ka ∈ c.assets, ka.kcUal = c.kc.ual) (hwf : WellFormed (· ∈ store))
    (hrow : IsRow store' kaUal row) (hg : row.graph = contextGraphMetaUri c.kc.contextGraphId)
    (hkc : row.kc = c.kc.ual) :
    NamesRoot store c row.rootEntity ∧ NamesSubGraph store c row.sgName ∧
      row.privateGraph = privateGraph c.kc.contextGraphId (readOptional row.sgName) := by
  refine ⟨rootEntity_of_isRow hgrow hassets hwf hrow hg hkc, ?_, ?_⟩
  · have hmeta := isMetaGraph_graph row
    have hbinds := hrow.sgName
    rw [hg, hkc] at hbinds
    rw [hg] at hmeta
    cases hsg : row.sgName with
    | some o =>
      rw [hsg] at hbinds
      rcases hgrow.added hbinds hmeta (by simp [rowPredicates]) with hold | hnew
      · exact .inr hold
      · have hmem := hnew.mem_collection (by simp [assetPredicates])
        exact .inl (collection_subGraphName.mp hmem).2.1
    | none =>
      rw [hsg] at hbinds
      refine ⟨?_, fun o hold => ?_⟩
      · cases hname : c.kc.subGraphName.filter (· ≠ []) with
        | none => rfl
        | some name =>
          obtain ⟨hsome, hne⟩ := Option.filter_eq_some_iff.mp hname
          have hmem : (⟨c.kc.ual, dkg "subGraphName", lit name,
              contextGraphMetaUri c.kc.contextGraphId⟩ : Quad) ∈ store' := by
            refine hgrow.recorded ⟨rfl, by simp [rowPredicates], mem_append_left _ ?_⟩
            exact collection_subGraphName.mpr ⟨rfl, ⟨name, hsome, by simpa using hne, rfl⟩, rfl⟩
          exact absurd ⟨rfl, rfl, rfl⟩ (hbinds _ hmem)
      · exact hbinds _ (hgrow.kept hold (by simp [rowPredicates])) ⟨rfl, rfl, rfl⟩
  · rw [Row.privateGraph, contextGraphId_of_uri (contextGraph_of_graph hg), Row.subGraphName]

lemma Invariant.message (hashing : Hashing B) (h : Invariant s) (hc : ConfinedMessage s stored)
    (hm : StoresMetadata stored) :
    WellFormed (· ∈ stored.run hashing s.node.store) ∧
      Sealed (stored.run hashing s.node.store) s.publishes := by
  have hold : ∀ t ∈ stored.run hashing s.node.store, t ∉ s.node.store → ¬ IsPrivateGraph t.graph :=
    fun t ht hnew hgraph => hnew (hc.private_old hm ht hgraph)
  cases hcollection : stored.collection with
  | none =>
    have hrun : stored.run hashing s.node.store = withData s.node.store stored := by
      rw [Stored.run, hcollection, withData]
    have hgrow : Grows (fun _ => False) s.node.store (stored.run hashing s.node.store) := by
      rw [hrun]
      exact ⟨fun hq hmeta hread => .inl (hc.mem_withData hm hq hmeta hread),
        fun hq _ => PrivateAccess.mem_withData.mpr (.inl hq), fun hno => absurd hno not_false⟩
    exact h.unrecorded hgrow fun t ht hnew hgraph => absurd hgraph (hold t ht hnew)
  | some c =>
    have hassets := hm.assets c hcollection
    have hrun : stored.run hashing s.node.store =
        storeCollection hashing (withData s.node.store stored) c := by
      rw [Stored.run, hcollection, withData]
    have hgrow : Grows
        (IsRecorded hashing.toHex c.kc c.assets (contextGraphMetaUri c.kc.contextGraphId))
        s.node.store (stored.run hashing s.node.store) := by
      rw [hrun]
      constructor
      · intro q hq hmeta hread
        rcases (mem_storeCollection hread).mp hq with hdata | hrecord
        · exact .inl (hc.mem_withData hm hdata hmeta hread)
        · exact .inr hrecord
      · intro q hq hread
        have hdata : q ∈ withData s.node.store stored := PrivateAccess.mem_withData.mpr (.inl hq)
        exact (mem_storeCollection hread).mpr (.inl hdata)
      · intro q hq
        exact (mem_storeCollection hq.read).mpr (.inr hq)
    refine ⟨hgrow.wellFormed h.wellFormed (wellFormed_isRecorded hassets), ?_⟩
    refine h.closed.grow hgrow (fun _ => IsRecorded.ofCollection hassets) h.wellFormed
      (Subset.refl _) ?_ ?_
    · intro t ht hnew hgraph
      exact absurd hgraph (hold t ht hnew)
    · intro kaUal row hrow hg hkc peer _ t ht hprivate
      obtain ⟨hroot, hsg, hgraph⟩ := names_of_isRow hgrow hassets h.wellFormed hrow hg hkc
      have htold : t ∈ s.node.store :=
        hc.private_old hm ht (hprivate.1 ▸ isPrivateGraph_privateGraph _ _)
      obtain ⟨publish, hmem, htriple, hpublic⟩ := hc.collection c hcollection row.rootEntity hroot
        row.sgName hsg t htold (hgraph ▸ hprivate)
      refine ⟨publish, hmem, htriple, ?_⟩
      rw [LocalPublish.Admits, hpublic]
      trivial

/-! ## Runs -/

end

/-- **The step lemma.** What is sealed stays sealed. -/
lemma Invariant.exec (h : Invariant s) {event : Event B} (hc : Confined hashing config s event) :
    Invariant (exec hashing config s event) := by
  cases event with
  | publish options settlement =>
    cases hprepare : prepare s.node options with
    | error e =>
      simp only [PrivateAccess.exec, publish, hprepare, Except.map]
      exact h
    | ok p =>
      have hp := hc p hprepare
      simp only [PrivateAccess.exec, publish, hprepare, Except.map]
      cases hrecorded : p.isRecorded settlement with
      | true =>
        obtain ⟨hwf, hsealed⟩ := h.record hashing hp hrecorded
        exact ⟨hwf, hsealed⟩
      | false =>
        obtain ⟨hwf, hsealed⟩ := h.storeTriples hp hrecorded
        have hstore : (p.run hashing config s.node settlement).store =
            p.storeTriples s.node.store := by
          rw [Prepared.run, if_neg (by simp [hrecorded])]
        exact ⟨hstore ▸ hwf, hstore ▸ hsealed⟩
  | gossip world msg =>
    simp only [PrivateAccess.exec, handlePublishMessage]
    split
    · exact ⟨h.wellFormed, h.closed⟩
    · exact ⟨h.wellFormed, h.closed⟩
    next metaSynced stored hreceive =>
      obtain ⟨hwf, hsealed⟩ := h.message hashing (hc metaSynced stored hreceive)
        (storesMetadata_of_receive hreceive)
      exact ⟨hwf, hsealed⟩

/-- **In every run** the invariant holds. -/
lemma invariant (h : ((machine hashing config).restrict (Confined hashing config)).Reachable s) :
    Invariant s := by
  refine Machine.Reachable.invariant ?_ ?_ h
  · rintro s ⟨hstore, hpublishes⟩
    have hempty : ∀ q, q ∉ s.node.store := by simp [hstore]
    refine ⟨⟨fun _ h => absurd h (hempty _), fun _ h => absurd h (hempty _),
      fun _ h => absurd h (hempty _)⟩, ?_⟩
    intro kaUal row hrow
    exact absurd hrow.rootEntity (hempty _)
  · rintro s event s' hs ⟨hconfined, rfl⟩
    exact hs.exec hconfined

/-- **Private triples reach only admitted peers.** In every run whose publishes and messages keep
the records of private root entities apart, a granted request contains only triples that a recorded
publish of the run has stored with a policy that admits the peer. -/
theorem private_triples_confined
    (h : ((machine hashing config).restrict (Confined hashing config)).Reachable s)
    (ed25519Verify : List ℕ → Term → List ℕ → Bool) (tracked : Bool) (request : AccessRequest)
    (fromPeerId : PeerId) (answer : Option Row) (rows : List Quad) (response : AccessResponse B)
    (hanswer : IsAnswer s.node.store request.kaUal answer)
    (hrows : ∀ row ∈ answer, ArePrivateTriples s.node.store row.privateGraph row.rootEntity rows)
    (hresponse : handleAccess hashing ed25519Verify tracked s.node.store request fromPeerId answer
      rows = .ok response) :
    ∀ t ∈ response.privateQuads, Entitled s.publishes t fromPeerId.text := by
  intro t ht
  obtain ⟨row, rfl, hopens, _, _, rfl⟩ := handleAccess_ok hresponse
  obtain ⟨hstore, hprivate⟩ := ((hrows row rfl).2 t).mp ht
  exact (invariant h).closed request.kaUal row hanswer fromPeerId hopens t hstore hprivate

end

/-! ## A replayed message -/

namespace Replay

def hashing : Hashing ℕ where
  keccak256 := List.length
  hashPair := (· + ·)
  toHex _ := []
  ofBytes := List.length

def config : Config := ⟨['c'], ['a'], ['s']⟩

def root : Term := "urn:r".toList

lemma singleton_isAlphanum {c : Char} (h : c.isAlphanum) : ∀ d ∈ [c], d.isAlphanum := by
  intro d hd
  rw [mem_singleton.mp hd]
  exact h

def owner : PeerId := ⟨['p'], singleton_isAlphanum (by decide)⟩

def stranger : PeerId := ⟨['m'], singleton_isAlphanum (by decide)⟩

/-- A publish with a private triple and the default policy. -/
def options : PublishOptions where
  contextGraphId := ['g']
  quads := [⟨root, ['p'], ['o'], []⟩]
  privateQuads := [⟨root, ['q'], ['x'], []⟩]
  publisherPeerId := owner.text
  accessPolicy := none
  allowedPeers := []
  subGraphName := none
  targetGraphUri := none
  targetMetaGraphUri := none
  internalOrigin := false

def world : Gossip.World ℕ where
  contextGraphExists _ := false
  getContextGraphOwner _ := none
  hasConfirmedMetaState _ := false
  listenForEvents := none
  now := ['t']

/-- The public triple of the publish, under a UAL of the sender's choice. -/
def message : Gossip.Message ℕ where
  request := {
    ual := ['u', '/', 'v']
    nquads := "<urn:r> <p> <o> .".toList
    paranetId := []
    kas := [⟨1, root, none, 0⟩]
    publisherAddress := stranger.text
    startKAId := 0
    endKAId := 0
    txHash := []
    blockNumber := 0
    subGraphName := [] }
  contextGraphId := ['g']
  fromPeerId := some stranger.text

def empty : State := ⟨⟨∅, .empty, 0⟩, .empty, []⟩

def published : State := exec hashing config empty (.publish options (.tentative ['t']))

def replayed : State := exec hashing config published (.gossip world message)

def privateTriple : Quad := ⟨root, ['q'], ['x'], privateGraph ['g'] none⟩

def request (kaUal : Term) : AccessRequest := ⟨kaUal, [], [1], [1]⟩

def verify : List ℕ → Term → List ℕ → Bool := fun _ _ _ => true

def messageRow : Row where
  rootEntity := root
  contextGraph := contextGraphDataUri ['g']
  kc := ['u', '/', 'v']
  privateMerkleRoot := none
  privateTripleCount := none
  accessPolicy := some (lit "public".toList)
  publisherPeerId := some (lit stranger.text)
  attributedTo := some (lit stranger.text)
  sgName := none

/-- The row of the publish's own collection. -/
def publishRow : Row where
  rootEntity := root
  contextGraph := contextGraphDataUri ['g']
  kc := tentativeUal config 1
  privateMerkleRoot := some (lit [])
  privateTripleCount := some (integerLiteral 1)
  accessPolicy := some (lit "ownerOnly".toList)
  publisherPeerId := some (lit owner.text)
  attributedTo := some (lit owner.text)
  sgName := none

lemma messageRow_isRow : IsRow replayed.node.store "u/v/1".toList messageRow := by
  constructor <;> decide +kernel

lemma publishRow_isRow :
    IsRow published.node.store (assetUri (tentativeUal config 1) 1) publishRow := by
  constructor <;> decide +kernel

lemma arePrivateTriples_singleton {store : TripleStore} {graph root : Term} {t : Quad}
    (h : store.filter (IsPrivateTriple graph root) = {t}) :
    ArePrivateTriples store graph root [t] := by
  refine ⟨nodup_singleton t, fun q => ?_⟩
  rw [mem_singleton, ← Finset.mem_singleton, ← h, Finset.mem_filter]

lemma published_reachable : (machine hashing config).Reachable published :=
  (Machine.Reachable.init (show (machine hashing config).init empty from ⟨rfl, rfl⟩)).step rfl

end Replay

/-- The first publish of a node keeps its triples with the peers that it admits. -/
lemma confinedPublish_of_empty {config : Config} {s : State} {p : Prepared}
    {settlement : Settlement} (hempty : s.node.store = ∅) (hdata : IsDataGraph p.dataGraph)
    (hmeta : ¬ IsPrivateGraph p.options.metaGraph) : ConfinedPublish config s p settlement where
  dataGraph _ := hdata
  metaGraph := hmeta
  ual _ _ _ q hq := absurd (hempty ▸ hq) (Finset.notMem_empty q)
  stored _ _ _ _ hrow := absurd (hempty ▸ hrow.rootEntity) (Finset.notMem_empty _)
  admitted _ _ _ _ t ht := absurd (hempty ▸ ht) (Finset.notMem_empty t)

lemma Replay.published_confined :
    ((machine hashing config).restrict (Confined hashing config)).Reachable published := by
  refine Machine.Reachable.step (c := Event.publish options (.tentative ['t']))
    (.init (show (machine hashing config).init empty from ⟨rfl, rfl⟩)) ⟨fun p hp => ?_, rfl⟩
  have hgraphs : ∀ p ∈ (prepare empty.node options).toOption,
      IsDataGraph p.dataGraph ∧ ¬ IsPrivateGraph p.options.metaGraph := by
    decide +kernel
  obtain ⟨hdata, hmeta⟩ := hgraphs p (by rw [hp]; rfl)
  exact confinedPublish_of_empty rfl hdata hmeta

open PrivateAccess.Replay in
/-- The owner of the published triple gets it, and is the peer that the publish admits. -/
theorem owner_gets_private_triple : ∃ response,
    handleAccess hashing verify false published.node.store
      (request (assetUri (tentativeUal config 1) 1)) owner (some publishRow) [privateTriple] =
        .ok response ∧
      ∀ t ∈ response.privateQuads, Entitled published.publishes t owner.text := by
  have hok : (handleAccess hashing verify false published.node.store
      (request (assetUri (tentativeUal config 1) 1)) owner (some publishRow)
        [privateTriple]).toOption.isSome := by
    decide +kernel
  obtain ⟨response, hresponse⟩ := Option.isSome_iff_exists.mp hok
  have heq := eq_ok_of_toOption hresponse
  refine ⟨response, heq, ?_⟩
  refine private_triples_confined published_confined verify false
    (request (assetUri (tentativeUal config 1) 1)) owner (some publishRow) [privateTriple] response
    publishRow_isRow ?_ heq
  rintro row ⟨rfl⟩
  exact arePrivateTriples_singleton (by decide +kernel)

open PrivateAccess.Replay in
/-- A stranger gets the private triple under the UAL of the message. -/
theorem stranger_gets_private_triple : (machine hashing config).Reachable replayed ∧
    IsAnswer replayed.node.store "u/v/1".toList (some messageRow) ∧
    ArePrivateTriples replayed.node.store messageRow.privateGraph messageRow.rootEntity
      [privateTriple] ∧
    (∃ response, handleAccess hashing verify false replayed.node.store (request "u/v/1".toList)
      stranger (some messageRow) [privateTriple] = .ok response ∧
      privateTriple ∈ response.privateQuads) ∧
    ¬ Entitled replayed.publishes privateTriple stranger.text := by
  refine ⟨published_reachable.step rfl, messageRow_isRow,
    arePrivateTriples_singleton (by decide +kernel), ?_, by decide +kernel⟩
  have hok : (handleAccess hashing verify false replayed.node.store (request "u/v/1".toList)
      stranger (some messageRow) [privateTriple]).toOption.isSome := by
    decide +kernel
  obtain ⟨response, hresponse⟩ := Option.isSome_iff_exists.mp hok
  have heq := eq_ok_of_toOption hresponse
  obtain ⟨_, _, _, _, _, rfl⟩ := handleAccess_ok heq
  exact ⟨_, heq, mem_singleton.mpr rfl⟩

end Dkg.PrivateAccess
