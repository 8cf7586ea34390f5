import Dkg.Gossip.PublishHandler
import Dkg.PrivateAccess.Rows

/-! # Runs of a publisher's node

The node's own publishes and the publish messages of any peers, in any order. An access request
changes nothing, so it is asked of every state that a run reaches (`handleAccess_ok` says what a
granted request has passed). `publishes` is the history of the publishes that were recorded, with
their policies.

A publish message records its collection as public, whatever root entities it names. So private
triples stay with the peers that their publishes admit only in runs that keep the records of private
root entities apart (`Confined`).
-/

namespace Dkg.PrivateAccess

open Lib Publisher SharedMemory
open Sync.Verification (Hashing)

variable {B : Type} {store : TripleStore} {kaUal : Term} {row : Row}

/-! ## Granted requests -/

def Row.Opens (store : TripleStore) (row : Row) (peer : Term) : Prop :=
  row.hasInvalidExplicitPolicy = false ∧
    enforcePolicy (resolveAccessPolicy row.policy true) row.publisher (allowedPeers store row)
      peer = .ok ()

lemma denyIf_ok {c : Prop} [Decidable c] {denial : Denial} {u : Unit}
    (h : denyIf c denial = .ok u) : ¬ c := by
  intro hc
  rw [denyIf, if_pos hc] at h
  cases h

variable {answer : Option Row} {publisher : Option Term} {peers : Finset Term} {peer : Term}

lemma lookupKAMeta_ok {ka : KAMeta} (h : lookupKAMeta store kaUal answer = .ok (some ka)) :
    ∃ row ∈ answer, rowMeta store row = .ok ka := by
  unfold lookupKAMeta at h
  obtain ⟨_, _, h⟩ := exists_ok_of_bind h
  cases answer with
  | none => cases h
  | some row =>
    obtain ⟨ka', hka, h⟩ := exists_ok_of_bind h
    cases h
    exact ⟨row, rfl, hka⟩

lemma handleAccess_ok [LinearOrder B] [Zero B] {hashing : Hashing B}
    {ed25519Verify : List ℕ → Term → List ℕ → Bool} {tracked : Bool} {request : AccessRequest}
    {fromPeerId : PeerId} {rows : List Quad} {response : AccessResponse B}
    (h : handleAccess hashing ed25519Verify tracked store request fromPeerId answer rows =
      .ok response) :
    ∃ row ∈ answer, row.Opens store fromPeerId.text ∧
      ∃ recorded, recordedRoot row.privateMerkleRoot = .ok recorded ∧
        response = ⟨rows, responseRoot hashing recorded rows⟩ := by
  unfold handleAccess at h
  obtain ⟨_, _, h⟩ := exists_ok_of_bind h
  obtain ⟨found, hfound, h⟩ := exists_ok_of_bind h
  obtain ⟨ka, hka, h⟩ := exists_ok_of_bind h
  obtain ⟨_, hvalid, h⟩ := exists_ok_of_bind h
  obtain ⟨_, _, h⟩ := exists_ok_of_bind h
  obtain ⟨_, hpolicy, h⟩ := exists_ok_of_bind h
  obtain ⟨_, _, h⟩ := exists_ok_of_bind h
  obtain ⟨_, _, h⟩ := exists_ok_of_bind h
  obtain ⟨_, _, h⟩ := exists_ok_of_bind h
  cases h
  cases found with
  | none => cases hka
  | some ka' =>
    cases hka
    obtain ⟨row, hrow, hmeta⟩ := lookupKAMeta_ok hfound
    unfold rowMeta at hmeta
    obtain ⟨recorded, hrecorded, hmeta⟩ := exists_ok_of_bind hmeta
    obtain ⟨_, _, hmeta⟩ := exists_ok_of_bind hmeta
    obtain ⟨_, _, hmeta⟩ := exists_ok_of_bind hmeta
    cases hmeta
    exact ⟨row, hrow, ⟨by simpa using denyIf_ok hvalid, hpolicy⟩, recorded, hrecorded, rfl⟩

lemma enforcePolicy_ownerOnly (h : enforcePolicy .ownerOnly publisher peers peer = .ok ()) :
    publisher = some peer ∧ peer ≠ "unknown".toList := by
  unfold enforcePolicy at h
  cases hpub : publisher.filter (· ≠ []) with
  | none =>
    simp only [hpub] at h
    cases h
  | some owner =>
    simp only [hpub] at h
    split at h
    · cases h
    next hknown =>
      split at h
      · cases h
      next hsame =>
        rw [not_not.mp hsame]
        exact ⟨(Option.filter_eq_some_iff.mp hpub).1, hknown⟩

lemma enforcePolicy_allowList (h : enforcePolicy .allowList publisher peers peer = .ok ()) :
    peer ∈ peers := by
  unfold enforcePolicy at h
  simp only at h
  split at h
  · cases h
  · split at h
    · cases h
    next hmem => exact not_not.mp hmem

/-! ## Histories -/

/-- A publish as it was recorded: its private triples, and its policy. -/
structure LocalPublish where
  triples : List Quad
  policy : AccessPolicy
  publisherPeerId : Term
  allowedPeers : List Term

def PolicyAdmits : AccessPolicy → Term → List Term → Term → Prop
  | .publicAccess, _, _, _ => True
  | .ownerOnly, publisherPeerId, _, peer => peer = publisherPeerId
  | .allowList, _, allowedPeers, peer => peer ∈ allowedPeers

instance decidablePolicyAdmits : (policy : AccessPolicy) → (publisherPeerId : Term) →
    (allowedPeers : List Term) → (peer : Term) →
    Decidable (PolicyAdmits policy publisherPeerId allowedPeers peer)
  | .publicAccess, _, _, _ => instDecidableTrue
  | .ownerOnly, publisherPeerId, _, peer => inferInstanceAs (Decidable (peer = publisherPeerId))
  | .allowList, _, allowedPeers, peer => decidableMemTerms peer allowedPeers

def LocalPublish.Admits (publish : LocalPublish) (peer : Term) : Prop :=
  PolicyAdmits publish.policy publish.publisherPeerId publish.allowedPeers peer

instance LocalPublish.decidableAdmits (publish : LocalPublish) (peer : Term) :
    Decidable (publish.Admits peer) := decidablePolicyAdmits _ _ _ _

def Prepared.localPublish (p : Prepared) : LocalPublish where
  triples := p.privateTriples.1
  policy := effectiveAccessPolicy p.options
  publisherPeerId := trim p.options.publisherPeerId
  allowedPeers := normalizedAllowedPeers p.options

/-- Some publish of the triple admits the peer. -/
def Entitled (publishes : List LocalPublish) (triple : Quad) (peer : Term) : Prop :=
  ∃ publish ∈ publishes, triple ∈ publish.triples ∧ publish.Admits peer
  deriving Decidable

/-- The node, and the history of its recorded publishes. -/
structure State where
  node : PublisherNode
  metaSynced : KeyedList Term Bool
  publishes : List LocalPublish

inductive Event (B : Type)
  | publish (options : PublishOptions) (settlement : Settlement)
  | gossip (world : Gossip.World B) (msg : Gossip.Message B)

section

variable [LinearOrder B] [Zero B]

def exec (hashing : Hashing B) (config : Config) (s : State) : Event B → State
  | .publish options settlement =>
    match publish hashing config s.node options settlement with
    | .error _ => s
    | .ok (p, node) =>
      { s with
        node := node
        publishes := if p.isRecorded settlement then s.publishes ++ [p.localPublish]
          else s.publishes }
  | .gossip world msg =>
    let node := Gossip.handlePublishMessage hashing world ⟨s.node.store, s.metaSynced⟩ msg
    { s with
      node := { s.node with store := node.store }
      metaSynced := node.metaSynced }

/-- Runs from an empty store. -/
def machine (hashing : Hashing B) (config : Config) : Machine State (Event B) where
  init s := s.node.store = ∅ ∧ s.publishes = []
  step s event s' := s' = exec hashing config s event

end

/-! ## The condition -/

def IsPrivateGraph (graph : Term) : Prop := "/_private".toList <:+ graph
  deriving Decidable

/-- A graph of data, neither of metadata nor of private triples. -/
def IsDataGraph (graph : Term) : Prop := ¬ IsMetaGraph graph ∧ ¬ IsPrivateGraph graph
  deriving Decidable

/-- The private graph that the record of a publish leads to. -/
def recordedGraph (contextGraphId : Term) (subGraphName : Option Term) : Term :=
  privateGraph contextGraphId (readOptional ((subGraphName.filter (· ≠ [])).map lit))

/-- A publish that keeps private triples with the peers that it and the earlier publishes admit. -/
structure ConfinedPublish (config : Config) (s : State) (p : Prepared) (settlement : Settlement) :
    Prop where
  /-- It writes its data to a graph of data, and its record to no private graph. -/
  dataGraph : allQuads p.kaMap ≠ [] → IsDataGraph p.dataGraph
  metaGraph : ¬ IsPrivateGraph p.options.metaGraph
  /-- The UAL of its record is new to the metadata graph. -/
  ual : p.isRecorded settlement → ∀ ual ∈ settlement.ual config (s.node.tentativeCounter + 1),
    ∀ q ∈ s.node.store, q.graph = p.options.metaGraph → q.subject ≠ ual
  /-- A peer that the metadata already admit to a triple that it stores is admitted to it by this
  publish or by an earlier one. -/
  stored : ∀ t ∈ p.privateTriples.1, ∀ kaUal row, IsRow s.node.store kaUal row →
    IsPrivateTriple row.privateGraph row.rootEntity t → ∀ peer : PeerId,
      row.Opens s.node.store peer.text →
        (p.isRecorded settlement ∧ p.localPublish.Admits peer.text) ∨
          Entitled s.publishes t peer.text
  /-- A peer that it admits is admitted to the triples that are already stored under its root
  entities. -/
  admitted : p.isRecorded settlement →
    p.options.metaGraph = contextGraphMetaUri p.options.contextGraphId →
      ∀ root ∈ p.kaMap.keys, ∀ t ∈ s.node.store,
        IsPrivateTriple (recordedGraph p.options.contextGraphId p.options.subGraphName) root t →
          ∀ peer : PeerId, p.localPublish.Admits peer.text →
            t ∈ p.privateTriples.1 ∨ Entitled s.publishes t peer.text

/-- The root entities that a message names, or that its collection had before. -/
def NamesRoot (store : TripleStore) (c : Gossip.Collection B) (root : Term) : Prop :=
  root ∈ c.assets.map KAMetadata.rootEntity ∨
    ∃ n, (⟨assetUri c.kc.ual n, dkg "rootEntity", root,
      contextGraphMetaUri c.kc.contextGraphId⟩ : Quad) ∈ store

/-- A sub-graph that the collection is in after the message. -/
def NamesSubGraph (store : TripleStore) (c : Gossip.Collection B) : Option Term → Prop
  | some o => (∃ name ∈ c.kc.subGraphName, name ≠ [] ∧ o = lit name) ∨
      (⟨c.kc.ual, dkg "subGraphName", o, contextGraphMetaUri c.kc.contextGraphId⟩ : Quad) ∈ store
  | none => c.kc.subGraphName.filter (· ≠ []) = none ∧ ∀ o,
      (⟨c.kc.ual, dkg "subGraphName", o, contextGraphMetaUri c.kc.contextGraphId⟩ : Quad) ∉ store

/-- A message that records no private root entity: the private triples to which its collection
leads are of public publishes. -/
structure ConfinedMessage (s : State) (stored : Gossip.Stored B) : Prop where
  data : ∀ q ∈ stored.data, IsDataGraph q.graph
  collection : ∀ c ∈ stored.collection, ∀ root, NamesRoot s.node.store c root →
    ∀ sgName, NamesSubGraph s.node.store c sgName → ∀ t ∈ s.node.store,
      IsPrivateTriple (privateGraph c.kc.contextGraphId (readOptional sgName)) root t →
        ∃ publish ∈ s.publishes, t ∈ publish.triples ∧ publish.policy = .publicAccess

section

variable [LinearOrder B] [Zero B]

def Confined (hashing : Hashing B) (config : Config) (s : State) : Event B → Prop
  | .publish options settlement =>
    ∀ p, prepare s.node options = .ok p → ConfinedPublish config s p settlement
  | .gossip world msg =>
    ∀ metaSynced stored, Gossip.receive hashing world ⟨s.node.store, s.metaSynced⟩ msg =
      .ok (metaSynced, .ok stored) → ConfinedMessage s stored

end

end Dkg.PrivateAccess
