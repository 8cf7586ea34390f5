import Dkg.Lib.Machine

/-! # The chain event poller

A poll waits for the chain head, reads the cursor, listens for the events of a range of blocks,
hands them to their handlers one by one, and only then writes and persists the cursor. Polls overlap
at every one of these points, and the process may crash between them.
-/

namespace Dkg.ChainEvents

open Lib

/-! ## Events and handlers -/

inductive EventType
  | knowledgeBatchCreated
  | kcCreated
  | nameClaimed
  | paranetCreated
  | knowledgeCollectionUpdated
  | allowListUpdated
  | profileCreated
  | profileUpdated
  deriving DecidableEq

structure ChainEvent (D : Type) where
  type : EventType
  blockNumber : ℕ
  data : D

inductive Handler
  | confirmByMerkleRoot
  | onContextGraphCreated
  | onCollectionUpdated
  | onAllowListUpdated
  | onProfileEvent
  deriving DecidableEq

/-- Which callbacks there are, and whether the cursor is persisted. -/
structure Config where
  (onContextGraphCreated onCollectionUpdated onAllowListUpdated onProfileEvent : Bool)
  cursorPersistence : Bool

def MAX_RANGE : ℕ := 9000

def Config.eventTypes (cfg : Config) : List EventType :=
  [.knowledgeBatchCreated, .kcCreated] ++
    (if cfg.onContextGraphCreated then [.nameClaimed] else []) ++
    (if cfg.onCollectionUpdated then [.knowledgeCollectionUpdated] else []) ++
    (if cfg.onAllowListUpdated then [.allowListUpdated] else []) ++
    (if cfg.onProfileEvent then [.profileCreated, .profileUpdated] else [])

/-- There is something to poll for. -/
def Config.watches (cfg : Config) (hasPending : Bool) : Bool :=
  hasPending || cfg.onContextGraphCreated || cfg.onCollectionUpdated || cfg.onAllowListUpdated ||
    cfg.onProfileEvent

/-- The handler of an event; the callbacks are optional. -/
def Config.handlerOf (cfg : Config) : EventType → Option Handler
  | .knowledgeBatchCreated => some .confirmByMerkleRoot
  | .kcCreated => some .confirmByMerkleRoot
  | .nameClaimed => if cfg.onContextGraphCreated then some .onContextGraphCreated else none
  | .paranetCreated => if cfg.onContextGraphCreated then some .onContextGraphCreated else none
  | .knowledgeCollectionUpdated =>
    if cfg.onCollectionUpdated then some .onCollectionUpdated else none
  | .allowListUpdated => if cfg.onAllowListUpdated then some .onAllowListUpdated else none
  | .profileCreated => if cfg.onProfileEvent then some .onProfileEvent else none
  | .profileUpdated => if cfg.onProfileEvent then some .onProfileEvent else none

lemma Config.handlerOf_isSome {cfg : Config} {type : EventType} (h : type ∈ cfg.eventTypes) :
    (cfg.handlerOf type).isSome = true := by
  cases cfg with
  | mk onContextGraphCreated onCollectionUpdated onAllowListUpdated onProfileEvent persistence =>
    revert onContextGraphCreated onCollectionUpdated onAllowListUpdated onProfileEvent persistence
    cases type <;> decide

/-! ## Polls -/

/-- A scan of blocks; `seen` is the height of the chain when it began to listen. -/
structure Scan (D : Type) where
  upperBound : ℕ
  headKnown : Bool
  seen : ℕ
  /-- The events still to come. -/
  events : List (ChainEvent D)

/-- Where a poll waits. -/
inductive Poll (D : Type)
  | awaitingHead (hasPending : Bool)
  | scanning (scan : Scan D)
  | saving (blockNumber : ℕ)

/-- How the handling of an event ends; the data of some events may be unreadable. -/
inductive Outcome
  | done
  | failed
  | unreadable
  deriving DecidableEq

/-- The chain, the persisted cursor, the polls under way, and what was handed over. -/
structure Poller (D : Type) where
  lastBlock : ℕ
  (headKnown running timer : Bool)
  polls : List (Poll D)
  /-- What the cursor persistence had when `start` began to load it. -/
  loading : List (Option ℕ)
  persisted : Option ℕ
  chain : List (ChainEvent D)
  height : ℕ
  /-- What was handed to a handler. -/
  handed : List (Handler × ChainEvent D)
  /-- The first cursor a poll used. -/
  firstCursor : Option ℕ

inductive Event (D : Type)
  | start (hasPending : Bool)
  | restored (index : ℕ) (hasPending : Bool)
  | stop
  | crash
  | tick (hasPending : Bool)
  | headAnswered (index : ℕ) (head : Option ℕ) (events : List (ChainEvent D))
  | handled (index : ℕ) (outcome : Outcome)
  | listenFailed (index : ℕ)
  | scanned (index : ℕ)
  | saved (index : ℕ) (succeeds : Bool)
  | mine (events : List (ChainEvent D))

namespace Poller

variable {D : Type} (cfg : Config)

/-- A poll begins. -/
def tick (s : Poller D) (hasPending : Bool) : Poller D :=
  if cfg.watches hasPending then { s with polls := .awaitingHead hasPending :: s.polls } else s

/-- The timer is set and the first poll begins. -/
def begin (s : Poller D) (hasPending : Bool) : Poller D :=
  tick cfg { s with timer := true } hasPending

def start (s : Poller D) (hasPending : Bool) : Poller D :=
  if s.running then s
  else if cfg.cursorPersistence then
    { s with running := true, loading := s.persisted :: s.loading }
  else begin cfg { s with running := true } hasPending

/-- A saved cursor, if it is above zero. -/
def restore (s : Poller D) (saved : Option ℕ) : Poller D :=
  { s with lastBlock := (saved.filter fun n => 0 < n).getD s.lastBlock }

def crash (s : Poller D) : Poller D :=
  { s with
    lastBlock := 0
    headKnown := false
    running := false
    timer := false
    polls := []
    loading := [] }

/-- The first known head seeds the cursor. -/
def Seeds (s : Poller D) (hasPending : Bool) : Prop :=
  s.headKnown = false ∧ s.lastBlock = 0 ∧ hasPending = false
  deriving Decidable

/-- The cursor after the first known head. -/
def seed (s : Poller D) (hasPending : Bool) : Option ℕ → Poller D
  | none => s
  | some head =>
    { s with
      headKnown := true
      lastBlock := if s.Seeds hasPending then head - 500 else s.lastBlock }

/-- The cursor is used. -/
def use (s : Poller D) : Poller D :=
  { s with firstCursor := some (s.firstCursor.getD s.lastBlock) }

def fromBlock (s : Poller D) : ℕ := s.lastBlock + 1

def upperBound (s : Poller D) : Option ℕ → ℕ
  | some head => min (s.fromBlock + MAX_RANGE - 1) head
  | none => s.fromBlock + MAX_RANGE - 1

/-- The poll at the index scans the range, if it is not empty. -/
def listen (s : Poller D) (index : ℕ) (head : Option ℕ) (events : List (ChainEvent D)) : Poller D :=
  if s.upperBound head < s.fromBlock then { s with polls := s.polls.eraseIdx index }
  else
    { s with
      polls := .scanning ⟨s.upperBound head, head.isSome, s.height, events⟩ ::
        s.polls.eraseIdx index }

def hand (s : Poller D) (event : ChainEvent D) : Poller D :=
  match cfg.handlerOf event.type with
  | some handler => { s with handed := (handler, event) :: s.handed }
  | none => s

/-- A failing callback is logged, a failing confirmation ends the poll. -/
def handle (s : Poller D) (index : ℕ) (scan : Scan D) (event : ChainEvent D)
    (rest : List (ChainEvent D)) (outcome : Outcome) : Poller D :=
  let others := s.polls.eraseIdx index
  let next : Poll D := .scanning { scan with events := rest }
  match outcome with
  | .done => { s.hand cfg event with polls := next :: others }
  | .failed =>
    if cfg.handlerOf event.type = some .confirmByMerkleRoot then
      { s.hand cfg event with polls := others }
    else { s.hand cfg event with polls := next :: others }
  | .unreadable => { s with polls := others }

/-- The cursor is written, and persisted if it can be. -/
def advance (s : Poller D) (index : ℕ) (upperBound : ℕ) : Poller D :=
  let others := s.polls.eraseIdx index
  { s with
    lastBlock := upperBound
    polls :=
      if cfg.cursorPersistence ∧ 0 < upperBound then .saving upperBound :: others else others }

def exec (s : Poller D) : Event D → Poller D
  | .start hasPending => s.start cfg hasPending
  | .restored index hasPending =>
    match s.loading[index]? with
    | some saved =>
      begin cfg (restore { s with loading := s.loading.eraseIdx index } saved) hasPending
    | none => s
  | .stop => { s with timer := false, running := false }
  | .crash => s.crash
  | .tick hasPending => if s.timer then s.tick cfg hasPending else s
  | .headAnswered index head events =>
    match s.polls[index]? with
    | some (.awaitingHead hasPending) => listen (s.seed hasPending head).use index head events
    | _ => s
  | .handled index outcome =>
    match s.polls[index]? with
    | some (.scanning scan) =>
      match scan.events with
      | event :: rest => s.handle cfg index scan event rest outcome
      | [] => s
    | _ => s
  | .listenFailed index =>
    match s.polls[index]? with
    | some (.scanning _) => { s with polls := s.polls.eraseIdx index }
    | _ => s
  | .scanned index =>
    match s.polls[index]? with
    | some (.scanning scan) =>
      match scan.events with
      | [] => s.advance cfg index scan.upperBound
      | _ :: _ => s
    | _ => s
  | .saved index succeeds =>
    match s.polls[index]? with
    | some (.saving blockNumber) =>
      { s with
        polls := s.polls.eraseIdx index
        persisted := if succeeds then some blockNumber else s.persisted }
    | _ => s
  | .mine events => { s with height := s.height + 1, chain := events ++ s.chain }

/-- A head that is answered exists, a scan yields exactly the events of its range, and the events of
a new block are in it. -/
def Possible (s : Poller D) : Event D → Prop
  | .headAnswered index head events =>
    (∀ h ∈ head, h ≤ s.height) ∧
      ∀ hasPending, s.polls[index]? = some (.awaitingHead hasPending) →
        ∀ event, event ∈ events ↔ event ∈ s.chain ∧ event.type ∈ cfg.eventTypes ∧
          (s.seed hasPending head).fromBlock ≤ event.blockNumber ∧
            event.blockNumber ≤ (s.seed hasPending head).upperBound head
  | .mine events => ∀ event ∈ events, event.blockNumber = s.height + 1
  | _ => True

/-- At first the process has not started; a cursor may be persisted. -/
def machine : Machine (Poller D) (Event D) where
  init s := s.lastBlock = 0 ∧ s.headKnown = false ∧ s.running = false ∧ s.timer = false ∧
    s.polls = [] ∧ s.loading = [] ∧ s.handed = [] ∧ s.firstCursor = none ∧
    (∀ event ∈ s.chain, event.blockNumber ≤ s.height) ∧ (∀ n ∈ s.persisted, n ≤ s.height) ∧
    (cfg.cursorPersistence = false → s.persisted = none)
  step s event s' := s.Possible cfg event ∧ s' = s.exec cfg event

end Poller

end Dkg.ChainEvents
