import Dkg.ChainEvents.Poller

/-! # The cursor of the chain event poller

An event is owed if it was mined above the first used cursor and was not handed yet. Every cursor
on record stays below the owed events and within the chain (`no_miss`), if the cursor is seeded only
below the owed events, and a scan without a known head advances only within the chain.
-/

namespace Dkg.ChainEvents

open Lib Machine.Reachable List Option

variable {D : Type}

namespace Poller

section

variable (cfg : Config) (s : Poller D)

/-- The event was handed to its handler. -/
def Handed (event : ChainEvent D) : Prop :=
  ∃ handler, cfg.handlerOf event.type = some handler ∧ (handler, event) ∈ s.handed

/-- The event is watched, above the first used cursor, and was not handed. -/
def Owed (event : ChainEvent D) : Prop :=
  event ∈ s.chain ∧ event.type ∈ cfg.eventTypes ∧
    (∃ first, s.firstCursor = some first ∧ first < event.blockNumber) ∧ ¬ s.Handed cfg event

/-- In memory and persisted. -/
def cursors : List ℕ := s.lastBlock :: s.persisted.toList

/-- No event between the first cursor and a later one is missed, and no cursor is ahead of the
chain. -/
structure NoMiss : Prop where
  handed : ∀ first, s.firstCursor = some first → ∀ cursor ∈ s.cursors, ∀ event ∈ s.chain,
    event.type ∈ cfg.eventTypes → first < event.blockNumber → event.blockNumber ≤ cursor →
      s.Handed cfg event
  bounded : ∀ cursor ∈ s.cursors, cursor ≤ s.height

/-- A seed is below the owed events. A scan without a known head ends within the chain, and no event
that was mined in its blocks since it listened is owed. -/
def Sound : Event D → Prop
  | .headAnswered index head _ => ∀ hasPending, s.polls[index]? = some (.awaitingHead hasPending) →
      s.Seeds hasPending → ∀ h ∈ head, ∀ event, s.Owed cfg event → h - 500 < event.blockNumber
  | .scanned index => ∀ scan, s.polls[index]? = some (.scanning scan) → scan.events = [] →
      scan.headKnown = false → scan.upperBound ≤ s.height ∧
        ∀ event, s.Owed cfg event → scan.seen < event.blockNumber →
          scan.upperBound < event.blockNumber
  | _ => True

/-! ## The invariant -/

/-- The block is in the chain and below the owed events. -/
def Below (n : ℕ) : Prop := n ≤ s.height ∧ ∀ event, s.Owed cfg event → n < event.blockNumber

def Keeps : Poll D → Prop
  | .awaitingHead _ => True
  | .scanning scan => s.firstCursor ≠ none ∧ scan.seen ≤ s.height ∧
      (scan.headKnown = true → scan.upperBound ≤ scan.seen) ∧
        ∀ event, s.Owed cfg event → event.blockNumber ≤ scan.seen →
          event.blockNumber ≤ scan.upperBound → event ∈ scan.events
  | .saving n => s.firstCursor ≠ none ∧ s.Below cfg n ∧ cfg.cursorPersistence = true

/-- Before a cursor is used. -/
structure Fresh : Prop where
  restored : s.timer = true ∨ s.polls ≠ [] → ∀ n, s.persisted = some n → n ≤ s.lastBlock
  loading : ∀ saved ∈ s.loading, saved = s.persisted

/-- What every run keeps: the events up to a cursor were handed over, wherever the cursor is
kept. -/
structure Inv : Prop where
  mined : ∀ event ∈ s.chain, event.blockNumber ≤ s.height
  last : s.Below cfg s.lastBlock
  saved : ∀ n, s.persisted = some n → s.Below cfg n
  loaded : ∀ n, some n ∈ s.loading → s.Below cfg n
  polls : ∀ poll ∈ s.polls, s.Keeps cfg poll
  fresh : s.firstCursor = none → s.Fresh
  unsaved : cfg.cursorPersistence = false → s.persisted = none

end

variable {cfg : Config} {s s' : Poller D} {n : ℕ}

lemma Inv.noMiss (h : Inv cfg s) : s.NoMiss cfg := by
  have hcursors : ∀ cursor ∈ s.cursors, s.Below cfg cursor := by
    refine forall_mem_cons.mpr ⟨h.last, fun cursor hcursor => ?_⟩
    exact h.saved cursor (mem_toList.mp hcursor)
  refine ⟨fun first hfirst cursor hcursor event hevent htype habove hle => ?_,
    fun cursor hcursor => (hcursors cursor hcursor).1⟩
  by_contra hhanded
  have howed : s.Owed cfg event := ⟨hevent, htype, ⟨first, hfirst, habove⟩, hhanded⟩
  exact absurd ((hcursors cursor hcursor).2 event howed) (not_lt.mpr hle)

/-! ## What grows -/

/-- The chain grows, and what is owed was owed or is mined in a new block. -/
structure Grows (cfg : Config) (s s' : Poller D) : Prop where
  height : s.height ≤ s'.height
  owed : ∀ event, s'.Owed cfg event → s.Owed cfg event ∨ s.height < event.blockNumber
  used : s.firstCursor ≠ none → s'.firstCursor ≠ none

lemma Below.grows (h : s.Below cfg n) (hgrows : Grows cfg s s') : s'.Below cfg n := by
  refine ⟨h.1.trans hgrows.height, fun event howed => ?_⟩
  rcases hgrows.owed event howed with hold | hnew
  · exact h.2 event hold
  · exact lt_of_le_of_lt h.1 hnew

variable {poll : Poll D} {index : ℕ} {saved head : Option ℕ} {hasPending : Bool}
  {events : List (ChainEvent D)} {event : ChainEvent D} {scan : Scan D}

lemma Keeps.grows (h : s.Keeps cfg poll) (hgrows : Grows cfg s s') : s'.Keeps cfg poll := by
  cases poll with
  | awaitingHead hasPending => trivial
  | scanning scan =>
    refine ⟨hgrows.used h.1, h.2.1.trans hgrows.height, h.2.2.1, ?_⟩
    intro event howed hseen hupper
    rcases hgrows.owed event howed with hold | hnew
    · exact h.2.2.2 event hold hseen hupper
    · have hheight := h.2.1
      omega
  | saving n => exact ⟨hgrows.used h.1, h.2.1.grows hgrows, h.2.2⟩

lemma below_zero (cfg : Config) (s : Poller D) : s.Below cfg 0 := by
  refine ⟨Nat.zero_le _, fun event howed => ?_⟩
  obtain ⟨-, -, ⟨first, -, hfirst⟩, -⟩ := howed
  omega

section

variable (h : Inv cfg s)

include h

lemma Inv.grows (hgrows : Grows cfg s s')
    (hmined : ∀ event ∈ s'.chain, event.blockNumber ≤ s'.height)
    (hlast : s'.lastBlock = s.lastBlock) (hpersisted : s'.persisted = s.persisted)
    (hloading : s'.loading = s.loading) (hpolls : s'.polls = s.polls)
    (hfresh : s'.firstCursor = none → s'.Fresh) : Inv cfg s' where
  mined := hmined
  last := by
    rw [hlast]
    exact h.last.grows hgrows
  saved := by
    rw [hpersisted]
    exact fun n hn => (h.saved n hn).grows hgrows
  loaded := by
    rw [hloading]
    exact fun n hn => (h.loaded n hn).grows hgrows
  polls := by
    rw [hpolls]
    exact fun poll hpoll => (h.polls poll hpoll).grows hgrows
  fresh := hfresh
  unsaved := by
    rw [hpersisted]
    exact h.unsaved

lemma Inv.withPolls {polls : List (Poll D)} (hpolls : ∀ poll ∈ polls, s.Keeps cfg poll)
    (hrestored : s.firstCursor = none → polls ≠ [] → s.timer = true ∨ s.polls ≠ []) :
    Inv cfg { s with polls := polls } where
  mined := h.mined
  last := h.last
  saved := h.saved
  loaded := h.loaded
  polls := hpolls
  fresh := by
    intro hfirst
    refine ⟨fun hready => (h.fresh hfirst).restored ?_, (h.fresh hfirst).loading⟩
    rcases hready with htimer | hne
    · exact .inl htimer
    · exact hrestored hfirst hne
  unsaved := h.unsaved

lemma Inv.eraseIdx (index : ℕ) : Inv cfg { s with polls := s.polls.eraseIdx index } := by
  refine h.withPolls (fun poll hpoll => h.polls poll (mem_of_mem_eraseIdx hpoll)) ?_
  intro _ hne
  refine .inr fun hnil => hne ?_
  rw [hnil]
  rfl

lemma Inv.replace {next : Poll D} (hpoll : s.polls[index]? = some poll)
    (hnext : s.Keeps cfg next) : Inv cfg { s with polls := next :: s.polls.eraseIdx index } := by
  refine h.withPolls (forall_mem_cons.mpr ⟨hnext, fun other hother =>
    h.polls other (mem_of_mem_eraseIdx hother)⟩) ?_
  intro _ _
  refine .inr fun hnil => ?_
  rw [hnil] at hpoll
  cases hpoll

lemma Inv.withLast (hbelow : s.Below cfg n) (headKnown : Bool)
    (hfresh : s.firstCursor = none → ∀ m, s.persisted = some m → m ≤ n) :
    Inv cfg { s with headKnown := headKnown, lastBlock := n } where
  mined := h.mined
  last := hbelow
  saved := h.saved
  loaded := h.loaded
  polls := h.polls
  fresh := fun hfirst =>
    ⟨fun _ => hfresh hfirst, (h.fresh hfirst).loading⟩
  unsaved := h.unsaved

/-! ## Starting and stopping -/

lemma Inv.tick (htimer : s.timer = true) (hasPending : Bool) : Inv cfg (s.tick cfg hasPending) := by
  unfold Poller.tick
  split
  next => exact h.withPolls (forall_mem_cons.mpr ⟨trivial, h.polls⟩) fun _ _ => .inl htimer
  next => exact h

lemma Inv.begin (hrestored : s.firstCursor = none → ∀ n, s.persisted = some n → n ≤ s.lastBlock)
    (hasPending : Bool) : Inv cfg (s.begin cfg hasPending) := by
  have htimer : Inv cfg { s with timer := true } :=
    { mined := h.mined
      last := h.last
      saved := h.saved
      loaded := h.loaded
      polls := h.polls
      fresh := fun hfirst => ⟨fun _ => hrestored hfirst, (h.fresh hfirst).loading⟩
      unsaved := h.unsaved }
  exact htimer.tick rfl hasPending

lemma Inv.withRunning (running : Bool) : Inv cfg { s with running := running } :=
  ⟨h.mined, h.last, h.saved, h.loaded, h.polls, fun hfirst =>
    ⟨(h.fresh hfirst).restored, (h.fresh hfirst).loading⟩, h.unsaved⟩

lemma Inv.withLoading {loading : List (Option ℕ)}
    (hloading : ∀ saved ∈ loading, saved = s.persisted ∨ saved ∈ s.loading) :
    Inv cfg { s with loading := loading } where
  mined := h.mined
  last := h.last
  saved := h.saved
  loaded := by
    intro n hn
    rcases hloading (some n) hn with hsaved | hold
    · exact h.saved n hsaved.symm
    · exact h.loaded n hold
  polls := h.polls
  fresh := fun hfirst => ⟨(h.fresh hfirst).restored, fun saved hsaved =>
    (hloading saved hsaved).elim id ((h.fresh hfirst).loading saved)⟩
  unsaved := h.unsaved

lemma Inv.start (hasPending : Bool) : Inv cfg (s.start cfg hasPending) := by
  unfold Poller.start
  split
  next => exact h
  next =>
    split
    next =>
      refine (h.withRunning true).withLoading (forall_mem_cons.mpr ⟨.inl rfl, ?_⟩)
      exact fun _ hsaved => .inr hsaved
    next hpersistence =>
      refine (h.withRunning true).begin (fun _ n hn => ?_) hasPending
      have hnone := h.unsaved (Bool.eq_false_iff.mpr hpersistence)
      exact absurd (hnone.symm.trans hn) (by simp)

lemma Inv.restore (hsaved : ∀ n, saved = some n → s.Below cfg n)
    (hfresh : s.firstCursor = none → ∀ m, s.persisted = some m → m ≤ (s.restore saved).lastBlock) :
    Inv cfg (s.restore saved) := by
  refine h.withLast (n := (s.restore saved).lastBlock) ?_ s.headKnown hfresh
  unfold Poller.restore
  cases hfilter : saved.filter fun n => decide (0 < n) with
  | none => exact h.last
  | some n => exact hsaved n (filter_eq_some_iff.mp hfilter).1

omit h in
lemma le_restore (s : Poller D) (n : ℕ) : n ≤ (s.restore (some n)).lastBlock := by
  unfold Poller.restore
  rw [filter_some]
  split
  next => exact le_refl n
  next hzero =>
    have hn : n = 0 := by simpa using hzero
    rw [hn]
    exact Nat.zero_le _

lemma Inv.restored (hsaved : s.loading[index]? = some saved) (hasPending : Bool) :
    Inv cfg (Poller.begin cfg (Poller.restore { s with loading := s.loading.eraseIdx index } saved)
      hasPending) := by
  have hmem : saved ∈ s.loading := mem_of_getElem? hsaved
  have hrest : Inv cfg { s with loading := s.loading.eraseIdx index } :=
    h.withLoading fun _ hother => .inr (mem_of_mem_eraseIdx hother)
  have hfresh : s.firstCursor = none → ∀ m, s.persisted = some m →
      m ≤ (Poller.restore { s with loading := s.loading.eraseIdx index } saved).lastBlock := by
    intro hfirst m hm
    rw [(h.fresh hfirst).loading saved hmem, hm]
    exact le_restore _ m
  have hrestore := hrest.restore (fun n (hn : saved = some n) => h.loaded n (hn ▸ hmem)) hfresh
  exact hrestore.begin hfresh hasPending

lemma Inv.stop : Inv cfg { s with timer := false, running := false } :=
  ⟨h.mined, h.last, h.saved, h.loaded, h.polls, fun hfirst =>
    ⟨fun hready => (h.fresh hfirst).restored (hready.imp_left nofun), (h.fresh hfirst).loading⟩,
    h.unsaved⟩

lemma Inv.crash : Inv cfg s.crash where
  mined := h.mined
  last := below_zero cfg _
  saved := h.saved
  loaded := nofun
  polls := nofun
  fresh := fun _ => ⟨nofun, nofun⟩
  unsaved := h.unsaved

/-! ## A poll -/

lemma Inv.seed (hpoll : s.polls[index]? = some (.awaitingHead hasPending))
    (hhead : ∀ m ∈ head, m ≤ s.height)
    (hsound : s.Seeds hasPending → ∀ m ∈ head, ∀ event, s.Owed cfg event →
      m - 500 < event.blockNumber) : Inv cfg (s.seed hasPending head) := by
  have hne : s.polls ≠ [] := fun hnil => by simp [hnil] at hpoll
  cases head with
  | none => exact h
  | some head =>
    refine h.withLast ?_ true fun hfirst m hm => ?_
    · split
      next hseeds =>
        have hle := hhead head rfl
        exact ⟨by omega, hsound hseeds head rfl⟩
      next => exact h.last
    · have hle := (h.fresh hfirst).restored (.inr hne) m hm
      split
      next hseeds =>
        have hzero := hseeds.2.1
        omega
      next => exact hle

lemma Inv.use (hne : s.polls ≠ []) : Inv cfg s.use := by
  cases hfirst : s.firstCursor with
  | some first =>
    have huse : s.use = s := by
      rw [Poller.use, hfirst, getD_some, ← hfirst]
    rw [huse]
    exact h
  | none =>
    have howed : ∀ event, s.use.Owed cfg event → s.lastBlock < event.blockNumber := by
      intro event hevent
      obtain ⟨-, -, ⟨first, heq, hlt⟩, -⟩ := hevent
      rw [Poller.use, hfirst] at heq
      cases heq
      exact hlt
    have hbelow : ∀ n, n ≤ s.lastBlock → s.use.Below cfg n := fun n hn =>
      ⟨hn.trans h.last.1, fun event hevent => lt_of_le_of_lt hn (howed event hevent)⟩
    have hpersisted : ∀ n, s.persisted = some n → n ≤ s.lastBlock :=
      (h.fresh hfirst).restored (.inr hne)
    exact
      { mined := h.mined
        last := hbelow _ (le_refl _)
        saved := fun n hn => hbelow n (hpersisted n hn)
        loaded := fun n hn => hbelow n (hpersisted n ((h.fresh hfirst).loading _ hn).symm)
        polls := by
          intro poll hpoll
          have hkeeps := h.polls poll hpoll
          cases poll with
          | awaitingHead hasPending => trivial
          | scanning scan | saving n => exact absurd hfirst hkeeps.1
        fresh := nofun
        unsaved := h.unsaved }

lemma Inv.listen (hfirst : s.firstCursor ≠ none)
    (hpoll : s.polls[index]? = some (.awaitingHead hasPending)) (hhead : ∀ m ∈ head, m ≤ s.height)
    (hevents : ∀ event, event ∈ events ↔ event ∈ s.chain ∧ event.type ∈ cfg.eventTypes ∧
      s.fromBlock ≤ event.blockNumber ∧ event.blockNumber ≤ s.upperBound head) :
    Inv cfg (s.listen index head events) := by
  unfold Poller.listen
  split
  next => exact h.eraseIdx index
  next =>
    refine h.replace hpoll ⟨hfirst, le_refl _, fun hknown => ?_, fun event howed _ hupper => ?_⟩
    · cases head with
      | none => cases hknown
      | some head => exact (min_le_right _ _).trans (hhead head rfl)
    · exact (hevents event).mpr ⟨howed.1, howed.2.1, h.last.2 event howed, hupper⟩

lemma Inv.headAnswered (hpoll : s.polls[index]? = some (.awaitingHead hasPending))
    (hpossible : s.Possible cfg (.headAnswered index head events))
    (hsound : s.Sound cfg (.headAnswered index head events)) :
    Inv cfg (Poller.listen (s.seed hasPending head).use index head events) := by
  have hne : s.polls ≠ [] := fun hnil => by simp [hnil] at hpoll
  have hseed := h.seed hpoll hpossible.1 (hsound hasPending hpoll)
  have hpolls : (s.seed hasPending head).polls = s.polls := by
    cases head with
    | none => rfl
    | some head => rfl
  have hheight : (s.seed hasPending head).height = s.height := by
    cases head with
    | none => rfl
    | some head => rfl
  have hchain : (s.seed hasPending head).chain = s.chain := by
    cases head with
    | none => rfl
    | some head => rfl
  have huse := hseed.use (by rwa [hpolls])
  have hwaits : (s.seed hasPending head).use.polls[index]? = some (.awaitingHead hasPending) := by
    show (s.seed hasPending head).polls[index]? = _
    rw [hpolls]
    exact hpoll
  refine huse.listen nofun hwaits ?_ ?_
  · show ∀ m ∈ head, m ≤ (s.seed hasPending head).height
    rw [hheight]
    exact hpossible.1
  · show ∀ event, event ∈ events ↔ event ∈ (s.seed hasPending head).chain ∧ _ ∧
      (s.seed hasPending head).fromBlock ≤ _ ∧ _ ≤ (s.seed hasPending head).upperBound head
    rw [hchain]
    exact hpossible.2 hasPending hpoll

omit h in
/-- What is handed is not owed any more. -/
lemma hand_grows (cfg : Config) (s : Poller D) (event : ChainEvent D) :
    Grows cfg s (s.hand cfg event) := by
  unfold hand
  split
  next handler hhandler =>
    refine ⟨le_refl _, fun other howed => .inl ?_, fun hfirst => hfirst⟩
    refine ⟨howed.1, howed.2.1, howed.2.2.1, fun hhanded => howed.2.2.2 ?_⟩
    exact hhanded.imp fun _ hold => ⟨hold.1, mem_cons_of_mem _ hold.2⟩
  next => exact ⟨le_refl _, fun other howed => .inl howed, fun hfirst => hfirst⟩

omit h in
lemma handed_hand (htype : event.type ∈ cfg.eventTypes) : (s.hand cfg event).Handed cfg event := by
  obtain ⟨handler, hhandler⟩ := isSome_iff_exists.mp (Config.handlerOf_isSome htype)
  refine ⟨handler, hhandler, ?_⟩
  unfold hand
  rw [hhandler]
  exact mem_cons_self

lemma Inv.hand (event : ChainEvent D) : Inv cfg (s.hand cfg event) := by
  have hgrows := hand_grows cfg s event
  unfold Poller.hand at hgrows ⊢
  split
  next handler hhandler =>
    rw [hhandler] at hgrows
    exact h.grows hgrows h.mined rfl rfl rfl rfl fun hfirst =>
      ⟨(h.fresh hfirst).restored, (h.fresh hfirst).loading⟩
  next => exact h

lemma Inv.handle (hpoll : s.polls[index]? = some (.scanning scan))
    {rest : List (ChainEvent D)} (hevents : scan.events = event :: rest) (outcome : Outcome) :
    Inv cfg (s.handle cfg index scan event rest outcome) := by
  have hpolls : (s.hand cfg event).polls = s.polls := by
    unfold Poller.hand
    split
    next => rfl
    next => rfl
  have hpoll' : (s.hand cfg event).polls[index]? = some (.scanning scan) := by
    rw [hpolls]
    exact hpoll
  have hscan : (s.hand cfg event).Keeps cfg (.scanning scan) :=
    (h.polls _ (mem_of_getElem? hpoll)).grows (hand_grows cfg s event)
  have hnext : (s.hand cfg event).Keeps cfg (.scanning { scan with events := rest }) := by
    refine ⟨hscan.1, hscan.2.1, hscan.2.2.1, fun other howed hseen hupper => ?_⟩
    have hmem := hscan.2.2.2 other howed hseen hupper
    rw [hevents] at hmem
    rcases mem_cons.mp hmem with rfl | hrest
    · exact absurd (handed_hand howed.2.1) howed.2.2.2
    · exact hrest
  have hgoes := (h.hand event).replace hpoll' hnext
  have hends := (h.hand event).eraseIdx index
  rw [hpolls] at hgoes hends
  unfold Poller.handle
  cases outcome with
  | done => exact hgoes
  | failed =>
    simp only
    split
    next => exact hends
    next => exact hgoes
  | unreadable => exact h.eraseIdx index

/-- A finished scan has handed what was owed in its blocks. -/
lemma Inv.advance (hpoll : s.polls[index]? = some (.scanning scan))
    (hevents : scan.events = []) (hsound : s.Sound cfg (.scanned index)) :
    Inv cfg (s.advance cfg index scan.upperBound) := by
  obtain ⟨hfirst, hseen, hknown, howed⟩ := h.polls _ (mem_of_getElem? hpoll)
  have hscanned : ∀ event, s.Owed cfg event → event.blockNumber ≤ scan.seen →
      scan.upperBound < event.blockNumber := by
    intro event hevent hle
    by_contra hupper
    have hmem := howed event hevent hle (not_lt.mp hupper)
    rw [hevents] at hmem
    exact not_mem_nil hmem
  have hbelow : s.Below cfg scan.upperBound := by
    cases hhead : scan.headKnown with
    | true =>
      have hupper := hknown hhead
      refine ⟨hupper.trans hseen, fun event hevent => ?_⟩
      rcases le_or_gt event.blockNumber scan.seen with hle | hgt
      · exact hscanned event hevent hle
      · omega
    | false =>
      obtain ⟨hupper, hlater⟩ := hsound scan hpoll hevents hhead
      refine ⟨hupper, fun event hevent => ?_⟩
      rcases le_or_gt event.blockNumber scan.seen with hle | hgt
      · exact hscanned event hevent hle
      · exact hlater event hevent hgt
  have hlast := h.withLast hbelow s.headKnown (absurd · hfirst)
  unfold Poller.advance
  simp only
  split
  next hsaves => exact hlast.replace hpoll ⟨hfirst, hbelow, hsaves.1⟩
  next => exact hlast.eraseIdx index

lemma Inv.persist (hpoll : s.polls[index]? = some (.saving n)) (succeeds : Bool) : Inv cfg { s with
      polls := s.polls.eraseIdx index
      persisted := if succeeds then some n else s.persisted } := by
  obtain ⟨hfirst, hbelow, hpersistence⟩ := h.polls _ (mem_of_getElem? hpoll)
  have hrest := h.eraseIdx index
  exact
    { mined := hrest.mined
      last := hrest.last
      saved := by
        intro m hm
        cases succeeds with
        | true =>
          cases hm
          exact hbelow
        | false => exact hrest.saved m hm
      loaded := hrest.loaded
      polls := hrest.polls
      fresh := fun hnone => absurd hnone hfirst
      unsaved := fun hfalse => absurd (hpersistence.symm.trans hfalse) nofun }

lemma Inv.mine (hevents : ∀ event ∈ events, event.blockNumber = s.height + 1) :
    Inv cfg { s with height := s.height + 1, chain := events ++ s.chain } := by
  refine h.grows ⟨Nat.le_succ _, fun event howed => ?_, fun hfirst => hfirst⟩ ?_ rfl rfl rfl rfl
    fun hfirst => ⟨(h.fresh hfirst).restored, (h.fresh hfirst).loading⟩
  · rcases mem_append.mp howed.1 with hnew | hold
    · exact .inr (by rw [hevents event hnew]; exact Nat.lt_succ_self _)
    · exact .inl ⟨hold, howed.2⟩
  · intro event hevent
    rcases mem_append.mp hevent with hnew | hold
    · exact (hevents event hnew).le
    · exact (h.mined event hold).trans (Nat.le_succ _)

/-! ## Runs -/

/-- **The step lemma.** Every cursor stays behind what was handed over. -/
lemma Inv.step {event : Event D}
    (hstep : ((machine cfg).restrict (Sound cfg)).step s event s') : Inv cfg s' := by
  obtain ⟨hsound, hpossible, rfl⟩ := hstep
  cases event with
  | start hasPending => exact h.start hasPending
  | restored index hasPending =>
    simp only [exec]
    split
    next hsaved => exact h.restored hsaved hasPending
    next => exact h
  | stop => exact h.stop
  | crash => exact h.crash
  | tick hasPending =>
    simp only [exec]
    split
    next htimer => exact h.tick htimer hasPending
    next => exact h
  | headAnswered index head events =>
    simp only [exec]
    split
    next hpoll => exact h.headAnswered hpoll hpossible hsound
    next => exact h
  | handled index outcome =>
    simp only [exec]
    split
    next scan hpoll =>
      split
      next hevents => exact h.handle hpoll hevents outcome
      next => exact h
    next => exact h
  | listenFailed index =>
    simp only [exec]
    split
    next => exact h.eraseIdx index
    next => exact h
  | scanned index =>
    simp only [exec]
    split
    next scan hpoll =>
      split
      next hevents => exact h.advance hpoll hevents hsound
      next => exact h
    next => exact h
  | saved index succeeds =>
    simp only [exec]
    split
    next hpoll => exact h.persist hpoll succeeds
    next => exact h
  | mine events => exact h.mine hpossible

end

lemma inv (hr : ((machine cfg).restrict (Sound cfg)).Reachable s) : Inv cfg s := by
  refine invariant (P := fun s => Inv cfg s) (fun s hinit => ?_)
    (fun _ _ _ h hstep => Inv.step h hstep) hr
  obtain ⟨hlast, -, -, htimer, hpolls, hloading, -, hfirst, hmined, hpersisted, hunsaved⟩ := hinit
  have hnothing : ∀ event, ¬ s.Owed cfg event := by
    intro event howed
    obtain ⟨-, -, ⟨first, hused, -⟩, -⟩ := howed
    rw [hfirst] at hused
    cases hused
  exact
    { mined := hmined
      last := by
        rw [hlast]
        exact below_zero cfg s
      saved := fun n hn => ⟨hpersisted n hn, fun event howed => absurd howed (hnothing event)⟩
      loaded := fun n hn => by simp [hloading] at hn
      polls := fun poll hpoll => by simp [hpolls] at hpoll
      fresh := fun _ => ⟨fun hready => by simp [htimer, hpolls] at hready, fun saved hsaved => by
        simp [hloading] at hsaved⟩
      unsaved := hunsaved }

end Poller

/-- In a run whose polls are sound, every watched event above the first used cursor is handed before
a cursor passes it, and no cursor exceeds the chain. -/
theorem no_miss {cfg : Config} {s : Poller D}
    (hr : ((Poller.machine cfg).restrict (Poller.Sound cfg)).Reachable s) : s.NoMiss cfg :=
  (Poller.inv hr).noMiss

/-! ## Two scans -/

namespace Scans

def config : Config := ⟨true, false, false, false, true⟩

def claimed : ChainEvent Unit := ⟨.nameClaimed, 3, ()⟩

/-- The chain has five blocks. -/
def start : Poller Unit :=
  ⟨0, false, false, false, [], [], none, [claimed], 5, [], none⟩

def started : Poller Unit := (start.exec config (.start false)).exec config (.restored 0 false)

/-- The poll listens, with or without a known head. -/
def listening (head : Option ℕ) : Poller Unit :=
  started.exec config (.headAnswered 0 head [claimed])

def scanned (head : Option ℕ) : Poller Unit :=
  ((listening head).exec config (.handled 0 .done)).exec config (.scanned 0)

/-- The block after the scan has an event. -/
def mined (head : Option ℕ) : Poller Unit :=
  (scanned head).exec config (.mine [⟨.nameClaimed, 6, ()⟩])

lemma listening_possible {head : Option ℕ} (hhead : ∀ h ∈ head, h = 5) :
    started.Possible config (.headAnswered 0 head [claimed]) := by
  refine ⟨fun h hh => (hhead h hh).le, fun hasPending hpoll event => ?_⟩
  have hfalse : false = hasPending := by
    have hsame := some.inj hpoll
    injection hsame
  subst hfalse
  constructor
  · intro hmem
    rw [mem_singleton.mp hmem]
    refine ⟨mem_singleton_self _, by decide, ?_⟩
    cases head with
    | none => decide
    | some h =>
      rw [hhead h rfl]
      decide
  · exact fun h => h.1

lemma started_reachable {C : Poller Unit → Event Unit → Prop} (hstart : C start (.start false))
    (hrestored : C (start.exec config (.start false)) (.restored 0 false)) :
    ((Poller.machine config).restrict C).Reachable started := by
  have hinit : ((Poller.machine config).restrict C).Reachable start := by
    refine .init ⟨rfl, rfl, rfl, rfl, rfl, rfl, rfl, rfl, ?_, nofun, fun _ => rfl⟩
    intro event hevent
    rw [mem_singleton.mp hevent]
    decide
  have hloading := step (c := Event.start false) hinit ⟨hstart, trivial, rfl⟩
  exact step (c := Event.restored 0 false) hloading ⟨hrestored, trivial, rfl⟩

lemma scanned_sound :
    ((Poller.machine config).restrict (Poller.Sound config)).Reachable (scanned (some 5)) := by
  have hstarted : ((Poller.machine config).restrict (Poller.Sound config)).Reachable started :=
    started_reachable trivial trivial
  have hlistening := step (c := Event.headAnswered 0 (some 5) [claimed]) hstarted
    ⟨?_, listening_possible fun h hh => (some.inj hh).symm, rfl⟩
  · have hhanded := step (c := Event.handled 0 .done) hlistening
      ⟨trivial, trivial, rfl⟩
    refine step (c := Event.scanned 0) hhanded ⟨?_, trivial, rfl⟩
    intro scan hpoll _ hunknown
    obtain rfl := Poll.scanning.inj (some.inj hpoll)
    cases hunknown
  · intro hasPending _ _ h _ event howed
    obtain ⟨-, -, ⟨first, hfirst, -⟩, -⟩ := howed
    cases hfirst

lemma mined_reachable : (Poller.machine config).Reachable (mined none) := by
  have hstarted : (Poller.machine config).Reachable started :=
    (started_reachable (C := fun _ _ => True) trivial trivial).of_restrict
  have hlistening := step (c := Event.headAnswered 0 none [claimed]) hstarted
    ⟨listening_possible nofun, rfl⟩
  have hhanded := step (c := Event.handled 0 .done) hlistening ⟨trivial, rfl⟩
  have hscanned := step (c := Event.scanned 0) hhanded ⟨trivial, rfl⟩
  refine step (c := Event.mine [⟨.nameClaimed, 6, ()⟩]) hscanned ⟨?_, rfl⟩
  intro event hevent
  rw [mem_singleton.mp hevent]
  rfl

end Scans

/-- With a known head the scan ends at the head. -/
theorem scan_to_head : (Scans.scanned (some 5)).lastBlock = 5 ∧
    (Scans.scanned (some 5)).NoMiss Scans.config :=
  ⟨by decide, no_miss Scans.scanned_sound⟩

/-- Without a known head the cursor leaves the chain, and the next event is never scanned. -/
theorem scan_without_head :
    (Poller.machine Scans.config).Reachable (Scans.mined none) ∧
      (Scans.mined none).lastBlock = 9000 ∧ (Scans.mined none).height = 6 ∧
        ¬ (Scans.mined none).NoMiss Scans.config := by
  refine ⟨Scans.mined_reachable, by decide, by decide, fun h => ?_⟩
  exact absurd (h.bounded 9000 mem_cons_self) (by decide)

end Dkg.ChainEvents
