import Dkg.AttestedAssets.Lifecycle

/-! # How a session opens

A member waits for the acceptances of the others and for the activation of the creator. An
activation that comes before an acceptance is dropped, and recorded as seen, so the outcome depends
on the order of the events (`SessionConfig.Opening.lifecycle_foldl`).
-/

namespace Dkg.Aka

open Lib List SessionState

variable {P : Primitives} {me : Local} {s s' : SessionState P} {m : Manager P} {event : AKAEvent P}

/-! ## The order of the first events -/

namespace Manager

/-- A member receives an event and handles it, with nothing in between. -/
def handle (me : Local) (m : Manager P) (event : AKAEvent P) : Manager P :=
  (.receive event :: List.replicate 11 (.resume 0)).foldl (exec me) m

lemma exec_resume_nil (h : m.tasks = []) : m.exec me (.resume 0) = m := by
  simp [exec, h]

lemma foldl_resume_nil (h : m.tasks = []) (k : ℕ) :
    (replicate k (.resume 0)).foldl (exec me) m = m := by
  induction k with
  | zero => rfl
  | succ k ih => rw [replicate_succ, foldl_cons, exec_resume_nil h, ih]

def recorded (me : Local) (m : Manager P) (event : AKAEvent P) : Manager P where
  session := (m.session.dispatch me event).session
  validator := m.validator.recordEvent event
  tasks := (m.session.dispatch me event).tasks
  finalizedRounds := m.finalizedRounds ++ (m.session.dispatch me event).finalized.toList

/-- The remaining checks of an event that passes them all, and its handler. -/
lemma foldl_resume_validating {checks : List Check} {k : ℕ}
    (hpass : ∀ check ∈ checks, check.passes me m.validator m.session event = true)
    (hnone : (m.session.dispatch me event).tasks = []) (hlength : checks.length + 2 ≤ k) :
    (replicate k (.resume 0)).foldl (exec me)
      { m with tasks := [.validating event checks] } = m.recorded me event := by
  induction checks generalizing k with
  | nil =>
    -- the event is recorded, and then handled
    obtain ⟨k, rfl⟩ : ∃ k', k = k' + 2 := ⟨k - 2, by simp at hlength; omega⟩
    rw [replicate_succ, foldl_cons, replicate_succ, foldl_cons]
    have hend : (({ m with tasks := [.validating event []] } : Manager P).exec me
        (.resume 0)).exec me (.resume 0) = m.recorded me event := by
      simp [exec, validateNext, taskEffect, after, recorded]
    rw [hend]
    exact foldl_resume_nil hnone k
  | cons check rest ih =>
    obtain ⟨k, rfl⟩ : ∃ k', k = k' + 1 := ⟨k - 1, by simp at hlength; omega⟩
    rw [replicate_succ, foldl_cons]
    have hnext : ({ m with tasks := [.validating event (check :: rest)] } : Manager P).exec me
        (.resume 0) = { m with tasks := [.validating event rest] } := by
      have hcheck := hpass check mem_cons_self
      simp [exec, validateNext, hcheck]
    rw [hnext]
    refine ih (fun c hc => hpass c (mem_cons_of_mem _ hc)) ?_
    simp only [length_cons] at hlength
    omega

lemma handle_eq (htasks : m.tasks = []) (hid : event.sessionId = m.session.config.sessionId)
    (hpass : ∀ check ∈ checksFor event.type, check.passes me m.validator m.session event = true)
    (hnone : (m.session.dispatch me event).tasks = []) (hfew : (checksFor event.type).length ≤ 10) :
    m.handle me event = m.recorded me event := by
  obtain ⟨check, rest, hchecks⟩ : ∃ check rest, checksFor event.type = check :: rest :=
    ⟨.mode, _, rfl⟩
  rw [hchecks] at hpass hfew
  have hreceive : m.exec me (.receive event) = { m with tasks := [.validating event rest] } := by
    have hcheck := hpass check mem_cons_self
    simp [exec, hid, hchecks, validateNext, hcheck, htasks]
  rw [handle, foldl_cons, hreceive]
  refine foldl_resume_validating (fun c hc => hpass c (mem_cons_of_mem _ hc)) hnone ?_
  simp only [length_cons] at hfew
  omega

end Manager

/-- The event is well formed, and signed by the member that it names. -/
structure SessionConfig.Valid (c : SessionConfig P) (network : Text) (event : AKAEvent P) :
    Prop where
  mode : event.mode = AKA_MODE
  session : event.sessionId ≠ []
  signer : event.signerPeerId ≠ []
  nonce : event.nonce ≠ []
  signature : P.signatureLength event.signature ≠ 0
  attests : c.Attests network event

/-- The events that open a session: the creator's activation, and the acceptance of every other
member. -/
structure SessionConfig.Opening (c : SessionConfig P) (network : Text)
    (accepted : List (AKAEvent P)) (activated : AKAEvent P) : Prop where
  proposed : c.status = .proposed
  valid : ∀ event ∈ activated :: accepted, c.Valid network event
  acceptance : ∀ event ∈ accepted, event.type = .sessionAccepted
  activation : activated.type = .sessionActivated
  creator : activated.signerPeerId = c.createdBy
  distinct : (accepted.map AKAEvent.signerPeerId).Nodup
  members : ∀ id, id ∈ accepted.map AKAEvent.signerPeerId ↔
    id ∈ c.membership.map SessionMember.peerId ∧ id ≠ c.createdBy

/-- The manager has handled these events of the session, and nothing else. -/
structure Manager.Handled (c : SessionConfig P) (events : List (AKAEvent P)) (m : Manager P) :
    Prop where
  tasks : m.tasks = []
  config : ∃ status, m.session.config = { c with status := status }
  nonces : ∀ key ∈ m.validator.seenNonces, key.2.1 ∈ events.map AKAEvent.signerPeerId
  tuples : ∀ key ∈ m.validator.seenTuples, key.2.2.1 ∈ events.map AKAEvent.signerPeerId
  accepted : ∀ id, id ∈ m.session.acceptedMembers ↔
    ∃ event ∈ events, event.type = .sessionAccepted ∧ event.signerPeerId = id

open Manager

variable {c : SessionConfig P} {events accepted : List (AKAEvent P)} {activated : AKAEvent P}

lemma Manager.handled_start (c : SessionConfig P) : (start c).Handled c [] :=
  ⟨rfl, ⟨_, rfl⟩, nofun, nofun, by simp [start, initSessionState]⟩

section

variable (h : m.Handled c events)

include h

lemma Manager.Handled.passes (hvalid : c.Valid me.network event)
    (hnew : event.signerPeerId ∉ events.map AKAEvent.signerPeerId)
    (htype : event.type = .sessionAccepted ∨ event.type = .sessionActivated) {check : Check}
    (hcheck : check ∈ [.mode, .sessionExists, .membership, .schemaConformance, .replayProtection,
      .signature]) : check.passes me m.validator m.session event = true := by
  obtain ⟨status, hconfig⟩ := h.config
  obtain ⟨hsession, member, hmember, hverify⟩ := hvalid.attests
  have hfound : m.session.findMember event.signerPeerId = some member := by
    simpa [findMember, hconfig] using hmember
  cases check with
  | mode => simp [Check.passes, hvalid.mode]
  | sessionExists => rcases htype with htype | htype <;> simp [Check.passes, hconfig, hsession,
      htype]
  | membership => simp [Check.passes, hfound]
  | schemaConformance =>
    simp [Check.passes, hvalid.session, hvalid.signer, hvalid.nonce, hvalid.signature]
  | replayProtection =>
    have hnonce : (event.sessionId, event.signerPeerId, event.nonce) ∉ m.validator.seenNonces :=
      fun hseen => hnew (h.nonces _ hseen)
    have htuple : tupleKey event ∉ m.validator.seenTuples := fun hseen => hnew (h.tuples _ hseen)
    simp [Check.passes, hnonce, htuple]
  | signature => simp [Check.passes, hfound, hconfig, hverify]
  | _ => simp at hcheck

lemma Manager.Handled.record (hvalid : c.Valid me.network event)
    (hpass : ∀ check ∈ checksFor event.type, check.passes me m.validator m.session event = true)
    (hfew : (checksFor event.type).length ≤ 10) (s' : SessionState P)
    (hdispatch : m.session.dispatch me event = Effect.only s')
    (hconfig : ∃ status, s'.config = { c with status := status })
    (haccepted : ∀ id, id ∈ s'.acceptedMembers ↔ id ∈ m.session.acceptedMembers ∨
      event.type = .sessionAccepted ∧ event.signerPeerId = id) :
    (m.handle me event).Handled c (events ++ [event]) ∧ (m.handle me event).session = s' := by
  have hhandle : m.handle me event = m.recorded me event := by
    obtain ⟨status, hold⟩ := h.config
    refine m.handle_eq h.tasks ?_ hpass ?_ hfew
    · rw [hold]
      exact hvalid.attests.1
    · rw [hdispatch]
      rfl
  have hsession : (m.recorded me event).session = s' := by rw [recorded, hdispatch]; rfl
  rw [hhandle]
  refine ⟨⟨?_, ?_, ?_, ?_, ?_⟩, hsession⟩
  · simp [recorded, hdispatch, Effect.only]
  · rw [hsession]
    exact hconfig
  · refine forall_mem_cons.mpr ⟨by simp, fun key hkey => ?_⟩
    simpa using .inl (by simpa using h.nonces key hkey)
  · refine forall_mem_cons.mpr ⟨by simp [tupleKey], fun key hkey => ?_⟩
    simpa using .inl (by simpa using h.tuples key hkey)
  · intro id
    rw [hsession, haccepted, h.accepted]
    simp [or_and_right, exists_or]

omit h in
lemma mem_addPeer {peers : List Text} {peerId id : Text} :
    id ∈ addPeer peers peerId ↔ id ∈ peers ∨ peerId = id := by
  unfold addPeer
  split
  next hmem =>
    constructor
    · exact .inl
    · rintro (hid | rfl)
      · exact hid
      · exact hmem
  next => simp [eq_comm]

/-- An acceptance is recorded, and leaves the lifecycle as it was. -/
lemma Manager.Handled.accept (hvalid : c.Valid me.network event)
    (hnew : event.signerPeerId ∉ events.map AKAEvent.signerPeerId)
    (htype : event.type = .sessionAccepted) :
    (m.handle me event).Handled c (events ++ [event]) ∧
      (m.handle me event).session.lifecycle = m.session.lifecycle := by
  obtain ⟨hhandled, hsession⟩ := h.record hvalid
    (fun check hcheck => h.passes hvalid hnew (.inl htype)
      (by simpa [checksFor, htype, isRoundEvent] using hcheck))
    (by simp [checksFor, htype, isRoundEvent])
    (m.session.handleSessionAccepted event) (by simp only [dispatch, htype]) h.config
    (fun id => by simp [handleSessionAccepted, mem_addPeer, htype])
  exact ⟨hhandled, by rw [hsession]; rfl⟩

/-- An activation opens the session if the others have accepted, and is recorded in any case. -/
lemma Manager.Handled.activate (hvalid : c.Valid me.network event)
    (hnew : event.signerPeerId ∉ events.map AKAEvent.signerPeerId)
    (htype : event.type = .sessionActivated) (hcreator : event.signerPeerId = c.createdBy) :
    (m.handle me event).Handled c (events ++ [event]) ∧
      (m.handle me event).session.lifecycle = if m.session.AllAccepted then
        (.active, 1, m.session.latestFinalizedRound) else m.session.lifecycle := by
  obtain ⟨status, hconfig⟩ := h.config
  have hsetup : SameSetup m.session m.session.handleSessionActivated :=
    quiet_handleSessionActivated.setup
  obtain ⟨status', hconfig'⟩ := hsetup.config
  obtain ⟨hhandled, hsession⟩ := h.record hvalid
    (fun check hcheck => by
      rcases eq_or_ne check .creatorAuthority with rfl | hother
      · simp [Check.passes, hconfig, hcreator]
      · refine h.passes hvalid hnew (.inr htype) ?_
        simpa [checksFor, htype, isRoundEvent, hother] using hcheck)
    (by simp [checksFor, htype, isRoundEvent])
    m.session.handleSessionActivated (by simp only [dispatch, htype])
    ⟨status', by rw [hconfig', hconfig]⟩
    (fun id => by
      have hsame : m.session.handleSessionActivated.acceptedMembers =
          m.session.acceptedMembers := by
        unfold handleSessionActivated
        split <;> rfl
      simp [hsame, htype])
  exact ⟨hhandled, by rw [hsession, lifecycle_handleSessionActivated]⟩

lemma Manager.Handled.acceptAll (hvalid : ∀ event ∈ accepted, c.Valid me.network event)
    (htype : ∀ event ∈ accepted, event.type = .sessionAccepted)
    (hnodup : ((events ++ accepted).map AKAEvent.signerPeerId).Nodup) :
    (accepted.foldl (handle me) m).Handled c (events ++ accepted) ∧
      (accepted.foldl (handle me) m).session.lifecycle = m.session.lifecycle := by
  induction accepted generalizing m events with
  | nil =>
    rw [append_nil]
    exact ⟨h, rfl⟩
  | cons event rest ih =>
    have hnew : event.signerPeerId ∉ events.map AKAEvent.signerPeerId := by
      rw [map_append, nodup_append] at hnodup
      intro hmem
      exact hnodup.2.2 _ hmem _ (mem_map_of_mem mem_cons_self) rfl
    obtain ⟨hhandled, hsame⟩ := h.accept (hvalid event mem_cons_self) hnew
      (htype event mem_cons_self)
    rw [append_cons] at hnodup ⊢
    rw [foldl_cons]
    obtain ⟨hall, hkept⟩ := ih hhandled (fun e he => hvalid e (mem_cons_of_mem _ he))
      (fun e he => htype e (mem_cons_of_mem _ he)) hnodup
    exact ⟨hall, hkept.trans hsame⟩

end

section

variable (h : c.Opening me.network accepted activated)

include h

lemma SessionConfig.Opening.nodup
    {order : List (AKAEvent P)} (hperm : order.Perm (activated :: accepted)) :
    (order.map AKAEvent.signerPeerId).Nodup := by
  rw [(hperm.map AKAEvent.signerPeerId).nodup_iff, map_cons, nodup_cons]
  refine ⟨fun hmem => ?_, h.distinct⟩
  rw [h.creator] at hmem
  exact ((h.members c.createdBy).mp hmem).2 rfl

/-- The others have all accepted when the activation comes, exactly if it comes last. -/
lemma Manager.Handled.allAccepted_iff
    {before after : List (AKAEvent P)} (hperm : (before ++ after).Perm accepted)
    (hnodup : ((before ++ after).map AKAEvent.signerPeerId).Nodup) (hm : m.Handled c before) :
    m.session.AllAccepted ↔ after = [] := by
  obtain ⟨status, hconfig⟩ := hm.config
  constructor
  · intro hall
    rcases eq_nil_or_concat' after with rfl | ⟨rest, event, rfl⟩
    · rfl
    · -- the last event is the acceptance of a member that has not accepted yet
      have hmem : event ∈ accepted := hperm.subset (by simp)
      obtain ⟨hmember, hother⟩ := (h.members event.signerPeerId).mp (mem_map_of_mem hmem)
      obtain ⟨x, hx, hid⟩ := mem_map.mp hmember
      have haccepted := hall x (by rw [hconfig]; exact hx) (by rw [hconfig, hid]; exact hother)
      rw [hid, hm.accepted] at haccepted
      obtain ⟨event', hmem', _, hsigner⟩ := haccepted
      rw [map_append, nodup_append] at hnodup
      exact absurd hsigner (hnodup.2.2 _ (mem_map_of_mem hmem') _ (mem_map_of_mem (by simp)))
  · rintro rfl
    rw [append_nil] at hperm
    intro x hx hother
    rw [hconfig] at hx hother
    obtain ⟨event, hmem, hid⟩ := mem_map.mp ((h.members x.peerId).mpr ⟨mem_map_of_mem hx, hother⟩)
    rw [hm.accepted]
    exact ⟨event, hperm.symm.subset hmem, h.acceptance event hmem, hid⟩

/-- **The order of the first events.** The session becomes active if the activation comes last, and
stays proposed in every other order. -/
lemma SessionConfig.Opening.lifecycle_foldl
    {order : List (AKAEvent P)} (hperm : order.Perm (activated :: accepted)) :
    (order.getLast? = some activated ∧
      (order.foldl (handle me) (start c)).session.lifecycle = (.active, 1, 0)) ∨
    (order.getLast? ≠ some activated ∧
      (order.foldl (handle me) (start c)).session.lifecycle =
        (.proposed, 0, 0)) := by
  have hnodup := h.nodup hperm
  obtain ⟨before, after, rfl⟩ := append_of_mem (hperm.symm.subset mem_cons_self)
  have hothers : (before ++ after).Perm accepted :=
    Perm.cons_inv (perm_middle.symm.trans hperm)
  have hdistinct : ((before ++ after).map AKAEvent.signerPeerId).Nodup := by
    rw [(hothers.map AKAEvent.signerPeerId).nodup_iff]
    exact h.distinct
  have hvalid : ∀ event ∈ before ++ after, c.Valid me.network event := fun event hmem =>
    h.valid event (mem_cons_of_mem _ (hothers.subset hmem))
  have htype : ∀ event ∈ before ++ after, event.type = .sessionAccepted := fun event hmem =>
    h.acceptance event (hothers.subset hmem)
  -- the acceptances before the activation
  obtain ⟨hbefore, hkept⟩ := (handled_start c).acceptAll
    (fun event hmem => hvalid event (mem_append_left after hmem))
    (fun event hmem => htype event (mem_append_left after hmem))
    (by rw [nil_append]; exact (nodup_append.mp (map_append ▸ hdistinct)).1)
  rw [nil_append] at hbefore
  have hnew : activated.signerPeerId ∉ before.map AKAEvent.signerPeerId := by
    rw [map_append, nodup_append] at hnodup
    intro hmem
    exact hnodup.2.2 _ hmem _ (mem_map_of_mem mem_cons_self) rfl
  -- the activation, and the acceptances after it
  obtain ⟨hactivated, hlifecycle⟩ := hbefore.activate
    (h.valid activated mem_cons_self) hnew h.activation h.creator
  rw [append_cons] at hnodup
  obtain ⟨_, hafter⟩ := hactivated.acceptAll
    (fun event hmem => hvalid event (mem_append_right before hmem))
    (fun event hmem => htype event (mem_append_right before hmem)) hnodup
  have hstart : (start c).session.lifecycle = (.proposed, 0, 0) := by
    simp [start, initSessionState, lifecycle, h.proposed]
  rw [hstart] at hkept
  have hall := hbefore.allAccepted_iff h hothers hdistinct
  rw [foldl_append, foldl_cons, hafter, hlifecycle]
  rcases eq_nil_or_concat' after with rfl | ⟨rest, event, rfl⟩
  · refine .inl ⟨by simp, ?_⟩
    have hnever := congrArg (fun l => l.2.2) hkept
    rw [if_pos (hall.mpr rfl)]
    simpa [lifecycle] using hnever
  · refine .inr ⟨?_, ?_⟩
    · have hsplit : before ++ activated :: (rest ++ [event]) =
          (before ++ activated :: rest) ++ [event] := by simp
      rw [hsplit, getLast?_concat]
      intro heq
      have haccepted := htype event (by simp)
      rw [Option.some.inj heq, h.activation] at haccepted
      cases haccepted
    · rw [if_neg fun hclosed => by simpa using hall.mp hclosed]
      exact hkept

/-! ## Runs of a pair -/

end

/-- The creator of the session of the pair. -/
def pairCreator : Local := ⟨[1], [9]⟩

def pairAccepted : AKAEvent transparent := signedEvent .sessionAccepted 0 [] [2] [2] [1] []

def pairActivated : AKAEvent transparent := signedEvent .sessionActivated 0 [] [1] [1] [2] []

/-- The session is set up, its first events come in order, and round 1 is finalized. -/
def pairEntryRun : List (EntryStep transparent) := pairRun.map .run

/-- A test for a step that goes forward, on what it leads to. -/
def EntryForward (me : Local) (entry : Option (Manager P)) : EntryStep P → Prop
  | .setUp _ => entry.isNone
  | .run step => ∀ m ∈ entry, (m.session.config.status.Closed →
      (m.exec me step).session.config.status.Closed) ∧
      m.session.currentRound ≤ (m.exec me step).session.currentRound ∧
      m.session.latestFinalizedRound ≤ (m.exec me step).session.latestFinalizedRound

instance EntryForward.decidable (me : Local) (entry : Option (Manager P)) (step : EntryStep P) :
    Decidable (EntryForward me entry step) := by
  unfold EntryForward
  cases step <;> infer_instance

lemma onward_of_forward {entry : Option (Manager P)} {step : EntryStep P}
    (h : EntryForward me entry step) : EntryOnward me entry step := by
  cases step with
  | setUp config => exact Option.isNone_iff_eq_none.mp h
  | run step =>
    intro m hm
    obtain ⟨hstatus, hcurrent, hfinalized⟩ := h m hm
    exact (m.progress_iff me step).mp ⟨hstatus, hcurrent, hfinalized⟩

lemma pair_opening : pairConfig.Opening [9] [pairAccepted] pairActivated where
  proposed := rfl
  valid := by
    refine forall_mem_cons.mpr ⟨?_, forall_mem_singleton.mpr ?_⟩
    · exact ⟨rfl, by decide, by decide, by decide, by decide, rfl, ⟨[1], [1]⟩, rfl, by decide⟩
    · exact ⟨rfl, by decide, by decide, by decide, by decide, rfl, ⟨[2], [2]⟩, rfl, by decide⟩
  acceptance := by
    intro event hmem
    rw [mem_singleton.mp hmem]
    rfl
  activation := rfl
  creator := rfl
  distinct := by decide
  members := by
    intro id
    simp only [map_cons, map_nil, mem_cons, not_mem_nil, or_false, pairConfig,
      pairAccepted, signedEvent]
    constructor
    · rintro rfl
      exact ⟨.inl rfl, by decide⟩
    · rintro ⟨rfl | rfl, hother⟩
      · rfl
      · exact absurd rfl hother

/-- **Lifecycle of a session.** In every run whose steps go forward, a session that was aborted or
finalized stays so, and its current round and its latest finalized round do not decrease; for a
single step this is exact. A member that has received the acceptances of the others and the
activation is active in round 1 if the activation came last, and in a session that is still proposed
otherwise, so two orders have the same outcome exactly if it comes last in both or in none. -/
theorem session_lifecycle (P : Primitives) (me : Local) :
    (∀ (m : Manager P) entry,
      ((entryMachine P me).restrict (EntryOnward me)).Steps (some m) entry →
      ∃ m', entry = some m' ∧ m.Progress m') ∧
    (∀ (m : Manager P) step, m.Progress (m.exec me step) ↔ m.Onward me step) ∧
    ∀ (c : SessionConfig P) accepted activated, c.Opening me.network accepted activated →
      ∀ order order' : List (AKAEvent P), order.Perm (activated :: accepted) →
        order'.Perm (activated :: accepted) →
        let s := (order.foldl (handle me) (start c)).session
        let s' := (order'.foldl (handle me) (start c)).session
        (order.getLast? = some activated → s.config.status = .active ∧ s.currentRound = 1) ∧
        ((s.config.status = s'.config.status ∧ s.currentRound = s'.currentRound) ↔
          (order.getLast? = some activated ↔ order'.getLast? = some activated)) := by
  refine ⟨fun m entry h => progress_of_steps h, fun m step => m.progress_iff me step, ?_⟩
  intro c accepted activated hopening order order' hperm hperm'
  simp only
  have hfields : ∀ {s : SessionState P} {l : SessionStatus × ℕ × ℕ}, s.lifecycle = l →
      s.config.status = l.1 ∧ s.currentRound = l.2.1 := by
    rintro s _ rfl
    exact ⟨rfl, rfl⟩
  rcases hopening.lifecycle_foldl hperm with ⟨hlast, heq⟩ | ⟨hlast, heq⟩
  all_goals
    obtain ⟨hstatus, hround⟩ := hfields heq
    rcases hopening.lifecycle_foldl hperm' with ⟨hlast', heq'⟩ | ⟨hlast', heq'⟩
    all_goals
      obtain ⟨hstatus', hround'⟩ := hfields heq'
      simp [hlast, hlast', hstatus, hround, hstatus', hround']

/-- Round 1 of the pair, and its first events in order. -/
theorem session_lifecycle_pair :
    (∃ m, ((entryMachine transparent pairLocal).restrict (EntryOnward pairLocal)).Steps
        (some (start pairConfig)) (some m) ∧
      m.session.currentRound = 2 ∧ (start pairConfig).Progress m) ∧
    ([pairAccepted, pairActivated].foldl (handle pairLocal)
      (start pairConfig)).session.config.status = .active := by
  obtain ⟨hruns, _, horders⟩ := session_lifecycle transparent pairLocal
  refine ⟨?_, ?_⟩
  · have hsteps : ((entryMachine transparent pairLocal).restrict (EntryOnward pairLocal)).Steps
        (some (start pairConfig))
        (pairEntryRun.foldl (entryExec pairLocal) (some (start pairConfig))) := by
      refine Machine.Steps.foldl (C := EntryForward pairLocal) ?_ .refl (by decide +kernel)
      exact fun _ _ h => ⟨onward_of_forward h, rfl⟩
    obtain ⟨m, hm, hprogress⟩ := hruns _ _ hsteps
    have hround : ∀ m' ∈ pairEntryRun.foldl (entryExec pairLocal) (some (start pairConfig)),
        m'.session.currentRound = 2 := by decide +kernel
    exact ⟨m, hm ▸ hsteps, hround m hm, hprogress⟩
  · exact ((horders pairConfig [pairAccepted] pairActivated pair_opening
      [pairAccepted, pairActivated] [pairAccepted, pairActivated] (List.Perm.swap _ _ _)
      (List.Perm.swap _ _ _)).1 rfl).1

/-- The creator's acceptance timer aborts the session, and a call of `activateSession` makes it
active again. The current round goes back to 1 when a second activation comes after round 1. An
activation that comes before the acceptance leaves the session proposed. -/
theorem aborted_session_activated :
    (∃ m, (managerMachine transparent pairCreator).Reachable m ∧
      m.session.config.status = .aborted ∧
      (m.exec pairCreator .activateSession).session.config.status = .active) ∧
    (∃ m event, (managerMachine transparent pairLocal).Reachable m ∧
      m.session.currentRound = 2 ∧ (m.handle pairLocal event).session.currentRound = 1) ∧
    ([pairActivated, pairAccepted].foldl (handle pairLocal)
      (start pairConfig)).session.config.status ≠
    ([pairAccepted, pairActivated].foldl (handle pairLocal)
      (start pairConfig)).session.config.status := by
  refine ⟨?_, ?_, by decide +kernel⟩
  · have hr : (managerMachine transparent pairCreator).Reachable
        ((handled pairAccepted ++ [ManagerStep.acceptTimer]).foldl (exec pairCreator)
          (start pairConfig)) :=
      Machine.Reachable.foldl (C := fun _ _ => True) (fun _ _ _ => rfl) (.init ⟨pairConfig, rfl⟩)
        (by decide +kernel)
    exact ⟨_, hr, by decide +kernel, by decide +kernel⟩
  · have hr : (managerMachine transparent pairLocal).Reachable
        (pairRun.foldl (exec pairLocal) (start pairConfig)) :=
      Machine.Reachable.foldl (C := fun _ _ => True) (fun _ _ _ => rfl) (.init ⟨pairConfig, rfl⟩)
        (by decide +kernel)
    exact ⟨_, signedEvent .sessionActivated 5 [] [1] [1] [6] [], hr, by decide +kernel,
      by decide +kernel⟩

end Dkg.Aka
