import Dkg.Sync.Authorization

/-! # A signed envelope authorizes once

The replay map is read before the first await and written after the last one. So an envelope may be
granted twice when two calls with it overlap, or when it was dated ahead and comes again after its
record was dropped. The digest does not have the phase, and the second test of the participants
takes the text of an identity that nobody verified. Apart from that (`Allowed`) an envelope is
granted once and binds its request (`authorization_sound`).
-/

namespace Dkg.Sync

open Lib List

variable {D ι : Type}

/-- Signatures are not forged, and digests do not collide. `signed` says which requests a signer
signed. -/
structure Unforgeable (env : Env D) (signed : Term → SignedFields → SyncPhase → Prop) : Prop where
  injective : ∀ {fields fields' digest}, env.computeSyncDigest fields = some digest →
    env.computeSyncDigest fields' = some digest → fields = fields'
  unforged : ∀ {digest r vs signer}, env.recoverAddress digest r vs = some signer →
    ∃ fields phase, env.computeSyncDigest fields = some digest ∧ signed signer fields phase

/-- The request id and the signature are the same. -/
def SameEnvelope (a b : Stamp) : Prop :=
  a.requestId = b.requestId ∧ a.signatureR = b.signatureR ∧ a.signatureVS = b.signatureVS

/-- The condition on a call when it begins: no call with its request id is under way; an envelope
that was granted and whose record is old is old itself; the phase is the signed one. -/
structure BeginsAlone (env : Env D) (calls : ι → Call)
    (signed : Term → SignedFields → SyncPhase → Prop) (s : State ι) (i : ι) (stamp : Stamp) :
    Prop where
  alone : ∀ j, j ≠ i → ∀ session ∈ (s.place j).session, session.stamp.requestId ≠ stamp.requestId
  outdated : ∀ j session, s.place j = .granted session → SameEnvelope session.stamp stamp →
    env.syncAuthMaxAgeMs < s.shared.clock - session.now →
      env.syncAuthMaxAgeMs < s.shared.clock - stamp.issuedAtMs
  phase : ∀ signer phase, signed signer ((calls i).request.signedFields stamp) phase →
    signed signer ((calls i).request.signedFields stamp) (calls i).request.syncPhase

/-- The condition on the steps. When the participants are read again, none of them is the text of
an identity number that is not positive. -/
def Allowed (env : Env D) (calls : ι → Call) (signed : Term → SignedFields → SyncPhase → Prop)
    (s : State ι) : Label ι → Prop
  | .run i =>
    (s.place i = .delivered → ∀ stamp ∈ (calls i).request.stamp,
      BeginsAlone env calls signed s i stamp) ∧
    ∀ session, s.place i = .participantsAgain session → session.requesterIdentityId ≤ 0 →
      ∀ ps ∈ s.shared.world.getParticipants (calls i).request.contextGraphId,
        bigIntText session.requesterIdentityId ∉ ps
  | _ => True

/-- The signer or the identity is a participant, or the peer is allowed. -/
def Entitled (env : Env D) (call : Call) (session : Session) (world : World) : Prop :=
  IsParticipant env session (world.getParticipants call.request.contextGraphId) ∨
    IsAllowedPeer call (world.getAllowedPeers call.request.contextGraphId)

/-- At some point of the run, while the call `i` goes on. -/
def AtSomePoint [DecidableEq ι] (env : Env D) (calls : ι → Call) (start : State ι)
    (labels : List (Label ι)) (i : ι) (session : Session) (P : World → Prop) : Prop :=
  ∃ before, before <+: labels ∧
    ((before.foldl (exec env calls) start).place i).session = some session ∧
    P (before.foldl (exec env calls) start).shared.world

/-- The request of a granted call is the one that the signer signed, and the signer was entitled
to it. -/
structure Binds [DecidableEq ι] (env : Env D) (calls : ι → Call)
    (signed : Term → SignedFields → SyncPhase → Prop) (start : State ι) (labels : List (Label ι))
    (i : ι) (session : Session) : Prop where
  signed : ∃ stamp, (calls i).request.stamp = some stamp ∧
    signed session.recoveredAddress ((calls i).request.signedFields stamp)
      (calls i).request.syncPhase
  target : (calls i).request.targetPeerId = some env.localPeerId
  requester : (calls i).request.requesterPeerId = some (calls i).remotePeerId
  verified : 0 < session.requesterIdentityId →
    AtSomePoint env calls start labels i session fun world =>
      world.verifyIdentity session.recoveredAddress session.requesterIdentityId = true
  entitled : AtSomePoint env calls start labels i session (Entitled env (calls i) session)

/-! ## One call -/

variable {env : Env D} {call : Call} {seenRequestIds : Term → Option ℤ} {now : ℤ}
  {session session' : Session} {shared : Shared}

/-- What the checks before the first await say. -/
structure Opened (env : Env D) (call : Call) (session : Session) : Prop where
  stamp : call.request.stamp = some session.stamp
  fields : session.fields = call.request.signedFields session.stamp
  target : call.request.targetPeerId = some env.localPeerId
  requester : call.request.requesterPeerId = some call.remotePeerId
  identity : session.requesterIdentityId = call.request.identityId
  recovered : ∃ digest, env.computeSyncDigest session.fields = some digest ∧
    env.recoverAddress digest session.stamp.signatureR session.stamp.signatureVS =
      some session.recoveredAddress

lemma openSession_eq_some (h : openSession env call seenRequestIds now = some session) :
    Opened env call session ∧ session.now = now ∧
      seenRequestIds session.stamp.requestId = none ∧
      ¬ env.syncAuthMaxAgeMs < now - session.stamp.issuedAtMs := by
  unfold openSession at h
  split at h
  next => cases h
  next stamp hstamp =>
    split at h
    next => cases h
    next hfields =>
      simp only [not_or, not_not] at hfields
      split at h
      next => cases h
      next hseen =>
        split at h
        next => cases h
        next digest hdigest =>
          obtain ⟨signer, hsigner, rfl⟩ := Option.map_eq_some_iff.mp h
          refine ⟨⟨hstamp, rfl, hfields.1, hfields.2.1, rfl, digest, hdigest, hsigner⟩, rfl,
            ?_, hfields.2.2.1⟩
          simpa using hseen

lemma begin_session (h : (begin env call seenRequestIds now).session = some session) :
    openSession env call seenRequestIds now = some session := by
  unfold begin at h
  split at h
  next => cases h
  next opened hopened =>
    rw [hopened]
    split at h
    next =>
      split at h
      next => exact h
      next => cases h
    next =>
      split at h
      next => exact h
      next => cases h

/-- The old request ids are gone. -/
def purged (env : Env D) (shared : Shared) : Shared :=
  { shared with seenRequestIds := purge env.syncAuthMaxAgeMs shared.clock shared.seenRequestIds }

/-- What a stretch can do. -/
inductive Stretch (env : Env D) (call : Call) (shared : Shared) : Place → Shared × Place → Prop
  | begins : Stretch env call shared .delivered (purged env shared,
      begin env call (purge env.syncAuthMaxAgeMs shared.clock shared.seenRequestIds) shared.clock)
  | goesOn {place place' : Place} {session : Session} : place.session = some session →
      place'.session = some session → Stretch env call shared place (shared, place')
  | grants {place : Place} {session : Session} : place.session = some session →
      Stretch env call shared place (grant shared session)
  | denies {place : Place} : Stretch env call shared place (shared, .denied)
  | stays {place : Place} : place.session = none → Stretch env call shared place (shared, place)

lemma stretch_advance (env : Env D) (call : Call) (shared : Shared) (place : Place) :
    Stretch env call shared place (advance env call shared place) := by
  cases place with
  | delivered => exact .begins
  | verifying session | refreshing session =>
    simp only [advance]
    split
    next => exact .goesOn rfl rfl
    next => exact .denies
  | participants session | peers session | participantsAgain session =>
    simp only [advance]
    split
    next => exact .grants rfl
    next => exact .goesOn rfl rfl
  | peersAgain session =>
    simp only [advance]
    split
    next => exact .grants rfl
    next => exact .denies
  | granted session | denied => exact .stays rfl

lemma begin_ne_granted : begin env call seenRequestIds now ≠ .granted session := by
  unfold begin
  split
  next => simp
  next =>
    split
    next => split <;> simp
    next => split <;> simp

/-! ## The replay map -/

variable {calls : ι → Call} {signed : Term → SignedFields → SyncPhase → Prop} {s : State ι}
    {i j : ι}

/-- The call has the session, under way or granted. -/
def Place.Has (place : Place) (session : Session) : Prop :=
  place.session = some session ∨ place = .granted session

/-- The invariant of the runs. -/
structure Inv (env : Env D) (calls : ι → Call) (signed : Term → SignedFields → SyncPhase → Prop)
    (s : State ι) : Prop where
  opened : ∀ i session, (s.place i).Has session → Opened env (calls i) session
  bound : ∀ i session, (s.place i).Has session →
    signed session.recoveredAddress session.fields (calls i).request.syncPhase
  alone : ∀ i j session session', i ≠ j → (s.place i).session = some session →
    (s.place j).session = some session' → session.stamp.requestId ≠ session'.stamp.requestId
  kept : ∀ i session, s.place i = .granted session →
    s.shared.seenRequestIds session.stamp.requestId = some session.now ∨
      env.syncAuthMaxAgeMs < s.shared.clock - session.now
  dropped : ∀ i j session session', s.place i = .granted session →
    (s.place j).session = some session' → session.stamp.requestId = session'.stamp.requestId →
      env.syncAuthMaxAgeMs < s.shared.clock - session.now
  apart : ∀ i j session session', s.place i = .granted session →
    (s.place j).session = some session' → ¬ SameEnvelope session.stamp session'.stamp
  once : ∀ i j session session', s.place i = .granted session → s.place j = .granted session' →
    SameEnvelope session.stamp session'.stamp → i = j

variable [DecidableEq ι]

/-- A call that is denied, or a stretch that changes nothing else. -/
lemma Inv.settle {place : Place} (h : Inv env calls signed s)
    (hgranted : ∀ session, place = .granted session → s.place i = .granted session)
    (hsession : ∀ session, place.session = some session → (s.place i).session = some session) :
    Inv env calls signed (s.settle i (s.shared, place)) := by
  have granted : ∀ j session, (s.settle i (s.shared, place)).place j = .granted session →
      s.place j = .granted session := by
    intro j session hj
    by_cases hji : j = i
    · subst hji
      rw [Pool.settle_place_self] at hj
      exact hgranted session hj
    · rwa [Pool.settle_place_of_ne hji] at hj
  have underWay : ∀ j session, ((s.settle i (s.shared, place)).place j).session = some session →
      (s.place j).session = some session := by
    intro j session hj
    by_cases hji : j = i
    · subst hji
      rw [Pool.settle_place_self] at hj
      exact hsession session hj
    · rwa [Pool.settle_place_of_ne hji] at hj
  have has : ∀ j session, ((s.settle i (s.shared, place)).place j).Has session →
      (s.place j).Has session :=
    fun j session hj => hj.imp (underWay j session) (granted j session)
  exact {
    opened := fun j session hj => h.opened j session (has j session hj)
    bound := fun j session hj => h.bound j session (has j session hj)
    alone := fun j k session session' hne hj hk =>
      h.alone j k session session' hne (underWay j session hj) (underWay k session' hk)
    kept := fun j session hj => h.kept j session (granted j session hj)
    dropped := fun j k session session' hj hk =>
      h.dropped j k session session' (granted j session hj) (underWay k session' hk)
    apart := fun j k session session' hj hk =>
      h.apart j k session session' (granted j session hj) (underWay k session' hk)
    once := fun j k session session' hj hk =>
      h.once j k session session' (granted j session hj) (granted k session' hk) }

lemma Inv.begins (hU : Unforgeable env signed) (h : Inv env calls signed s)
    (hplace : s.place i = .delivered)
    (hallowed : ∀ stamp ∈ (calls i).request.stamp, BeginsAlone env calls signed s i stamp) :
    Inv env calls signed (s.settle i (purged env s.shared, begin env (calls i)
      (purge env.syncAuthMaxAgeMs s.shared.clock s.shared.seenRequestIds) s.shared.clock)) := by
  set place := begin env (calls i) (purge env.syncAuthMaxAgeMs s.shared.clock
    s.shared.seenRequestIds) s.shared.clock with hbegin
  set s' := s.settle i (purged env s.shared, place) with hs
  -- granted calls are the old ones, and only `i` may have come under way
  have granted : ∀ j session, s'.place j = .granted session → s.place j = .granted session := by
    intro j session hj
    by_cases hji : j = i
    · subst hji
      rw [hs, Pool.settle_place_self] at hj
      exact absurd hj begin_ne_granted
    · rwa [hs, Pool.settle_place_of_ne hji] at hj
  have other : ∀ j session, j ≠ i → (s'.place j).session = some session →
      (s.place j).session = some session := by
    intro j session hji hj
    rwa [hs, Pool.settle_place_of_ne hji] at hj
  have own : ∀ session, (s'.place i).session = some session →
      Opened env (calls i) session ∧ BeginsAlone env calls signed s i session.stamp ∧
        purge env.syncAuthMaxAgeMs s.shared.clock s.shared.seenRequestIds session.stamp.requestId =
          none ∧ ¬ env.syncAuthMaxAgeMs < s.shared.clock - session.stamp.issuedAtMs := by
    intro session hi
    rw [hs, Pool.settle_place_self] at hi
    obtain ⟨hopened, _, hseen, hfresh⟩ := openSession_eq_some (begin_session hi)
    exact ⟨hopened, hallowed _ hopened.stamp, hseen, hfresh⟩
  have has : ∀ j session, (s'.place j).Has session →
      (s.place j).Has session ∨ (j = i ∧ (s'.place i).session = some session) := by
    rintro j session (hj | hj)
    · by_cases hji : j = i
      · subst hji
        exact .inr ⟨rfl, hj⟩
      · exact .inl (.inl (other j session hji hj))
    · exact .inl (.inr (granted j session hj))
  have kept : ∀ j session, s.place j = .granted session →
      purge env.syncAuthMaxAgeMs s.shared.clock s.shared.seenRequestIds session.stamp.requestId =
        some session.now ∨ env.syncAuthMaxAgeMs < s.shared.clock - session.now := by
    intro j session hj
    rcases h.kept j session hj with hseen | hold
    · by_cases hold : env.syncAuthMaxAgeMs < s.shared.clock - session.now
      · exact .inr hold
      · refine .inl ?_
        simp only [purge, hseen, Option.filter_some]
        simp [hold]
    · exact .inr hold
  have dropped : ∀ j session session', s.place j = .granted session →
      (s'.place i).session = some session' →
        session.stamp.requestId = session'.stamp.requestId →
          env.syncAuthMaxAgeMs < s.shared.clock - session.now := by
    intro j session session' hj hi heq
    obtain ⟨_, _, hseen, _⟩ := own session' hi
    rcases kept j session hj with hrecord | hold
    · rw [heq, hseen] at hrecord
      cases hrecord
    · exact hold
  refine ⟨?_, ?_, ?_, ?_, ?_, ?_, ?_⟩
  · intro j session hj
    rcases has j session hj with hold | ⟨rfl, hnew⟩
    · exact h.opened j session hold
    · exact (own session hnew).1
  · intro j session hj
    rcases has j session hj with hold | ⟨rfl, hnew⟩
    · exact h.bound j session hold
    · obtain ⟨hopened, hbegins, _⟩ := own session hnew
      obtain ⟨digest, hdigest, hrecovered⟩ := hopened.recovered
      obtain ⟨fields, phase, hfields, hsigned⟩ := hU.unforged hrecovered
      have hsame := hU.injective hfields hdigest
      rw [hsame, hopened.fields] at hsigned
      rw [hopened.fields]
      exact hbegins.phase _ phase hsigned
  · intro j k session session' hne hj hk
    by_cases hji : j = i
    · subst hji
      have hk' := other k session' (Ne.symm hne) hk
      exact Ne.symm ((own session hj).2.1.alone k (Ne.symm hne) session' hk')
    · by_cases hki : k = i
      · subst hki
        exact (own session' hk).2.1.alone j hji session (other j session hji hj)
      · exact h.alone j k session session' hne (other j session hji hj) (other k session' hki hk)
  · exact fun j session hj => kept j session (granted j session hj)
  · intro j k session session' hj hk heq
    by_cases hki : k = i
    · subst hki
      exact dropped j session session' (granted j session hj) hk heq
    · exact h.dropped j k session session' (granted j session hj) (other k session' hki hk) heq
  · intro j k session session' hj hk hsame
    by_cases hki : k = i
    · subst hki
      obtain ⟨_, hbegins, _, hfresh⟩ := own session' hk
      exact hfresh (hbegins.outdated j session (granted j session hj) hsame
        (dropped j session session' (granted j session hj) hk hsame.1))
    · exact h.apart j k session session' (granted j session hj) (other k session' hki hk) hsame
  · exact fun j k session session' hj hk =>
      h.once j k session session' (granted j session hj) (granted k session' hk)

lemma Inv.grants (h : Inv env calls signed s) (hunderWay : (s.place i).session = some session) :
    Inv env calls signed (s.settle i (grant s.shared session)) := by
  set s' := s.settle i (grant s.shared session)
  have self : s'.place i = .granted session := Pool.settle_place_self
  have other : ∀ j, j ≠ i → s'.place j = s.place j :=
    fun j hj => Pool.settle_place_of_ne hj
  -- `i` has left the calls under way
  have underWay : ∀ j session', (s'.place j).session = some session' →
      j ≠ i ∧ (s.place j).session = some session' := by
    intro j session' hj
    by_cases hji : j = i
    · subst hji
      rw [self] at hj
      cases hj
    · rw [other j hji] at hj
      exact ⟨hji, hj⟩
  have granted : ∀ j session', s'.place j = .granted session' →
      (j = i ∧ session' = session) ∨ (j ≠ i ∧ s.place j = .granted session') := by
    intro j session' hj
    by_cases hji : j = i
    · subst hji
      rw [self] at hj
      cases hj
      exact .inl ⟨rfl, rfl⟩
    · rw [other j hji] at hj
      exact .inr ⟨hji, hj⟩
  have has : ∀ j session', (s'.place j).Has session' → (s.place j).Has session' := by
    rintro j session' (hj | hj)
    · exact .inl (underWay j session' hj).2
    · rcases granted j session' hj with ⟨rfl, rfl⟩ | ⟨_, hj⟩
      · exact .inl hunderWay
      · exact .inr hj
  refine ⟨?_, ?_, ?_, ?_, ?_, ?_, ?_⟩
  · exact fun j session' hj => h.opened j session' (has j session' hj)
  · exact fun j session' hj => h.bound j session' (has j session' hj)
  · exact fun j k session₁ session₂ hne hj hk =>
      h.alone j k session₁ session₂ hne (underWay j session₁ hj).2 (underWay k session₂ hk).2
  · intro j session' hj
    rcases granted j session' hj with ⟨rfl, rfl⟩ | ⟨_, hj⟩
    · exact .inl (Function.update_self ..)
    · by_cases heq : session'.stamp.requestId = session.stamp.requestId
      · exact .inr (h.dropped j i session' session hj hunderWay heq)
      · rcases h.kept j session' hj with hseen | hold
        · exact .inl ((Function.update_of_ne heq ..).trans hseen)
        · exact .inr hold
  · intro j k session₁ session₂ hj hk heq
    obtain ⟨hki, hk'⟩ := underWay k session₂ hk
    rcases granted j session₁ hj with ⟨hji, hsession⟩ | ⟨_, hj'⟩
    · rw [hsession] at heq
      exact absurd heq (h.alone i k session session₂ (Ne.symm hki) hunderWay hk')
    · exact h.dropped j k session₁ session₂ hj' hk' heq
  · intro j k session₁ session₂ hj hk hsame
    obtain ⟨hki, hk'⟩ := underWay k session₂ hk
    rcases granted j session₁ hj with ⟨hji, hsession⟩ | ⟨_, hj'⟩
    · rw [hsession] at hsame
      exact h.alone i k session session₂ (Ne.symm hki) hunderWay hk' hsame.1
    · exact h.apart j k session₁ session₂ hj' hk' hsame
  · intro j k session₁ session₂ hj hk hsame
    rcases granted j session₁ hj with ⟨hji, hsession⟩ | ⟨_, hj'⟩
    · rcases granted k session₂ hk with ⟨hki, _⟩ | ⟨_, hk'⟩
      · rw [hji, hki]
      · rw [hsession] at hsame
        exact absurd ⟨hsame.1.symm, hsame.2.1.symm, hsame.2.2.symm⟩
          (h.apart k i session₂ session hk' hunderWay)
    · rcases granted k session₂ hk with ⟨hki, hsession⟩ | ⟨_, hk'⟩
      · rw [hsession] at hsame
        exact absurd hsame (h.apart j i session₁ session hj' hunderWay)
      · exact h.once j k session₁ session₂ hj' hk' hsame

/-- **The step lemma.** A stretch of a call keeps the invariant. -/
lemma Inv.run (hU : Unforgeable env signed) (h : Inv env calls signed s)
    (hallowed : Allowed env calls signed s (.run i)) :
    Inv env calls signed (s.step (fun i => advance env (calls i)) i) := by
  have hstretch := stretch_advance env (calls i) s.shared (s.place i)
  show Inv env calls signed (s.settle i (advance env (calls i) s.shared (s.place i)))
  generalize hplace : s.place i = place at hstretch
  generalize advance env (calls i) s.shared place = result at hstretch
  cases hstretch with
  | begins => exact h.begins hU hplace (hallowed.1 hplace)
  | goesOn hbefore hafter =>
    refine h.settle ?_ ?_
    · rintro session rfl
      cases hafter
    · intro session hsession
      rw [hplace, hbefore, ← hafter, hsession]
  | grants hsession => exact h.grants (hplace ▸ hsession)
  | denies =>
    refine h.settle ?_ ?_
    · intro session heq
      cases heq
    · intro session heq
      cases heq
  | stays hnone =>
    refine h.settle ?_ ?_
    · intro session heq
      rw [hplace, heq]
    · intro session heq
      rw [hnone] at heq
      cases heq

omit [DecidableEq ι] in
/-- Nothing depends on the world, and the clock only goes on. -/
lemma Inv.later {time : ℤ} {world : World} (h : Inv env calls signed s)
    (htime : s.shared.clock ≤ time) :
    Inv env calls signed { s with shared := ⟨s.shared.seenRequestIds, time, world⟩ } where
  opened := h.opened
  bound := h.bound
  alone := h.alone
  kept := by
    intro i session hi
    refine (h.kept i session hi).imp_right fun hold => ?_
    have : env.syncAuthMaxAgeMs < time - session.now := by omega
    exact this
  dropped := by
    intro i j session session' hi hj heq
    have hold := h.dropped i j session session' hi hj heq
    have : env.syncAuthMaxAgeMs < time - session.now := by omega
    exact this
  apart := h.apart
  once := h.once

/-- **In every run** the invariant holds. -/
lemma Inv.reachable (hU : Unforgeable env signed)
    (h : ((machine env calls).restrict (Allowed env calls signed)).Reachable s) :
    Inv env calls signed s := by
  refine h.invariant (fun s hs => ?_) fun s label s' hinv hstep => ?_
  · have granted : ∀ i session, s.place i ≠ .granted session := by
      intro i session hi
      rw [hs.2 i] at hi
      cases hi
    have underWay : ∀ i session, (s.place i).session ≠ some session := by
      intro i session hi
      rw [hs.2 i] at hi
      cases hi
    exact ⟨fun i session hi => hi.elim (fun h => absurd h (underWay i session))
        fun h => absurd h (granted i session),
      fun i session hi => hi.elim (fun h => absurd h (underWay i session))
        fun h => absurd h (granted i session),
      fun i _ session _ _ hi => absurd hi (underWay i session),
      fun i session hi => absurd hi (granted i session),
      fun i _ session _ hi => absurd hi (granted i session),
      fun i _ session _ hi => absurd hi (granted i session),
      fun i _ session _ hi => absurd hi (granted i session)⟩
  · obtain ⟨hallowed, rfl⟩ := hstep
    cases label with
    | run i => exact hinv.run hU hallowed
    | throws i =>
      simp only [exec]
      split
      next => exact hinv.settle (fun _ heq => by cases heq) fun _ heq => by cases heq
      next => exact hinv
    | tick time => exact hinv.later (le_max_left _ _)
    | change world => exact hinv.later le_rfl

/-! ## What the world said -/

/-- The identity, if there is one, was verified. -/
def Place.IsVerified (place : Place) (session : Session) : Prop :=
  place.Has session ∧ place ≠ .verifying session

omit [DecidableEq ι] in
/-- Verified, at the latest, in the stretch that leaves `verifying`. -/
lemma isVerified_advance {place : Place}
    (h : (advance env call shared place).2.IsVerified session) :
    place.IsVerified session ∨ ¬ 0 < session.requesterIdentityId ∨
      (place = .verifying session ∧ shared.world.verifyIdentity session.recoveredAddress
        session.requesterIdentityId = true) := by
  obtain ⟨hhas, hnot⟩ := h
  cases place with
  | delivered =>
    refine .inr (.inl fun hpos => ?_)
    simp only [advance] at hhas hnot
    have hsession : (begin env call (purge env.syncAuthMaxAgeMs shared.clock
        shared.seenRequestIds) shared.clock).session = some session :=
      hhas.resolve_right begin_ne_granted
    have hopen := begin_session hsession
    rw [begin, hopen] at hsession hnot
    simp only [if_pos hpos] at hsession hnot
    split at hnot
    next => exact hnot rfl
    next hverifies =>
      rw [if_neg hverifies] at hsession
      cases hsession
  | verifying session' =>
    simp only [advance] at hhas
    split at hhas
    next hverify =>
      rcases hhas with heq | heq
      · cases heq
        exact .inr (.inr ⟨rfl, hverify⟩)
      · cases heq
    next => rcases hhas with heq | heq <;> cases heq
  | granted session' | denied => exact .inl ⟨hhas, hnot⟩
  | _ session' =>
    -- the stretch keeps the session or denies the call
    refine .inl ⟨.inl ?_, by simp⟩
    simp only [advance] at hhas
    split at hhas
    all_goals rcases hhas with heq | heq <;> cases heq <;> rfl

omit [DecidableEq ι] in
lemma granted_advance {place : Place} (h : (advance env call shared place).2 = .granted session)
    (hagain : ∀ session, place = .participantsAgain session → session.requesterIdentityId ≤ 0 →
      ∀ ps ∈ shared.world.getParticipants call.request.contextGraphId,
        bigIntText session.requesterIdentityId ∉ ps) :
    place = .granted session ∨
      (place.session = some session ∧ Entitled env call session shared.world) := by
  cases place with
  | delivered => exact absurd h begin_ne_granted
  | verifying session' | refreshing session' =>
    simp only [advance] at h
    split at h <;> cases h
  | participants session' =>
    simp only [advance] at h
    split at h
    next hparticipant =>
      cases h
      exact .inr ⟨rfl, .inl hparticipant⟩
    next => cases h
  | peers session' | peersAgain session' =>
    simp only [advance] at h
    split at h
    next hpeer =>
      cases h
      exact .inr ⟨rfl, .inr hpeer⟩
    next => cases h
  | participantsAgain session' =>
    simp only [advance] at h
    split at h
    next hparticipant =>
      cases h
      refine .inr ⟨rfl, .inl ?_⟩
      obtain ⟨ps, hps, p, hp, heq⟩ := hparticipant
      refine ⟨ps, hps, p, hp, heq.imp_right fun htext => ⟨?_, htext⟩⟩
      by_contra hpos
      exact hagain session rfl (by omega) ps hps (htext ▸ hp)
    next => cases h
  | granted session' => exact .inl h
  | denied => exact .inl h

variable {start : State ι} {labels : List (Label ι)} {label : Label ι}

lemma AtSomePoint.step {P : World → Prop} (h : AtSomePoint env calls start labels i session P) :
    AtSomePoint env calls start (labels ++ [label]) i session P := by
  obtain ⟨before, hbefore, hP⟩ := h
  exact ⟨before, hbefore.trans (prefix_append _ _), hP⟩

/-- The places say what the world said. -/
structure Evidence (env : Env D) (calls : ι → Call) (start : State ι) (labels : List (Label ι)) :
    Prop where
  verified : ∀ i session, ((labels.foldl (exec env calls) start).place i).IsVerified session →
    0 < session.requesterIdentityId → AtSomePoint env calls start labels i session fun world =>
      world.verifyIdentity session.recoveredAddress session.requesterIdentityId = true
  entitled : ∀ i session, (labels.foldl (exec env calls) start).place i = .granted session →
    AtSomePoint env calls start labels i session (Entitled env (calls i) session)

lemma Evidence.step (h : Evidence env calls start labels)
    (hallowed : Allowed env calls signed (labels.foldl (exec env calls) start) label) :
    Evidence env calls start (labels ++ [label]) := by
  have hnext : (labels ++ [label]).foldl (exec env calls) start =
      exec env calls (labels.foldl (exec env calls) start) label := by
    rw [foldl_append, foldl_cons, foldl_nil]
  set s := labels.foldl (exec env calls) start with hs
  let At i session := (((exec env calls s label).place i).IsVerified session →
      0 < session.requesterIdentityId →
        AtSomePoint env calls start (labels ++ [label]) i session fun world =>
          world.verifyIdentity session.recoveredAddress session.requesterIdentityId = true) ∧
    ((exec env calls s label).place i = .granted session →
      AtSomePoint env calls start (labels ++ [label]) i session (Entitled env (calls i) session))
  -- a place that is as before keeps its evidence
  have same : ∀ i, (exec env calls s label).place i = s.place i → ∀ session, At i session :=
    fun i hplace session => ⟨fun hv hpos => (h.verified i session (hplace ▸ hv) hpos).step,
      fun hp => (h.entitled i session (hplace ▸ hp)).step⟩
  have denied : ∀ i, (exec env calls s label).place i = .denied → ∀ session,
      ¬ ((exec env calls s label).place i).IsVerified session ∧
        (exec env calls s label).place i ≠ .granted session := by
    intro i hplace session
    rw [hplace]
    constructor
    · rintro ⟨heq | heq, _⟩ <;> cases heq
    · simp
  have here : ∀ {P : World → Prop} {i session}, (s.place i).session = some session →
      P s.shared.world → AtSomePoint env calls start (labels ++ [label]) i session P :=
    fun hsession hP => ⟨labels, prefix_append _ _, hsession, hP⟩
  suffices hplaces : ∀ i session, At i session by
    refine ⟨fun i session hi => ?_, fun i session hi => ?_⟩
    · rw [hnext] at hi
      exact (hplaces i session).1 hi
    · rw [hnext] at hi
      exact (hplaces i session).2 hi
  intro j session
  cases label with
  | run i =>
    by_cases hji : j = i
    · subst hji
      have own : (exec env calls s (.run j)).place j =
          (advance env (calls j) s.shared (s.place j)).2 := Pool.settle_place_self
      show _ ∧ _
      rw [own]
      constructor
      · intro hj hpos
        rcases isVerified_advance hj with hold | hneg | ⟨hplace, hverify⟩
        · exact (h.verified j session hold hpos).step
        · exact absurd hpos hneg
        · exact here (by rw [hplace]; rfl) hverify
      · intro hj
        rcases granted_advance hj hallowed.2 with hold | ⟨hsession, hentitled⟩
        · exact (h.entitled j session hold).step
        · exact here hsession hentitled
    · exact same j (Pool.settle_place_of_ne hji) session
  | throws i =>
    have place : (exec env calls s (.throws i)).place j = s.place j ∨
        (exec env calls s (.throws i)).place j = .denied := by
      simp only [exec]
      split
      next =>
        by_cases hji : j = i
        · subst hji
          exact .inr Pool.settle_place_self
        · exact .inl (Pool.settle_place_of_ne hji)
      next => exact .inl rfl
    rcases place with hsame | hdenied
    · exact same j hsame session
    · exact ⟨fun hj => absurd hj (denied j hdenied session).1,
        fun hj => absurd hj (denied j hdenied session).2⟩
  | tick time | change world => exact same j rfl session

lemma Evidence.run (hstart : (machine env calls).init start)
    (hrun : Machine.Allowed (Allowed env calls signed) (exec env calls) labels start) :
    Evidence env calls start labels := by
  induction labels using reverseRecOn with
  | nil =>
    refine ⟨fun i session hi => ?_, fun i session hi => ?_⟩
    · rw [foldl_nil, hstart.2 i] at hi
      rcases hi.1 with heq | heq <;> cases heq
    · rw [foldl_nil, hstart.2 i] at hi
      cases hi
  | append_singleton labels label ih =>
    obtain ⟨hbefore, hallowed⟩ := Machine.allowed_concat.mp hrun
    exact (ih hbefore).step hallowed

/-! ## Authorization -/

/-- **An envelope is granted once and binds its request.** -/
theorem authorization_sound (hU : Unforgeable env signed) (hstart : (machine env calls).init start)
    (hrun : Machine.Allowed (Allowed env calls signed) (exec env calls) labels start) :
    (∀ i j session session' stamp stamp',
      (labels.foldl (exec env calls) start).place i = .granted session →
      (labels.foldl (exec env calls) start).place j = .granted session' →
      (calls i).request.stamp = some stamp → (calls j).request.stamp = some stamp' →
        SameEnvelope stamp stamp' → i = j) ∧
    ∀ i session, (labels.foldl (exec env calls) start).place i = .granted session →
      Binds env calls signed start labels i session := by
  have hstep : ∀ s label, Allowed env calls signed s label →
      ((machine env calls).restrict (Allowed env calls signed)).step s label
        (exec env calls s label) := fun s label hlabel => ⟨hlabel, rfl⟩
  have hinv := Inv.reachable hU (Machine.Reachable.foldl hstep (.init hstart) hrun)
  have hevidence := Evidence.run hstart hrun
  refine ⟨fun i j session session' stamp stamp' hi hj hstamp hstamp' hsame => ?_,
    fun i session hi => ?_⟩
  · have hopened := (hinv.opened i session (.inr hi)).stamp
    have hopened' := (hinv.opened j session' (.inr hj)).stamp
    rw [hstamp] at hopened
    rw [hstamp'] at hopened'
    refine hinv.once i j session session' hi hj ?_
    rw [← Option.some.inj hopened, ← Option.some.inj hopened']
    exact hsame
  · have hopened := hinv.opened i session (.inr hi)
    have hbound := hinv.bound i session (.inr hi)
    rw [hopened.fields] at hbound
    have hverified : ((labels.foldl (exec env calls) start).place i).IsVerified session := by
      rw [hi]
      exact ⟨.inr rfl, by simp⟩
    exact {
      signed := ⟨session.stamp, hopened.stamp, hbound⟩
      target := hopened.target
      requester := hopened.requester
      verified := hevidence.verified i session hverified
      entitled := hevidence.entitled i session hi }

omit [DecidableEq ι] in
lemma advance_world (place : Place) : (advance env call shared place).1.world = shared.world := by
  cases place with
  | delivered | verifying session | refreshing session | granted session | denied => rfl
  | _ session =>
    simp only [advance]
    split <;> rfl

/-- The calls alone do not change the world. -/
lemma foldl_run_world (is : List ι) (s : State ι) :
    ((is.map Label.run).foldl (exec env calls) s).shared.world = s.shared.world := by
  induction is generalizing s with
  | nil => rfl
  | cons i is ih =>
    calc (((i :: is).map Label.run).foldl (exec env calls) s).shared.world
        = (exec env calls s (.run i)).shared.world := ih _
      _ = s.shared.world := advance_world (s.place i)

/-! ## An edge node asks -/

/-- A request that the address `0xa` signed at a time. -/
def edgeCall (issuedAtMs : ℤ) (phase : SyncPhase) : Call where
  request := {
    contextGraphId := "cg".toList
    offset := 0
    limit := 500
    includeSharedMemory := false
    targetPeerId := some "node".toList
    requesterPeerId := some "peer".toList
    requestId := some "id".toList
    issuedAtMs := some issuedAtMs
    requesterIdentityId := none
    requesterAgentAddress := some "0xa".toList
    requesterSignatureR := some "r".toList
    requesterSignatureVS := some "vs".toList
    phase := some phase }
  remotePeerId := "peer".toList

def edgeFields (issuedAtMs : ℤ) : SignedFields where
  contextGraphId := "cg".toList
  offset := 0
  limit := 500
  includeSharedMemory := false
  targetPeerId := "node".toList
  requesterPeerId := "peer".toList
  requestId := "id".toList
  issuedAtMs := issuedAtMs

def edgeEnv (issuedAtMs : ℤ) : Env SignedFields where
  localPeerId := "node".toList
  syncAuthMaxAgeMs := 90000
  computeSyncDigest := some
  recoverAddress := fun digest r vs =>
    if digest = edgeFields issuedAtMs ∧ r = "r".toList ∧ vs = "vs".toList then some "0xa".toList
    else none
  verifiesIdentities := true
  toLowerCase := id

/-- It was signed for the data. -/
def EdgeSigned (issuedAtMs : ℤ) (signer : Term) (fields : SignedFields) (phase : SyncPhase) :
    Prop :=
  signer = "0xa".toList ∧ fields = edgeFields issuedAtMs ∧ phase = .data

lemma unforgeable_edge (issuedAtMs : ℤ) :
    Unforgeable (edgeEnv issuedAtMs) (EdgeSigned issuedAtMs) where
  injective h h' := Option.some.inj (h.trans h'.symm)
  unforged {digest r vs signer} h := by
    simp only [edgeEnv] at h
    split at h
    next heq =>
      cases h
      exact ⟨digest, .data, rfl, rfl, heq.1, rfl⟩
    next => cases h

/-- All calls wait at time 0, and the context graph has one participant. -/
def edgeStart (participant : String) : State Bool where
  shared := {
    seenRequestIds := fun _ => none
    clock := 0
    world := {
      verifyIdentity := fun _ _ => false
      getParticipants := fun _ => some [participant.toList]
      getAllowedPeers := fun _ => none
      refreshMetaFromCurator := fun _ => true } }
  place := fun _ => .delivered

/-- A run on the request of a time and a phase, which every call has. -/
def edgeRun (issuedAtMs : ℤ) (phase : SyncPhase) (participant : String)
    (labels : List (Label Bool)) : State Bool :=
  labels.foldl (exec (edgeEnv issuedAtMs) fun _ => edgeCall issuedAtMs phase)
    (edgeStart participant)

/-- A call that is granted to a participant, and its replay, which is refused. -/
theorem authorization_sound_edge :
    (edgeRun 0 .data "0xa" [.run false, .run false, .run true]).place true = .denied ∧
    ∃ session, (edgeRun 0 .data "0xa" [.run false, .run false, .run true]).place false =
        .granted session ∧
      Binds (edgeEnv 0) (fun _ => edgeCall 0 .data) (EdgeSigned 0) (edgeStart "0xa")
        [.run false, .run false, .run true] false session := by
  refine ⟨rfl, _, rfl,
    (authorization_sound (unforgeable_edge 0) ⟨rfl, fun _ => rfl⟩ ?_).2 false _ rfl⟩
  refine ⟨⟨fun _ stamp _ => ?_, ?_⟩, ⟨?_, ?_⟩, ⟨fun _ stamp _ => ?_, ?_⟩, trivial⟩
  · exact {
      alone := fun _ _ _ h => by cases h
      outdated := fun _ _ h => by cases h
      phase := fun _ phase h => h.2.2 ▸ h }
  · intro session h
    cases h
  · intro h
    cases h
  · intro session h
    cases h
  · refine ⟨fun j hj session h => ?_, fun j session h _ hlate => ?_, fun _ phase h => h.2.2 ▸ h⟩
    · cases j with
      | false => cases h
      | true => exact absurd rfl hj
    · cases j with
      | false =>
        cases h
        exact absurd hlate (by decide)
      | true => cases h
  · intro session h
    cases h

/-- Granted twice in an overlap; granted twice when dated ahead; granted for the metadata, with the
signature for the data; and granted to nobody's identity. -/
theorem authorization_unsound :
    (∀ issuedAtMs, Unforgeable (edgeEnv issuedAtMs) (EdgeSigned issuedAtMs)) ∧
    (∃ session session',
      (edgeRun 0 .data "0xa" [.run false, .run true, .run false, .run true]).place false =
        .granted session ∧
      (edgeRun 0 .data "0xa" [.run false, .run true, .run false, .run true]).place true =
        .granted session') ∧
    (∃ session session',
      (edgeRun 5000 .data "0xa" [.run false, .run false, .tick 90001, .run true, .run true]).place
        false = .granted session ∧
      (edgeRun 5000 .data "0xa" [.run false, .run false, .tick 90001, .run true, .run true]).place
        true = .granted session') ∧
    (∃ session, (edgeRun 0 .metadata "0xa" [.run false, .run false]).place false =
        .granted session ∧
      ¬ Binds (edgeEnv 0) (fun _ => edgeCall 0 .metadata) (EdgeSigned 0) (edgeStart "0xa")
        [.run false, .run false] false session) ∧
    ∃ session, (edgeRun 0 .data "0" (List.replicate 5 (.run false))).place false =
        .granted session ∧
      ¬ Binds (edgeEnv 0) (fun _ => edgeCall 0 .data) (EdgeSigned 0) (edgeStart "0")
        (List.replicate 5 (.run false)) false session := by
  refine ⟨unforgeable_edge, ⟨_, _, rfl, rfl⟩, ⟨_, _, rfl, rfl⟩, ⟨_, rfl, fun h => ?_⟩,
    ⟨_, rfl, fun h => ?_⟩⟩
  · obtain ⟨_, _, hsigned⟩ := h.signed
    cases hsigned.2.2
  · obtain ⟨before, hbefore, _, hentitled⟩ := h.entitled
    have hruns : before = (List.replicate before.length false).map Label.run := by
      have hlength := prefix_replicate_iff.mp hbefore
      rw [map_replicate]
      exact hlength.2
    rw [hruns, foldl_run_world] at hentitled
    rcases hentitled with hparticipant | hpeer
    · exact absurd hparticipant (by decide)
    · exact absurd hpeer (by decide)

end Dkg.Sync
