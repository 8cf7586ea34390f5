import Dkg.Staking.FeeInForce

/-! # Looking up the operator fee of a time

`ProfileStorage` looks up the fee in force at a time in two ways: by a scan from the first fee on,
for the fee before the first later one, and by a scan from the last fee but one down. Both come
after a comparison with the last fee that takes it only for times after its effective date. At that
date itself no fee is later, so the first scan runs off the end, and the second one starts too low.

The fees of a profile come in the order of their effective dates, and only the last one can still
be to come (`FeesInv`).
-/

namespace Dkg

open Function (update)
open Lib ProfileStorage List Option

namespace ProfileStorage

variable (p : ProfileStorage)

/-- The loop of the forward lookup. -/
def scanForward (timestamp : ℕ) : Option OperatorFee → List OperatorFee → OperatorFee
  | _, [] => ⟨0, 0⟩
  | previous, fee :: rest =>
    if fee.effectiveDate > timestamp then previous.getD fee
    else scanForward timestamp (some fee) rest

/-- The loop of the reverse lookup, which starts below the last fee. -/
def scanReverse (timestamp : ℕ) (fees : List OperatorFee) : Option OperatorFee :=
  fees.dropLast.reverse.find? fun fee => decide (fee.effectiveDate ≤ timestamp)

def _getOperatorFeeByTimestamp (identityId timestamp : ℕ) (reverseLookup : Bool) : OperatorFee :=
  let fees := p.operatorFees identityId
  let first := fees.head?.getD ⟨0, 0⟩
  if fees.length = 0 then ⟨0, 0⟩
  else if timestamp > (p.getLatestOperatorFee identityId).effectiveDate then
    p.getLatestOperatorFee identityId
  else if timestamp < first.effectiveDate then first
  else if reverseLookup then (scanReverse timestamp fees).getD first
  else scanForward timestamp none fees

def getOperatorFeeByTimestamp (identityId timestamp : ℕ) : OperatorFee :=
  p._getOperatorFeeByTimestamp identityId timestamp false

def getOperatorFeeByTimestampReverse (identityId timestamp : ℕ) : OperatorFee :=
  p._getOperatorFeeByTimestamp identityId timestamp true

def getOperatorFeePercentageByTimestamp (identityId timestamp : ℕ) : ℕ :=
  (p._getOperatorFeeByTimestamp identityId timestamp false).feePercentage

def getOperatorFeePercentageByTimestampReverse (identityId timestamp : ℕ) : ℕ :=
  (p._getOperatorFeeByTimestamp identityId timestamp true).feePercentage

/-- What the getters of the active fee share. -/
def activeFee {α : Type} (field : OperatorFee → α) (b : Block) (identityId : ℕ) : Tx α := do
  let fees := p.operatorFees identityId
  if fees.length = 0 then pure (field ⟨0, 0⟩)
  else if b.timestamp > (p.getLatestOperatorFee identityId).effectiveDate then
    pure (field (p.getLatestOperatorFee identityId))
  else
    let i ← subUint fees.length 2
    pure (field (fees[i]?.getD ⟨0, 0⟩))

def getActiveOperatorFee : Block → ℕ → Tx OperatorFee := p.activeFee id

def getActiveOperatorFeePercentage : Block → ℕ → Tx ℕ := p.activeFee OperatorFee.feePercentage

def getActiveOperatorFeeEffectiveDate : Block → ℕ → Tx ℕ := p.activeFee OperatorFee.effectiveDate

end ProfileStorage

/-! ## The fee in force -/

/-- The last fee whose effective date is not after the time. -/
def feeInForce (fees : List OperatorFee) (timestamp : ℕ) : Option OperatorFee :=
  fees.reverse.find? fun fee => decide (fee.effectiveDate ≤ timestamp)

section

variable {fees : List OperatorFee} {fee : OperatorFee} {ts : ℕ}

lemma feeInForce_cons :
    feeInForce (fee :: fees) ts =
      (feeInForce fees ts).or (if fee.effectiveDate ≤ ts then some fee else none) := by
  simp only [feeInForce, reverse_cons, find?_append, find?_singleton, decide_eq_true_iff]

lemma feeInForce_concat_of_le (h : fee.effectiveDate ≤ ts) :
    feeInForce (fees ++ [fee]) ts = some fee := by
  simp [feeInForce, h]

lemma feeInForce_concat_of_lt (h : ts < fee.effectiveDate) :
    feeInForce (fees ++ [fee]) ts = feeInForce fees ts := by
  simp [feeInForce, h]

lemma feeInForce_eq_none (h : ∀ fee ∈ fees, ts < fee.effectiveDate) :
    feeInForce fees ts = none := by
  rw [feeInForce, find?_eq_none]
  intro fee hfee
  have := h fee (mem_reverse.mp hfee)
  simpa using this

/-- The forward scan finds the fee in force when a later one follows. -/
lemma scanForward_eq {previous : OperatorFee}
    (hasc : fees.Pairwise fun e e' => e.effectiveDate < e'.effectiveDate)
    (hlater : ∃ fee ∈ fees, ts < fee.effectiveDate) :
    scanForward ts (some previous) fees = (feeInForce fees ts).getD previous := by
  induction fees generalizing previous with
  | nil =>
    rcases hlater with ⟨fee, hfee, _⟩
    cases hfee
  | cons fee rest ih =>
    rw [scanForward]
    by_cases hlt : fee.effectiveDate > ts
    · -- it is the first later fee, and so all are
      have hall : ∀ e ∈ fee :: rest, ts < e.effectiveDate :=
        forall_mem_cons.mpr ⟨hlt, fun _ he => lt_trans hlt (rel_of_pairwise_cons hasc he)⟩
      rw [if_pos hlt, feeInForce_eq_none hall]
      rfl
    · have hlater' : ∃ e ∈ rest, ts < e.effectiveDate := by
        rcases hlater with ⟨e, he, hets⟩
        rcases mem_cons.mp he with rfl | he
        · exact absurd hets hlt
        · exact ⟨e, he, hets⟩
      rw [if_neg hlt, ih hasc.of_cons hlater', feeInForce_cons, if_pos (Nat.not_lt.mp hlt)]
      cases feeInForce rest ts <;> rfl

end

/-! ## Histories -/

/-- What a transaction does to the fees. -/
inductive FeesEffect (c : Chronos) (b : Block) (w w' : World) : Prop
  | quiet (hfees : w'.profiles.operatorFees = w.profiles.operatorFees)
      (hlast : w'.lastIdentityId = w.lastIdentityId)
  | created (fee : ℕ) (hlast : w'.lastIdentityId = w.lastIdentityId + 1)
      (hfees : w'.profiles.operatorFees = update w.profiles.operatorFees
        (w.lastIdentityId + 1)
        (w.profiles.operatorFees (w.lastIdentityId + 1) ++ [⟨fee, b.timestamp⟩]))
  | updated (id sender fee : ℕ) (kept : List OperatorFee) (hadmin : w.adminKey id sender = true)
      (hlast : w'.lastIdentityId = w.lastIdentityId)
      (hkept : kept = (w.profiles.operatorFees id).dropLast ∨
        kept = w.profiles.operatorFees id ∧
          ∀ latest ∈ kept.getLast?, latest.effectiveDate < b.timestamp)
      (hfees : w'.profiles.operatorFees = update w.profiles.operatorFees id
        (kept ++ [⟨fee, World.feeEffectiveStart c b⟩]))

section

variable {c : Chronos} {b : Block} {w w' : World}

/-- The pending fee is replaced, and one in force is kept. -/
lemma World.updateOperatorFee_fees {sender id fee : ℕ}
    (h : w.updateOperatorFee c b sender id fee = .ok w') : FeesEffect c b w w' := by
  unfold World.updateOperatorFee at h
  obtain ⟨_, hadmin, _, -, _, -, h⟩ := of_bind₃ h
  obtain ⟨profiles, hprofiles, hend⟩ := of_bind h
  rw [inside_eq_ok] at hprofiles hadmin
  obtain rfl := of_pure hend
  have hadmin' := require_eq_ok.mp hadmin
  by_cases hpending : w.profiles.isOperatorFeeChangePending b id = true
  · rw [if_pos hpending] at hprofiles
    unfold replacePendingOperatorFee at hprofiles
    obtain ⟨_, -, rfl⟩ := of_bind_pure hprofiles
    exact .updated id sender fee _ hadmin' rfl (.inl rfl) rfl
  · rw [if_neg hpending] at hprofiles
    obtain rfl := of_pure hprofiles
    refine .updated id sender fee _ hadmin' rfl (.inr ⟨rfl, ?_⟩) rfl
    intro latest hlatest
    have hlen : (w.profiles.operatorFees id).length ≠ 0 := by
      intro hzero
      rw [length_eq_zero_iff.mp hzero] at hlatest
      cases hlatest
    have hget : w.profiles.getLatestOperatorFee id = latest := by
      rw [getLatestOperatorFee, mem_def.mp hlatest]
      rfl
    simp only [isOperatorFeeChangePending, hget, decide_eq_true_iff, not_and] at hpending
    exact Nat.lt_of_not_le (hpending hlen)

lemma Op.run_fees {op : Op} {events : List Event} (h : op.run c b w = .ok (w', events)) :
    FeesEffect c b w w' := by
  have heff := Op.run_effect h
  cases heff with
  | updateOperatorFee =>
    obtain ⟨w₁, h₁, hend⟩ := of_bind_pure h
    cases hend
    exact World.updateOperatorFee_fees h₁
  | createProfile => exact .created _ rfl rfl
  | environment | setAdminKey | addTier | deactivateTier | depositTokens | requestFee
  | finalizeFee | cancelFee => exact .quiet rfl rfl
  | submitProof hproved =>
    exact .quiet (congrArg _ hproved.profiles) hproved.identities.1
  | createConviction hcreated =>
    exact .quiet (congrArg _ hcreated.profiles) hcreated.identities.1
  | migrateV8 _ hcreated => exact .quiet (congrArg _ hcreated.profiles) hcreated.identities.1
  | relock hrelocked => exact .quiet (congrArg _ hrelocked.profiles) hrelocked.identities.1
  | redelegate hmoved => exact .quiet (congrArg _ hmoved.profiles) hmoved.identities.1
  | claim hclaim =>
    cases hclaim with
    | nothing | window => exact .quiet rfl rfl
  | withdraw hout => exact .quiet (congrArg _ hout.profiles) hout.identities.1

end

/-- The fees of each profile have ascending dates, and all but the last one are in force. -/
structure FeesInv (w : World) (now : ℕ) : Prop where
  fresh : ∀ id, w.lastIdentityId < id → w.profiles.operatorFees id = []
  ascending : ∀ id, (w.profiles.operatorFees id).Pairwise fun e e' =>
    e.effectiveDate < e'.effectiveDate
  inForce : ∀ id, ∀ fee ∈ (w.profiles.operatorFees id).dropLast, fee.effectiveDate ≤ now

namespace FeesInv

variable {c : Chronos} {b : Block} {w w' : World} {now : ℕ}

lemma push (h : FeesInv w now) (hnow : now ≤ b.timestamp) {id : ℕ} {kept : List OperatorFee}
    {fee : OperatorFee} (hid : id ≤ w'.lastIdentityId)
    (hlast : w.lastIdentityId ≤ w'.lastIdentityId) (hfees : w'.profiles.operatorFees =
      update w.profiles.operatorFees id (kept ++ [fee]))
    (hkept : kept.Sublist (w.profiles.operatorFees id))
    (hpast : ∀ e ∈ kept, e.effectiveDate ≤ b.timestamp ∧ e.effectiveDate < fee.effectiveDate) :
    FeesInv w' b.timestamp := by
  have hself : w'.profiles.operatorFees id = kept ++ [fee] := by
    rw [hfees, Function.update_self]
  have hother : ∀ {id'}, id' ≠ id → w'.profiles.operatorFees id' = w.profiles.operatorFees id' :=
    fun hne => by rw [hfees, Function.update_of_ne hne]
  constructor
  · intro id' hlt
    have hne : id' ≠ id := by omega
    rw [hother hne]
    exact h.fresh id' (by omega)
  · intro id'
    by_cases heq : id' = id
    · subst heq
      rw [hself]
      refine pairwise_append.mpr ⟨(h.ascending id').sublist hkept, pairwise_singleton _ _, ?_⟩
      intro e he e' he'
      rw [mem_singleton.mp he']
      exact (hpast e he).2
    · rw [hother heq]
      exact h.ascending id'
  · intro id' e he
    by_cases heq : id' = id
    · subst heq
      rw [hself, dropLast_concat] at he
      exact (hpast e he).1
    · rw [hother heq] at he
      exact (h.inForce id' e he).trans hnow

lemma step (h : FeesInv w now) (hkeys : ∀ id key, w.adminKey id key = true → id ≤ w.lastIdentityId)
    (hnow : now ≤ b.timestamp) (heff : FeesEffect c b w w') : FeesInv w' b.timestamp := by
  cases heff with
  | quiet hfees hlast =>
    constructor
    · rw [hfees, hlast]
      exact h.fresh
    · rw [hfees]
      exact h.ascending
    · rw [hfees]
      exact fun id fee hfee => (h.inForce id fee hfee).trans hnow
  | created fee hlast hfees =>
    have hempty : w.profiles.operatorFees (w.lastIdentityId + 1) = [] :=
      h.fresh _ (Nat.lt_succ_self _)
    rw [hempty] at hfees
    exact h.push hnow hlast.ge (by omega) hfees (nil_sublist _) nofun
  | updated id sender fee kept hadmin hlast hkept hfees =>
    have hstart := timestamp_lt_feeEffectiveStart c b
    have hsub : kept.Sublist (w.profiles.operatorFees id) := by
      rcases hkept with rfl | ⟨rfl, _⟩
      · exact dropLast_sublist _
      · exact List.Sublist.refl _
    have hpast : ∀ e ∈ kept, e.effectiveDate ≤ b.timestamp := by
      intro e he
      rcases hkept with rfl | ⟨rfl, hlatest⟩
      · exact (h.inForce id e he).trans hnow
      · rcases eq_nil_or_concat (w.profiles.operatorFees id) with hnil | ⟨init, latest, heq⟩
        · rw [hnil] at he
          cases he
        · have hinit := h.inForce id
          rw [heq, concat_eq_append] at he hlatest hinit
          rw [dropLast_concat] at hinit
          rcases mem_append.mp he with he | he
          · exact (hinit e he).trans hnow
          · rw [mem_singleton.mp he]
            exact (hlatest latest (by simp)).le
    have hid : id ≤ w'.lastIdentityId := hlast ▸ hkeys id sender hadmin
    exact h.push hnow hid hlast.ge hfees hsub fun e he =>
      ⟨hpast e he, lt_of_le_of_lt (hpast e he) hstart⟩

end FeesInv

lemma SysState.feesInv {c : Chronos} {s : SysState} (hr : (sysMachine c).Reachable s) :
    FeesInv s.world s.now := by
  refine hr.invariant_of (P := fun s => FeesInv s.world s.now) (fun _ => SysState.feeLog) ?_ ?_
  · rintro s ⟨hfresh, _⟩
    constructor
    · intro id _
      rw [hfresh.profiles]
    · intro id
      rw [hfresh.profiles]
      exact .nil
    · intro id fee hfee
      rw [hfresh.profiles] at hfee
      cases hfee
  · rintro s l s' hlog _ h ⟨hnow, hnow', _, events, hrun, _⟩
    rw [hnow']
    exact h.step hlog.entries.keys hnow (Op.run_fees hrun)

/-! ## Lookups -/

namespace ProfileStorage

variable {p : ProfileStorage} {id ts : ℕ} {kept : List OperatorFee} {first latest fee : OperatorFee}

section

variable (hfees : p.operatorFees id = kept ++ [latest])

include hfees

lemma getLatestOperatorFee_eq : p.getLatestOperatorFee id = latest := by
  rw [getLatestOperatorFee, hfees, getLast?_concat]
  rfl

lemma lookup_of_gt (hgt : latest.effectiveDate < ts) (reverseLookup : Bool) :
    p._getOperatorFeeByTimestamp id ts reverseLookup = latest := by
  have hlen : (p.operatorFees id).length ≠ 0 := by simp [hfees]
  rw [_getOperatorFeeByTimestamp, if_neg hlen, getLatestOperatorFee_eq hfees, if_pos hgt]

/-- Up to the effective date of the last fee, the scans decide. -/
lemma lookup_of_le
    (hfirst : (p.operatorFees id).head? = some first) (hts : first.effectiveDate ≤ ts)
    (hle : ts ≤ latest.effectiveDate) (reverseLookup : Bool) :
    p._getOperatorFeeByTimestamp id ts reverseLookup =
      if reverseLookup = true then (scanReverse ts (kept ++ [latest])).getD first
      else scanForward ts none (kept ++ [latest]) := by
  have hlen : (p.operatorFees id).length ≠ 0 := by simp [hfees]
  simp only [_getOperatorFeeByTimestamp, if_neg hlen, getLatestOperatorFee_eq hfees,
    if_neg (Nat.not_lt.mpr hle), hfirst, getD_some, if_neg (Nat.not_lt.mpr hts)]
  rw [hfees]

end

/-- Between the first date and the last one, both scans find the fee in force, which is one of the
fees that are kept. -/
lemma scans_of_lt {rest : List OperatorFee}
    (hasc : (first :: rest ++ [latest]).Pairwise fun e e' => e.effectiveDate < e'.effectiveDate)
    (hts : first.effectiveDate ≤ ts) (hlt : ts < latest.effectiveDate) :
    feeInForce (first :: rest ++ [latest]) ts = some ((feeInForce rest ts).getD first) ∧
      scanForward ts none (first :: rest ++ [latest]) = (feeInForce rest ts).getD first ∧
      scanReverse ts (first :: rest ++ [latest]) = some ((feeInForce rest ts).getD first) := by
  have hkept : feeInForce (first :: rest) ts = some ((feeInForce rest ts).getD first) := by
    rw [feeInForce_cons, if_pos hts]
    cases feeInForce rest ts <;> rfl
  have hrest : (rest ++ [latest]).Pairwise fun e e' => e.effectiveDate < e'.effectiveDate :=
    hasc.of_cons
  refine ⟨?_, ?_, ?_⟩
  · rw [feeInForce_concat_of_lt hlt, hkept]
  · rw [cons_append, scanForward, if_neg (Nat.not_lt.mpr hts),
      scanForward_eq hrest ⟨latest, by simp, hlt⟩, feeInForce_concat_of_lt hlt]
  · rw [scanReverse, dropLast_concat]
    exact hkept

lemma scanForward_of_le {fees : List OperatorFee} (hall : ∀ e ∈ fees, e.effectiveDate ≤ ts)
    (previous : Option OperatorFee) : scanForward ts previous fees = ⟨0, 0⟩ := by
  induction fees generalizing previous with
  | nil => rfl
  | cons fee rest ih =>
    have hfee := hall fee mem_cons_self
    rw [scanForward, if_neg (Nat.not_lt.mpr hfee)]
    exact ih (fun e he => hall e (mem_cons_of_mem fee he)) _

variable {α : Type} (field : OperatorFee → α) {b : Block}

lemma activeFee_of_gt (hfees : p.operatorFees id = kept ++ [latest])
    (hgt : latest.effectiveDate < b.timestamp) : p.activeFee field b id = .ok (field latest) := by
  have hlen : (p.operatorFees id).length ≠ 0 := by simp [hfees]
  rw [activeFee, if_neg hlen, getLatestOperatorFee_eq hfees, if_pos hgt]
  rfl

/-- Up to the date of the last fee, the one before it is active. -/
lemma activeFee_of_le (hfees : p.operatorFees id = kept ++ [fee] ++ [latest])
    (hle : b.timestamp ≤ latest.effectiveDate) : p.activeFee field b id = .ok (field fee) := by
  have hlen : (p.operatorFees id).length = kept.length + 2 := by simp [hfees]
  rw [activeFee, if_neg (by omega), getLatestOperatorFee_eq hfees, if_neg (Nat.not_lt.mpr hle),
    subUint, if_pos (by omega), hlen, hfees]
  show Except.ok (field (((kept ++ [fee] ++ [latest])[kept.length]?).getD ⟨0, 0⟩)) = _
  rw [append_assoc, getElem?_append_right le_rfl]
  simp

lemma activeFee_single (hfees : p.operatorFees id = [latest])
    (hle : b.timestamp ≤ latest.effectiveDate) : p.activeFee field b id = .error .panic := by
  have hlatest : p.getLatestOperatorFee id = latest := by
    rw [getLatestOperatorFee, hfees]
    rfl
  rw [activeFee, hfees, hlatest, if_neg (Nat.not_lt.mpr hle)]
  rfl

/-- Both lookups give this fee for the time, and the getters of the active fee give it in every
block of that time from `now` on. -/
structure LooksUp (p : ProfileStorage) (now id ts : ℕ) (fee : OperatorFee) : Prop where
  forward : p.getOperatorFeeByTimestamp id ts = fee
  reverse : p.getOperatorFeeByTimestampReverse id ts = fee
  percentages : p.getOperatorFeePercentageByTimestamp id ts = fee.feePercentage ∧
    p.getOperatorFeePercentageByTimestampReverse id ts = fee.feePercentage
  active : ∀ b : Block, now ≤ b.timestamp → b.timestamp = ts →
    p.getActiveOperatorFee b id = .ok fee ∧
      p.getActiveOperatorFeePercentage b id = .ok fee.feePercentage ∧
      p.getActiveOperatorFeeEffectiveDate b id = .ok fee.effectiveDate

lemma looksUp_of {now : ℕ} (hlookup : ∀ reverseLookup,
      p._getOperatorFeeByTimestamp id ts reverseLookup = fee)
    (hactive : ∀ {α : Type} (field : OperatorFee → α) (b : Block), now ≤ b.timestamp →
      b.timestamp = ts → p.activeFee field b id = .ok (field fee)) : p.LooksUp now id ts fee where
  forward := hlookup false
  reverse := hlookup true
  percentages := ⟨congrArg OperatorFee.feePercentage (hlookup false),
    congrArg OperatorFee.feePercentage (hlookup true)⟩
  active b hb hts := ⟨hactive _ b hb hts, hactive _ b hb hts, hactive _ b hb hts⟩

variable {w : World} {now : ℕ}

section

variable (h : FeesInv w now) (hfirst : (w.profiles.operatorFees id).head? = some first)
    (hlatest : (w.profiles.operatorFees id).getLast? = some latest)

include h hfirst hlatest

/-- Away from the effective date of the last fee, everything agrees. -/
lemma looksUp_of_ne (hts : first.effectiveDate ≤ ts) (hne : ts ≠ latest.effectiveDate) :
    ∃ fee, feeInForce (w.profiles.operatorFees id) ts = some fee ∧
      w.profiles.LooksUp now id ts fee := by
  obtain ⟨kept, hfees⟩ := getLast?_eq_some_iff.mp hlatest
  rcases Nat.lt_or_gt_of_ne hne with hlt | hgt
  · have hasc := h.ascending id
    have hpast := h.inForce id
    rw [hfees] at hasc hpast
    rw [dropLast_concat] at hpast
    cases kept with
    | nil =>
      -- the first fee would be the last one
      rw [hfees] at hfirst
      cases hfirst
      omega
    | cons other rest =>
      have heq : other = first := by
        rw [hfees] at hfirst
        exact Option.some.inj hfirst
      subst heq
      have hscans := scans_of_lt hasc hts hlt
      refine ⟨_, by rw [hfees, hscans.1], looksUp_of ?_ ?_⟩
      · intro reverseLookup
        rw [lookup_of_le hfees hfirst hts hlt.le]
        cases reverseLookup with
        | true => rw [if_pos rfl, hscans.2.2, getD_some]
        | false => rw [if_neg Bool.false_ne_true, hscans.2.1]
      · -- all fees but the last one are in force by now, so the last but one is
        intro α field b hb heq
        have hall : ∀ fee ∈ rest, fee.effectiveDate ≤ ts := fun fee hfee =>
          ((hpast fee (mem_cons_of_mem _ hfee)).trans hb).trans heq.le
        rcases eq_nil_or_concat rest with rfl | ⟨init, before, rfl⟩
        · have htwo : w.profiles.operatorFees id = [] ++ [other] ++ [latest] := hfees
          exact activeFee_of_le field htwo (by omega)
        · rw [concat_eq_append] at hall hfees ⊢
          have hmore : w.profiles.operatorFees id = other :: init ++ [before] ++ [latest] := hfees
          rw [feeInForce_concat_of_le (hall before (by simp)), getD_some]
          exact activeFee_of_le field hmore (by omega)
  · refine ⟨latest, by rw [hfees, feeInForce_concat_of_le hgt.le], looksUp_of ?_ ?_⟩
    · exact lookup_of_gt hfees hgt
    · intro α field b _ heq
      exact activeFee_of_gt field hfees (by omega)

lemma lookup_of_eq (hts : first.effectiveDate ≤ latest.effectiveDate) :
    w.profiles.getOperatorFeeByTimestamp id latest.effectiveDate = ⟨0, 0⟩ := by
  obtain ⟨kept, hfees⟩ := getLast?_eq_some_iff.mp hlatest
  have hasc := h.ascending id
  rw [hfees] at hasc
  rw [getOperatorFeeByTimestamp, lookup_of_le hfees hfirst hts le_rfl, if_neg Bool.false_ne_true]
  apply scanForward_of_le
  intro e he
  rcases mem_append.mp he with he | he
  · exact ((pairwise_append.mp hasc).2.2 e he latest mem_cons_self).le
  · rw [mem_singleton.mp he]

end

lemma operatorFees_of_zero (h : FeesInv w now)
    (hlatest : (w.profiles.operatorFees id).getLast? = some ⟨0, 0⟩) :
    w.profiles.operatorFees id = [⟨0, 0⟩] := by
  obtain ⟨kept, hfees⟩ := getLast?_eq_some_iff.mp hlatest
  have hasc := h.ascending id
  rw [hfees] at hasc ⊢
  cases kept with
  | nil => rfl
  | cons fee rest =>
    have hlt := (pairwise_append.mp hasc).2.2 fee mem_cons_self _ mem_cons_self
    exact absurd hlt (Nat.not_lt_zero _)

end ProfileStorage

/-- **Operator fee of a time.** Of the fees that profiles get in any run, and for every time from
the first effective date on: the forward and the reverse lookup give the last fee whose effective
date is not after the time, and so do the getters of the active fee in a block of that time, if and
only if the time is not the effective date of the last fee. (An only fee of nothing at time zero,
where no block is any more, would be found too.) -/
theorem operatorFee_lookup_iff (c : Chronos) {s : SysState} (hr : (sysMachine c).Reachable s)
    {id ts : ℕ} {first latest : OperatorFee}
    (hfirst : (s.world.profiles.operatorFees id).head? = some first)
    (hlatest : (s.world.profiles.operatorFees id).getLast? = some latest)
    (hts : first.effectiveDate ≤ ts) :
    (∃ fee, feeInForce (s.world.profiles.operatorFees id) ts = some fee ∧
        s.world.profiles.LooksUp s.now id ts fee) ↔
      ts ≠ latest.effectiveDate ∨ latest = ⟨0, 0⟩ ∧ 0 < s.now := by
  have h := SysState.feesInv hr
  constructor
  · rintro ⟨fee, hfee, hlooks⟩
    by_cases hne : ts = latest.effectiveDate
    · subst hne
      obtain ⟨kept, hfees⟩ := getLast?_eq_some_iff.mp hlatest
      have hzero := lookup_of_eq h hfirst hlatest hts
      rw [hlooks.forward] at hzero
      rw [hfees, feeInForce_concat_of_le le_rfl, hzero, Option.some.injEq] at hfee
      subst hfee
      refine .inr ⟨rfl, Nat.pos_of_ne_zero fun hnow => ?_⟩
      -- at time zero itself, the getter of the active fee fails
      have hactive := (hlooks.active ⟨0, by decide⟩ hnow.le rfl).1
      rw [getActiveOperatorFee, activeFee_single _
        (operatorFees_of_zero h hlatest) (Nat.zero_le _)] at hactive
      cases hactive
    · exact .inl hne
  · rintro (hne | ⟨rfl, hnow⟩)
    · exact looksUp_of_ne h hfirst hlatest hts hne
    · by_cases hne : ts = 0
      · subst hne
        have hone := operatorFees_of_zero h hlatest
        rw [hone] at hfirst
        cases hfirst
        refine ⟨⟨0, 0⟩, by rw [hone]; rfl, looksUp_of ?_ ?_⟩
        · intro reverseLookup
          rw [_getOperatorFeeByTimestamp, getLatestOperatorFee, hone]
          cases reverseLookup <;> rfl
        · intro α field b hb hzero
          omega
      · exact looksUp_of_ne h hfirst hlatest hts hne

/-- A profile with a fee for the next epoch. -/
lemma exists_two_fees : ∃ s, (sysMachine hourlyChronos).Reachable s ∧
    s.world.profiles.operatorFees 1 = [⟨1000, 1001⟩, ⟨5000, 4600⟩] := by
  obtain ⟨s, hr, htest⟩ := exists_reachable
    [(1001, .createProfile 9 1000),
     (1002, .updateOperatorFee 9 1 5000)]
    (fun s => decide (s.world.profiles.operatorFees 1 = [⟨1000, 1001⟩, ⟨5000, 4600⟩]))
    (by decide +kernel)
  exact ⟨s, hr, of_decide_eq_true htest⟩

/-- The fees are looked up between the two dates. -/
theorem operatorFee_lookup_between :
    ∃ s, (sysMachine hourlyChronos).Reachable s ∧
      ∃ fee, feeInForce (s.world.profiles.operatorFees 1) 4599 = some fee ∧
        s.world.profiles.LooksUp s.now 1 4599 fee := by
  obtain ⟨s, hr, hfees⟩ := exists_two_fees
  exact ⟨s, hr, (operatorFee_lookup_iff hourlyChronos hr (by rw [hfees]; rfl) (by rw [hfees]; rfl)
    (by decide)).mpr (.inl (by decide))⟩

/-- The same fees, looked up at the date of the second one. -/
theorem operatorFee_lookup_misses :
    ∃ s, (sysMachine hourlyChronos).Reachable s ∧
      s.world.profiles.operatorFees 1 = [⟨1000, 1001⟩, ⟨5000, 4600⟩] ∧
      s.world.profiles.getOperatorFeeByTimestamp 1 4600 = ⟨0, 0⟩ ∧
      s.world.profiles.getOperatorFeeByTimestampReverse 1 4600 = ⟨1000, 1001⟩ ∧
      s.world.profiles.getActiveOperatorFee ⟨4600, by decide⟩ 1 = .ok ⟨1000, 1001⟩ ∧
      feeInForce (s.world.profiles.operatorFees 1) 4600 = some ⟨5000, 4600⟩ := by
  obtain ⟨s, hr, hfees⟩ := exists_two_fees
  have hlatest : s.world.profiles.getLatestOperatorFee 1 = ⟨5000, 4600⟩ := by
    rw [getLatestOperatorFee, hfees]
    rfl
  refine ⟨s, hr, hfees, ?_, ?_, ?_, by rw [hfees]; rfl⟩
  · rw [getOperatorFeeByTimestamp, _getOperatorFeeByTimestamp, hlatest, hfees]
    rfl
  · rw [getOperatorFeeByTimestampReverse, _getOperatorFeeByTimestamp, hlatest, hfees]
    rfl
  · rw [getActiveOperatorFee, activeFee, hlatest, hfees]
    rfl

end Dkg
