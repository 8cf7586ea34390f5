import Mathlib.Tactic

/-! # The key in a peer id

`parseEd25519FromProtobuf` walks over the fields of a protobuf message until it meets the bytes of
field 2. A length is put together in signed 32-bit arithmetic, so that it may be negative and lead
back to an earlier offset. The loop ends unless it comes to an offset twice
(`parse_ends_and_decodes_iff`), and it finds the key in every well-formed message.
-/

namespace Dkg.PeerKeys

open List

abbrev Bytes := List UInt8

inductive ParseError
  | unexpectedWireType
  | keyNotFound
  deriving DecidableEq

/-- `proto[offset]` in a bit operation, where `undefined` is zero. -/
def byteAt (proto : Bytes) (offset : ℤ) : ℕ :=
  if 0 ≤ offset then (proto[offset.toNat]?.map UInt8.toNat).getD 0 else 0

/-- The offset after a varint; the first argument bounds the bytes that are left. -/
def skipVarint (proto : Bytes) : ℕ → ℤ → ℤ
  | 0, offset => offset + 1
  | n + 1, offset =>
    if offset < proto.length ∧ 128 ≤ byteAt proto offset then skipVarint proto n (offset + 1)
    else offset + 1

/-- `len |= (b & 0x7f) << shift`, of which JavaScript takes the shift modulo 32. -/
def addBits (len : BitVec 32) (b shift : ℕ) : BitVec 32 :=
  len ||| (BitVec.ofNat 32 (b % 128) <<< (shift % 32))

/-- The offset after a length, and the length. -/
def readLength (proto : Bytes) : ℕ → ℤ → BitVec 32 → ℕ → ℤ × ℤ
  | 0, offset, len, _ => (offset, len.toInt)
  | n + 1, offset, len, shift =>
    if offset < proto.length then
      let b := byteAt proto offset
      let len := addBits len b shift
      if b < 128 then (offset + 1, len.toInt) else readLength proto n (offset + 1) len (shift + 7)
    else (offset, len.toInt)

/-- An index of `slice`; a negative one counts from the end. -/
def sliceIndex (length : ℕ) (i : ℤ) : ℕ :=
  if i < 0 then (length + i).toNat else min i.toNat length

def slice (proto : Bytes) (start stop : ℤ) : Bytes :=
  (proto.take (sliceIndex proto.length stop)).drop (sliceIndex proto.length start)

inductive Turn
  | done (result : Except ParseError Bytes)
  | next (offset : ℤ)

/-- One turn of the loop. -/
def turn (proto : Bytes) (offset : ℤ) : Turn :=
  if offset < proto.length then
    let tag := byteAt proto offset
    let left := (proto.length - (offset + 1)).toNat
    let fieldNumber := tag / 8
    let wireType := tag % 8
    if wireType = 0 then .next (skipVarint proto left (offset + 1))
    else if wireType = 2 then
      let (offset, len) := readLength proto left (offset + 1) 0 0
      if fieldNumber = 2 then .done (.ok (slice proto offset (offset + len)))
      else .next (offset + len)
    else .done (.error .unexpectedWireType)
  else .done (.error .keyNotFound)

/-- The loop, for at most so many turns. -/
def parseLoop (proto : Bytes) : ℕ → ℤ → Option (Except ParseError Bytes)
  | 0, _ => none
  | n + 1, offset =>
    match turn proto offset with
    | .done result => some result
    | .next offset => parseLoop proto n offset

/-- `parseEd25519FromProtobuf` ends with this result. -/
def Ends (proto : Bytes) (result : Except ParseError Bytes) : Prop :=
  ∃ turns, parseLoop proto turns 0 = some result

/-! ## The loop ends -/

/-- A field begins at the first offset, and the next one at the second. -/
def LeadsTo (proto : Bytes) (offset offset' : ℤ) : Prop := turn proto offset = .next offset'

/-- No chain of fields comes back to an offset. -/
def NeverBack (proto : Bytes) : Prop :=
  ∀ offset, Relation.ReflTransGen (LeadsTo proto) 0 offset →
    ¬ Relation.TransGen (LeadsTo proto) offset offset

variable {proto : Bytes} {offset offset' : ℤ} {result : Except ParseError Bytes} {n m : ℕ}

lemma LeadsTo.lt (h : LeadsTo proto offset offset') : offset < proto.length := by
  by_contra hle
  rw [LeadsTo, turn, if_neg hle] at h
  cases h

lemma le_skipVarint (proto : Bytes) (n : ℕ) (offset : ℤ) : offset ≤ skipVarint proto n offset := by
  induction n generalizing offset with
  | zero => simp [skipVarint]
  | succ n ih =>
    rw [skipVarint]
    split
    · have := ih (offset + 1)
      omega
    · omega

lemma le_readLength (proto : Bytes) (n : ℕ) (offset : ℤ) (len : BitVec 32) (shift : ℕ) :
    offset ≤ (readLength proto n offset len shift).1 ∧
      -2 ^ 31 ≤ (readLength proto n offset len shift).2 := by
  have hint : ∀ len : BitVec 32, -2 ^ 31 ≤ len.toInt := fun len => by
    have := BitVec.two_mul_toInt_lt (x := len)
    have := BitVec.le_two_mul_toInt (x := len)
    omega
  induction n generalizing offset len shift with
  | zero => exact ⟨le_rfl, hint len⟩
  | succ n ih =>
    simp only [readLength]
    split
    · split
      · exact ⟨by omega, hint _⟩
      · have := ih (offset + 1) (addBits len (byteAt proto offset) shift) (shift + 7)
        exact ⟨by omega, this.2⟩
    · exact ⟨le_rfl, hint len⟩

/-- Behind the start there are only empty fields, so that no chain goes back any further. -/
lemma LeadsTo.ge (h : LeadsTo proto offset offset') (hge : -2 ^ 31 ≤ offset) :
    -2 ^ 31 ≤ offset' := by
  have hlt := h.lt
  rw [LeadsTo, turn, if_pos hlt] at h
  simp only at h
  split at h
  · cases h
    have := le_skipVarint proto (proto.length - (offset + 1)).toNat (offset + 1)
    omega
  next htag =>
    split at h
    · have hstart : 0 ≤ offset := by
        by_contra hneg
        rw [byteAt, if_neg hneg] at htag
        exact htag rfl
      split at h
      · cases h
      · cases h
        have := le_readLength proto (proto.length - (offset + 1)).toNat (offset + 1) 0 0
        omega
    · cases h

lemma LeadsTo.parseLoop_succ (h : LeadsTo proto offset offset') (n : ℕ) :
    parseLoop proto (n + 1) offset = parseLoop proto n offset' := by
  rw [parseLoop, h]

/-- A turn that does not end the loop leads on. -/
lemma leadsTo_of_none (h : parseLoop proto (n + 1) offset = none) :
    ∃ offset', LeadsTo proto offset offset' := by
  rw [parseLoop] at h
  cases hturn : turn proto offset with
  | done result => simp [hturn] at h
  | next offset' => exact ⟨offset', hturn⟩

lemma parseLoop_of_transGen (hpath : Relation.TransGen (LeadsTo proto) offset offset')
    (h : parseLoop proto n offset = some result) :
    ∃ m < n, parseLoop proto m offset' = some result := by
  have hnext : ∀ {a b n}, LeadsTo proto a b → parseLoop proto n a = some result →
      ∃ m < n, parseLoop proto m b = some result := by
    intro a b n hab hn
    cases n with
    | zero => cases hn
    | succ n => exact ⟨n, Nat.lt_succ_self n, by rw [← hab.parseLoop_succ]; exact hn⟩
  induction hpath with
  | single hab => exact hnext hab h
  | tail _ hbc ih =>
    obtain ⟨m, hm, hrun⟩ := ih
    obtain ⟨k, hk, hrun⟩ := hnext hbc hrun
    exact ⟨k, hk.trans hm, hrun⟩

lemma parseLoop_of_reflTransGen (hpath : Relation.ReflTransGen (LeadsTo proto) offset offset')
    (h : parseLoop proto n offset = some result) :
    ∃ m, parseLoop proto m offset' = some result := by
  rcases Relation.reflTransGen_iff_eq_or_transGen.mp hpath with rfl | hpath
  · exact ⟨n, h⟩
  · obtain ⟨m, _, hm⟩ := parseLoop_of_transGen hpath h
    exact ⟨m, hm⟩

lemma neverBack_of_ends (h : Ends proto result) : NeverBack proto := by
  intro offset hreach hback
  obtain ⟨turns, hrun⟩ := h
  obtain ⟨n, hn⟩ := parseLoop_of_reflTransGen hreach hrun
  -- the fewest turns from `offset` on would not be the fewest
  induction n using Nat.strong_induction_on with
  | _ n ih =>
    obtain ⟨m, hm, hrun⟩ := parseLoop_of_transGen hback hn
    exact ih m hm hrun

lemma ends_of_neverBack (h : NeverBack proto) : ∃ result, Ends proto result := by
  by_contra hnever
  have hnone : ∀ n, parseLoop proto n 0 = none := by
    intro n
    cases hn : parseLoop proto n 0 with
    | none => rfl
    | some result => exact absurd ⟨result, n, hn⟩ hnever
  let Endless := { offset : ℤ // ∀ n, parseLoop proto n offset = none }
  have hnext : ∀ o : Endless, ∃ o' : Endless, LeadsTo proto o.1 o'.1 := by
    intro o
    obtain ⟨offset', hto⟩ := leadsTo_of_none (o.2 1)
    exact ⟨⟨offset', fun n => by rw [← hto.parseLoop_succ]; exact o.2 (n + 1)⟩, hto⟩
  choose next hnext using hnext
  let u : ℕ → ℤ := fun n => (next^[n] ⟨0, hnone⟩).1
  have hu : ∀ n, LeadsTo proto (u n) (u (n + 1)) := by
    intro n
    show LeadsTo proto _ (next^[n + 1] _).1
    rw [Function.iterate_succ_apply']
    exact hnext _
  have hge : ∀ n, -2 ^ 31 ≤ u n := by
    intro n
    induction n with
    | zero => show -2 ^ 31 ≤ (0 : ℤ); norm_num
    | succ n ih => exact (hu n).ge ih
  -- infinitely many turns, finitely many offsets
  have hfinite : (Set.range u).Finite := by
    apply (Set.finite_Ico (-2 ^ 31 : ℤ) proto.length).subset
    rintro _ ⟨n, rfl⟩
    exact ⟨hge n, (hu n).lt⟩
  have hinj : ¬ Function.Injective u := fun hinj => Set.infinite_range_of_injective hinj hfinite
  obtain ⟨i, j, heq, hne⟩ := Function.not_injective_iff.mp hinj
  have hpath : ∀ i k, Relation.TransGen (LeadsTo proto) (u i) (u (i + k + 1)) := by
    intro i k
    induction k with
    | zero => exact .single (hu i)
    | succ k ih => exact ih.tail (hu _)
  have hreach : ∀ i, Relation.ReflTransGen (LeadsTo proto) 0 (u i) := by
    intro i
    induction i with
    | zero => exact .refl
    | succ i ih => exact ih.tail (hu i)
  have hback : ∀ i j, i < j → u i ≠ u j := by
    intro i j hij heq
    have hcycle := hpath i (j - i - 1)
    rw [show i + (j - i - 1) + 1 = j by omega, ← heq] at hcycle
    exact h _ (hreach i) hcycle
  rcases Nat.lt_or_gt_of_ne hne with hij | hij
  · exact hback i j hij heq
  · exact hback j i hij heq.symm

/-- A field leads on, unless its length is negative, which is one with bit 31. -/
lemma LeadsTo.lt_next (h : LeadsTo proto offset offset') (hlength : byteAt proto offset % 8 = 2 →
    0 ≤ (readLength proto (proto.length - (offset + 1)).toNat (offset + 1) 0 0).2) :
    offset < offset' := by
  have hend := h.lt
  rw [LeadsTo, turn, if_pos hend] at h
  simp only at h
  split at h
  · cases h
    have := le_skipVarint proto (proto.length - (offset + 1)).toNat (offset + 1)
    omega
  · split at h
    next htag =>
      split at h
      · cases h
      · cases h
        have := le_readLength proto (proto.length - (offset + 1)).toNat (offset + 1) 0 0
        have := hlength htag
        omega
    · cases h

/-- **Only a negative length leads back.** -/
lemma neverBack_of_lengths (h : ∀ offset, Relation.ReflTransGen (LeadsTo proto) 0 offset →
    byteAt proto offset % 8 = 2 →
      0 ≤ (readLength proto (proto.length - (offset + 1)).toNat (offset + 1) 0 0).2) :
    NeverBack proto := by
  have hlt : ∀ {a b}, Relation.ReflTransGen (LeadsTo proto) 0 a →
      Relation.TransGen (LeadsTo proto) a b → a < b := by
    intro a b ha hab
    induction hab with
    | single hstep => exact hstep.lt_next (h a ha)
    | tail hpath hstep ih => exact ih.trans (hstep.lt_next (h _ (ha.trans hpath.to_reflTransGen)))
  exact fun offset hreach hback => lt_irrefl offset (hlt hreach hback)

/-! ## Well-formed messages -/

/-- A minimal varint. -/
def varint (n : ℕ) : Bytes :=
  if n < 128 then [UInt8.ofNat n] else UInt8.ofNat (n % 128 + 128) :: varint (n / 128)
termination_by n
decreasing_by omega

inductive Field
  | varint (number value : ℕ)
  | bytes (number : ℕ) (content : Bytes)

namespace Field

def number : Field → ℕ
  | .varint number _ | .bytes number _ => number

def encode : Field → Bytes
  | .varint number value => UInt8.ofNat (number * 8) :: PeerKeys.varint value
  | .bytes number content =>
    UInt8.ofNat (number * 8 + 2) :: (PeerKeys.varint content.length ++ content)

end Field

def encode (fields : List Field) : Bytes := fields.flatMap Field.encode

/-- The message has fields with numbers of one byte, of which number 2 is the key alone. -/
def IsPublicKey (proto key : Bytes) : Prop :=
  ∃ before after : List Field, proto = encode (before ++ .bytes 2 key :: after) ∧
    key.length = 32 ∧ ∀ f ∈ before ++ after, f.number < 16 ∧ f.number ≠ 2

variable {pre rest : Bytes} {b : UInt8}

lemma byteAt_append (pre rest : Bytes) (b : UInt8) :
    byteAt (pre ++ b :: rest) pre.length = b.toNat := by
  simp [byteAt]

lemma next_offset (pre : Bytes) (b : UInt8) : (pre.length : ℤ) + 1 = ((pre ++ [b]).length : ℕ) := by
  simp

lemma length_pos_varint (n : ℕ) : 0 < (varint n).length := by
  rw [varint]
  split <;> simp

lemma skipVarint_varint (h : (varint n).length ≤ m) (pre rest : Bytes) :
    skipVarint (pre ++ (varint n ++ rest)) m pre.length = pre.length + (varint n).length := by
  induction n using Nat.strong_induction_on generalizing m pre with
  | _ n ih =>
    obtain ⟨m, rfl⟩ : ∃ k, m = k + 1 := ⟨m - 1, by have := length_pos_varint n; omega⟩
    rw [varint] at h ⊢
    by_cases hn : n < 128
    · have hbyte : (UInt8.ofNat n).toNat = n := by simp; omega
      rw [if_pos hn, singleton_append, skipVarint, byteAt_append, hbyte, if_neg (by omega)]
      simp
    · have hbyte : (UInt8.ofNat (n % 128 + 128)).toNat = n % 128 + 128 := by simp; omega
      rw [if_neg hn, length_cons] at h
      rw [if_neg hn, cons_append, skipVarint, byteAt_append, hbyte,
        if_pos ⟨by simp; omega, by omega⟩]
      rw [next_offset pre, append_cons,
        ih (n / 128) (by omega) (Nat.le_of_succ_le_succ h) (pre ++ _)]
      simp
      ring

lemma addBits_toNat {len : BitVec 32} {shift : ℕ} (hlen : len.toNat < 2 ^ shift)
    (hshift : shift < 32) (hfits : len.toNat + n % 128 * 2 ^ shift < 2 ^ 32) :
    (addBits len n shift).toNat = len.toNat + n % 128 * 2 ^ shift := by
  have hbits : n % 128 % 2 ^ 32 = n % 128 := Nat.mod_eq_of_lt (by omega)
  rw [addBits, Nat.mod_eq_of_lt hshift, BitVec.toNat_or, BitVec.toNat_shiftLeft,
    BitVec.toNat_ofNat, hbits, Nat.shiftLeft_eq, Nat.mod_eq_of_lt (by omega), Nat.or_comm,
    Nat.mul_comm, ← Nat.two_pow_add_eq_or_of_lt hlen, Nat.add_comm]

lemma readLength_varint {len : BitVec 32} {shift : ℕ} (h : (varint n).length ≤ m)
    (hlen : len.toNat < 2 ^ shift) (hshift : shift < 32)
    (hfits : len.toNat + n * 2 ^ shift < 2 ^ 31) (pre rest : Bytes) :
    readLength (pre ++ (varint n ++ rest)) m pre.length len shift =
      (((pre.length + (varint n).length : ℕ) : ℤ), ((len.toNat + n * 2 ^ shift : ℕ) : ℤ)) := by
  induction n using Nat.strong_induction_on generalizing m pre len shift with
  | _ n ih =>
    obtain ⟨m, rfl⟩ : ∃ k, m = k + 1 := ⟨m - 1, by have := length_pos_varint n; omega⟩
    have hmod : n % 128 * 2 ^ shift ≤ n * 2 ^ shift := Nat.mul_le_mul_right _ (Nat.mod_le n 128)
    rw [varint] at h ⊢
    by_cases hn : n < 128
    · have hbyte : (UInt8.ofNat n).toNat = n := by simp; omega
      have hsum := addBits_toNat (n := n) hlen hshift (by omega)
      rw [Nat.mod_eq_of_lt hn] at hsum
      rw [if_pos hn, singleton_append, readLength, if_pos (by simp)]
      simp only [byteAt_append, hbyte, if_pos hn, length_singleton]
      rw [BitVec.toInt_eq_toNat_of_lt (by omega), hsum]
      rfl
    · have hbyte : (UInt8.ofNat (n % 128 + 128)).toNat = n % 128 + 128 := by simp; omega
      have hbits : (n % 128 + 128) % 128 = n % 128 := by omega
      have hsum := addBits_toNat (n := n % 128 + 128) hlen hshift (by rw [hbits]; omega)
      rw [hbits] at hsum
      have hpow : 2 ^ (shift + 7) = 128 * 2 ^ shift := by rw [pow_add]; ring
      have hdiv : n % 128 * 2 ^ shift + n / 128 * 2 ^ (shift + 7) = n * 2 ^ shift := by
        rw [hpow]
        calc n % 128 * 2 ^ shift + n / 128 * (128 * 2 ^ shift)
            = (n % 128 + 128 * (n / 128)) * 2 ^ shift := by ring
          _ = n * 2 ^ shift := by rw [Nat.mod_add_div]
      have hbelow : 2 ^ (shift + 7) < 2 ^ 31 := by
        have : 1 * 2 ^ (shift + 7) ≤ n / 128 * 2 ^ (shift + 7) :=
          Nat.mul_le_mul_right _ (by omega)
        omega
      have hless : (addBits len (n % 128 + 128) shift).toNat < 2 ^ (shift + 7) := by
        have : n % 128 * 2 ^ shift ≤ 127 * 2 ^ shift := Nat.mul_le_mul_right _ (by omega)
        omega
      rw [if_neg hn, length_cons] at h
      rw [if_neg hn, cons_append, readLength, if_pos (by simp; omega)]
      simp only [byteAt_append, hbyte, if_neg (show ¬ n % 128 + 128 < 128 by omega)]
      have hshift' : shift + 7 < 32 :=
        lt_trans ((Nat.pow_lt_pow_iff_right (by norm_num)).mp hbelow) (by norm_num)
      rw [next_offset pre, append_cons, ih (n / 128) (by omega) (Nat.le_of_succ_le_succ h)
        hless hshift' (by rw [hsum]; omega) (pre ++ _), hsum, Nat.add_assoc, hdiv]
      simp
      ring

/-- The turn at a tag, which the number of the field and its wire type make. -/
lemma turn_tag {number wireType : ℕ} (hnumber : number < 16) (hwire : wireType < 8) :
    turn (pre ++ UInt8.ofNat (number * 8 + wireType) :: rest) pre.length =
      if wireType = 0 then
        .next (skipVarint (pre ++ UInt8.ofNat (number * 8 + wireType) :: rest) rest.length
          (pre.length + 1))
      else if wireType = 2 then
        let (offset, len) := readLength (pre ++ UInt8.ofNat (number * 8 + wireType) :: rest)
          rest.length (pre.length + 1) 0 0
        if number = 2 then
          .done (.ok (slice (pre ++ UInt8.ofNat (number * 8 + wireType) :: rest) offset
            (offset + len)))
        else .next (offset + len)
      else .done (.error .unexpectedWireType) := by
  have htag : (UInt8.ofNat (number * 8 + wireType)).toNat = number * 8 + wireType := by
    simp
    omega
  have hleft : ((pre ++ UInt8.ofNat (number * 8 + wireType) :: rest).length -
      ((pre.length : ℤ) + 1)).toNat = rest.length := by
    simp
  have hdiv : (number * 8 + wireType) / 8 = number := by omega
  have hmod : (number * 8 + wireType) % 8 = wireType := by omega
  rw [turn, if_pos (by simp)]
  simp only [byteAt_append, htag, hleft, hdiv, hmod]

lemma readLength_after (tag : UInt8) (n : ℕ) (hfits : n < 2 ^ 31) (pre rest : Bytes) :
    readLength (pre ++ tag :: (varint n ++ rest)) (varint n ++ rest).length (pre.length + 1) 0 0 =
      (((pre.length + 1 + (varint n).length : ℕ) : ℤ), (n : ℤ)) := by
  have hlong : (varint n).length ≤ (varint n ++ rest).length := by simp
  have hzero : (0 : BitVec 32).toNat < 2 ^ 0 := by decide
  have hread := readLength_varint hlong hzero (by norm_num) (by simpa using hfits) (pre ++ [tag])
    rest
  simpa using hread

lemma leadsTo_field {f : Field} (hnumber : f.number < 16 ∧ f.number ≠ 2)
    (hsize : (pre ++ (f.encode ++ rest)).length < 2 ^ 31) :
    LeadsTo (pre ++ (f.encode ++ rest)) pre.length (pre.length + f.encode.length : ℕ) := by
  unfold LeadsTo
  cases f with
  | varint number value =>
    simp only [Field.number] at hnumber
    have hskip := skipVarint_varint (n := value) (m := (varint value ++ rest).length) (by simp)
      (pre ++ [UInt8.ofNat (number * 8 + 0)]) rest
    rw [Field.encode, cons_append, show number * 8 = number * 8 + 0 from rfl,
      turn_tag hnumber.1 (by norm_num), if_pos rfl]
    simp only [append_assoc, singleton_append, length_append, length_singleton] at hskip
    push_cast at hskip
    rw [length_append, hskip]
    congr 1
    push_cast [length_cons]
    ring
  | bytes number content =>
    simp only [Field.number] at hnumber
    have hlen : content.length < 2 ^ 31 := by
      simp [Field.encode] at hsize
      omega
    rw [Field.encode, cons_append, append_assoc, turn_tag hnumber.1 (by norm_num),
      if_neg (by norm_num), if_pos rfl, readLength_after _ _ hlen]
    simp only [if_neg hnumber.2]
    congr 1
    push_cast [length_cons, length_append]
    ring

lemma turn_key {key : Bytes} (hkey : key.length < 2 ^ 31) (pre rest : Bytes) :
    turn (pre ++ ((Field.bytes 2 key).encode ++ rest)) pre.length = .done (.ok key) := by
  rw [Field.encode, cons_append, append_assoc, turn_tag (by norm_num) (by norm_num),
    if_neg (by norm_num), if_pos rfl, readLength_after _ _ hkey]
  simp only [if_true]
  congr 2
  have hstart : ∀ (k : ℕ) (bytes : Bytes), k ≤ bytes.length → sliceIndex bytes.length k = k := by
    intro k bytes hk
    rw [sliceIndex, if_neg (by omega)]
    simp [hk]
  have hbytes : pre ++ UInt8.ofNat (2 * 8 + 2) :: (varint key.length ++ (key ++ rest)) =
      (pre ++ UInt8.ofNat (2 * 8 + 2) :: varint key.length) ++ (key ++ rest) := by simp
  rw [slice, hbytes, ← Nat.cast_add, hstart _ _ (by simp; omega), hstart _ _ (by simp; omega)]
  have hprefix : (pre ++ UInt8.ofNat (2 * 8 + 2) :: varint key.length).length =
      pre.length + 1 + (varint key.length).length := by simp; omega
  rw [← hprefix, take_length_add_append, drop_left, take_left]

lemma parseLoop_fields (before : List Field) {key : Bytes} (after pre : Bytes)
    (hbefore : ∀ f ∈ before, f.number < 16 ∧ f.number ≠ 2)
    (hsize : (pre ++ (encode before ++ ((Field.bytes 2 key).encode ++ after))).length < 2 ^ 31) :
    parseLoop (pre ++ (encode before ++ ((Field.bytes 2 key).encode ++ after)))
      (before.length + 1) pre.length = some (.ok key) := by
  induction before generalizing pre with
  | nil =>
    have hkey : key.length < 2 ^ 31 := by
      simp [encode, Field.encode] at hsize
      omega
    have hturn := turn_key hkey pre after
    simp [encode, parseLoop, hturn]
  | cons f before ih =>
    have hbytes : pre ++ (encode (f :: before) ++ ((Field.bytes 2 key).encode ++ after)) =
        pre ++ (f.encode ++ (encode before ++ ((Field.bytes 2 key).encode ++ after))) := by
      simp [encode]
    rw [hbytes] at hsize ⊢
    rw [length_cons, (leadsTo_field (hbefore f mem_cons_self) hsize).parseLoop_succ]
    have hnext := ih (pre ++ f.encode) (fun g hg => hbefore g (mem_cons_of_mem f hg))
      (by simpa [append_assoc] using hsize)
    simpa [append_assoc] using hnext

/-- **Decoding.** The key of a well-formed message is found, whatever follows it. -/
lemma ends_of_isPublicKey {key : Bytes} (h : IsPublicKey proto key)
    (hsize : proto.length < 2 ^ 31) : Ends proto (.ok key) := by
  obtain ⟨before, after, rfl, _, hfields⟩ := h
  have hbytes : encode (before ++ .bytes 2 key :: after) =
      [] ++ (encode before ++ ((Field.bytes 2 key).encode ++ encode after)) := by
    simp [encode]
  rw [hbytes] at hsize ⊢
  exact ⟨before.length + 1, parseLoop_fields before (encode after) []
    (fun f hf => hfields f (mem_append_left _ hf)) hsize⟩

/-! ## The parser -/

/-- **Termination and decoding.** The loop ends, and finds the key of every well-formed message,
just when no chain of fields comes back to an offset. -/
theorem parse_ends_and_decodes_iff (proto : Bytes) :
    ((∃ result, Ends proto result) ∧
      ∀ key, IsPublicKey proto key → proto.length < 2 ^ 31 → Ends proto (.ok key)) ↔
    NeverBack proto :=
  ⟨fun h => h.1.elim fun _ hends => neverBack_of_ends hends,
    fun h => ⟨ends_of_neverBack h, fun _ hkey hsize => ends_of_isPublicKey hkey hsize⟩⟩

/-- Six bytes whose only field has the length -6. -/
theorem parse_runs_forever : ¬ ∃ result, Ends [0x0A, 0xFA, 0xFF, 0xFF, 0xFF, 0x0F] result := by
  rintro ⟨result, hends⟩
  have hback : LeadsTo [0x0A, 0xFA, 0xFF, 0xFF, 0xFF, 0x0F] 0 0 := by
    rfl
  exact neverBack_of_ends hends 0 .refl (.single hback)

end Dkg.PeerKeys
