import Dkg.Evm

/-! # Chronos and the block a call runs in

`Chronos` fixes the start time and the epoch length at deployment. The block timestamp is an
input of every call; `Block` carries the one fact about it the storage layouts rely on, that it
fits the `uint40` in which they keep it.
-/

namespace Dkg

/-- The `Chronos` contract: its two immutables, with the constructor's checks. The last field is
the deployments' side of `uint32` epoch numbers: at every `uint40` timestamp the epoch number
fits `uint32` (deployed epochs last an hour or more; 257 seconds suffice). -/
structure Chronos where
  START_TIME : ℕ
  EPOCH_LENGTH : ℕ
  start_pos : 0 < START_TIME
  length_pos : 0 < EPOCH_LENGTH
  epoch_fits : 2 ^ 40 / EPOCH_LENGTH + 1 < 2 ^ 32

/-- The block a call runs in. -/
structure Block where
  timestamp : ℕ
  fits : timestamp < 2 ^ 40

lemma Block.mod_fits (t : ℕ) : t % 2 ^ 40 < 2 ^ 40 := Nat.mod_lt t (by decide)

/-- A time that is written down stands for the block at that time. -/
instance (t : ℕ) : OfNat Block t := ⟨⟨t % 2 ^ 40, Block.mod_fits t⟩⟩

namespace Chronos

variable (c : Chronos)

def epochAtTimestamp (timestamp : ℕ) : ℕ :=
  if timestamp < c.START_TIME then 1
  else (timestamp - c.START_TIME) / c.EPOCH_LENGTH + 1

def getCurrentEpoch (b : Block) : ℕ :=
  if b.timestamp < c.START_TIME then 1
  else (b.timestamp - c.START_TIME) / c.EPOCH_LENGTH + 1

def epochLength : ℕ := c.EPOCH_LENGTH

def timestampForEpoch (epochNumber : ℕ) : ℕ :=
  if epochNumber = 0 then 0 else c.START_TIME + (epochNumber - 1) * c.EPOCH_LENGTH

def timeUntilNextEpoch (b : Block) : ℕ :=
  if b.timestamp < c.START_TIME then c.START_TIME + c.EPOCH_LENGTH - b.timestamp
  else c.EPOCH_LENGTH - (b.timestamp - c.START_TIME) % c.EPOCH_LENGTH

lemma epochAtTimestamp_pos (t : ℕ) : 1 ≤ c.epochAtTimestamp t := by
  rw [epochAtTimestamp]
  split
  · exact le_rfl
  · exact Nat.le_add_left _ _

lemma getCurrentEpoch_pos (b : Block) : 1 ≤ c.getCurrentEpoch b :=
  c.epochAtTimestamp_pos b.timestamp

lemma epochAtTimestamp_mono {t t' : ℕ} (h : t ≤ t') :
    c.epochAtTimestamp t ≤ c.epochAtTimestamp t' := by
  by_cases h1 : t < c.START_TIME
  · rw [epochAtTimestamp, if_pos h1]
    exact c.epochAtTimestamp_pos t'
  · rw [epochAtTimestamp, epochAtTimestamp, if_neg h1, if_neg (by omega)]
    have := Nat.div_le_div_right (c := c.EPOCH_LENGTH) (Nat.sub_le_sub_right h c.START_TIME)
    omega

lemma lt_of_epochAtTimestamp_lt {t t' : ℕ}
    (h : c.epochAtTimestamp t < c.epochAtTimestamp t') : t < t' := by
  by_contra hle
  have := c.epochAtTimestamp_mono (Nat.not_lt.mp hle)
  omega

lemma timestampForEpoch_eq {e : ℕ} (he : 1 ≤ e) :
    c.timestampForEpoch e = c.START_TIME + (e - 1) * c.EPOCH_LENGTH := by
  rw [timestampForEpoch, if_neg (by omega)]

lemma timestamp_lt_epochEnd (b : Block) :
    b.timestamp < c.timestampForEpoch (c.getCurrentEpoch b) + c.EPOCH_LENGTH := by
  have hpos := c.length_pos
  rw [c.timestampForEpoch_eq (c.getCurrentEpoch_pos b), getCurrentEpoch]
  split
  · omega
  · have hdiv := Nat.lt_div_mul_add hpos (a := b.timestamp - c.START_TIME)
    rw [Nat.add_sub_cancel]
    omega

lemma epochAtTimestamp_lt {t : ℕ} (h : t < 2 ^ 40) : c.epochAtTimestamp t < 2 ^ 32 := by
  have hfit := c.epoch_fits
  rw [epochAtTimestamp]
  split
  · norm_num
  · have := Nat.div_le_div_right (c := c.EPOCH_LENGTH)
      (show t - c.START_TIME ≤ 2 ^ 40 by omega)
    omega

end Chronos

/-- A clock with one-hour epochs from timestamp `1000` on, as the local deployments have them. -/
def hourlyChronos : Chronos where
  START_TIME := 1000
  EPOCH_LENGTH := 3600
  start_pos := by norm_num
  length_pos := by norm_num
  epoch_fits := by norm_num

end Dkg
