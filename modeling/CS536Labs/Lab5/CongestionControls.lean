import CS536Labs.Foundations.ClampedAffine
import CS536Labs.Lab5.Queue
import Mathlib.Data.Rat.Cast.Order
import Mathlib.Tactic.FieldSimp
import Mathlib.Tactic.NormNum

/-!
# `lab5/lib/congestion_controls.c` and method E of `lab5/v2/audiocli.c`

The client answers every datagram with a new packet rate. The methods C, D and E compute it from the
last rate, the parameters of the configuration and the load of the queue; `long double` is `ℚ`.

* `occupancyDiff_eq`: the difference of two unsigned numbers is the intended one below `2 ^ 63`.
* `byteRate_methedE`: one step of method E is a clamped affine map of the byte rate. Its fixed point
  is `targetRate`.
* `converges_methedD_methedE`: at a constant load, both methods converge to it.
-/

namespace CS536Labs.Lab5

/-- The parameters that the methods read. -/
structure Config where
  blocksize : UInt16
  targetBufferOccupancy : ℕ
  epsilon : ℚ
  beta : ℚ
  alpha : ℚ

/-- `AUDIO_REQUEST_INTERVAL_MS`. -/
def audioRequestIntervalMs : ℕ := 313

/-- `audio_request_bytes_per_second`. -/
def audioRequestBytesPerSecond : ℚ := 1000 / audioRequestIntervalMs * audioFrameSize

/-- The byte rate of a packet rate. -/
def byteRate (config : Config) (packetsPerSecond : ℚ) : ℚ :=
  packetsPerSecond * config.blocksize.toNat

/-- `occupancy_diff`: the subtraction is unsigned, and its result is converted to `long long`. -/
def occupancyDiff (config : Config) (queue : Queue) : ℤ :=
  toSsize (sizeSub config.targetBufferOccupancy (getQueueLoad queue))

/-- The end of the methods. -/
def toPacketRate (config : Config) (newBytesPerSecond : ℚ) : ℚ :=
  if newBytesPerSecond < 0 then 0 else newBytesPerSecond / config.blocksize.toNat

def updatePacketRateMethedC (packetsPerSecond : ℚ) (config : Config) (queue : Queue) : ℚ :=
  let bytesPerSecond := byteRate config packetsPerSecond
  toPacketRate config (bytesPerSecond + config.epsilon * occupancyDiff config queue)

def updatePacketRateMethedD (packetsPerSecond : ℚ) (config : Config) (queue : Queue) : ℚ :=
  let bytesPerSecond := byteRate config packetsPerSecond
  let netInfluxBytesPerSecond := bytesPerSecond - audioRequestBytesPerSecond
  toPacketRate config (bytesPerSecond + config.epsilon * occupancyDiff config queue -
    config.beta * netInfluxBytesPerSecond)

def updatePacketRateMethedE (packetsPerSecond : ℚ) (config : Config) (queue : Queue) : ℚ :=
  let bytesPerSecond := byteRate config packetsPerSecond
  let netInfluxBytesPerSecond := bytesPerSecond - audioRequestBytesPerSecond
  toPacketRate config (bytesPerSecond + (config.epsilon * occupancyDiff config queue -
    config.beta * netInfluxBytesPerSecond) / (1 + config.alpha))

/-- `CongestionControlMethod`. -/
abbrev CongestionControlMethod := ℚ → Config → Queue → ℚ

/-- The packet rate after `n` calls of `send_feedback` while the queue does not change. -/
def rateAfter (method : CongestionControlMethod) (config : Config) (queue : Queue) (n : ℕ)
    (packetsPerSecond : ℚ) : ℚ :=
  (fun rate => method rate config queue)^[n] packetsPerSecond

/-- The byte rate that consumes what the device plays, corrected for the distance from the target
occupancy. -/
def targetRate (config : Config) (queue : Queue) : ℚ :=
  audioRequestBytesPerSecond +
    config.epsilon * ((config.targetBufferOccupancy : ℚ) - getQueueLoad queue) / config.beta

/-- From every initial rate, the byte rate approaches the limit by the factor in each step, and it
is never negative. -/
def Converges (method : CongestionControlMethod) (config : Config) (queue : Queue)
    (limit factor : ℚ) : Prop :=
  ∀ rate, 0 ≤ rate → ∀ n,
    |byteRate config (rateAfter method config queue n rate) - limit| ≤
        |factor| ^ n * |byteRate config rate - limit| ∧
      0 ≤ byteRate config (rateAfter method config queue n rate)

/-! ## One step -/

variable {config : Config} {queue : Queue}

theorem occupancyDiff_eq (htarget : config.targetBufferOccupancy < 2 ^ 63)
    (hload : getQueueLoad queue < 2 ^ 63) :
    occupancyDiff config queue = (config.targetBufferOccupancy : ℤ) - getQueueLoad queue := by
  unfold occupancyDiff toSsize sizeSub
  split_ifs <;> omega

theorem toPacketRate_nonneg (config : Config) (newBytesPerSecond : ℚ) :
    0 ≤ toPacketRate config newBytesPerSecond := by
  rw [toPacketRate]
  split_ifs with h
  · exact le_refl 0
  · exact div_nonneg (not_lt.mp h) (Nat.cast_nonneg _)

theorem byteRate_toPacketRate (hblock : 1 ≤ config.blocksize) (newBytesPerSecond : ℚ) :
    byteRate config (toPacketRate config newBytesPerSecond) = clampZero newBytesPerSecond := by
  have hne : (config.blocksize.toNat : ℚ) ≠ 0 := by
    have hpos := UInt16.le_iff_toNat_le.mp hblock
    exact Nat.cast_ne_zero.mpr (Nat.pos_iff_ne_zero.mp hpos)
  rw [byteRate, toPacketRate, clampZero]
  split_ifs
  · exact zero_mul _
  · exact div_mul_cancel₀ _ hne

/-- Method D is method E with `alpha` 0. -/
theorem methedD_eq_methedE (packetsPerSecond : ℚ) (config : Config) (queue : Queue) :
    updatePacketRateMethedD packetsPerSecond config queue =
      updatePacketRateMethedE packetsPerSecond { config with alpha := 0 } queue := by
  simp only [updatePacketRateMethedD, updatePacketRateMethedE, byteRate, occupancyDiff,
    toPacketRate, add_zero, div_one, add_sub_assoc]

/-- **One step of method E** scales the distance from `targetRate`. -/
theorem byteRate_methedE (hblock : 1 ≤ config.blocksize)
    (htarget : config.targetBufferOccupancy < 2 ^ 63) (hload : getQueueLoad queue < 2 ^ 63)
    (hbeta : 0 < config.beta) (halpha : 0 ≤ config.alpha) (packetsPerSecond : ℚ) :
    byteRate config (updatePacketRateMethedE packetsPerSecond config queue) =
      clampedStep (targetRate config queue) (1 - config.beta / (1 + config.alpha))
        (byteRate config packetsPerSecond) := by
  have hbeta' : config.beta ≠ 0 := ne_of_gt hbeta
  have halpha' : 1 + config.alpha ≠ 0 := by linarith
  rw [updatePacketRateMethedE, byteRate_toPacketRate hblock, occupancyDiff_eq htarget hload]
  apply congrArg clampZero
  rw [targetRate]
  push_cast
  field_simp
  ring

/-! ## Any number of steps -/

/-- The byte rates follow their own iteration. -/
theorem byteRate_rateAfter {method : CongestionControlMethod} {step : ℚ → ℚ}
    (h : ∀ rate, byteRate config (method rate config queue) = step (byteRate config rate)) (n : ℕ)
    (rate : ℚ) :
    byteRate config (rateAfter method config queue n rate) = step^[n] (byteRate config rate) := by
  have hsemiconj : Function.Semiconj (byteRate config)
      (fun rate => method rate config queue) step := h
  exact hsemiconj.iterate_right n rate

/-- **Convergence of method E.** -/
theorem converges_methedE (hblock : 1 ≤ config.blocksize)
    (htarget : config.targetBufferOccupancy < 2 ^ 63) (hload : getQueueLoad queue < 2 ^ 63)
    (hbeta : 0 < config.beta) (halpha : 0 ≤ config.alpha)
    (hlimit : 0 ≤ targetRate config queue) :
    Converges updatePacketRateMethedE config queue (targetRate config queue)
      (1 - config.beta / (1 + config.alpha)) := by
  intro rate hrate n
  have hstep := byteRate_methedE hblock htarget hload hbeta halpha
  have happroach := approaches_clampedStep hlimit (1 - config.beta / (1 + config.alpha))
  rw [byteRate_rateAfter hstep]
  refine ⟨happroach.iterate (abs_nonneg _) n _, ?_⟩
  exact iterate_nonneg (fun _ => clampZero_nonneg _)
    (mul_nonneg hrate (Nat.cast_nonneg _)) n

/-- **Convergence at a constant load.** Where `targetRate` is not negative, the methods D and E
converge to it, for every initial rate and any number of steps. -/
theorem converges_methedD_methedE (config : Config) (queue : Queue)
    (hblock : 1 ≤ config.blocksize) (htarget : config.targetBufferOccupancy < 2 ^ 63)
    (hload : getQueueLoad queue < 2 ^ 63) (hbeta : 0 < config.beta) (halpha : 0 ≤ config.alpha)
    (hlimit : 0 ≤ targetRate config queue) :
    Converges updatePacketRateMethedD config queue (targetRate config queue) (1 - config.beta) ∧
      Converges updatePacketRateMethedE config queue (targetRate config queue)
        (1 - config.beta / (1 + config.alpha)) := by
  refine ⟨?_, converges_methedE hblock htarget hload hbeta halpha hlimit⟩
  intro rate hrate n
  have hD : (fun rate => updatePacketRateMethedD rate config queue) =
      fun rate => updatePacketRateMethedE rate { config with alpha := 0 } queue :=
    funext fun rate => methedD_eq_methedE rate config queue
  have hE : Converges updatePacketRateMethedE { config with alpha := 0 } queue
      (targetRate config queue) (1 - config.beta / (1 + 0)) :=
    converges_methedE hblock htarget hload hbeta (le_refl 0) hlimit
  rw [add_zero, div_one] at hE
  rw [rateAfter, hD]
  exact hE rate hrate n

/-- A block of 1000 bytes, a target of ten frames and an empty queue. -/
theorem converges_emptyQueue :
    let config : Config := ⟨1000, 40960, 1 / 2, 11 / 10, 1⟩
    let queue : Queue := ⟨0, 0, 65537, fun _ => 0⟩
    Converges updatePacketRateMethedD config queue (targetRate config queue) (1 - 11 / 10) ∧
      Converges updatePacketRateMethedE config queue (targetRate config queue)
        (1 - 11 / 10 / (1 + 1)) := by
  intro config queue
  have hload : getQueueLoad queue = 0 := by decide
  refine converges_methedD_methedE config queue (by decide) (by decide) ?_ (by norm_num [config])
    (by norm_num [config]) ?_
  · rw [hload]
    decide
  · rw [targetRate, hload]
    norm_num [config, audioRequestBytesPerSecond, audioRequestIntervalMs, audioFrameSize]

end CS536Labs.Lab5
