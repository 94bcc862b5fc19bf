import CS536Labs.Foundations.LongDouble
import CS536Labs.Lab5.Pspacing

/-!
# `send_feedback` of `lab5/lib/audio_client.c`

The client answers every datagram with the interval of a new packet rate. The methods compute it
from the configuration of the client, as values of `long double` with their rounding;
`CongestionControls` and `Pspacing` have the methods and the interval over `ℚ`.

* `toPspacingMs_ne_none_iff`: the rates that can be converted to an interval.
* `feedbacks_ne_none_iff`: the answers of a run are defined exactly when every rate can be
  converted.
-/

namespace CS536Labs.Lab5.AudioClient

/-- `Config` of `audio_client_config.h`, without the address of the server. -/
structure Config where
  audioFilename : List UInt8
  blocksize : UInt16
  bufferSize : ℕ
  targetBufferOccupancy : ℕ
  packetsPerSecond : LongDouble
  congestionControlIndex : UInt16
  logFilename : List UInt8
  epsilon : LongDouble
  beta : LongDouble
  alpha : LongDouble
  deriving DecidableEq

/-! ## The methods -/

/-- `bytes_per_second`. -/
def bytesPerSecond (packetsPerSecond : LongDouble) (config : Config) : LongDouble :=
  packetsPerSecond * (config.blocksize.toNat : LongDouble)

/-- `occupancy_diff`. -/
def occupancyDiff (config : Config) (queue : Queue) : ℤ :=
  toSsize (sizeSub config.targetBufferOccupancy (getQueueLoad queue))

/-- `audio_request_bytes_per_second`. -/
def audioRequestBytesPerSecond : LongDouble :=
  ((1000 : ℕ) : LongDouble) / (audioRequestIntervalMs : LongDouble) * (audioFrameSize : LongDouble)

/-- The end of the methods. -/
def toPacketRate (config : Config) (newBytesPerSecond : LongDouble) : LongDouble :=
  if newBytesPerSecond.lt (.ofRat 0) then .ofRat 0
  else newBytesPerSecond / (config.blocksize.toNat : LongDouble)

/-- The divisor of method E. -/
def Config.divisor (config : Config) : LongDouble := .add (.ofRat 1) config.alpha

def updatePacketRateMethedC (packetsPerSecond : LongDouble) (config : Config) (queue : Queue) :
    LongDouble :=
  let bytesPerSecond := bytesPerSecond packetsPerSecond config
  let occupancyDiff : LongDouble := occupancyDiff config queue
  toPacketRate config (bytesPerSecond + config.epsilon * occupancyDiff)

def updatePacketRateMethedD (packetsPerSecond : LongDouble) (config : Config) (queue : Queue) :
    LongDouble :=
  let bytesPerSecond := bytesPerSecond packetsPerSecond config
  let occupancyDiff : LongDouble := occupancyDiff config queue
  let netInfluxBytesPerSecond := bytesPerSecond - audioRequestBytesPerSecond
  toPacketRate config
    (bytesPerSecond + config.epsilon * occupancyDiff - config.beta * netInfluxBytesPerSecond)

def updatePacketRateMethedE (packetsPerSecond : LongDouble) (config : Config) (queue : Queue) :
    LongDouble :=
  let bytesPerSecond := bytesPerSecond packetsPerSecond config
  let occupancyDiff : LongDouble := occupancyDiff config queue
  let netInfluxBytesPerSecond := bytesPerSecond - audioRequestBytesPerSecond
  toPacketRate config (bytesPerSecond +
    (config.epsilon * occupancyDiff - config.beta * netInfluxBytesPerSecond) / config.divisor)

/-- `CongestionControlMethod`. -/
abbrev CongestionControlMethod := LongDouble → Config → Queue → LongDouble

/-- The two clients. -/
inductive Client
  | v1
  | v2
  deriving DecidableEq

/-- The array `congestion_control_methods` of `main`. -/
def Client.congestionControlMethods : Client → List CongestionControlMethod
  | .v1 => [updatePacketRateMethedC, updatePacketRateMethedD]
  | .v2 => [updatePacketRateMethedC, updatePacketRateMethedD, updatePacketRateMethedE]

/-! ## The answers -/

/-- The conversion of a value to `uint16_t`, `none` where its behaviour is undefined. -/
def toUint16 : LongDouble → Option UInt16
  | .finite q => Lab5.toUint16 q
  | _ => none

def toPspacingMs (packetsPerSecond : LongDouble) : Option UInt16 :=
  if packetsPerSecond = .ofRat 0 then some maxPspacingMs
  else
    (toUint16 (.ofRat 1000 / packetsPerSecond)).map fun packetIntervalMs =>
      if packetIntervalMs > maxPspacingMs then maxPspacingMs else packetIntervalMs

/-- `send_feedback` up to `sendto`: the new packet rate, and the interval. -/
def sendFeedback (method : CongestionControlMethod) (config : Config)
    (packetsPerSecond : LongDouble) (queue : Queue) : Option (LongDouble × UInt16) :=
  let packetsPerSecond := method packetsPerSecond config queue
  (toPspacingMs packetsPerSecond).map fun packetInterval => (packetsPerSecond, packetInterval)

/-- The intervals that answer the datagrams of a run, from a packet rate on. The list has what the
queue holds at each call of `send_feedback`. -/
def feedbacks (method : CongestionControlMethod) (config : Config) :
    LongDouble → List Queue → Option (List UInt16)
  | _, [] => some []
  | packetsPerSecond, queue :: queues =>
    (sendFeedback method config packetsPerSecond queue).bind fun (packetsPerSecond, interval) =>
      (feedbacks method config packetsPerSecond queues).map (interval :: ·)

/-- The packet rates of a run. -/
def packetRates (method : CongestionControlMethod) (config : Config) :
    LongDouble → List Queue → List LongDouble
  | _, [] => []
  | packetsPerSecond, queue :: queues =>
    let packetsPerSecond := method packetsPerSecond config queue
    packetsPerSecond :: packetRates method config packetsPerSecond queues

/-- The rate is 0, infinite, or so high that 1000 divided by it is below `2 ^ 16`. -/
def Convertible : LongDouble → Prop
  | .finite rate => rate.val = 0 ∨ 1000 / 65536 < rate.val
  | .infinity _ => True
  | .nan => False

instance : DecidablePred Convertible
  | .finite rate => inferInstanceAs (Decidable (rate.val = 0 ∨ 1000 / 65536 < rate.val))
  | .infinity _ => .isTrue trivial
  | .nan => .isFalse id

/-! ## The interval -/

theorem representable_thousand : extended.Representable 1000 := by decide +kernel

/-- A quotient is in range when it is in range behind its rounding. -/
theorem toUint16_ofRat_ne_none_iff {q : ℚ} (hq : 0 ≤ q) :
    toUint16 (.ofRat q) ≠ none ↔ extended.round q < 65536 := by
  have hround : 0 ≤ extended.round q := FloatFormat.round_nonneg hq
  rw [LongDouble.ofRat]
  split_ifs with hbound
  · rw [toUint16, toUint16_of_nonneg hround]
    split_ifs with hlt
    · exact iff_of_true (Option.some_ne_none _) hlt
    · exact iff_of_false (not_not_intro rfl) hlt
  · refine iff_of_false (not_not_intro rfl) fun hlt => hbound ?_
    rw [abs_of_nonneg hround]
    have hmax : (65536 : ℚ) ≤ 2 ^ extended.maxExponent := by
      have hle : (2 : ℚ) ^ (16 : ℤ) ≤ 2 ^ extended.maxExponent :=
        FloatFormat.two_zpow_le (by decide)
      exact le_trans (by norm_num) hle
    exact hlt.trans_le hmax

/-- The next value above `1000 / 65536`. -/
theorem next_le_of_lt {p : ℚ} (hp : extended.Representable p) (hlt : 1000 / 65536 < p) :
    1000 / 65536 + 2 ^ (-70 : ℤ) ≤ p := by
  rcases lt_or_ge p (2 ^ (-6 : ℤ)) with hsmall | hlarge
  · have hpos : 0 < p := lt_trans (by norm_num) hlt
    have hplace : extended.lastPlace p = -70 := by
      apply FloatFormat.lastPlace_eq (by decide)
      · rw [abs_of_pos hpos]
        exact le_trans (by norm_num [extended]) hlt.le
      · rw [abs_of_pos hpos]
        exact hsmall.trans_le (by norm_num [extended])
    obtain ⟨n, hn⟩ := hp.exists_mul hplace.ge
    have hunit : (1000 / 65536 : ℚ) = (125 * 2 ^ 57 : ℤ) * 2 ^ (-70 : ℤ) := by norm_num
    rw [hn, hunit] at hlt ⊢
    have hint : (125 * 2 ^ 57 : ℤ) + 1 ≤ n :=
      Int.cast_lt.mp (lt_of_mul_lt_mul_right hlt (FloatFormat.two_zpow_pos _).le)
    calc ((125 * 2 ^ 57 : ℤ) : ℚ) * 2 ^ (-70 : ℤ) + 2 ^ (-70 : ℤ)
        = ((125 * 2 ^ 57 + 1 : ℤ) : ℚ) * 2 ^ (-70 : ℤ) := by push_cast; ring
      _ ≤ n * 2 ^ (-70 : ℤ) :=
        mul_le_mul_of_nonneg_right (Int.cast_le.mpr hint) (FloatFormat.two_zpow_pos _).le
  · exact le_trans (by norm_num) hlarge

/-- **The quotient.** Its rounding does not matter. -/
theorem round_quotient_lt_iff {p : ℚ} (hp : extended.Representable p) (hpos : 0 < p) :
    extended.round (1000 / p) < 65536 ↔ 1000 / 65536 < p := by
  have hpow : (2 : ℚ) ^ (16 : ℤ) = 65536 := by norm_num
  constructor
  · intro hround
    rw [← quotient_lt_iff hpos]
    by_contra hge
    have hle := FloatFormat.two_zpow_le_round (f := extended) (e := 16) (by decide)
      (hpow.trans_le (not_lt.mp hge))
    exact absurd hround (not_lt.mpr (hpow.symm.trans_le hle))
  · intro hlt
    have hnext := next_le_of_lt hp hlt
    have hquotient : 1000 / p ≤ 65536 - 2 ^ (-48 : ℤ) := by
      have hmul := mul_le_mul_of_nonneg_left hnext (by norm_num : (0 : ℚ) ≤ 65536 - 2 ^ (-48 : ℤ))
      rw [div_le_iff₀ hpos]
      exact le_trans (by norm_num) hmul
    have hplace : extended.lastPlace (1000 / p) ≤ -48 := by
      have hq : 0 < 1000 / p := div_pos (by norm_num) hpos
      apply FloatFormat.lastPlace_le hq.ne' (by decide)
      rw [abs_of_pos hq]
      exact ((quotient_lt_iff hpos).mpr hlt).trans_le (by norm_num [extended])
    have hnear := (abs_le.mp (extended.abs_sub_round_le (1000 / p))).1
    have hhalf : (2 : ℚ) ^ (extended.lastPlace (1000 / p) - 1) ≤ 2 ^ (-49 : ℤ) :=
      FloatFormat.two_zpow_le (by omega)
    have hstep : (2 : ℚ) ^ (-49 : ℤ) < 2 ^ (-48 : ℤ) := by norm_num
    linarith

/-- **The rates that have an interval.** -/
theorem toPspacingMs_ne_none_iff {rate : LongDouble} (h : rate.lt (.ofRat 0) = false) :
    toPspacingMs rate ≠ none ↔ Convertible rate := by
  rw [LongDouble.ofRat_of_representable LongDouble.representable_zero] at h
  rw [toPspacingMs, LongDouble.ofRat_of_representable LongDouble.representable_zero,
    LongDouble.ofRat_of_representable representable_thousand]
  cases rate with
  | finite p =>
    have hp : 0 ≤ p.val := by simpa [LongDouble.lt] using h
    rcases hp.eq_or_lt with hzero | hpos
    · rw [if_pos (congrArg LongDouble.finite (Subtype.ext hzero.symm))]
      exact iff_of_true (Option.some_ne_none _) (.inl hzero.symm)
    · have hne : LongDouble.finite p ≠ .finite ⟨0, LongDouble.representable_zero⟩ :=
        fun heq => hpos.ne' (congrArg Subtype.val (LongDouble.finite.inj heq))
      have hdiv : LongDouble.finite ⟨1000, representable_thousand⟩ / .finite p =
          .ofRat (1000 / p) := if_neg hpos.ne'
      rw [if_neg hne, hdiv, ne_eq, Option.map_eq_none_iff, ← ne_eq,
        toUint16_ofRat_ne_none_iff (div_nonneg (by norm_num) hp),
        round_quotient_lt_iff p.property hpos, Convertible, or_iff_right hpos.ne']
  | infinity negative =>
    have hdiv : LongDouble.finite ⟨1000, representable_thousand⟩ / .infinity negative =
        .ofRat 0 := rfl
    rw [if_neg LongDouble.noConfusion, hdiv, ne_eq, Option.map_eq_none_iff, ← ne_eq,
      toUint16_ofRat_ne_none_iff (le_refl 0), FloatFormat.round_zero]
    exact iff_of_true (by norm_num) trivial
  | nan =>
    rw [if_neg LongDouble.noConfusion]
    exact iff_of_false (not_not_intro rfl) id

/-! ## A run -/

/-- No method computes a negative rate. -/
theorem toPacketRate_lt_zero (config : Config) (newBytesPerSecond : LongDouble) :
    (toPacketRate config newBytesPerSecond).lt (.ofRat 0) = false := by
  rw [toPacketRate]
  split_ifs with h
  · exact LongDouble.ofRat_lt_zero (le_refl 0)
  · exact LongDouble.div_lt_zero (Bool.eq_false_of_not_eq_true h)
      (LongDouble.ofRat_lt_zero (Nat.cast_nonneg _))

theorem method_lt_zero {client : Client} {method : CongestionControlMethod}
    (h : method ∈ client.congestionControlMethods) (packetsPerSecond : LongDouble) (config : Config)
    (queue : Queue) : (method packetsPerSecond config queue).lt (.ofRat 0) = false := by
  have hmem : method ∈ Client.congestionControlMethods .v2 := by
    cases client with
    | v1 => exact List.mem_append_left [_] h
    | v2 => exact h
  rcases List.mem_cons.mp hmem with rfl | hmem
  · exact toPacketRate_lt_zero config _
  rcases List.mem_cons.mp hmem with rfl | hmem
  · exact toPacketRate_lt_zero config _
  rw [List.mem_singleton.mp hmem]
  exact toPacketRate_lt_zero config _

/-- **One answer.** -/
theorem sendFeedback_ne_none_iff {client : Client} {method : CongestionControlMethod}
    (h : method ∈ client.congestionControlMethods) (config : Config)
    (packetsPerSecond : LongDouble) (queue : Queue) :
    sendFeedback method config packetsPerSecond queue ≠ none ↔
      Convertible (method packetsPerSecond config queue) := by
  rw [← toPspacingMs_ne_none_iff (method_lt_zero h packetsPerSecond config queue), sendFeedback,
    ne_eq, Option.map_eq_none_iff]

/-- **The answers of a run.** For all states of the queue: every answer is defined if and only if
every rate can be converted. -/
theorem feedbacks_ne_none_iff {client : Client} {method : CongestionControlMethod}
    (h : method ∈ client.congestionControlMethods) (config : Config)
    (packetsPerSecond : LongDouble) (queues : List Queue) :
    feedbacks method config packetsPerSecond queues ≠ none ↔
      ∀ rate ∈ packetRates method config packetsPerSecond queues, Convertible rate := by
  induction queues generalizing packetsPerSecond with
  | nil => exact iff_of_true (Option.some_ne_none _) fun rate hrate => absurd hrate List.not_mem_nil
  | cons queue queues ih =>
    have hanswer := sendFeedback_ne_none_iff h config packetsPerSecond queue
    rw [feedbacks, packetRates, List.forall_mem_cons, ← hanswer, ← ih]
    cases hsend : sendFeedback method config packetsPerSecond queue with
    | none => exact iff_of_false (not_not_intro rfl) fun hboth => hboth.1 rfl
    | some answer =>
      obtain ⟨interval, -, rfl⟩ := Option.map_eq_some_iff.mp hsend
      rw [Option.bind_some, ne_eq, Option.map_eq_none_iff,
        and_iff_right (Option.some_ne_none _)]

end CS536Labs.Lab5.AudioClient
