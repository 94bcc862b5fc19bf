import CS536Labs.Lab5.CongestionControls
import Mathlib.Data.Rat.Floor

/-!
# `lab5/lib/pspacing.c`

The interval between two packets, from the packet rate. `to_pspacing_ms` converts the quotient to
`uint16_t` before it compares it with `MAX_PSPACING_MS`; the conversion of a value out of range is
undefined.

* `pspacing` is the intended interval, and `pspacing_antitone` says that it falls with the rate.
* `pspacingLaw_iff`: the code meets it for the rate 0 and for those above `1000 / 65536`.
-/

namespace CS536Labs.Lab5

/-- `check_packets_per_second`. -/
def checkPacketsPerSecond (packetsPerSecond : ℚ) : ℤ :=
  if packetsPerSecond < 0 ∨ packetsPerSecond > 1000 then -1 else 0

/-- The rates that the server is started with, or that the client computes. -/
inductive RateOccurs : ℚ → Prop
  | accepted {r : ℚ} (h : checkPacketsPerSecond r = 0) : RateOccurs r
  | methedC (r : ℚ) (config : Config) (queue : Queue) :
      RateOccurs (updatePacketRateMethedC r config queue)
  | methedD (r : ℚ) (config : Config) (queue : Queue) :
      RateOccurs (updatePacketRateMethedD r config queue)
  | methedE (r : ℚ) (config : Config) (queue : Queue) :
      RateOccurs (updatePacketRateMethedE r config queue)

/-- `MAX_PSPACING_MS`. -/
def maxPspacingMs : UInt16 := 2000

/-- The conversion to `uint16_t` drops the fraction. Its behaviour is undefined, `none`, when what
is left is out of range. -/
def toUint16 (q : ℚ) : Option UInt16 :=
  let n := if 0 ≤ q then ⌊q⌋ else ⌈q⌉
  if 0 ≤ n ∧ n < 2 ^ 16 then some (UInt16.ofNat n.toNat) else none

def toPspacingMs (packetsPerSecond : ℚ) : Option UInt16 :=
  if packetsPerSecond = 0 then some maxPspacingMs
  else
    (toUint16 (1000 / packetsPerSecond)).map fun packetIntervalMs =>
      if packetIntervalMs > maxPspacingMs then maxPspacingMs else packetIntervalMs

/-- The intended interval. -/
def pspacing (r : ℚ) : ℕ := if r = 0 then 2000 else min 2000 ⌊1000 / r⌋₊

/-- The quotient of the rate can be converted, and the interval is the intended one. -/
structure Spaced (r : ℚ) : Prop where
  representable : r ≠ 0 → toUint16 (1000 / r) ≠ none
  interval : (toPspacingMs r).map UInt16.toNat = some (pspacing r)

/-- The law for two rates of which the second is not lower. -/
structure PspacingLaw (r r' : ℚ) : Prop where
  lower : Spaced r
  upper : Spaced r'
  antitone : ∃ i i', toPspacingMs r = some i ∧ toPspacingMs r' = some i' ∧ i' ≤ i

theorem RateOccurs.nonneg {r : ℚ} (h : RateOccurs r) : 0 ≤ r := by
  cases h with
  | accepted h =>
    rw [checkPacketsPerSecond] at h
    split_ifs at h with hrange
    exact not_lt.mp fun hneg => hrange (.inl hneg)
  | methedC | methedD | methedE => exact toPacketRate_nonneg _ _

/-! ## The intended interval -/

/-- A lower rate has no shorter interval. -/
theorem pspacing_antitone {r r' : ℚ} (hr : 0 ≤ r) (hle : r ≤ r') : pspacing r' ≤ pspacing r := by
  have hmax : ∀ r, pspacing r ≤ 2000 := by
    intro r
    rw [pspacing]
    split_ifs
    · exact Nat.le_refl _
    · exact Nat.min_le_left _ _
  rcases hr.eq_or_lt with rfl | hpos
  · exact hmax r'
  · rw [pspacing, pspacing, if_neg hpos.ne', if_neg (hpos.trans_le hle).ne']
    have hquotient : 1000 / r' ≤ 1000 / r := div_le_div_of_nonneg_left (by norm_num) hpos hle
    exact min_le_min_left 2000 (Nat.floor_mono hquotient)

/-! ## The conversion -/

theorem toUint16_of_nonneg {q : ℚ} (hq : 0 ≤ q) :
    toUint16 q = if q < 65536 then some (UInt16.ofNat ⌊q⌋₊) else none := by
  have hfloor : 0 ≤ ⌊q⌋ ∧ ⌊q⌋ < 2 ^ 16 ↔ q < 65536 := by
    rw [and_iff_right (Int.floor_nonneg.mpr hq), Int.floor_lt]
    norm_num
  rw [toUint16, if_pos hq]
  simp only [hfloor, Int.floor_toNat]

/-- The rates whose quotient is in range. -/
theorem quotient_lt_iff {r : ℚ} (hr : 0 < r) : 1000 / r < 65536 ↔ 1000 / 65536 < r :=
  div_lt_comm₀ hr (by norm_num)

theorem toPspacingMs_of_lt {r : ℚ} (hr : 0 < r) (hlt : 1000 / r < 65536) :
    ∃ i, toPspacingMs r = some i ∧ i.toNat = pspacing r := by
  have hq : 0 ≤ 1000 / r := div_nonneg (by norm_num) hr.le
  have hfloor : ⌊1000 / r⌋₊ < 2 ^ 16 := (Nat.floor_lt hq).mpr (by exact_mod_cast hlt)
  have htoNat := UInt16.toNat_ofNat_of_lt' hfloor
  rw [toPspacingMs, if_neg hr.ne', toUint16_of_nonneg hq, if_pos hlt, pspacing, if_neg hr.ne']
  refine ⟨_, rfl, ?_⟩
  dsimp only
  have hmax : maxPspacingMs.toNat = 2000 := rfl
  have hiff : UInt16.ofNat ⌊1000 / r⌋₊ > maxPspacingMs ↔ 2000 < ⌊1000 / r⌋₊ := by
    rw [gt_iff_lt, UInt16.lt_iff_toNat_lt, htoNat, hmax]
  by_cases hgt : 2000 < ⌊1000 / r⌋₊
  · rw [if_pos (hiff.mpr hgt), hmax, Nat.min_eq_left hgt.le]
  · rw [if_neg (mt hiff.mp hgt), htoNat, Nat.min_eq_right (Nat.le_of_not_lt hgt)]

/-! ## The law -/

/-- **One rate.** -/
theorem spaced_iff {r : ℚ} (hr : 0 ≤ r) : Spaced r ↔ r = 0 ∨ 1000 / 65536 < r := by
  rcases hr.eq_or_lt with rfl | hpos
  · refine iff_of_true ⟨fun h => absurd rfl h, ?_⟩ (.inl rfl)
    rw [toPspacingMs, pspacing, if_pos rfl, if_pos rfl]
    rfl
  · have hq : 0 ≤ 1000 / r := div_nonneg (by norm_num) hr
    rw [or_iff_right hpos.ne', ← quotient_lt_iff hpos]
    constructor
    · intro h
      by_contra hlt
      have hnone := h.representable hpos.ne'
      rw [toUint16_of_nonneg hq, if_neg hlt] at hnone
      exact hnone rfl
    · intro hlt
      obtain ⟨i, hi, htoNat⟩ := toPspacingMs_of_lt hpos hlt
      refine ⟨fun _ => ?_, by rw [hi, Option.map_some, htoNat]⟩
      rw [toUint16_of_nonneg hq, if_pos hlt]
      exact Option.some_ne_none _

/-- **The packet spacing law.** For every rate and every rate that is not lower: both intervals are
the intended ones, from quotients in range, and the lower rate does not have the shorter one, if and
only if each rate is 0 or above `1000 / 65536`. -/
theorem pspacingLaw_iff {r r' : ℚ} (hr : 0 ≤ r) (hle : r ≤ r') :
    PspacingLaw r r' ↔ (r = 0 ∨ 1000 / 65536 < r) ∧ (r' = 0 ∨ 1000 / 65536 < r') := by
  rw [← spaced_iff hr, ← spaced_iff (hr.trans hle)]
  constructor
  · intro h
    exact ⟨h.lower, h.upper⟩
  · rintro ⟨h, h'⟩
    obtain ⟨i, hi, htoNat⟩ := Option.map_eq_some_iff.mp h.interval
    obtain ⟨i', hi', htoNat'⟩ := Option.map_eq_some_iff.mp h'.interval
    refine ⟨h, h', i, i', hi, hi', ?_⟩
    rw [UInt16.le_iff_toNat_le, htoNat, htoNat']
    exact pspacing_antitone hr hle

/-- One packet in a second, and 64. -/
theorem pspacingLaw_one : PspacingLaw 1 64 :=
  (pspacingLaw_iff (by norm_num) (by norm_num)).mpr ⟨.inr (by norm_num), .inr (by norm_num)⟩

/-- The rate 31/2048 is accepted. Its quotient is above 66000 and does not fit. -/
theorem not_pspacingLaw_low :
    checkPacketsPerSecond (31 / 2048) = 0 ∧ toUint16 (1000 / (31 / 2048)) = none ∧
      pspacing (31 / 2048) = 2000 ∧ ¬ PspacingLaw (31 / 2048) (31 / 2048) := by
  have hnone : toUint16 (1000 / (31 / 2048)) = none := by
    rw [toUint16_of_nonneg (by norm_num), if_neg (by norm_num)]
  refine ⟨if_neg (by norm_num), hnone, ?_, fun h => h.lower.representable (by norm_num) hnone⟩
  rw [pspacing, if_neg (by norm_num), Nat.min_eq_left]
  exact Nat.le_floor (by norm_num)

end CS536Labs.Lab5
