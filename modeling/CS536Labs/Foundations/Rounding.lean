import Mathlib.Algebra.Order.Field.Power
import Mathlib.Data.Int.Log
import Mathlib.Data.Rat.Floor
import Mathlib.Tactic.FieldSimp
import Mathlib.Tactic.Linarith
import Mathlib.Tactic.NormNum
import Mathlib.Tactic.Positivity

/-!
# Rounding to a binary format

A format has the numbers `n * 2 ^ e` with a limited number of binary digits in `n` and a least
exponent `e`, below a bound. `round` rounds to the nearest of them, and in the middle between two to
the one with the even `n`.

* `representable_round`: what is rounded belongs to the format, unless it reaches the bound.
* `round_eq_zero_iff`, `round_eq_one_iff`: the numbers that are rounded to zero and to one.
* `Representable.round_add_eq_zero_iff`: a sum is rounded to zero only if it is zero.
-/

namespace CS536Labs

/-- The nearest integer, and the even one in the middle between two. -/
def roundEven (q : ℚ) : ℤ :=
  if q - ⌊q⌋ < 1 / 2 ∨ (q - ⌊q⌋ = 1 / 2 ∧ ⌊q⌋ % 2 = 0) then ⌊q⌋ else ⌊q⌋ + 1

theorem abs_sub_roundEven_le (q : ℚ) : |q - roundEven q| ≤ 1 / 2 := by
  have hfloor := Int.floor_le q
  have hlt := Int.lt_floor_add_one q
  rw [roundEven, abs_le]
  split_ifs with h
  · have hhalf : q - ⌊q⌋ ≤ 1 / 2 := h.elim le_of_lt fun h => h.1.le
    constructor <;> linarith
  · have hhalf : 1 / 2 ≤ q - ⌊q⌋ := not_lt.mp fun hlt => h (.inl hlt)
    push_cast
    constructor <;> linarith

/-- **The nearest integer.** -/
theorem roundEven_eq_iff (q : ℚ) (n : ℤ) :
    roundEven q = n ↔ |q - n| < 1 / 2 ∨ (|q - n| = 1 / 2 ∧ n % 2 = 0) := by
  have hfloor := Int.floor_le q
  have hlt := Int.lt_floor_add_one q
  constructor
  · rintro rfl
    rcases lt_or_eq_of_le (abs_sub_roundEven_le q) with h | h
    · exact .inl h
    · refine .inr ⟨h, ?_⟩
      revert h
      rw [roundEven]
      split_ifs with hdown
      · intro h
        rw [abs_of_nonneg (sub_nonneg.mpr hfloor)] at h
        exact (hdown.resolve_left h.not_lt).2
      · intro h
        push_cast at h
        rw [abs_of_nonpos (by linarith)] at h
        have heven : ⌊q⌋ % 2 ≠ 0 := fun heven => hdown (.inr ⟨by linarith, heven⟩)
        omega
  · intro h
    have hle : |q - n| ≤ 1 / 2 := h.elim le_of_lt fun h => h.1.le
    obtain ⟨hlow, hhigh⟩ := abs_le.mp hle
    have hn : ⌊q⌋ ≤ n := by
      have : (⌊q⌋ : ℚ) < (n + 1 : ℤ) := by push_cast; linarith
      exact Int.lt_add_one_iff.mp (Int.cast_lt.mp this)
    have hn' : n ≤ ⌊q⌋ + 1 := by
      have : (n : ℚ) < (⌊q⌋ + 2 : ℤ) := by push_cast; linarith
      have := Int.cast_lt.mp this
      omega
    rw [roundEven]
    rcases (by omega : n = ⌊q⌋ ∨ n = ⌊q⌋ + 1) with rfl | rfl
    · rw [abs_of_nonneg (sub_nonneg.mpr hfloor)] at h
      exact if_pos h
    · push_cast at h
      rw [abs_of_nonpos (by linarith)] at h
      rw [if_neg]
      rintro (hdown | ⟨hdown, heven⟩)
      · rcases h with h | h <;> linarith [h]
      · rcases h with h | ⟨-, hodd⟩
        · linarith
        · omega

theorem roundEven_intCast (n : ℤ) : roundEven n = n := by
  rw [roundEven_eq_iff, sub_self, abs_zero]
  exact .inl (by norm_num)

theorem roundEven_neg (q : ℚ) : roundEven (-q) = -roundEven q := by
  have h := (roundEven_eq_iff q (roundEven q)).mp rfl
  have habs : |-q - ((-roundEven q : ℤ) : ℚ)| = |q - roundEven q| := by
    rw [← abs_neg]
    push_cast
    congr 1
    ring
  rw [roundEven_eq_iff, habs]
  exact h.imp_right fun h => ⟨h.1, by omega⟩

/-- Rounding does not cross an integer. -/
theorem le_roundEven {q : ℚ} {n : ℤ} (h : (n : ℚ) ≤ q) : n ≤ roundEven q := by
  have hle := (abs_le.mp (abs_sub_roundEven_le q)).2
  have : ((n - 1 : ℤ) : ℚ) < roundEven q := by
    push_cast
    linarith
  have := Int.cast_lt.mp this
  omega

theorem abs_roundEven_le {q : ℚ} {n : ℤ} (h : |q| ≤ n) : |roundEven q| ≤ n := by
  obtain ⟨hlow, hhigh⟩ := abs_le.mp h
  rw [abs_le]
  constructor
  · exact le_roundEven (by push_cast; exact hlow)
  · have hneg := le_roundEven (q := -q) (n := -n) (by push_cast; linarith)
    rw [roundEven_neg] at hneg
    omega

/-! ## Formats -/

/-- A binary floating-point format: the binary digits of a number, the exponent of the last digit
of the smallest numbers, and the exponent of the bound. -/
structure FloatFormat where
  precision : ℕ
  minExponent : ℤ
  maxExponent : ℤ
  precision_pos : 0 < precision

namespace FloatFormat

variable (f : FloatFormat)

/-- The exponent of the last digit that numbers of this size have. -/
def lastPlace (q : ℚ) : ℤ := max (Int.log 2 |q| + 1 - f.precision) f.minExponent

/-- The nearest number of the format, if there were no bound. -/
def round (q : ℚ) : ℚ := roundEven (q / 2 ^ f.lastPlace q) * 2 ^ f.lastPlace q

/-- The numbers of the format. -/
def Representable (q : ℚ) : Prop := f.round q = q ∧ |q| < 2 ^ f.maxExponent

instance (q : ℚ) : Decidable (f.Representable q) := inferInstanceAs (Decidable (_ ∧ _))

variable {f}

theorem two_zpow_pos (e : ℤ) : (0 : ℚ) < 2 ^ e := zpow_pos (by norm_num) e

theorem two_zpow_ne_zero (e : ℤ) : (2 : ℚ) ^ e ≠ 0 := (two_zpow_pos e).ne'

theorem two_zpow_add (d e : ℤ) : (2 : ℚ) ^ (d + e) = 2 ^ d * 2 ^ e := zpow_add₀ (by norm_num) d e

theorem two_zpow_le {d e : ℤ} (h : d ≤ e) : (2 : ℚ) ^ d ≤ 2 ^ e :=
  zpow_le_zpow_right₀ (by norm_num) h

@[simp] theorem round_zero : f.round 0 = 0 := by
  rw [round, zero_div, ← Int.cast_zero, roundEven_intCast, Int.cast_zero, zero_mul]

theorem round_neg (q : ℚ) : f.round (-q) = -f.round q := by
  rw [round, round, lastPlace, lastPlace, abs_neg, neg_div, roundEven_neg, Int.cast_neg, neg_mul]

theorem minExponent_le_lastPlace (q : ℚ) : f.minExponent ≤ f.lastPlace q := le_max_right _ _

theorem abs_lt_two_zpow (q : ℚ) : |q| < 2 ^ (f.lastPlace q + f.precision) := by
  have hlog : |q| < 2 ^ (Int.log 2 |q| + 1) := Int.lt_zpow_succ_log_self one_lt_two |q|
  have hplace : Int.log 2 |q| + 1 - f.precision ≤ f.lastPlace q := le_max_left _ _
  exact hlog.trans_le (two_zpow_le (by omega))

/-- Above the smallest numbers, all digits are used. -/
theorem two_zpow_le_abs {q : ℚ} (hq : q ≠ 0) (h : f.minExponent < f.lastPlace q) :
    (2 : ℚ) ^ (f.lastPlace q + f.precision - 1) ≤ |q| := by
  have hlog : (2 : ℚ) ^ Int.log 2 |q| ≤ |q| := Int.zpow_log_le_self one_lt_two (abs_pos.mpr hq)
  have hplace : f.lastPlace q = Int.log 2 |q| + 1 - f.precision :=
    (max_choice _ _).resolve_right h.ne'
  rw [hplace]
  exact (two_zpow_le (by omega)).trans hlog

theorem lastPlace_le {q : ℚ} (hq : q ≠ 0) {e : ℤ} (he : f.minExponent ≤ e)
    (h : |q| < 2 ^ (e + f.precision)) : f.lastPlace q ≤ e := by
  have hlog : Int.log 2 |q| < e + f.precision :=
    (Int.lt_zpow_iff_log_lt one_lt_two (abs_pos.mpr hq)).mp h
  exact max_le (by omega) he

/-- A number that ends at the last place or before it is not changed. -/
theorem round_eq_self {q : ℚ} {n e : ℤ} (hq : q = n * 2 ^ e) (h : f.lastPlace q ≤ e) :
    f.round q = q := by
  obtain ⟨k, hk⟩ := Int.le.dest h
  have hint : q / 2 ^ f.lastPlace q = ((n * 2 ^ k : ℤ) : ℚ) := by
    rw [div_eq_iff (two_zpow_ne_zero _)]
    conv_lhs => rw [hq]
    rw [← hk, two_zpow_add, zpow_natCast]
    push_cast
    ring
  rw [round, hint, roundEven_intCast, ← hint, div_mul_cancel₀ _ (two_zpow_ne_zero _)]

/-- **What is rounded needs no more rounding.** -/
theorem round_round (q : ℚ) : f.round (f.round q) = f.round q := by
  rcases eq_or_ne (f.round q) 0 with hzero | hne
  · rw [hzero, round_zero]
  have hmin := f.minExponent_le_lastPlace q
  obtain ⟨n, hn⟩ : ∃ n, roundEven (q / 2 ^ f.lastPlace q) = n := ⟨_, rfl⟩
  have hround : f.round q = n * 2 ^ f.lastPlace q := by rw [round, hn]
  have habs : |f.round q| = |(n : ℚ)| * 2 ^ f.lastPlace q := by
    rw [hround, abs_mul, abs_of_pos (two_zpow_pos _)]
  have hle : |n| ≤ 2 ^ f.precision := by
    rw [← hn]
    apply abs_roundEven_le
    have hlt := f.abs_lt_two_zpow q
    rw [add_comm, two_zpow_add, zpow_natCast] at hlt
    rw [abs_div, abs_of_pos (two_zpow_pos _), div_le_iff₀ (two_zpow_pos _)]
    push_cast
    exact hlt.le
  rcases lt_or_eq_of_le hle with hlt | heq
  · apply round_eq_self hround (lastPlace_le hne hmin _)
    have hlt' : |(n : ℚ)| < 2 ^ f.precision := by exact_mod_cast hlt
    rw [habs, add_comm, two_zpow_add, zpow_natCast]
    exact mul_lt_mul_of_pos_right hlt' (two_zpow_pos _)
  · -- one digit more, and the last one is zero
    have heven : ∃ m, n = m * 2 := by
      have hdvd : (2 : ℤ) ∣ |n| := heq ▸ dvd_pow_self 2 f.precision_pos.ne'
      obtain ⟨m, hm⟩ := (dvd_abs 2 n).mp hdvd
      exact ⟨m, by rw [hm, mul_comm]⟩
    obtain ⟨m, hm⟩ := heven
    have hround' : f.round q = m * 2 ^ (f.lastPlace q + 1) := by
      rw [hround, two_zpow_add, hm]
      push_cast
      ring
    apply round_eq_self hround' (lastPlace_le hne (by omega) _)
    have heq' : |(n : ℚ)| = 2 ^ f.precision := by exact_mod_cast heq
    rw [habs, heq', ← zpow_natCast, ← two_zpow_add]
    exact zpow_lt_zpow_right₀ (by norm_num) (by omega)

theorem representable_round {q : ℚ} (h : |f.round q| < 2 ^ f.maxExponent) :
    f.Representable (f.round q) := ⟨f.round_round q, h⟩

/-! ## Bounds -/

theorem round_nonneg {q : ℚ} (h : 0 ≤ q) : 0 ≤ f.round q := by
  have hround : 0 ≤ roundEven (q / 2 ^ f.lastPlace q) :=
    le_roundEven (by rw [Int.cast_zero]; exact div_nonneg h (two_zpow_pos _).le)
  exact mul_nonneg (Int.cast_nonneg hround) (two_zpow_pos _).le

/-- Rounding does not cross a power of two. -/
theorem two_zpow_le_round {q : ℚ} {e : ℤ} (he : f.minExponent ≤ e) (h : (2 : ℚ) ^ e ≤ q) :
    (2 : ℚ) ^ e ≤ f.round q := by
  have hpos : 0 < q := (two_zpow_pos e).trans_le h
  -- a power of two between the two that is a number of last places
  obtain ⟨k, hle, hk⟩ : ∃ k : ℕ, e ≤ f.lastPlace q + k ∧ (2 : ℚ) ^ (f.lastPlace q + k) ≤ q := by
    rcases le_or_gt (f.lastPlace q) e with hplace | hplace
    · obtain ⟨k, hk⟩ := Int.le.dest hplace
      exact ⟨k, hk.ge, by rw [hk]; exact h⟩
    · have hprecision := f.precision_pos
      have hlarge := two_zpow_le_abs hpos.ne' (he.trans_lt hplace)
      rw [abs_of_pos hpos] at hlarge
      exact ⟨f.precision - 1, by omega, (two_zpow_le (by omega)).trans hlarge⟩
  have hround : (2 : ℤ) ^ k ≤ roundEven (q / 2 ^ f.lastPlace q) := by
    apply le_roundEven
    rw [le_div_iff₀ (two_zpow_pos _)]
    rw [add_comm, two_zpow_add, zpow_natCast] at hk
    push_cast
    exact hk
  refine (two_zpow_le hle).trans ?_
  rw [add_comm, two_zpow_add, zpow_natCast, round]
  exact mul_le_mul_of_nonneg_right (by exact_mod_cast hround) (two_zpow_pos _).le

/-! ## Small numbers, and one -/

theorem abs_div_two_zpow_sub (q : ℚ) (n e : ℤ) :
    |q / 2 ^ e - n| = |q - n * 2 ^ e| / 2 ^ e := by
  have hpos := two_zpow_pos e
  rw [← abs_of_pos hpos, ← abs_div, abs_of_pos hpos, sub_div, mul_div_cancel_right₀ _ hpos.ne']

theorem two_zpow_sub_one (e : ℤ) : (2 : ℚ) ^ (e - 1) = 1 / 2 * 2 ^ e := by
  rw [zpow_sub_one₀ (by norm_num)]
  ring

theorem abs_sub_round_le (q : ℚ) : |q - f.round q| ≤ 2 ^ (f.lastPlace q - 1) := by
  have hhalf := abs_sub_roundEven_le (q / 2 ^ f.lastPlace q)
  rw [abs_div_two_zpow_sub, div_le_iff₀ (two_zpow_pos _), ← two_zpow_sub_one] at hhalf
  exact hhalf

/-- A number is rounded to an even number of last places that is near enough. -/
theorem round_eq_of_even {q : ℚ} {n e : ℤ} (he : f.lastPlace q = e) (hn : n % 2 = 0)
    (h : |q - n * 2 ^ e| ≤ 2 ^ (e - 1)) : f.round q = n * 2 ^ e := by
  have hround : roundEven (q / 2 ^ e) = n := by
    rw [roundEven_eq_iff, abs_div_two_zpow_sub]
    rw [two_zpow_sub_one, ← div_le_iff₀ (two_zpow_pos e)] at h
    exact (lt_or_eq_of_le h).imp_right fun heq => ⟨heq, hn⟩
  rw [round, he, hround]

/-- **The numbers that are rounded to zero.** -/
theorem round_eq_zero_iff (q : ℚ) : f.round q = 0 ↔ |q| ≤ 2 ^ (f.minExponent - 1) := by
  have hmin := f.minExponent_le_lastPlace q
  constructor
  · intro hzero
    have hnear := f.abs_sub_round_le q
    rw [hzero, sub_zero] at hnear
    rcases eq_or_ne q 0 with rfl | hq
    · rw [abs_zero]
      exact (two_zpow_pos _).le
    rcases hmin.eq_or_lt with heq | hlt
    · rw [heq]
      exact hnear
    · have hbig := (two_zpow_le_abs hq hlt).trans hnear
      have hprecision := f.precision_pos
      have := (zpow_le_zpow_iff_right₀ (by norm_num : (1 : ℚ) < 2)).mp hbig
      omega
  · intro hsmall
    have hround := f.round_eq_of_even (q := q) (n := 0) rfl rfl (by
      rw [Int.cast_zero, zero_mul, sub_zero]
      exact hsmall.trans (two_zpow_le (by omega)))
    rw [hround, Int.cast_zero, zero_mul]

/-- A number of the format is a multiple of its last place, and of every place behind it. -/
theorem Representable.exists_mul {q : ℚ} (h : f.Representable q) {e : ℤ} (he : e ≤ f.lastPlace q) :
    ∃ n : ℤ, q = n * 2 ^ e := by
  obtain ⟨k, hk⟩ := Int.le.dest he
  have hq := h.1
  rw [round] at hq
  generalize roundEven (q / 2 ^ f.lastPlace q) = n at hq
  refine ⟨n * 2 ^ k, ?_⟩
  rw [← hq, ← hk, two_zpow_add, zpow_natCast]
  push_cast
  ring

/-- **A sum is rounded to zero only if it is zero.** -/
theorem Representable.round_add_eq_zero_iff {p q : ℚ} (hp : f.Representable p)
    (hq : f.Representable q) : f.round (p + q) = 0 ↔ p + q = 0 := by
  obtain ⟨m, hm⟩ := hp.exists_mul (f.minExponent_le_lastPlace p)
  obtain ⟨n, hn⟩ := hq.exists_mul (f.minExponent_le_lastPlace q)
  have hsum : p + q = (m + n : ℤ) * 2 ^ f.minExponent := by
    rw [hm, hn]
    push_cast
    ring
  constructor
  · intro hzero
    rw [round_eq_zero_iff, hsum, abs_mul, abs_of_pos (two_zpow_pos _), two_zpow_sub_one] at hzero
    have hhalf := le_of_mul_le_mul_right hzero (two_zpow_pos _)
    have hlt : |m + n| < 1 := by
      have : ((|m + n| : ℤ) : ℚ) < (1 : ℤ) := by
        push_cast at hhalf ⊢
        linarith
      exact Int.cast_lt.mp this
    rw [hsum, Int.abs_lt_one_iff.mp hlt, Int.cast_zero, zero_mul]
  · intro hzero
    rw [hzero, round_zero]

theorem lastPlace_eq {q : ℚ} {e : ℤ} (he : f.minExponent ≤ e)
    (hlow : (2 : ℚ) ^ (e + f.precision - 1) ≤ |q|) (hhigh : |q| < 2 ^ (e + f.precision)) :
    f.lastPlace q = e := by
  have hpos : 0 < |q| := (two_zpow_pos _).trans_le hlow
  have hlog : e + f.precision - 1 ≤ Int.log 2 |q| :=
    (Int.zpow_le_iff_le_log one_lt_two hpos).mp hlow
  have hplace : Int.log 2 |q| + 1 - f.precision ≤ f.lastPlace q := le_max_left _ _
  exact le_antisymm (lastPlace_le (abs_pos.mp hpos) he hhigh) (by omega)

/-- The numbers that are rounded to one are near to it. -/
theorem near_one_of_round_eq_one (hprecision : 2 ≤ f.precision)
    (hmin : f.minExponent ≤ -f.precision) {q : ℚ} (h : f.round q = 1) :
    1 - 2 ^ (-f.precision - 1 : ℤ) ≤ q ∧ q ≤ 1 + 2 ^ (-f.precision : ℤ) := by
  have hnear := f.abs_sub_round_le q
  rw [h] at hnear
  obtain ⟨hlow, hhigh⟩ := abs_le.mp hnear
  have hne : q ≠ 0 := by
    rintro rfl
    rw [round_zero] at h
    exact zero_ne_one h
  have hcoarse : (2 : ℚ) ^ (-f.precision - 1 : ℤ) ≤ 2 ^ (-f.precision : ℤ) :=
    two_zpow_le (by omega)
  rcases le_or_gt (f.lastPlace q) (-f.precision) with hfine | hbig
  · have hplace : (2 : ℚ) ^ (f.lastPlace q - 1) ≤ 2 ^ (-f.precision - 1 : ℤ) :=
      two_zpow_le (by omega)
    constructor <;> linarith
  · -- the number has all its digits, and is one or greater
    have habs := two_zpow_le_abs hne (hmin.trans_lt hbig)
    have hone : (1 : ℚ) ≤ 2 ^ (f.lastPlace q + f.precision - 1) := by
      rw [← zpow_zero (2 : ℚ)]
      exact two_zpow_le (by omega)
    have hstep : (2 : ℚ) ^ (f.lastPlace q - 1) < 2 ^ (f.lastPlace q + f.precision - 1) :=
      zpow_lt_zpow_right₀ (by norm_num) (by omega)
    have hpos : 0 < q := by
      by_contra hneg
      rw [abs_of_nonpos (not_lt.mp hneg)] at habs
      linarith
    rw [abs_of_pos hpos] at habs
    have hsmall := two_zpow_pos (-f.precision - 1 : ℤ)
    refine ⟨by linarith, ?_⟩
    rcases le_or_gt (f.lastPlace q) (1 - f.precision) with hlast | hlarge
    · have hplace : (2 : ℚ) ^ (f.lastPlace q - 1) ≤ 2 ^ (-f.precision : ℤ) :=
        two_zpow_le (by omega)
      linarith
    · -- so large a number is not rounded to one
      have htwo : (2 : ℚ) ^ (1 : ℤ) ≤ 2 ^ (f.lastPlace q + f.precision - 1) :=
        two_zpow_le (by omega)
      have hquarter : (2 : ℚ) ^ (f.lastPlace q - 1) ≤
          2 ^ (-2 : ℤ) * 2 ^ (f.lastPlace q + f.precision - 1) := by
        rw [← two_zpow_add]
        exact two_zpow_le (by omega)
      norm_num at htwo hquarter
      linarith

/-- One is an even number of last places, below it and above it. -/
theorem round_eq_one_of_near {q : ℚ} {e : ℤ} {k : ℕ} (hk : 0 < k) (he : e + k = 0)
    (hplace : f.lastPlace q = e) (hnear : |q - 1| ≤ 2 ^ (e - 1)) : f.round q = 1 := by
  have hunit : ((2 ^ k : ℤ) : ℚ) * 2 ^ e = 1 := by
    push_cast
    rw [← zpow_natCast, ← two_zpow_add, add_comm, he, zpow_zero]
  have heven : (2 ^ k : ℤ) % 2 = 0 := Int.emod_eq_zero_of_dvd (dvd_pow_self 2 hk.ne')
  have hround := f.round_eq_of_even hplace heven (by rw [hunit]; exact hnear)
  rw [hround, hunit]

/-- **The numbers that are rounded to one.** -/
theorem round_eq_one_iff (hprecision : 2 ≤ f.precision) (hmin : f.minExponent ≤ -f.precision)
    (q : ℚ) :
    f.round q = 1 ↔ 1 - 2 ^ (-f.precision - 1 : ℤ) ≤ q ∧ q ≤ 1 + 2 ^ (-f.precision : ℤ) := by
  refine ⟨near_one_of_round_eq_one hprecision hmin, fun ⟨hlow, hhigh⟩ => ?_⟩
  have hquarter : (2 : ℚ) ^ (-f.precision : ℤ) ≤ 1 / 4 :=
    (two_zpow_le (by omega : (-f.precision : ℤ) ≤ -2)).trans_eq (by norm_num)
  have hcoarse : (2 : ℚ) ^ (-f.precision - 1 : ℤ) ≤ 2 ^ (-f.precision : ℤ) :=
    two_zpow_le (by omega)
  have hpos : 0 < q := by linarith
  rcases lt_or_ge q 1 with hlt | hge
  · apply round_eq_one_of_near (e := -f.precision) f.precision_pos (by omega)
    · apply lastPlace_eq hmin
      · rw [abs_of_pos hpos, show -(f.precision : ℤ) + f.precision - 1 = -1 by omega]
        norm_num
        linarith
      · rw [abs_of_pos hpos, show -(f.precision : ℤ) + f.precision = 0 by omega]
        exact hlt
    · rw [abs_of_neg (by linarith)]
      linarith
  · apply round_eq_one_of_near (e := 1 - f.precision) (k := f.precision - 1) (by omega) (by omega)
    · apply lastPlace_eq (by omega)
      · rw [abs_of_pos hpos, show 1 - (f.precision : ℤ) + f.precision - 1 = 0 by omega]
        exact hge
      · rw [abs_of_pos hpos, show 1 - (f.precision : ℤ) + f.precision = 1 by omega]
        norm_num
        linarith
    · rw [abs_of_nonneg (by linarith), show 1 - (f.precision : ℤ) - 1 = -f.precision by omega]
      linarith

end FloatFormat

end CS536Labs
