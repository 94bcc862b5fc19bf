import Mathlib.Algebra.Order.Field.Basic
import Mathlib.Logic.Function.Iterate
import Mathlib.Tactic.Linarith
import Mathlib.Tactic.Ring

/-!
# Clamped affine maps

A control law that scales the distance to a fixed point and cuts negative values off. The cut does
not lead away from a fixed point that is not negative (`abs_clampZero_sub_le`), so that the distance
shrinks by the same factor as without it (`Approaches.iterate`).
-/

namespace CS536Labs

variable {K : Type*} [Field K] [LinearOrder K]

/-- Each application of the map scales the distance to `a` by `k` at most. -/
def Approaches (f : K → K) (a k : K) : Prop := ∀ x, |f x - a| ≤ k * |x - a|

/-- Negative values become zero. -/
def clampZero (x : K) : K := if x < 0 then 0 else x

/-- The clamped affine map with the fixed point `a` and the slope `c`. -/
def clampedStep (a c : K) (x : K) : K := clampZero (a + c * (x - a))

variable {f : K → K} {a k : K}

theorem clampZero_nonneg (x : K) : 0 ≤ clampZero x := by
  rw [clampZero]
  split_ifs with h
  · exact le_refl 0
  · exact not_lt.mp h

/-- What one application establishes, any number of applications keeps. -/
theorem iterate_nonneg (h : ∀ x, 0 ≤ f x) {x : K} (hx : 0 ≤ x) (n : ℕ) : 0 ≤ f^[n] x := by
  cases n with
  | zero => exact hx
  | succ n =>
    rw [Function.iterate_succ_apply']
    exact h _

variable [IsStrictOrderedRing K]

/-- **The clamp is non-expansive** towards a point that it does not move. -/
theorem abs_clampZero_sub_le (ha : 0 ≤ a) (x : K) : |clampZero x - a| ≤ |x - a| := by
  rw [clampZero]
  split_ifs with h
  · have hx : x - a ≤ 0 := by linarith
    rw [abs_of_nonpos hx, zero_sub, abs_neg, abs_of_nonneg ha]
    linarith
  · exact le_refl _

theorem approaches_clampedStep (ha : 0 ≤ a) (c : K) : Approaches (clampedStep a c) a |c| := by
  intro x
  calc |clampZero (a + c * (x - a)) - a| ≤ |a + c * (x - a) - a| := abs_clampZero_sub_le ha _
    _ = |c| * |x - a| := by rw [add_sub_cancel_left, abs_mul]

/-- **The distance after `n` applications**, by induction on them. -/
theorem Approaches.iterate (h : Approaches f a k) (hk : 0 ≤ k) (n : ℕ) :
    Approaches f^[n] a (k ^ n) := by
  intro x
  induction n with
  | zero => rw [Function.iterate_zero_apply, pow_zero, one_mul]
  | succ n ih =>
    rw [Function.iterate_succ_apply']
    calc |f (f^[n] x) - a| ≤ k * |f^[n] x - a| := h _
      _ ≤ k * (k ^ n * |x - a|) := mul_le_mul_of_nonneg_left ih hk
      _ = k ^ (n + 1) * |x - a| := by ring

end CS536Labs
