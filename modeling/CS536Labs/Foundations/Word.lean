import Mathlib.Data.Int.Basic
import Mathlib.Tactic.Ring

/-!
# `size_t` and `ssize_t` arithmetic

Values of `size_t` are natural numbers below `2 ^ 64`; sums, differences and products wrap around.
A `size_t` converted to `ssize_t` is the integer with the same residue in the signed range.
-/

namespace CS536Labs

/-- `SIZE_MAX`. -/
def sizeMax : ℕ := 2 ^ 64 - 1

/-- `a + b` in `size_t`. -/
def sizeAdd (a b : ℕ) : ℕ := (a + b) % 2 ^ 64

/-- `a - b` in `size_t`. -/
def sizeSub (a b : ℕ) : ℕ := (a + 2 ^ 64 - b) % 2 ^ 64

/-- `a * b` in `size_t`. -/
def sizeMul (a b : ℕ) : ℕ := a * b % 2 ^ 64

/-- A `size_t` returned as `ssize_t`. -/
def toSsize (n : ℕ) : ℤ := if n < 2 ^ 63 then n else (n : ℤ) - 2 ^ 64

theorem sizeAdd_of_le {a b : ℕ} (h : a + b ≤ sizeMax) : sizeAdd a b = a + b := by
  unfold sizeMax at h
  unfold sizeAdd
  omega

theorem sizeSub_of_le {a b : ℕ} (h : b ≤ a) (ha : a ≤ sizeMax) : sizeSub a b = a - b := by
  unfold sizeMax at ha
  unfold sizeSub
  omega

/-- A sum that wraps around is undone by the subtraction after it. -/
theorem sizeSub_sizeAdd {a b c : ℕ} (hc : c ≤ sizeMax) (h : c ≤ a + b)
    (hlt : a + b - c ≤ sizeMax) : sizeSub (sizeAdd a b) c = a + b - c := by
  unfold sizeMax at hc hlt
  unfold sizeSub sizeAdd
  omega

theorem toSsize_of_lt {n : ℕ} (h : n < 2 ^ 63) : toSsize n = n := if_pos h

end CS536Labs
