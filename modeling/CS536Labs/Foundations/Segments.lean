import Mathlib.Data.List.Basic
import Mathlib.Tactic.Ring

/-!
# Segments of a list

Cutting a list into segments of a fixed size, the last one possibly short, and putting it
together again.

* `segment l size i` is the `i`-th segment and `segmentCount size n` the number of segments of a
  list of length `n`; `lt_segmentCount_iff` says which segments are not empty.
* `take_append_segment` adds one segment to what precedes it, and `flatMap_segment` puts the
  segments together.
* `length_segment_of_succ_lt` and `segment_last_full_iff` say which segments are full.
-/

namespace CS536Labs

variable {α β : Type*}

/-- The `i`-th segment of `size` elements. -/
def segment (l : List α) (size i : ℕ) : List α := (l.drop (i * size)).take size

/-- The number of segments of `size` elements in a list of length `n`. -/
def segmentCount (size n : ℕ) : ℕ := (n + size - 1) / size

variable {l : List α} {size i : ℕ}

@[simp] theorem length_segment : (segment l size i).length = min size (l.length - i * size) := by
  simp [segment]

theorem segment_map (f : α → β) : segment (l.map f) size i = (segment l size i).map f := by
  simp [segment, List.map_take, List.map_drop]

theorem take_append_segment : l.take (i * size) ++ segment l size i = l.take ((i + 1) * size) := by
  rw [segment, Nat.succ_mul, List.take_add]

/-- **Reassembly.** -/
theorem flatMap_segment (m : ℕ) :
    (List.range m).flatMap (segment l size) = l.take (m * size) := by
  induction m with
  | zero => simp
  | succ m ih =>
    rw [List.range_succ, List.flatMap_append, ih, List.flatMap_singleton, take_append_segment]

theorem lt_segmentCount_iff {n j : ℕ} (hsize : 0 < size) :
    j < segmentCount size n ↔ j * size < n := by
  rw [segmentCount, Nat.lt_iff_add_one_le, Nat.le_div_iff_mul_le hsize, Nat.succ_mul]
  omega

theorem le_segmentCount_mul {n : ℕ} (hsize : 0 < size) : n ≤ segmentCount size n * size := by
  by_contra hlt
  have := (lt_segmentCount_iff (n := n) (j := segmentCount size n) hsize).mpr (by omega)
  omega

/-- Before the last segment all are full. -/
theorem length_segment_of_succ_lt (hsize : 0 < size) (h : i + 1 < segmentCount size l.length) :
    (segment l size i).length = size := by
  have hlt := (lt_segmentCount_iff hsize).mp h
  rw [Nat.succ_mul] at hlt
  rw [length_segment]
  omega

theorem length_segment_last (hsize : 0 < size) (h : i + 1 = segmentCount size l.length) :
    (segment l size i).length = l.length - i * size := by
  have hle := le_segmentCount_mul (n := l.length) hsize
  rw [← h, Nat.succ_mul] at hle
  rw [length_segment]
  omega

/-- The last segment is full exactly when it ends where the list ends. -/
theorem segment_last_full_iff (hsize : 0 < size) (h : i + 1 = segmentCount size l.length) :
    (segment l size i).length = size ↔ i * size + size = l.length := by
  have hlt := (lt_segmentCount_iff (n := l.length) (j := i) hsize).mp (by omega)
  rw [length_segment_last hsize h]
  omega

theorem segmentCount_of_dvd {m : ℕ} (hsize : 0 < size) : segmentCount size (m * size) = m := by
  have hlt : ∀ j, j < segmentCount size (m * size) ↔ j < m := by
    intro j
    rw [lt_segmentCount_iff hsize]
    exact Nat.mul_lt_mul_right hsize
  have h1 := hlt m
  have h2 := hlt (segmentCount size (m * size))
  omega

theorem segmentCount_le {m n : ℕ} (hsize : 0 < size) (h : n ≤ m * size) :
    segmentCount size n ≤ m := by
  by_contra hlt
  have := (lt_segmentCount_iff (n := n) (j := m) hsize).mp (by omega)
  omega

end CS536Labs
