import Mathlib.Logic.Function.Basic
import Mathlib.Data.List.Basic

/-!
# Ring buffers with one spare slot

A ring of `size` cells with a read index `tail` and a write index `head` holds the elements of
the cells from `tail` up to `head`, indices modulo `size`. One cell stays free, so that
`head = tail` says empty and not full. `RingBuffer.Holds` is the representation relation between
the ring and the list it stands for.

* `Holds.push` and `Holds.pop` are the two index updates; `Holds.store` is the first half of a
  push, the store into the free cell at `head`, before `head` moves.
* `Holds.head_eq_tail_iff` and `Holds.next_head_eq_tail_iff` are the tests for empty and full.
* `Holds.sub_eq_length` and `Holds.add_sub_eq_length` compute the number of elements from the
  indices.
-/

namespace CS536Labs.RingBuffer

variable {α : Type*}

/-- The ring with these indices and cells holds the list `l`. -/
structure Holds (size tail head : ℕ) (cells : ℕ → α) (l : List α) : Prop where
  tail_lt : tail < size
  length_lt : l.length < size
  head_eq : head = (tail + l.length) % size
  cell : ∀ i (h : i < l.length), cells ((tail + i) % size) = l[i]

/-- An index at most once around the ring. -/
theorem index_eq {size tail i : ℕ} (ht : tail < size) (hi : i ≤ size) :
    (tail + i) % size = if tail + i < size then tail + i else tail + i - size := by
  split_ifs with h
  · exact Nat.mod_eq_of_lt h
  · rw [Nat.mod_eq_sub_mod (by omega), Nat.mod_eq_of_lt (by omega)]

theorem index_ne {size tail i j : ℕ} (ht : tail < size) (hij : i < j) (hj : j < size) :
    (tail + i) % size ≠ (tail + j) % size := by
  rw [index_eq ht (by omega), index_eq ht (by omega)]
  split_ifs <;> omega

namespace Holds

variable {size tail head : ℕ} {cells : ℕ → α} {l : List α}

theorem empty (cells : ℕ → α) (ht : tail < size) : Holds size tail tail cells [] where
  tail_lt := ht
  length_lt := by simp; omega
  head_eq := by simp [Nat.mod_eq_of_lt ht]
  cell i h := by simp at h

theorem size_pos (h : Holds size tail head cells l) : 0 < size := by
  have := h.tail_lt
  omega

theorem head_lt (h : Holds size tail head cells l) : head < size := by
  rw [h.head_eq]
  exact Nat.mod_lt _ h.size_pos

theorem head_eq_ite (h : Holds size tail head cells l) :
    head = if tail + l.length < size then tail + l.length else tail + l.length - size := by
  rw [h.head_eq, index_eq h.tail_lt (Nat.le_of_lt h.length_lt)]

theorem next_head_eq (h : Holds size tail head cells l) :
    (head + 1) % size = (tail + (l.length + 1)) % size := by
  rw [h.head_eq, Nat.mod_add_mod, Nat.add_assoc]

/-- The ring is empty exactly when the indices agree. -/
theorem head_eq_tail_iff (h : Holds size tail head cells l) : head = tail ↔ l = [] := by
  have h1 := h.head_eq_ite
  have h2 := h.length_lt
  have h3 := h.tail_lt
  rw [← List.length_eq_zero_iff]
  split_ifs at h1 <;> omega

/-- The ring is full, with one spare cell, exactly when `head` is right behind `tail`. -/
theorem next_head_eq_tail_iff (h : Holds size tail head cells l) :
    (head + 1) % size = tail ↔ l.length + 1 = size := by
  have h2 := h.length_lt
  have h3 := h.tail_lt
  rw [h.next_head_eq, index_eq h3 (by omega)]
  split_ifs <;> omega

theorem sub_eq_length (h : Holds size tail head cells l) (hle : tail ≤ head) :
    head - tail = l.length := by
  have h1 := h.head_eq_ite
  have h2 := h.length_lt
  have h3 := h.tail_lt
  split_ifs at h1 <;> omega

theorem add_sub_eq_length (h : Holds size tail head cells l) (hlt : head < tail) :
    size + head - tail = l.length := by
  have h1 := h.head_eq_ite
  have h2 := h.length_lt
  have h3 := h.tail_lt
  split_ifs at h1 <;> omega

/-- The cell at `head` is free: a store there changes nothing the ring holds. -/
theorem store (h : Holds size tail head cells l) (a : α) :
    Holds size tail head (Function.update cells head a) l where
  tail_lt := h.tail_lt
  length_lt := h.length_lt
  head_eq := h.head_eq
  cell i hi := by
    have hne : (tail + i) % size ≠ head := by
      rw [h.head_eq]
      exact index_ne h.tail_lt hi h.length_lt
    rw [Function.update_of_ne hne, h.cell i hi]

/-- Moving `head` over a stored element appends it. -/
theorem advance (h : Holds size tail head cells l) (hfree : l.length + 1 < size) :
    Holds size tail ((head + 1) % size) cells (l ++ [cells head]) where
  tail_lt := h.tail_lt
  length_lt := by simpa using hfree
  head_eq := by simpa using h.next_head_eq
  cell i hi := by
    rcases Nat.lt_or_ge i l.length with hlt | hge
    · rw [h.cell i hlt, List.getElem_append_left hlt]
    · obtain rfl : i = l.length := by
        simp only [List.length_append, List.length_singleton] at hi
        omega
      simp [← h.head_eq]

/-- **Push**: store at `head`, then move `head`. -/
theorem push (h : Holds size tail head cells l) (hfree : l.length + 1 < size) (a : α) :
    Holds size tail ((head + 1) % size) (Function.update cells head a) (l ++ [a]) := by
  simpa using (h.store a).advance hfree

/-- **Pop**: the oldest element is at `tail`, and moving `tail` removes it. -/
theorem pop {a : α} (h : Holds size tail head cells (a :: l)) :
    cells tail = a ∧ Holds size ((tail + 1) % size) head cells l := by
  have hlen := h.length_lt
  simp only [List.length_cons] at hlen
  have hfirst := h.cell 0 (by simp)
  rw [Nat.add_zero, Nat.mod_eq_of_lt h.tail_lt] at hfirst
  refine ⟨hfirst, ?_, by omega, ?_, ?_⟩
  · exact Nat.mod_lt _ h.size_pos
  · rw [h.head_eq, List.length_cons, Nat.mod_add_mod]
    congr 1
    omega
  · intro i hi
    have hc := h.cell (i + 1) (by simpa using hi)
    rw [Nat.mod_add_mod, show tail + 1 + i = tail + (i + 1) by omega, hc]
    simp

end Holds

end CS536Labs.RingBuffer
