import Mathlib.Data.List.Basic

/-!
# Bounded first-in first-out queues

The abstract queue with all-or-nothing operations: a write appends all its elements when they fit
in the capacity and is refused otherwise, a read delivers the oldest elements when that many are
held and is refused otherwise. A refused operation changes nothing.

`run_conserves` is the conservation law over whole histories: what the writes put in is what the
reads took out followed by what is still held.
-/

namespace CS536Labs.Fifo

variable {α : Type*}

/-- An operation on the queue. -/
inductive Op (α : Type*)
  | write (xs : List α)
  | read (n : ℕ)

/-- The outcome of an operation: done, with the elements it delivers, or refused. -/
inductive Outcome (α : Type*)
  | done (xs : List α)
  | refused

/-- One operation on a queue of the given capacity that holds `buf`. -/
def step (capacity : ℕ) (buf : List α) : Op α → List α × Outcome α
  | .write xs =>
    if buf.length + xs.length ≤ capacity then (buf ++ xs, .done []) else (buf, .refused)
  | .read n => if n ≤ buf.length then (buf.drop n, .done (buf.take n)) else (buf, .refused)

/-- A history: the queue at its end, and the outcome of every operation. -/
def run (capacity : ℕ) : List α → List (Op α) → List α × List (Op α × Outcome α)
  | buf, [] => (buf, [])
  | buf, op :: ops =>
    let s := step capacity buf op
    let r := run capacity s.1 ops
    (r.1, (op, s.2) :: r.2)

/-- What an operation put into the queue. -/
def accepted : Op α × Outcome α → List α
  | (.write xs, .done _) => xs
  | _ => []

/-- What an operation took out of the queue. -/
def taken : Op α × Outcome α → List α
  | (.read _, .done xs) => xs
  | _ => []

theorem step_length_le {capacity : ℕ} {buf : List α} (h : buf.length ≤ capacity) (op : Op α) :
    (step capacity buf op).1.length ≤ capacity := by
  cases op with
  | write xs =>
    simp only [step]
    split_ifs with hfit
    · simpa using hfit
    · exact h
  | read n =>
    simp only [step]
    split_ifs
    · simp only [List.length_drop]
      omega
    · exact h

theorem run_length_le {capacity : ℕ} {buf : List α} (h : buf.length ≤ capacity)
    (ops : List (Op α)) : (run capacity buf ops).1.length ≤ capacity := by
  induction ops generalizing buf with
  | nil => exact h
  | cons op ops ih => exact ih (step_length_le h op)

theorem step_conserves (capacity : ℕ) (buf : List α) (op : Op α) :
    buf ++ accepted (op, (step capacity buf op).2) =
      taken (op, (step capacity buf op).2) ++ (step capacity buf op).1 := by
  cases op with
  | write xs =>
    simp only [step]
    split_ifs <;> simp [accepted, taken]
  | read n =>
    simp only [step]
    split_ifs <;> simp [accepted, taken]

/-- **Conservation**: nothing accepted is lost, duplicated or reordered. -/
theorem run_conserves (capacity : ℕ) (buf : List α) (ops : List (Op α)) :
    buf ++ (run capacity buf ops).2.flatMap accepted =
      (run capacity buf ops).2.flatMap taken ++ (run capacity buf ops).1 := by
  induction ops generalizing buf with
  | nil => simp [run]
  | cons op ops ih =>
    simp only [run, List.flatMap_cons, List.append_assoc]
    rw [← ih, ← List.append_assoc, ← List.append_assoc, step_conserves]

end CS536Labs.Fifo
