import Mathlib.Data.Int.Notation
import Mathlib.Data.List.Basic

/-!
# Accesses to arrays

What a piece of a program does to its arrays, as a list of accesses: each names an array and the
elements that are read or written. `InBounds` compares one with the sizes of the arrays. Its offset
is an integer, since an index that is computed by a subtraction can be negative.
-/

namespace CS536Labs

/-- An access to `length` elements of an array, from an offset on. -/
structure Access (ι : Type*) where
  array : ι
  offset : ℤ
  length : ℕ
  deriving DecidableEq

namespace Access

variable {ι : Type*} {size : ι → ℕ}

/-- An access to one element. -/
def cell (array : ι) (index : ℕ) : Access ι := ⟨array, index, 1⟩

/-- An access to the first elements, such as a call of `memcpy`. -/
def front (array : ι) (length : ℕ) : Access ι := ⟨array, 0, length⟩

/-- The elements belong to the array. -/
def InBounds (size : ι → ℕ) (a : Access ι) : Prop :=
  0 ≤ a.offset ∧ a.offset + a.length ≤ size a.array

instance (size : ι → ℕ) (a : Access ι) : Decidable (a.InBounds size) :=
  inferInstanceAs (Decidable (_ ∧ _))

/-- All accesses are in bounds. -/
def AllInBounds (size : ι → ℕ) (as : List (Access ι)) : Prop := ∀ a ∈ as, a.InBounds size

theorem inBounds_cell {array : ι} {index : ℕ} :
    (cell array index).InBounds size ↔ index < size array := by
  simp only [InBounds, cell]
  omega

theorem inBounds_front {array : ι} {length : ℕ} :
    (front array length).InBounds size ↔ length ≤ size array := by
  simp only [InBounds, front]
  omega

@[simp] theorem allInBounds_nil : AllInBounds size [] := fun _ h => absurd h List.not_mem_nil

@[simp] theorem allInBounds_cons {a : Access ι} {as : List (Access ι)} :
    AllInBounds size (a :: as) ↔ a.InBounds size ∧ AllInBounds size as := List.forall_mem_cons

@[simp] theorem allInBounds_append {as bs : List (Access ι)} :
    AllInBounds size (as ++ bs) ↔ AllInBounds size as ∧ AllInBounds size bs :=
  List.forall_mem_append

theorem allInBounds_map_cell {array : ι} {indices : List ℕ} :
    AllInBounds size (indices.map (cell array)) ↔ ∀ i ∈ indices, i < size array := by
  simp only [AllInBounds, List.forall_mem_map, inBounds_cell]

end Access

end CS536Labs
