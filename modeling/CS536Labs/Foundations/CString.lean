import Mathlib.Algebra.Group.Nat.Defs
import Mathlib.Data.List.Basic
import Mathlib.Data.List.TakeWhile

/-!
# C strings

A NUL-terminated string is the list of its bytes before the terminator. `CString` carries the
fact that none of them is NUL, so that a loop `while (*p)` over the string is a recursion over
the list. `cString` is the string in an array, and `tokens`, `strncpy` and `strtoul` are the
functions of `string.h` and `stdlib.h` on such lists.
-/

namespace CS536Labs

/-- A NUL-terminated string, without its terminator. -/
structure CString where
  bytes : List UInt8
  noNul : 0 ∉ bytes

/-- The string that starts at the first byte of an array. -/
def cString (array : List UInt8) : List UInt8 := array.takeWhile (· ≠ 0)

/-- What successive calls of `strtok` on a string return. -/
def tokens (isDelimiter : UInt8 → Bool) (s : List UInt8) : List (List UInt8) :=
  (s.splitOnP isDelimiter).filter fun token => !token.isEmpty

/-- The `size` bytes that `strncpy(dest, s, size)` stores. -/
def strncpy (s : List UInt8) (size : ℕ) : List UInt8 := (s ++ List.replicate size 0).take size

/-- The array behind a call that stores the string and its terminator at its start, such as
`sprintf`. -/
def storeString (array s : List UInt8) : List UInt8 := s ++ 0 :: array.drop (s.length + 1)

/-- `strncmp(s, t, size) == 0`. -/
def strncmpEq (s t : List UInt8) (size : ℕ) : Bool :=
  (cString s).take size == (cString t).take size

/-- `isspace` in the C locale. -/
def isSpace (c : UInt8) : Bool := c == 0x20 || (0x09 ≤ c && c ≤ 0x0d)

/-- The delimiters `"  \t\n\0"` of `strtok` in the readers of parameter files. -/
def isBlank (c : UInt8) : Bool := c == 0x20 || c == 0x09 || c == 0x0a

def isDigit (c : UInt8) : Bool := 0x30 ≤ c && c ≤ 0x39

/-- `isalpha` in the C locale. -/
def isAlpha (c : UInt8) : Bool := (0x41 ≤ c && c ≤ 0x5a) || (0x61 ≤ c && c ≤ 0x7a)

/-- The number that a list of decimal digits denotes. -/
def decimalValue (digits : List UInt8) : ℕ :=
  digits.foldl (fun n c => 10 * n + (c.toNat - 0x30)) 0

/-- `strtoul(s, NULL, 10)`: white space, a sign, digits. The value saturates at `ULONG_MAX`, and a
minus sign negates it modulo `2 ^ 64`. -/
def strtoul (s : List UInt8) : ℕ :=
  let s := s.dropWhile isSpace
  let negative := s.head? == some 0x2d
  let s := if negative || s.head? == some 0x2b then s.tail else s
  let n := decimalValue (s.takeWhile isDigit)
  if n > 2 ^ 64 - 1 then 2 ^ 64 - 1 else if negative then (2 ^ 64 - n) % 2 ^ 64 else n

theorem cString_append_of_mem {s : List UInt8} (h : 0 ∈ s) (t : List UInt8) :
    cString (s ++ t) = cString s := by
  induction s with
  | nil => cases h
  | cons c s ih =>
    rcases eq_or_ne c 0 with rfl | hc
    · rfl
    · have hs : 0 ∈ s := (List.mem_cons.mp h).resolve_left hc.symm
      have hstep : ∀ u, cString (c :: u) = c :: cString u := by
        intro u
        exact List.takeWhile_cons_of_pos (by simpa using hc)
      rw [List.cons_append, hstep, hstep, ih hs]

theorem cString_append_of_notMem {s : List UInt8} (h : 0 ∉ s) (t : List UInt8) :
    cString (s ++ t) = s ++ cString t := by
  apply List.takeWhile_append_of_pos
  intro c hc
  rw [decide_eq_true_eq]
  rintro rfl
  exact h hc

theorem cString_eq_self {s : List UInt8} (h : 0 ∉ s) : cString s = s := by
  have happend := cString_append_of_notMem h []
  rw [List.append_nil] at happend
  exact happend.trans (List.append_nil s)

/-- A terminator behind a text ends the string at the latest. -/
theorem cString_append_zero (s t : List UInt8) : cString (s ++ 0 :: t) = cString s := by
  by_cases h : 0 ∈ s
  · exact cString_append_of_mem h _
  · rw [cString_append_of_notMem h, cString_eq_self h]
    exact List.append_nil s

theorem cString_take_ne_nil {s : List UInt8} (h : cString s ≠ []) {n : ℕ} (hn : 0 < n) :
    cString (s.take n) ≠ [] := by
  cases s with
  | nil => exact absurd rfl h
  | cons c s =>
    obtain ⟨n, rfl⟩ := Nat.exists_eq_succ_of_ne_zero (Nat.ne_of_gt hn)
    rcases eq_or_ne c 0 with rfl | hc
    · exact absurd rfl h
    · rw [List.take_succ_cons, cString, List.takeWhile_cons_of_pos (by simpa using hc)]
      exact List.cons_ne_nil _ _

theorem notMem_cString (s : List UInt8) : 0 ∉ cString s := by
  intro h
  simpa using List.mem_takeWhile_imp h

/-- The string in an array, and the terminator behind it. -/
theorem exists_eq_cString_append {array : List UInt8} (h : 0 ∈ array) :
    ∃ rest, array = cString array ++ 0 :: rest := by
  induction array with
  | nil => cases h
  | cons c array ih =>
    rcases eq_or_ne c 0 with rfl | hc
    · exact ⟨array, rfl⟩
    · obtain ⟨rest, hrest⟩ := ih ((List.mem_cons.mp h).resolve_left hc.symm)
      refine ⟨rest, ?_⟩
      rw [cString, List.takeWhile_cons_of_pos (by simpa using hc), List.cons_append,
        List.cons.injEq]
      exact ⟨rfl, hrest⟩

/-- The string that was stored is read. -/
theorem cString_storeString {s : List UInt8} (h : 0 ∉ s) (array : List UInt8) :
    cString (storeString array s) = s := by
  rw [storeString, cString_append_of_notMem h]
  exact List.append_nil s

/-- The store of a string that fits stays inside the array. -/
theorem length_storeString {array s : List UInt8} (h : s.length < array.length) :
    (storeString array s).length = array.length := by
  rw [storeString, List.length_append, List.length_cons, List.length_drop]
  omega

@[simp] theorem length_strncpy (s : List UInt8) (size : ℕ) : (strncpy s size).length = size := by
  rw [strncpy, List.length_take, List.length_append, List.length_replicate]
  omega

/-- A string that fits is padded, and it has no terminator when it fills the field. -/
theorem strncpy_of_le {s : List UInt8} {size : ℕ} (h : s.length ≤ size) :
    strncpy s size = s ++ List.replicate (size - s.length) 0 := by
  rw [strncpy, List.take_append, List.take_of_length_le h, List.take_replicate,
    Nat.min_eq_left (Nat.sub_le _ _)]

/-- The field has a terminator exactly when the string is shorter. -/
theorem nul_mem_strncpy_iff {s : List UInt8} {size : ℕ} (h : 0 ∉ s) :
    0 ∈ strncpy s size ↔ s.length < size := by
  constructor
  · intro hmem
    by_contra hle
    rw [strncpy, List.take_append_of_le_length (Nat.le_of_not_lt hle)] at hmem
    exact h (List.mem_of_mem_take hmem)
  · intro hlt
    rw [strncpy_of_le (Nat.le_of_lt hlt), List.mem_append, List.mem_replicate]
    exact .inr ⟨by omega, rfl⟩

theorem cString_append_replicate {s : List UInt8} (h : 0 ∉ s) (n : ℕ) :
    cString (s ++ List.replicate n 0) = s := by
  cases n with
  | zero => rw [List.replicate_zero, List.append_nil, cString_eq_self h]
  | succ n => rw [List.replicate_succ, cString_append_zero, cString_eq_self h]

/-- A string that fits is copied, whether there is room for a terminator or not. -/
theorem cString_strncpy_of_le {s : List UInt8} {size : ℕ} (h : 0 ∉ s) (hlen : s.length ≤ size) :
    cString (strncpy s size) = s := by
  rw [strncpy_of_le hlen, cString_append_replicate h]

/-- A string shorter than the size is copied with a terminator. -/
theorem cString_strncpy {s : List UInt8} {size : ℕ} (h : 0 ∉ s) (hlen : s.length < size) :
    cString (strncpy s size) = s :=
  cString_strncpy_of_le h (Nat.le_of_lt hlen)

end CS536Labs
