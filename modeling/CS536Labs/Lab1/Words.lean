import Mathlib.Data.List.Basic

/-!
# The words of a command line

The quoting grammar of the shells, as a specification independent of the transition table.
Outside quotes a space, tab or newline separates words; a double quote toggles quoting and is not
part of the word; a backslash makes the next character literal, inside and outside quotes. A word
starts at its first character that is not a separator and ends at a separator or at the end of
the line.

* `wordFrom quoted s` reads one word: its text and the rest of the line after it.
* `scan s` lists every word with the rest of the line after it, and `words s` the words alone.
* `EndsWell s` says how the line may end for `parse_command` to deliver exactly the words.
-/

namespace CS536Labs.Lab1

/-- A space, a tab or a newline. -/
def isSeparator (c : UInt8) : Bool := c == 0x20 || c == 0x09 || c == 0x0a

/-- The text of the word that continues at the start of `s`, and the rest after it. -/
def wordFrom (quoted : Bool) : List UInt8 → List UInt8 × List UInt8
  | [] => ([], [])
  | c :: s =>
    if c = 0x5c then
      match s with
      | [] => ([], [])
      | d :: s => (d :: (wordFrom quoted s).1, (wordFrom quoted s).2)
    else if c = 0x22 then wordFrom (!quoted) s
    else if isSeparator c && !quoted then ([], c :: s)
    else (c :: (wordFrom quoted s).1, (wordFrom quoted s).2)

theorem length_wordFrom_le (quoted : Bool) (s : List UInt8) :
    (wordFrom quoted s).2.length ≤ s.length := by
  fun_induction wordFrom quoted s <;> grind

/-- A character that is not a separator is consumed by the word it starts. -/
theorem length_wordFrom_lt {c : UInt8} (hc : isSeparator c = false) (s : List UInt8) :
    (wordFrom false (c :: s)).2.length < (c :: s).length := by
  have h := length_wordFrom_le
  unfold wordFrom
  grind

/-- The words of a line, each with the rest of the line after it. -/
def scan : List UInt8 → List (List UInt8 × List UInt8)
  | [] => []
  | c :: s =>
    if isSeparator c then scan s
    else wordFrom false (c :: s) :: scan (wordFrom false (c :: s)).2
  termination_by s => s.length
  decreasing_by
    · simp
    · rename_i h
      exact length_wordFrom_lt (by simpa using h) s

/-- The words of a line. -/
def words (s : List UInt8) : List (List UInt8) := (scan s).map Prod.fst

/-- What may stand at the end of a line: the last word, with the rest of the line after it, is
not an empty word with nothing after it (`""`, a lone quote or a lone backslash at the end), and
is not a non-empty word with two or more separators after it. -/
def ClosedWell : Option (List UInt8 × List UInt8) → Prop
  | none => True
  | some (w, []) => w ≠ []
  | some (_, [_]) => True
  | some (w, _ :: _ :: _) => w = []

/-- The line ends in a way in which `parse_command` delivers exactly its words. -/
def EndsWell (s : List UInt8) : Prop := ClosedWell (scan s).getLast?

/-! ## Scanning -/

@[simp] theorem scan_nil : scan [] = [] := by rw [scan]

theorem scan_cons_separator {c : UInt8} (hc : isSeparator c = true) (s : List UInt8) :
    scan (c :: s) = scan s := by
  rw [scan, if_pos hc]

theorem scan_cons_word {c : UInt8} (hc : isSeparator c = false) (s : List UInt8) :
    scan (c :: s) = wordFrom false (c :: s) :: scan (wordFrom false (c :: s)).2 := by
  rw [scan, if_neg (by simp [hc])]

/-- A line has no word exactly when it holds separators only. -/
theorem scan_eq_nil_iff {s : List UInt8} : scan s = [] ↔ ∀ c ∈ s, isSeparator c = true := by
  induction s with
  | nil => simp
  | cons c s ih =>
    by_cases hc : isSeparator c = true
    · simp [scan_cons_separator hc, ih, hc]
    · simp [scan_cons_word (by simpa using hc), hc]

/-- What is left after a word is the end of the line or starts with a separator. -/
theorem wordFrom_rest (quoted : Bool) (s : List UInt8) :
    (wordFrom quoted s).2 = [] ∨
      ∃ c r, (wordFrom quoted s).2 = c :: r ∧ isSeparator c = true := by
  fun_induction wordFrom quoted s <;> grind

/-! ## Words are parts of the line -/

theorem length_wordFrom_add_le (quoted : Bool) (s : List UInt8) :
    (wordFrom quoted s).1.length + (wordFrom quoted s).2.length ≤ s.length := by
  fun_induction wordFrom quoted s <;> grind

theorem length_of_mem_words {w s : List UInt8} (h : w ∈ words s) : w.length ≤ s.length := by
  obtain ⟨p, hp, rfl⟩ := List.mem_map.mp h
  clear h
  fun_induction scan s with
  | case1 => cases hp
  | case2 c s hc ih =>
    have := ih hp
    rw [List.length_cons]
    omega
  | case3 c s hc ih =>
    have hadd := length_wordFrom_add_le false (c :: s)
    rcases List.mem_cons.mp hp with rfl | hp
    · omega
    · have := ih hp
      omega

end CS536Labs.Lab1
