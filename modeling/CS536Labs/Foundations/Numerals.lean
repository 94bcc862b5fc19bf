import CS536Labs.Foundations.CString
import Mathlib.Data.List.Induction
import Mathlib.Tactic.IntervalCases

/-!
# Decimal numerals

`numeral` is what `printf("%u")` prints, and `strtoul0` is `strtoul` with base 0, which reads the
base off the text: a leading `0x` makes it hexadecimal and a leading `0` octal.

* `numeral_decimalValue` and `decimalValue_numeral`: a string of digits without a leading zero is
  the numeral of its value.
* `strtoul0_numeral`, `strtoul_numeral`: what was printed is read back, in either base.
* `strtoul0_eq_decimalValue_iff`: when digits have the same value in base 0 as in base 10.
-/

namespace CS536Labs

/-- The character of a digit. -/
def digit (d : ℕ) : UInt8 := UInt8.ofNat (0x30 + d)

/-- `printf("%u")`. -/
def numeral (n : ℕ) : List UInt8 := (Nat.toDigits 10 n).map fun c => UInt8.ofNat c.toNat

theorem toNat_digit {d : ℕ} (hd : d < 10) : (digit d).toNat = 0x30 + d := by
  rw [digit, UInt8.toNat_ofNat']
  omega

theorem isDigit_iff (c : UInt8) : isDigit c = true ↔ 0x30 ≤ c.toNat ∧ c.toNat ≤ 0x39 := by
  simp [isDigit, UInt8.le_iff_toNat_le]

theorem isDigit_digit {d : ℕ} (hd : d < 10) : isDigit (digit d) = true := by
  rw [isDigit_iff, toNat_digit hd]
  omega

theorem digit_of_isDigit {c : UInt8} (hc : isDigit c = true) : digit (c.toNat - 0x30) = c := by
  obtain ⟨hlow, hhigh⟩ := (isDigit_iff c).mp hc
  apply UInt8.toNat_inj.mp
  rw [toNat_digit (by omega)]
  omega

theorem ofNat_digitChar {d : ℕ} (hd : d < 10) :
    UInt8.ofNat (Nat.digitChar d).toNat = digit d := by
  interval_cases d <;> rfl

/-- The last digit comes off the end. -/
theorem numeral_eq (n : ℕ) :
    numeral n = if n < 10 then [digit n] else numeral (n / 10) ++ [digit (n % 10)] := by
  have hmod : n % 10 < 10 := Nat.mod_lt _ (by decide)
  rw [numeral, Nat.toDigits_eq_if (by decide)]
  split
  · rename_i hn
    rw [List.map_singleton, ofNat_digitChar hn]
  · rw [List.map_append, List.map_singleton, ofNat_digitChar hmod, numeral]

theorem numeral_of_lt {n : ℕ} (hn : n < 10) : numeral n = [digit n] := by
  rw [numeral_eq, if_pos hn]

theorem numeral_ten_mul_add {n d : ℕ} (hn : 0 < n) (hd : d < 10) :
    numeral (10 * n + d) = numeral n ++ [digit d] := by
  rw [numeral_eq, if_neg (by omega)]
  congr 3 <;> omega

theorem numeral_ne_nil (n : ℕ) : numeral n ≠ [] := by
  rw [numeral_eq]
  split <;> simp

theorem isDigit_of_mem_numeral {n : ℕ} {c : UInt8} (hc : c ∈ numeral n) : isDigit c = true := by
  induction n using Nat.strongRecOn with
  | _ n ih =>
    rw [numeral_eq] at hc
    split at hc
    · rename_i hn
      obtain rfl : c = digit n := by simpa using hc
      exact isDigit_digit hn
    · rcases List.mem_append.mp hc with hc | hc
      · exact ih (n / 10) (by omega) hc
      · obtain rfl : c = digit (n % 10) := by simpa using hc
        exact isDigit_digit (Nat.mod_lt _ (by decide))

theorem length_numeral_le {n k : ℕ} (hk : 0 < k) (hn : n < 10 ^ k) : (numeral n).length ≤ k := by
  rw [numeral, List.length_map]
  exact (Nat.length_toDigits_le_iff (by decide) hk).mpr hn

/-- Only the numeral of zero starts with a zero. -/
theorem head?_numeral {n : ℕ} (hn : 0 < n) : (numeral n).head? ≠ some 0x30 := by
  induction n using Nat.strongRecOn with
  | _ n ih =>
    rw [numeral_eq]
    split
    · rename_i hlt
      intro h
      have h : (digit n).toNat = 0x30 := by
        rw [Option.some.inj h]
        rfl
      rw [toNat_digit hlt] at h
      omega
    · rw [List.head?_append_of_ne_nil _ (numeral_ne_nil _)]
      exact ih (n / 10) (by omega) (by omega)

/-! ## The value of a numeral -/

theorem decimalValue_append_singleton (digits : List UInt8) (c : UInt8) :
    decimalValue (digits ++ [c]) = 10 * decimalValue digits + (c.toNat - 0x30) := by
  rw [decimalValue, List.foldl_append]
  rfl

/-- **What is printed has the value printed.** -/
theorem decimalValue_numeral (n : ℕ) : decimalValue (numeral n) = n := by
  induction n using Nat.strongRecOn with
  | _ n ih =>
    rw [numeral_eq]
    split
    · rename_i hn
      have h := decimalValue_append_singleton [] (digit n)
      rw [toNat_digit hn, List.nil_append] at h
      rw [h, decimalValue, List.foldl_nil]
      omega
    · rw [decimalValue_append_singleton, ih (n / 10) (by omega),
        toNat_digit (Nat.mod_lt _ (by decide))]
      omega

theorem numeral_inj {n n' : ℕ} (h : numeral n = numeral n') : n = n' := by
  rw [← decimalValue_numeral n, h, decimalValue_numeral]

/-- **Digits without a leading zero are a numeral.** -/
theorem numeral_decimalValue {digits : List UInt8} (hne : digits ≠ [])
    (hdigits : ∀ c ∈ digits, isDigit c = true) (hhead : digits.head? ≠ some 0x30) :
    0 < decimalValue digits ∧ numeral (decimalValue digits) = digits := by
  induction digits using List.reverseRecOn with
  | nil => exact absurd rfl hne
  | append_singleton digits c ih =>
    have hc := hdigits c (by simp)
    obtain ⟨hlow, hhigh⟩ := (isDigit_iff c).mp hc
    rw [decimalValue_append_singleton]
    rcases eq_or_ne digits [] with rfl | hne'
    · have hpos : c.toNat ≠ 0x30 := by
        intro h
        apply hhead
        have hc : c = 0x30 := UInt8.toNat_inj.mp h
        rw [hc]
        rfl
      rw [decimalValue, List.foldl_nil, Nat.mul_zero, Nat.zero_add, numeral_of_lt (by omega),
        digit_of_isDigit hc]
      exact ⟨by omega, rfl⟩
    · rw [List.head?_append_of_ne_nil _ hne'] at hhead
      obtain ⟨hpos, hnum⟩ := ih hne' (fun c hc => hdigits c (by simp [hc])) hhead
      rw [numeral_ten_mul_add hpos (by omega), hnum, digit_of_isDigit hc]
      exact ⟨by omega, rfl⟩

/-! ## `strtoul` with base 0 -/

/-- The value of a digit in bases up to 36, and 36 for the other characters. -/
def digitValue (c : UInt8) : ℕ :=
  if isDigit c then c.toNat - 0x30
  else if 0x41 ≤ c && c ≤ 0x5a then c.toNat - 0x41 + 10
  else if 0x61 ≤ c && c ≤ 0x7a then c.toNat - 0x61 + 10
  else 36

/-- The number that the longest prefix of digits of the base denotes. -/
def readDigits (base : ℕ) (s : List UInt8) : ℕ :=
  (s.takeWhile (digitValue · < base)).foldl (fun n c => base * n + digitValue c) 0

/-- `strtoul(s, NULL, 0)`: white space, a sign, and digits in the base that their prefix names. -/
def strtoul0 (s : List UInt8) : ℕ :=
  let s := s.dropWhile isSpace
  let negative := s.head? == some 0x2d
  let s := if negative || s.head? == some 0x2b then s.tail else s
  let n :=
    if s.head? == some 0x30 then
      if (s[1]? == some 0x78 || s[1]? == some 0x58) && (s[2]?.any (digitValue · < 16)) then
        readDigits 16 (s.drop 2)
      else readDigits 8 s
    else readDigits 10 s
  if n > 2 ^ 64 - 1 then 2 ^ 64 - 1 else if negative then (2 ^ 64 - n) % 2 ^ 64 else n

theorem digitValue_lt_ten_iff (c : UInt8) : digitValue c < 10 ↔ isDigit c = true := by
  rw [digitValue]
  by_cases hc : isDigit c = true
  · obtain ⟨hlow, hhigh⟩ := (isDigit_iff c).mp hc
    simp only [hc, if_true, iff_true]
    omega
  · rw [if_neg hc]
    constructor
    · intro h
      split_ifs at h <;> omega
    · intro h
      exact absurd h hc

theorem readDigits_ten_append {s t : List UInt8} (hs : ∀ c ∈ s, isDigit c = true)
    (ht : ∀ c ∈ t.head?, ¬ digitValue c < 10) : readDigits 10 (s ++ t) = decimalValue s := by
  have hall : ∀ c ∈ s, decide (digitValue c < 10) = true := fun c hc =>
    decide_eq_true ((digitValue_lt_ten_iff c).mpr (hs c hc))
  have hstop : t.takeWhile (digitValue · < 10) = [] := by
    cases t with
    | nil => rfl
    | cons c t => exact List.takeWhile_cons_of_neg (by simpa using ht c rfl)
  rw [readDigits, decimalValue, List.takeWhile_append_of_pos hall, hstop, List.append_nil]
  apply List.foldl_ext
  intro n c hc
  rw [digitValue, if_pos (hs c hc)]

theorem readDigits_ten {s : List UInt8} (hs : ∀ c ∈ s, isDigit c = true) :
    readDigits 10 s = decimalValue s := by
  have happend := readDigits_ten_append (t := []) hs nofun
  rwa [List.append_nil] at happend

theorem isSpace_of_isDigit {c : UInt8} (hc : isDigit c = true) : isSpace c = false := by
  obtain ⟨hlow, hhigh⟩ := (isDigit_iff c).mp hc
  rw [Bool.eq_false_iff]
  intro h
  simp only [isSpace, Bool.or_eq_true, beq_iff_eq, Bool.and_eq_true, decide_eq_true_eq,
    UInt8.le_iff_toNat_le] at h
  rcases h with rfl | ⟨-, h⟩
  · exact absurd hlow (by decide)
  · exact absurd (hlow.trans h) (by decide)

theorem dropWhile_isSpace_digits {s : List UInt8} (hs : ∀ c ∈ s, isDigit c = true) :
    s.dropWhile isSpace = s := by
  cases s with
  | nil => rfl
  | cons c s =>
    rw [List.dropWhile_cons_of_neg (by rw [isSpace_of_isDigit (hs c List.mem_cons_self)]; decide)]

theorem not_sign_of_digits {s : List UInt8} (hs : ∀ c ∈ s, isDigit c = true) {c : UInt8}
    (hc : isDigit c = false) : (s.head? == some c) = false := by
  rw [beq_eq_false_iff_ne]
  intro h
  rw [hs c (List.mem_of_head? h)] at hc
  cases hc

/-- Base 0 on digits: octal behind a leading zero, and decimal otherwise. -/
theorem strtoul0_digits {s : List UInt8} (hs : ∀ c ∈ s, isDigit c = true) :
    strtoul0 s =
      min (if s.head? == some 0x30 then readDigits 8 s else decimalValue s) (2 ^ 64 - 1) := by
  have hprefix : ∀ c : UInt8, isDigit c = false → (s[1]? == some c) = false := by
    intro c hc
    rw [beq_eq_false_iff_ne]
    intro h
    rw [hs c (List.mem_of_getElem? h)] at hc
    cases hc
  simp only [strtoul0, dropWhile_isSpace_digits hs, not_sign_of_digits hs (c := 0x2d) rfl,
    not_sign_of_digits hs (c := 0x2b) rfl, hprefix 0x78 rfl, hprefix 0x58 rfl, Bool.or_self,
    Bool.false_and, Bool.false_eq_true, if_false, readDigits_ten hs]
  generalize (if s.head? == some 0x30 then readDigits 8 s else decimalValue s) = n
  split
  · rw [Nat.min_eq_right (by omega)]
  · rw [Nat.min_eq_left (by omega)]

theorem strtoul_digits {s : List UInt8} (hs : ∀ c ∈ s, isDigit c = true) :
    strtoul s = min (decimalValue s) (2 ^ 64 - 1) := by
  have hall : s.takeWhile isDigit = s := List.takeWhile_eq_self_iff.mpr hs
  simp only [strtoul, dropWhile_isSpace_digits hs, not_sign_of_digits hs (c := 0x2d) rfl,
    not_sign_of_digits hs (c := 0x2b) rfl, Bool.or_self, Bool.false_eq_true, if_false, hall]
  split
  · rw [Nat.min_eq_right (by omega)]
  · rw [Nat.min_eq_left (by omega)]

/-- **What was printed is read back.** -/
theorem strtoul0_numeral {n : ℕ} (hn : n < 2 ^ 64) : strtoul0 (numeral n) = n := by
  rw [strtoul0_digits fun c => isDigit_of_mem_numeral]
  rcases Nat.eq_zero_or_pos n with rfl | hpos
  · rfl
  · rw [if_neg (by simpa using head?_numeral hpos), decimalValue_numeral]
    omega

/-- A number in a text that goes on behind it. -/
theorem strtoul0_numeral_append {n : ℕ} (hpos : 0 < n) (hn : n < 2 ^ 64) {t : List UInt8}
    (ht : ∀ c ∈ t.head?, ¬ digitValue c < 10) : strtoul0 (numeral n ++ t) = n := by
  have hdigits : ∀ c ∈ numeral n, isDigit c = true := fun c => isDigit_of_mem_numeral
  have hread := readDigits_ten_append hdigits ht
  rw [decimalValue_numeral n] at hread
  have hhead := head?_numeral hpos
  obtain ⟨d, digits, hd⟩ := List.exists_cons_of_ne_nil (numeral_ne_nil n)
  have hdigit : isDigit d = true := hdigits d (by rw [hd]; exact List.mem_cons_self)
  have hne : ∀ c : UInt8, isDigit c = false → (some d == some c) = false := by
    intro c hc
    rw [beq_eq_false_iff_ne]
    rintro ⟨⟩
    rw [hdigit] at hc
    cases hc
  have hzero : (some d == some (0x30 : UInt8)) = false := by
    rw [hd] at hhead
    simpa using hhead
  have hdrop : (numeral n ++ t).dropWhile isSpace = numeral n ++ t := by
    rw [hd, List.cons_append,
      List.dropWhile_cons_of_neg (by rw [isSpace_of_isDigit hdigit]; decide)]
  have hfirst : (numeral n ++ t).head? = some d := by rw [hd]; rfl
  simp only [strtoul0, hdrop, hfirst, hne 0x2d rfl, hne 0x2b rfl, hzero, Bool.or_self,
    Bool.false_eq_true, if_false, hread]
  rw [if_neg (by omega)]

theorem strtoul_numeral {n : ℕ} (hn : n < 2 ^ 64) : strtoul (numeral n) = n := by
  rw [strtoul_digits fun c => isDigit_of_mem_numeral, decimalValue_numeral]
  omega

/-! ## Base 0 against base 10 -/

theorem digitValue_of_isDigit {c : UInt8} (hc : isDigit c = true) :
    digitValue c = c.toNat - 0x30 := by
  rw [digitValue, if_pos hc]

/-- What stands in front is not larger. -/
theorem decimalValue_le_append (digits digits' : List UInt8) :
    decimalValue digits ≤ decimalValue (digits ++ digits') := by
  induction digits' using List.reverseRecOn with
  | nil => rw [List.append_nil]
  | append_singleton digits' c ih =>
    rw [← List.append_assoc, decimalValue_append_singleton]
    omega

theorem digit_le_decimalValue {digits : List UInt8} {c : UInt8} (hc : c ∈ digits) :
    c.toNat - 0x30 ≤ decimalValue digits := by
  obtain ⟨before, after, rfl⟩ := List.append_of_mem hc
  have hle := decimalValue_le_append (before ++ [c]) after
  rw [decimalValue_append_singleton, List.append_assoc] at hle
  exact Nat.le_trans (Nat.le_add_left _ _) hle

/-- The value of octal digits. -/
def octalValue (digits : List UInt8) : ℕ :=
  digits.foldl (fun n c => 8 * n + digitValue c) 0

theorem octalValue_append_singleton (digits : List UInt8) (c : UInt8) :
    octalValue (digits ++ [c]) = 8 * octalValue digits + digitValue c := by
  rw [octalValue, List.foldl_append]
  rfl

theorem octalValue_le_decimalValue {digits : List UInt8} (h : ∀ c ∈ digits, isDigit c = true) :
    octalValue digits ≤ decimalValue digits := by
  induction digits using List.reverseRecOn with
  | nil => exact Nat.le_refl 0
  | append_singleton digits c ih =>
    have hle := ih fun c hc => h c (List.mem_append_left _ hc)
    rw [octalValue_append_singleton, decimalValue_append_singleton,
      digitValue_of_isDigit (h c (List.mem_append_right _ List.mem_cons_self))]
    omega

/-- The two values differ as soon as there is a digit behind one that is not zero. -/
theorem octalValue_eq_decimalValue_iff {digits : List UInt8}
    (h : ∀ c ∈ digits, digitValue c < 8) :
    octalValue digits = decimalValue digits ↔ decimalValue digits < 8 := by
  have hdigits : ∀ c ∈ digits, isDigit c = true := by
    intro c hc
    exact (digitValue_lt_ten_iff c).mp (Nat.lt_trans (h c hc) (by decide))
  induction digits using List.reverseRecOn with
  | nil => exact ⟨fun _ => by decide, fun _ => rfl⟩
  | append_singleton digits c _ =>
    have hmem : c ∈ digits ++ [c] := List.mem_append_right _ List.mem_cons_self
    have hle := octalValue_le_decimalValue fun c hc => hdigits c (List.mem_append_left _ hc)
    have hc := h c hmem
    rw [octalValue_append_singleton, decimalValue_append_singleton,
      ← digitValue_of_isDigit (hdigits c hmem)]
    omega

/-- Octal digits behind a leading zero, up to the first digit that is not octal. -/
theorem readDigits_eight_le {digits : List UInt8} (h : ∀ c ∈ digits, isDigit c = true) :
    readDigits 8 digits ≤ decimalValue digits := by
  have hprefix := decimalValue_le_append (digits.takeWhile (digitValue · < 8))
    (digits.dropWhile (digitValue · < 8))
  rw [List.takeWhile_append_dropWhile] at hprefix
  exact (octalValue_le_decimalValue fun c hc =>
    h c ((List.takeWhile_prefix _).subset hc)).trans hprefix

theorem readDigits_eight_eq_iff {digits : List UInt8} (h : ∀ c ∈ digits, isDigit c = true) :
    readDigits 8 digits = decimalValue digits ↔ decimalValue digits < 8 := by
  have hoctal : ∀ c ∈ digits.takeWhile (digitValue · < 8), digitValue c < 8 := by
    intro c hc
    simpa using List.mem_takeWhile_imp hc
  have hiff := octalValue_eq_decimalValue_iff hoctal
  have hread : readDigits 8 digits = octalValue (digits.takeWhile (digitValue · < 8)) := rfl
  constructor
  · intro heq
    have hle := octalValue_le_decimalValue fun c hc =>
      h c ((List.takeWhile_prefix (digitValue · < 8)).subset hc)
    have hprefix := decimalValue_le_append (digits.takeWhile (digitValue · < 8))
      (digits.dropWhile (digitValue · < 8))
    rw [List.takeWhile_append_dropWhile] at hprefix
    omega
  · intro hlt
    have hall : digits.takeWhile (digitValue · < 8) = digits := by
      rw [List.takeWhile_eq_self_iff]
      intro c hc
      rw [decide_eq_true_eq, digitValue_of_isDigit (h c hc)]
      exact Nat.lt_of_le_of_lt (digit_le_decimalValue hc) hlt
    rw [hall] at hread hiff
    exact hread.trans (hiff.mpr hlt)

/-- Base 0 never reads more than the decimal value. -/
theorem strtoul0_le_decimalValue {digits : List UInt8} (h : ∀ c ∈ digits, isDigit c = true) :
    strtoul0 digits ≤ decimalValue digits := by
  rw [strtoul0_digits h]
  split
  · exact (Nat.min_le_left _ _).trans (readDigits_eight_le h)
  · exact Nat.min_le_left _ _

/-- **Base 0 reads the decimal value** of digits that do not start with a zero, or have only one
octal digit behind zeros. -/
theorem strtoul0_eq_decimalValue_iff {digits : List UInt8} (h : ∀ c ∈ digits, isDigit c = true)
    (hlt : decimalValue digits < 2 ^ 64) :
    strtoul0 digits = decimalValue digits ↔
      digits.head? ≠ some 0x30 ∨ decimalValue digits < 8 := by
  have hle := readDigits_eight_le h
  rw [strtoul0_digits h, ← readDigits_eight_eq_iff h]
  by_cases hhead : digits.head? = some 0x30
  · rw [if_pos (by simpa using hhead), Nat.min_eq_left (by omega)]
    exact ⟨.inr, fun h => h.resolve_left fun hne => hne hhead⟩
  · rw [if_neg (by simpa using hhead), Nat.min_eq_left (by omega)]
    exact ⟨fun _ => .inl hhead, fun _ => rfl⟩

end CS536Labs
