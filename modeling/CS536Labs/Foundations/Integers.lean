import CS536Labs.Foundations.Numerals

/-!
# Integers with base 0

`integer0` is the integer of any size that a text starts with, in the base that its prefix names.
`strtoul` and `strtol` with base 0 deliver it in 64 bits: the one negates modulo `2 ^ 64`, and both
saturate. `integerOf` is the integer that a token is as a whole.

* `strtoul0_eq`: the result of `strtoul0`, from the integer.
* `toNat_ofNat_strtoul0`: what a conversion to `unsigned short` leaves of it.
* `integer0_of_integerOf`: an integer token is read as its value.
-/

namespace CS536Labs

/-- The text goes on behind `0x`. -/
def isHexadecimal (s : List UInt8) : Bool :=
  (s[1]? == some 0x78 || s[1]? == some 0x58) && s[2]?.any (digitValue · < 16)

/-- The number that the text starts with: hexadecimal behind `0x`, octal behind `0`, or decimal. -/
def magnitude0 (s : List UInt8) : ℕ :=
  if s.head? == some 0x30 then
    if isHexadecimal s then readDigits 16 (s.drop 2) else readDigits 8 s
  else readDigits 10 s

def dropSign (s : List UInt8) : List UInt8 :=
  if s.head? == some 0x2d || s.head? == some 0x2b then s.tail else s

/-- The integer that the text starts with, behind white space. -/
def integer0 (s : List UInt8) : ℤ :=
  let s := s.dropWhile isSpace
  if s.head? == some 0x2d then -magnitude0 (dropSign s) else magnitude0 (dropSign s)

/-- `strtol(s, NULL, 0)`, which saturates at `LONG_MIN` and `LONG_MAX`. -/
def strtol0 (s : List UInt8) : ℤ := max (-2 ^ 63) (min (2 ^ 63 - 1) (integer0 s))

/-- The text has digits only, behind the prefix of the base. -/
def isMagnitude0 (s : List UInt8) : Bool :=
  if s.head? == some 0x30 then
    if isHexadecimal s then (s.drop 2).all (digitValue · < 16) else s.all (digitValue · < 8)
  else !s.isEmpty && s.all (digitValue · < 10)

/-- The integer that a token denotes, if it is one as a whole. -/
def integerOf (token : List UInt8) : Option ℤ :=
  if isMagnitude0 (dropSign token) then some (integer0 token) else none

/-! ## The conversions to 64 bits -/

/-- **What `strtoul` returns.** -/
theorem strtoul0_eq (s : List UInt8) :
    strtoul0 s =
      if 2 ^ 64 - 1 < (integer0 s).natAbs then 2 ^ 64 - 1 else (integer0 s % 2 ^ 64).toNat := by
  have hmagnitude : strtoul0 s =
      let n := magnitude0 (dropSign (s.dropWhile isSpace))
      if n > 2 ^ 64 - 1 then 2 ^ 64 - 1
      else if (s.dropWhile isSpace).head? == some 0x2d then (2 ^ 64 - n) % 2 ^ 64 else n := rfl
  rw [hmagnitude, integer0]
  dsimp only
  generalize magnitude0 (dropSign (s.dropWhile isSpace)) = n
  by_cases hneg : (s.dropWhile isSpace).head? == some 0x2d
  · rw [if_pos hneg, if_pos hneg]
    split_ifs <;> omega
  · rw [if_neg hneg, if_neg hneg]
    split_ifs <;> omega

/-- The conversion to `unsigned short` keeps 16 bits, all of them set after an overflow. -/
theorem toNat_ofNat_strtoul0 (s : List UInt8) :
    ((UInt16.ofNat (strtoul0 s)).toNat : ℤ) =
      if 2 ^ 64 - 1 < (integer0 s).natAbs then 2 ^ 16 - 1 else integer0 s % 2 ^ 16 := by
  rw [strtoul0_eq, UInt16.toNat_ofNat']
  split_ifs <;> omega

/-- A number of at most 64 bits is converted modulo `2 ^ 16`. -/
theorem ofNat_strtoul0 {s : List UInt8} (h : (integer0 s).natAbs < 2 ^ 64) :
    UInt16.ofNat (strtoul0 s) = UInt16.ofInt (integer0 s) := by
  have htoNat := toNat_ofNat_strtoul0 s
  rw [if_neg (by omega)] at htoNat
  have hlow : (integer0 s % 2 ^ 16).toNat < 2 ^ 16 := by omega
  have htoNat' : (UInt16.ofInt (integer0 s)).toNat = (integer0 s % 2 ^ 16).toNat :=
    UInt16.toNat_ofNat_of_lt' hlow
  rw [← UInt16.toNat_inj, htoNat']
  omega

/-! ## Integer tokens -/

variable {token : List UInt8} {n : ℤ}

theorem integer0_of_integerOf (h : integerOf token = some n) : integer0 token = n := by
  rw [integerOf] at h
  split_ifs at h
  exact Option.some.inj h

theorem nul_notMem_of_all {base : ℕ} (hbase : base ≤ 36) {s : List UInt8}
    (h : s.all (digitValue · < base) = true) : 0 ∉ s := by
  intro hmem
  have hlt := of_decide_eq_true (List.all_eq_true.mp h 0 hmem)
  have hzero : digitValue 0 = 36 := rfl
  omega

theorem nul_notMem_of_isMagnitude0 {s : List UInt8} (h : isMagnitude0 s = true) : 0 ∉ s := by
  rw [isMagnitude0] at h
  split_ifs at h with hzero hhex
  · -- the digits stand behind `0x`
    match s, hzero, hhex with
    | c :: x :: digits, hzero, hhex =>
      have hdigits := nul_notMem_of_all (by decide) h
      simp only [isHexadecimal, Bool.and_eq_true, Bool.or_eq_true, List.getElem?_cons_succ,
        List.getElem?_cons_zero, beq_iff_eq, Option.some.injEq, List.head?_cons] at hzero hhex
      subst hzero
      rw [List.mem_cons, List.mem_cons, not_or, not_or]
      refine ⟨by decide, ?_, hdigits⟩
      rcases hhex.1 with rfl | rfl <;> decide
  · exact nul_notMem_of_all (by decide) h
  · exact nul_notMem_of_all (by decide) (Bool.and_eq_true_iff.mp h).2

/-- An integer token has no NUL. -/
theorem nul_notMem_of_integerOf (h : integerOf token = some n) : 0 ∉ token := by
  rw [integerOf] at h
  split_ifs at h with hmagnitude
  have hnul := nul_notMem_of_isMagnitude0 hmagnitude
  rw [dropSign] at hnul
  split_ifs at hnul with hsign
  · match token, hsign with
    | c :: digits, hsign =>
      simp only [List.head?_cons, Bool.or_eq_true, beq_iff_eq, Option.some.injEq] at hsign
      rw [List.mem_cons, not_or]
      refine ⟨?_, hnul⟩
      rcases hsign with rfl | rfl <;> decide
  · exact hnul

end CS536Labs
