import CS536Labs.Foundations.Integers
import CS536Labs.Foundations.Rounding

/-!
# `long double` and `strtold`

`long double` has 64 binary digits. `strtold` reads the number that a text starts with and rounds
it; the words for infinity and for values that are no number are read, too.

* `one_add_eq_zero_iff`: -1 is the only value that makes a divisor `1 + x` zero.
* `strtold_eq_neg_one_iff`: the numbers that are read as -1.
-/

namespace CS536Labs

/-- The format of `long double`. -/
def extended : FloatFormat := ⟨64, -16445, 16384, by decide⟩

/-- The values of `long double`, without the sign of zero. -/
inductive LongDouble
  | finite (q : { q : ℚ // extended.Representable q })
  | infinity (negative : Bool)
  | nan
  deriving DecidableEq

namespace LongDouble

/-- The result of a conversion or an operation with the exact value. -/
def ofRat (q : ℚ) : LongDouble :=
  if h : |extended.round q| < 2 ^ extended.maxExponent then
    .finite ⟨extended.round q, FloatFormat.representable_round h⟩
  else .infinity (q < 0)

/-- The sum of two values. -/
def add : LongDouble → LongDouble → LongDouble
  | finite p, finite q => ofRat (p + q)
  | finite _, y => y
  | x, finite _ => x
  | infinity negative, infinity negative' =>
    if negative = negative' then infinity negative else nan
  | _, _ => nan

def neg : LongDouble → LongDouble
  | finite p => ofRat (-p)
  | infinity negative => infinity !negative
  | nan => nan

/-- The product of two values. -/
def mul : LongDouble → LongDouble → LongDouble
  | finite p, finite q => ofRat (p * q)
  | finite p, infinity negative => if p.val = 0 then nan else infinity (negative ^^ p.val < 0)
  | infinity negative, finite q => if q.val = 0 then nan else infinity (negative ^^ q.val < 0)
  | infinity negative, infinity negative' => infinity (negative ^^ negative')
  | _, _ => nan

/-- The quotient of two values. A divisor zero counts as positive. -/
def div : LongDouble → LongDouble → LongDouble
  | finite p, finite q =>
    if q.val = 0 then if p.val = 0 then nan else infinity (p.val < 0) else ofRat (p / q)
  | finite _, infinity _ => ofRat 0
  | infinity negative, finite q => infinity (negative ^^ q.val < 0)
  | _, _ => nan

instance : Add LongDouble := ⟨add⟩

instance : Sub LongDouble := ⟨fun x y => add x (neg y)⟩

instance : Mul LongDouble := ⟨mul⟩

instance : Div LongDouble := ⟨div⟩

/-- The conversion of an integer. -/
instance : IntCast LongDouble := ⟨fun n => ofRat n⟩

instance : NatCast LongDouble := ⟨fun n => ofRat n⟩

/-- `x < y`. -/
def lt : LongDouble → LongDouble → Bool
  | finite p, finite q => p.val < q.val
  | finite _, infinity negative => !negative
  | infinity negative, finite _ => negative
  | infinity negative, infinity negative' => negative && !negative'
  | _, _ => false

theorem ofRat_eq_finite_iff {q : ℚ} {r : { r : ℚ // extended.Representable r }} :
    ofRat q = .finite r ↔ extended.round q = r := by
  rw [ofRat]
  split_ifs with h
  · rw [finite.injEq, Subtype.ext_iff]
  · refine iff_of_false nofun fun hround => h ?_
    rw [hround]
    exact r.property.2

/-- A number of the format is converted to itself. -/
theorem ofRat_of_representable {q : ℚ} (h : extended.Representable q) : ofRat q = .finite ⟨q, h⟩ :=
  ofRat_eq_finite_iff.mpr h.1

theorem round_one : extended.round 1 = 1 := by
  rw [FloatFormat.round_eq_one_iff (by decide) (by decide)]
  constructor <;> norm_num [extended]

theorem representable_of_abs_le_one {q : ℚ} (hround : extended.round q = q) (hq : |q| ≤ 1) :
    extended.Representable q :=
  ⟨hround, hq.trans_lt (one_lt_zpow₀ (by norm_num) (by decide))⟩

theorem representable_zero : extended.Representable 0 :=
  representable_of_abs_le_one FloatFormat.round_zero (by norm_num)

theorem representable_one : extended.Representable 1 :=
  representable_of_abs_le_one round_one (by norm_num)

theorem representable_neg_one : extended.Representable (-1) :=
  representable_of_abs_le_one (by rw [FloatFormat.round_neg, round_one]) (by norm_num)

/-- **A divisor `1 + x`** is zero for -1 only. -/
theorem one_add_eq_zero_iff (x : LongDouble) :
    add (ofRat 1) x = ofRat 0 ↔ x = ofRat (-1) := by
  rw [ofRat_of_representable representable_zero, ofRat_of_representable representable_one,
    ofRat_of_representable representable_neg_one]
  cases x with
  | finite q =>
    rw [add, ofRat_eq_finite_iff, representable_one.round_add_eq_zero_iff q.property, finite.injEq,
      Subtype.ext_iff]
    constructor <;> intro h <;> linarith
  | infinity negative => exact iff_of_false nofun nofun
  | nan => exact iff_of_false nofun nofun

/-! ### Values that are not negative -/

theorem ofRat_lt_zero {q : ℚ} (h : 0 ≤ q) : (ofRat q).lt (ofRat 0) = false := by
  rw [ofRat_of_representable representable_zero, ofRat]
  split_ifs
  · exact decide_eq_false (not_lt.mpr (FloatFormat.round_nonneg h))
  · exact decide_eq_false (not_lt.mpr h)

theorem nan_lt (y : LongDouble) : nan.lt y = false := by
  cases y <;> rfl

theorem finite_lt_zero {p : { q : ℚ // extended.Representable q }} :
    (finite p).lt (ofRat 0) = false ↔ 0 ≤ p.val := by
  rw [ofRat_of_representable representable_zero, lt, decide_eq_false_iff_not, not_lt]

/-- **A quotient** of values that are not negative is not negative. -/
theorem div_lt_zero {x y : LongDouble} (hx : x.lt (ofRat 0) = false)
    (hy : y.lt (ofRat 0) = false) : (x / y).lt (ofRat 0) = false := by
  have hzero := ofRat_of_representable representable_zero
  cases x with
  | finite p =>
    have hp := finite_lt_zero.mp hx
    cases y with
    | finite q =>
      have hq := finite_lt_zero.mp hy
      show (div (finite p) (finite q)).lt (ofRat 0) = false
      rw [div]
      split_ifs
      · exact nan_lt _
      · rw [hzero, lt, decide_eq_false_iff_not, not_lt]
        exact hp
      · exact ofRat_lt_zero (div_nonneg hp hq)
    | infinity negative => exact ofRat_lt_zero (le_refl 0)
    | nan => exact nan_lt _
  | infinity negative =>
    cases y with
    | finite q =>
      have hq := decide_eq_false (not_lt.mpr (finite_lt_zero.mp hy))
      rw [hzero] at hx ⊢
      show (negative ^^ decide (q.val < 0)) = false
      rw [hq, Bool.xor_false]
      exact hx
    | infinity negative' => exact nan_lt _
    | nan => exact nan_lt _
  | nan => cases y <;> exact nan_lt _

theorem ofRat_eq_neg_one_iff (q : ℚ) :
    ofRat q = ofRat (-1) ↔ -1 - 2 ^ (-64 : ℤ) ≤ q ∧ q ≤ -1 + 2 ^ (-65 : ℤ) := by
  have hround := FloatFormat.round_eq_one_iff (f := extended) (by decide) (by decide) (-q)
  rw [FloatFormat.round_neg] at hround
  rw [ofRat_of_representable representable_neg_one, ofRat_eq_finite_iff, ← neg_eq_iff_eq_neg,
    hround]
  norm_num [extended]
  constructor <;> rintro ⟨hlow, hhigh⟩ <;> constructor <;> linarith

end LongDouble

/-! ## `strtold` -/

/-- `tolower` in the C locale. -/
def toLower (c : UInt8) : UInt8 := if 0x41 ≤ c && c ≤ 0x5a then c + 0x20 else c

/-- The text starts with the word, in upper or lower case. -/
def startsWithWord (s word : List UInt8) : Bool := (s.take word.length).map toLower == word

/-- The exponent behind its letter. -/
def readExponent (letter : UInt8) (s : List UInt8) : ℤ :=
  if s.head?.any (toLower · == letter) then
    if s.tail.head? == some 0x2d then -readDigits 10 (dropSign s.tail)
    else readDigits 10 (dropSign s.tail)
  else 0

/-- The number that digits with a point and an exponent denote. -/
def readScientific (base : ℕ) (radix : ℚ) (letter : UInt8) (s : List UInt8) : ℚ :=
  let whole := s.takeWhile (digitValue · < base)
  let rest := s.dropWhile (digitValue · < base)
  let fraction := if rest.head? == some 0x2e then rest.tail.takeWhile (digitValue · < base) else []
  let rest :=
    if rest.head? == some 0x2e then rest.tail.dropWhile (digitValue · < base) else rest
  readDigits base (whole ++ fraction) * radix ^ readExponent letter rest / base ^ fraction.length

/-- The text goes on behind `0x` with a digit, or with a point and a digit. -/
def isHexadecimalNumber (s : List UInt8) : Bool :=
  (s[1]? == some 0x78 || s[1]? == some 0x58) &&
    (s[2]?.any (digitValue · < 16) || (s[2]? == some 0x2e && s[3]?.any (digitValue · < 16)))

/-- The number without a sign that the text starts with. -/
def readMagnitude (s : List UInt8) : ℚ :=
  if s.head? == some 0x30 && isHexadecimalNumber s then readScientific 16 2 0x70 (s.drop 2)
  else readScientific 10 10 0x65 s

/-- The number that the text starts with, behind white space. -/
def readNumber (s : List UInt8) : ℚ :=
  let s := s.dropWhile isSpace
  if s.head? == some 0x2d then -readMagnitude (dropSign s) else readMagnitude (dropSign s)

/-- `strtold(s, NULL)`: the number is rounded to the nearest value. -/
def strtold (s : List UInt8) : LongDouble :=
  let t := s.dropWhile isSpace
  if startsWithWord (dropSign t) [0x69, 0x6e, 0x66] then .infinity (t.head? == some 0x2d)
  else if startsWithWord (dropSign t) [0x6e, 0x61, 0x6e] then .nan
  else .ofRat (readNumber s)

/-- No number starts with such a character. -/
theorem readMagnitude_cons_eq_zero {c : UInt8} (hdigit : 10 ≤ digitValue c) (hpoint : c ≠ 0x2e)
    (s : List UInt8) : readMagnitude (c :: s) = 0 := by
  have hzero : c ≠ 0x30 := by
    rintro rfl
    revert hdigit
    decide
  have hnot : ¬ digitValue c < 10 := not_lt.mpr hdigit
  simp [readMagnitude, readScientific, readDigits, hzero, hnot, hpoint]

/-- The first letters of the words are no digits. -/
theorem digitValue_of_toLower {c : UInt8} (h : toLower c = 0x69 ∨ toLower c = 0x6e) :
    10 ≤ digitValue c ∧ c ≠ 0x2e := by
  have hcases : c = 0x69 ∨ c = 0x49 ∨ c = 0x6e ∨ c = 0x4e := by
    rw [toLower] at h
    split_ifs at h
    · rcases h with h | h
      · exact .inr (.inl ((UInt8.add_left_inj 0x20).mp h))
      · exact .inr (.inr (.inr ((UInt8.add_left_inj 0x20).mp h)))
    · rcases h with h | h
      · exact .inl h
      · exact .inr (.inr (.inl h))
  rcases hcases with rfl | rfl | rfl | rfl <;> decide

/-- The words are no numbers. -/
theorem readNumber_of_startsWithWord {s word : List UInt8} {letter : UInt8}
    (hletter : letter = 0x69 ∨ letter = 0x6e)
    (h : startsWithWord (dropSign (s.dropWhile isSpace)) (letter :: word) = true) :
    readNumber s = 0 := by
  have hzero : readMagnitude (dropSign (s.dropWhile isSpace)) = 0 := by
    generalize dropSign (s.dropWhile isSpace) = t at h
    cases t with
    | nil => simp [startsWithWord] at h
    | cons c t =>
      have hc : toLower c = letter := by
        simp only [startsWithWord, List.length_cons, List.take_succ_cons, List.map_cons,
          beq_iff_eq, List.cons.injEq] at h
        exact h.1
      obtain ⟨hdigit, hpoint⟩ := digitValue_of_toLower (hc ▸ hletter)
      exact readMagnitude_cons_eq_zero hdigit hpoint t
  rw [readNumber]
  simp [hzero]

/-- **The texts that are read as -1.** -/
theorem strtold_eq_neg_one_iff (s : List UInt8) :
    strtold s = .ofRat (-1) ↔
      -1 - 2 ^ (-64 : ℤ) ≤ readNumber s ∧ readNumber s ≤ -1 + 2 ^ (-65 : ℤ) := by
  have hzero : ¬ (-1 - 2 ^ (-64 : ℤ) ≤ (0 : ℚ) ∧ (0 : ℚ) ≤ -1 + 2 ^ (-65 : ℤ)) := by norm_num
  have hfinite := LongDouble.ofRat_of_representable LongDouble.representable_neg_one
  rw [strtold]
  split_ifs with hinfinity hnan
  · rw [readNumber_of_startsWithWord (.inl rfl) hinfinity, hfinite]
    exact iff_of_false nofun hzero
  · rw [readNumber_of_startsWithWord (.inr rfl) hnan, hfinite]
    exact iff_of_false nofun hzero
  · exact LongDouble.ofRat_eq_neg_one_iff _

end CS536Labs
