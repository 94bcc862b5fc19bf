import CS536Labs.Foundations.Integers
import CS536Labs.Foundations.Tokens

/-!
# `lab2/v1/read_config.c`

The parameters of the ping client, from `pingparam.dat`. `read_config` converts four tokens to the
types of the fields and passes three of the fields to `sanitize_parameter`, which accepts 0 to 5 and
99: the right values of the server delay, which is the field that it does not see.

* `Documented` says which files the README allows.
* `readConfig_eq_zero_iff`: the files that `read_config` accepts, from the integers of their tokens.
* `acceptsDocumented_iff`: for which files the two agree.
-/

namespace CS536Labs.Lab2

structure Config where
  numPackages : UInt16
  timeout : UInt16
  serverDelay : UInt8
  firstSequenceNum : Int32
  deriving DecidableEq, Inhabited

/-- `BUFFER_SIZE` of `read_config.c`. -/
def configBufferSize : ℕ := 128

def sanitizeParameter (param : ℤ) : ℤ :=
  if param < 0 ∨ (param > 5 ∧ param ≠ 99) then -1 else 0

/-- `read_config` on the tokens of the file. Each of them is converted before the next is looked
for. -/
def readParameters (config : Config) : List (List UInt8) → ℤ × Config
  | [] => (-1, config)
  | [n] => (-1, { config with numPackages := UInt16.ofNat (strtoul0 n) })
  | [n, t] => (-1, { config with
      numPackages := UInt16.ofNat (strtoul0 n)
      timeout := UInt16.ofNat (strtoul0 t) })
  | [n, t, d] => (-1, { config with
      numPackages := UInt16.ofNat (strtoul0 n)
      timeout := UInt16.ofNat (strtoul0 t)
      serverDelay := UInt8.ofNat (strtoul0 d) })
  | n :: t :: d :: s :: _ =>
    let config : Config :=
      { numPackages := UInt16.ofNat (strtoul0 n)
        timeout := UInt16.ofNat (strtoul0 t)
        serverDelay := UInt8.ofNat (strtoul0 d)
        firstSequenceNum := Int32.ofInt (strtol0 s) }
    if sanitizeParameter config.numPackages.toNat = -1 ∨
        sanitizeParameter config.timeout.toNat = -1 ∨
        sanitizeParameter config.firstSequenceNum.toInt = -1 then (-1, config)
    else (0, config)

/-- `read_config`, where the file has a content if it can be opened. -/
def readConfig (content : Option (List UInt8)) (config : Config) : ℤ × Config :=
  match content with
  | none => (-1, config)
  | some content =>
    let content := content.take configBufferSize
    if content = [] then (-1, config)
    else readParameters config (tokens isBlank (cString content))

/-! ## The documented parameters -/

/-- A value that `sanitize_parameter` accepts. -/
def ValidParameter (v : ℤ) : Prop := (0 ≤ v ∧ v ≤ 5) ∨ v = 99

/-- The first four tokens of the file are integers in their ranges. -/
structure Documented (content : List UInt8) (n t d s : ℤ) : Prop where
  tokens : ((tokens isBlank content).take 4).map integerOf = [some n, some t, some d, some s]
  numPackages : 1 ≤ n ∧ n ≤ 7
  timeout : 1 ≤ t ∧ t ≤ 5
  serverDelay : ValidParameter d
  firstSequenceNum : -2 ^ 31 ≤ s ∧ s < 2 ^ 31

structure Config.Holds (config : Config) (n t d s : ℤ) : Prop where
  numPackages : (config.numPackages.toNat : ℤ) = n
  timeout : (config.timeout.toNat : ℤ) = t
  serverDelay : (config.serverDelay.toNat : ℤ) = d
  firstSequenceNum : config.firstSequenceNum.toInt = s

/-- `read_config` accepts the file exactly when it is documented, and then stores its numbers. -/
structure AcceptsDocumented (content : List UInt8) : Prop where
  accepts : ∀ config, (readConfig (some content) config).1 = 0 ↔
    ∃ n t d s, Documented content n t d s
  holds : ∀ config n t d s, Documented content n t d s →
    (readConfig (some content) config).1 = 0 → (readConfig (some content) config).2.Holds n t d s

/-- The low 16 bits of an integer that fits 64 bits are allowed. -/
def PassesUshort (v : ℤ) : Prop := v.natAbs < 2 ^ 64 ∧ ValidParameter (v % 2 ^ 16)

/-- The low 32 bits of the integer, saturated in 64 bits, are allowed. -/
def PassesInt32 (v : ℤ) : Prop := v < 2 ^ 63 ∧ ValidParameter (max (-2 ^ 63) v % 2 ^ 32)

/-- The tokens that the string in the file has, and what passes the checks of three of them. -/
def Passes (content : List UInt8) : Prop :=
  ∃ n t d s more, tokens isBlank (cString content) = n :: t :: d :: s :: more ∧
    PassesUshort (integer0 n) ∧ PassesUshort (integer0 t) ∧ PassesInt32 (integer0 s)

/-- A documented file has a number of packets and a first sequence number that are allowed as server
delays; a file that is not documented has a number whose low bits are not, or too few tokens. -/
def ChecksSuffice (content : List UInt8) : Prop :=
  (∃ n t d s, Documented content n t d s ∧ n ≤ 5 ∧ ValidParameter s) ∨
    ((¬ ∃ n t d s, Documented content n t d s) ∧ ¬ Passes content)

/-! ## The checks -/

theorem sanitizeParameter_ne_iff (v : ℤ) : sanitizeParameter v ≠ -1 ↔ ValidParameter v := by
  unfold sanitizeParameter ValidParameter
  split_ifs <;> omega

theorem validParameter_ushort_iff (s : List UInt8) :
    ValidParameter (UInt16.ofNat (strtoul0 s)).toNat ↔ PassesUshort (integer0 s) := by
  rw [toNat_ofNat_strtoul0]
  unfold PassesUshort ValidParameter
  split_ifs <;> omega

theorem validParameter_int32_iff (s : List UInt8) :
    ValidParameter (Int32.ofInt (strtol0 s)).toInt ↔ PassesInt32 (integer0 s) := by
  have hsize : Int32.size = 4294967296 := rfl
  rw [Int32.toInt_ofInt, Int.bmod_def, strtol0, hsize]
  unfold PassesInt32 ValidParameter
  split_ifs <;> omega

/-- A file that fits the buffer is read as a whole. -/
theorem readConfig_eq {content : List UInt8} (h : content.length ≤ configBufferSize)
    (config : Config) :
    readConfig (some content) config =
      readParameters config (tokens isBlank (cString content)) := by
  simp only [readConfig, List.take_of_length_le h]
  split_ifs with hnil
  · rw [hnil]
    rfl
  · rfl

/-- **The files that are accepted.** -/
theorem readConfig_eq_zero_iff {content : List UInt8} (h : content.length ≤ configBufferSize)
    (config : Config) : (readConfig (some content) config).1 = 0 ↔ Passes content := by
  rw [readConfig_eq h, Passes]
  rcases tokens isBlank (cString content) with - | ⟨n, - | ⟨t, - | ⟨d, - | ⟨s, more⟩⟩⟩⟩
  · simp [readParameters]
  · simp [readParameters]
  · simp [readParameters]
  · simp [readParameters]
  · have hpass : (readParameters config (n :: t :: d :: s :: more)).1 = 0 ↔
        ValidParameter (UInt16.ofNat (strtoul0 n)).toNat ∧
          ValidParameter (UInt16.ofNat (strtoul0 t)).toNat ∧
          ValidParameter (Int32.ofInt (strtol0 s)).toInt := by
      rw [← sanitizeParameter_ne_iff, ← sanitizeParameter_ne_iff, ← sanitizeParameter_ne_iff]
      simp only [readParameters]
      split_ifs with hinvalid
      · refine iff_of_false (by simp) ?_
        rintro ⟨hn, ht, hs⟩
        exact hinvalid.elim hn fun h => h.elim ht hs
      · simp only [not_or] at hinvalid
        exact iff_of_true rfl hinvalid
    rw [hpass, validParameter_ushort_iff, validParameter_ushort_iff, validParameter_int32_iff]
    constructor
    · intro h
      exact ⟨n, t, d, s, more, rfl, h⟩
    · rintro ⟨_, _, _, _, _, ⟨⟩, h⟩
      exact h

/-! ## Documented files -/

variable {content : List UInt8} {n t d s : ℤ}

/-- The tokens of a documented file are those of the string in it. -/
theorem Documented.exists_tokens (h : Documented content n t d s) :
    ∃ a b c e more, CS536Labs.tokens isBlank (cString content) = a :: b :: c :: e :: more ∧
      integer0 a = n ∧ integer0 b = t ∧ integer0 c = d ∧ integer0 e = s := by
  have hnul : ∀ token ∈ (CS536Labs.tokens isBlank content).take 4, 0 ∉ token := by
    intro token htoken
    have hmem : integerOf token ∈ [some n, some t, some d, some s] := by
      rw [← h.tokens]
      exact List.mem_map_of_mem htoken
    obtain ⟨v, hv⟩ : ∃ v, integerOf token = some v := by
      simp only [List.mem_cons, List.not_mem_nil, or_false] at hmem
      rcases hmem with hv | hv | hv | hv <;> exact ⟨_, hv⟩
    exact nul_notMem_of_integerOf hv
  have htokens := h.tokens
  rw [← take_tokens_cString rfl hnul] at htokens
  generalize CS536Labs.tokens isBlank (cString content) = words at htokens ⊢
  rcases words with - | ⟨a, - | ⟨b, - | ⟨c, - | ⟨e, more⟩⟩⟩⟩
  · simp at htokens
  · simp at htokens
  · simp at htokens
  · simp at htokens
  · simp only [List.take_succ_cons, List.take_zero, List.map_cons, List.map_nil, List.cons.injEq,
      and_true] at htokens
    obtain ⟨ha, hb, hc, he⟩ := htokens
    exact ⟨a, b, c, e, more, rfl, integer0_of_integerOf ha, integer0_of_integerOf hb,
      integer0_of_integerOf hc, integer0_of_integerOf he⟩

/-- **The checks on a documented file.** -/
theorem Documented.passes_iff (h : Documented content n t d s) :
    Passes content ↔ n ≤ 5 ∧ ValidParameter s := by
  obtain ⟨a, b, c, e, more, htokens, ha, hb, -, he⟩ := h.exists_tokens
  have hn := h.numPackages
  have ht := h.timeout
  have hs := h.firstSequenceNum
  have hpass : Passes content ↔ PassesUshort n ∧ PassesUshort t ∧ PassesInt32 s := by
    rw [← ha, ← hb, ← he]
    constructor
    · rintro ⟨_, _, _, _, _, heq, hpass⟩
      rw [htokens] at heq
      cases heq
      exact hpass
    · intro hpass
      exact ⟨a, b, c, e, more, htokens, hpass⟩
  rw [hpass]
  unfold PassesUshort PassesInt32 ValidParameter
  omega

/-- **The values of a documented file** fit the fields. -/
theorem Documented.holds (h : Documented content n t d s)
    (hlen : content.length ≤ configBufferSize) (config : Config) :
    (readConfig (some content) config).2.Holds n t d s := by
  obtain ⟨a, b, c, e, more, htokens, ha, hb, hc, he⟩ := h.exists_tokens
  have hfields : (readConfig (some content) config).2 =
      ⟨UInt16.ofNat (strtoul0 a), UInt16.ofNat (strtoul0 b), UInt8.ofNat (strtoul0 c),
        Int32.ofInt (strtol0 e)⟩ := by
    rw [readConfig_eq hlen, htokens]
    simp only [readParameters]
    split_ifs <;> rfl
  have hn := h.numPackages
  have ht := h.timeout
  have hd := h.serverDelay
  have hs := h.firstSequenceNum
  rw [hfields]
  constructor
  · rw [toNat_ofNat_strtoul0, ha, if_neg (by omega)]
    omega
  · rw [toNat_ofNat_strtoul0, hb, if_neg (by omega)]
    omega
  · unfold ValidParameter at hd
    simp only [UInt8.toNat_ofNat', strtoul0_eq, hc]
    rw [if_neg (by omega)]
    omega
  · have hvalue : strtol0 e = s := by
      rw [strtol0, he]
      omega
    rw [hvalue]
    exact Int32.toInt_ofInt_of_le hs.1 hs.2

/-- **The documented parameters.** For every file of at most 128 bytes: `read_config` accepts it
exactly when it is documented, and stores the numbers, if and only if the checks suffice. -/
theorem acceptsDocumented_iff (content : List UInt8) (h : content.length ≤ configBufferSize) :
    AcceptsDocumented content ↔ ChecksSuffice content := by
  constructor
  · intro haccept
    have hiff := (readConfig_eq_zero_iff h default).symm.trans (haccept.accepts default)
    by_cases hdocumented : ∃ n t d s, Documented content n t d s
    · obtain ⟨n, t, d, s, hdoc⟩ := hdocumented
      exact .inl ⟨n, t, d, s, hdoc, hdoc.passes_iff.mp (hiff.mpr ⟨n, t, d, s, hdoc⟩)⟩
    · exact .inr ⟨hdocumented, mt hiff.mp hdocumented⟩
  · intro hchecks
    refine ⟨fun config => ?_, fun config n t d s hdoc _ => hdoc.holds h config⟩
    rw [readConfig_eq_zero_iff h]
    rcases hchecks with ⟨n, t, d, s, hdoc, hvalid⟩ | ⟨hnot, hfails⟩
    · exact iff_of_true (hdoc.passes_iff.mpr hvalid) ⟨n, t, d, s, hdoc⟩
    · exact iff_of_false hfails hnot

/-- The file `pingparam.dat`. -/
def sampleParameters : List UInt8 := [0x33, 0x20, 0x31, 0x20, 0x30, 0x20, 0x31]

theorem acceptsDocumented_sample : AcceptsDocumented sampleParameters := by
  refine (acceptsDocumented_iff sampleParameters (by decide)).mpr (.inl ⟨3, 1, 0, 1, ?_, ?_⟩)
  · exact ⟨by decide, by decide, by decide, .inl (by decide), by decide⟩
  · exact ⟨by decide, .inl (by decide)⟩

/-- The file `3 1 77 1`: a server delay of 77 seconds. -/
def longDelay : List UInt8 := [0x33, 0x20, 0x31, 0x20, 0x37, 0x37, 0x20, 0x31]

/-- The delay is not documented, and the file is accepted. -/
theorem not_acceptsDocumented_longDelay :
    longDelay.length ≤ configBufferSize ∧ readConfig (some longDelay) default = (0, ⟨3, 1, 77, 1⟩) ∧
      ¬ AcceptsDocumented longDelay := by
  have hread : readConfig (some longDelay) default = (0, ⟨3, 1, 77, 1⟩) := by decide
  refine ⟨by decide, hread, fun haccept => ?_⟩
  obtain ⟨n, t, d, s, hdoc⟩ := (haccept.accepts default).mp (by rw [hread])
  have hd : some 77 = some d := by
    have htokens := hdoc.tokens
    have hmap : ((tokens isBlank longDelay).take 4).map integerOf =
        [some 3, some 1, some 77, some 1] := by decide
    rw [hmap] at htokens
    exact (List.cons.inj (List.cons.inj (List.cons.inj htokens).2).2).1
  have hvalid := hdoc.serverDelay
  unfold ValidParameter at hvalid
  have := Option.some.inj hd
  omega

end CS536Labs.Lab2
