import CS536Labs.Foundations.Numerals

/-!
# IPv4 addresses as text

An address is its four bytes in network order. `inetNtop` prints it in dotted decimal form and
`inetPton` reads that form: four numerals of 0 to 255 without leading zeros, separated by dots.

`inetPton_eq_some_iff` says that the two are inverse to each other: `inet_pton` accepts exactly what
`inet_ntop` prints.
-/

namespace CS536Labs

/-- `INET_ADDRSTRLEN`. -/
def inetAddrstrlen : ℕ := 16

/-- `inet_ntop(AF_INET, ..)`. -/
def inetNtop (addr : List UInt8) : List UInt8 :=
  [0x2e].intercalate (addr.map fun octet => numeral octet.toNat)

/-- One of the four numbers. -/
def parseOctet (token : List UInt8) : Option UInt8 :=
  if token ≠ [] ∧ token.length ≤ 3 ∧ token.all isDigit ∧
      (token.head? ≠ some 0x30 ∨ token = [0x30]) ∧ decimalValue token ≤ 255 then
    some (UInt8.ofNat (decimalValue token))
  else none

/-- `inet_pton(AF_INET, ..)`: the address, `none` for the return value 0. -/
def inetPton (s : List UInt8) : Option (List UInt8) :=
  let tokens := s.splitOn 0x2e
  if tokens.length = 4 then tokens.mapM parseOctet else none

theorem parseOctet_eq_some_iff (token : List UInt8) (octet : UInt8) :
    parseOctet token = some octet ↔ token = numeral octet.toNat := by
  rw [parseOctet]
  constructor
  · intro h
    split_ifs at h with hcond
    obtain ⟨hne, -, hdigits, hhead, hle⟩ := hcond
    have hvalue : octet.toNat = decimalValue token := by
      rw [← Option.some.inj h, UInt8.toNat_ofNat']
      omega
    rw [hvalue]
    rcases hhead with hhead | rfl
    · rw [(numeral_decimalValue hne (List.all_eq_true.mp hdigits) hhead).2]
    · rfl
  · rintro rfl
    have hlt := octet.toNat_lt
    rw [decimalValue_numeral, UInt8.ofNat_toNat, if_pos]
    refine ⟨numeral_ne_nil _, length_numeral_le (by decide) (by omega), ?_, ?_, by omega⟩
    · rw [List.all_eq_true]
      intro c hc
      exact isDigit_of_mem_numeral hc
    · rcases Nat.eq_zero_or_pos octet.toNat with hzero | hpos
      · rw [hzero]
        exact .inr rfl
      · exact .inl (head?_numeral hpos)

theorem mapM_parseOctet_eq_some_iff (tokens : List (List UInt8)) (addr : List UInt8) :
    tokens.mapM parseOctet = some addr ↔ tokens = addr.map fun octet => numeral octet.toNat := by
  induction tokens generalizing addr with
  | nil => cases addr <;> simp
  | cons token tokens ih =>
    cases addr with
    | nil => simp [Option.bind_eq_some_iff]
    | cons octet addr =>
      simp only [List.mapM_cons, Option.bind_eq_bind, Option.bind_eq_some_iff, Option.pure_def,
        Option.some.injEq, List.cons.injEq, List.map_cons, ← parseOctet_eq_some_iff, ← ih]
      constructor
      · rintro ⟨_, h, _, h', rfl, rfl⟩
        exact ⟨h, h'⟩
      · rintro ⟨h, h'⟩
        exact ⟨octet, h, addr, h', rfl, rfl⟩

theorem dot_notMem_numeral (n : ℕ) : (0x2e : UInt8) ∉ numeral n := by
  intro h
  exact absurd (isDigit_of_mem_numeral h) (by decide)

/-- **`inet_pton` accepts exactly what `inet_ntop` prints.** -/
theorem inetPton_eq_some_iff (s addr : List UInt8) :
    inetPton s = some addr ↔ addr.length = 4 ∧ s = inetNtop addr := by
  rw [inetPton]
  constructor
  · intro h
    split_ifs at h with hlen
    rw [mapM_parseOctet_eq_some_iff] at h
    rw [h, List.length_map] at hlen
    refine ⟨hlen, ?_⟩
    rw [inetNtop, ← h, List.intercalate_splitOn]
  · rintro ⟨hlen, rfl⟩
    have htokens : (inetNtop addr).splitOn 0x2e = addr.map fun octet => numeral octet.toNat := by
      apply List.splitOn_intercalate
      · intro token htoken
        obtain ⟨octet, -, rfl⟩ := List.mem_map.mp htoken
        exact dot_notMem_numeral _
      · intro hnil
        rw [List.map_eq_nil_iff.mp hnil] at hlen
        cases hlen
    rw [htokens, List.length_map, if_pos hlen, mapM_parseOctet_eq_some_iff]

theorem inetPton_inetNtop {addr : List UInt8} (h : addr.length = 4) :
    inetPton (inetNtop addr) = some addr :=
  (inetPton_eq_some_iff _ _).mpr ⟨h, rfl⟩

theorem length_of_inetPton {s addr : List UInt8} (h : inetPton s = some addr) :
    addr.length = 4 :=
  ((inetPton_eq_some_iff _ _).mp h).1

theorem inetNtop_inj {addr addr' : List UInt8} (h : addr.length = 4) (h' : addr'.length = 4)
    (heq : inetNtop addr = inetNtop addr') : addr = addr' := by
  have hsome := inetPton_inetNtop h
  rw [heq, inetPton_inetNtop h'] at hsome
  exact (Option.some.inj hsome).symm

/-! ## The text fits its array -/

theorem mem_inetNtop {addr : List UInt8} {c : UInt8} (hc : c ∈ inetNtop addr) :
    isDigit c = true ∨ c = 0x2e := by
  induction addr with
  | nil => simp [inetNtop] at hc
  | cons octet addr ih =>
    cases addr with
    | nil =>
      apply Or.inl
      exact isDigit_of_mem_numeral (by simpa [inetNtop, List.intercalate] using hc)
    | cons octet' addr =>
      rw [inetNtop, List.map_cons, List.map_cons, List.intercalate_cons_cons] at hc
      rcases List.mem_append.mp hc with hc | hc
      · rcases List.mem_append.mp hc with hc | hc
        · exact .inl (isDigit_of_mem_numeral hc)
        · exact .inr (List.mem_singleton.mp hc)
      · exact ih hc

/-- A string of digits and dots has no NUL. -/
theorem nul_notMem_inetNtop (addr : List UInt8) : 0 ∉ inetNtop addr := by
  intro h
  rcases mem_inetNtop h with hdigit | hdot
  · exact absurd hdigit (by decide)
  · exact absurd hdot (by decide)

theorem nul_notMem_numeral (n : ℕ) : (0 : UInt8) ∉ numeral n := by
  intro h
  exact absurd (isDigit_of_mem_numeral h) (by decide)

/-- Four numbers of at most three digits and three dots. -/
theorem length_inetNtop_lt {addr : List UInt8} (h : addr.length = 4) :
    (inetNtop addr).length < inetAddrstrlen := by
  obtain ⟨a, b, c, d, rfl⟩ := List.length_eq_four.mp h
  have hoctet : ∀ octet : UInt8, (numeral octet.toNat).length ≤ 3 := by
    intro octet
    have := octet.toNat_lt
    exact length_numeral_le (by decide) (by omega)
  have ha := hoctet a
  have hb := hoctet b
  have hc := hoctet c
  have hd := hoctet d
  simp only [inetNtop, List.map_cons, List.map_nil, List.intercalate_cons_cons,
    List.intercalate_singleton, List.length_append, List.length_singleton, inetAddrstrlen]
  omega

end CS536Labs
