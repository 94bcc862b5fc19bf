import CS536Labs.Lab1.ParseCommandWords

/-!
# Quoted command lines

`quoteLine` writes a list of arguments as a command line that names them back: every argument
between double quotes, double quotes and backslashes escaped, single spaces between and a newline
at the end. The words of the line are the arguments (`words_quoteLine`) and the newline closes
the last of them, so `parse_command` delivers the list (`parseCommand_quoteLine`).
-/

namespace CS536Labs.Lab1

/-- A byte inside double quotes: a double quote or a backslash gets a backslash before it. -/
def quoteByte (c : UInt8) : List UInt8 := if c = 0x22 ∨ c = 0x5c then [0x5c, c] else [c]

/-- An argument between double quotes. -/
def quoteArgument (a : List UInt8) : List UInt8 := 0x22 :: (a.flatMap quoteByte ++ [0x22])

/-- The bytes of the line that quotes the arguments `as`. -/
def quoteBytes (as : List (List UInt8)) : List UInt8 :=
  [0x20].intercalate (as.map quoteArgument) ++ [0x0a]

theorem zero_notMem_quoteArgument {a : List UInt8} (h : 0 ∉ a) : 0 ∉ quoteArgument a := by
  simp only [quoteArgument, List.mem_cons, List.mem_append, List.mem_flatMap, not_or]
  refine ⟨by decide, ?_, by decide, by simp⟩
  rintro ⟨c, hc, h0⟩
  have hne : c ≠ 0 := by rintro rfl; exact h hc
  unfold quoteByte at h0
  split_ifs at h0 <;> simp [hne.symm] at h0

theorem zero_notMem_quoteBytes {as : List (List UInt8)} (h : ∀ a ∈ as, 0 ∉ a) :
    0 ∉ quoteBytes as := by
  simp only [quoteBytes, List.mem_append, not_or]
  refine ⟨?_, by decide⟩
  induction as with
  | nil => simp [List.intercalate]
  | cons a as ih =>
    have ha := zero_notMem_quoteArgument (h a (by simp))
    have ih := ih fun b hb => h b (by simp [hb])
    cases as with
    | nil => simpa [List.intercalate] using ha
    | cons b as => simpa [List.intercalate, ha] using ih

/-- The command line that quotes the arguments `args`. -/
def quoteLine (args : List CString) : CString where
  bytes := quoteBytes (args.map CString.bytes)
  noNul := zero_notMem_quoteBytes (by simpa using fun a _ => a.noNul)

theorem quoteBytes_cons_cons (a b : List UInt8) (as : List (List UInt8)) :
    quoteBytes (a :: b :: as) = quoteArgument a ++ 0x20 :: quoteBytes (b :: as) := by
  simp [quoteBytes, List.intercalate]

/-- Inside quotes the escaped text reads back as the text. -/
theorem wordFrom_quoted (a t : List UInt8) :
    wordFrom true (a.flatMap quoteByte ++ 0x22 :: t) =
      (a ++ (wordFrom false t).1, (wordFrom false t).2) := by
  induction a with
  | nil => rw [wordFrom.eq_def]; simp
  | cons c a ih =>
    rw [List.flatMap_cons, List.append_assoc]
    by_cases h : c = 0x22 ∨ c = 0x5c
    · rw [quoteByte, if_pos h, List.cons_append, List.singleton_append, wordFrom.eq_def]
      simp [ih]
    · rw [quoteByte, if_neg h, List.singleton_append, wordFrom.eq_def]
      obtain ⟨hq, he⟩ := not_or.mp h
      simp [ih, hq, he]

/-- A quoted argument is one word, up to the separator after it. -/
theorem wordFrom_quoteArgument (a : List UInt8) {c : UInt8} (hc : isSeparator c = true)
    (t : List UInt8) : wordFrom false (quoteArgument a ++ c :: t) = (a, c :: t) := by
  have hne : c ≠ 0x22 ∧ c ≠ 0x5c := by constructor <;> rintro rfl <;> exact absurd hc (by decide)
  have hend : wordFrom false (c :: t) = ([], c :: t) := by
    rw [wordFrom.eq_def]
    simp [hne, hc]
  have h := wordFrom_quoted a (c :: t)
  rw [hend, List.append_nil] at h
  rw [quoteArgument, List.cons_append, wordFrom.eq_def]
  simpa using h

theorem scan_quoteArgument (a : List UInt8) {c : UInt8} (hc : isSeparator c = true)
    (t : List UInt8) : scan (quoteArgument a ++ c :: t) = (a, c :: t) :: scan t := by
  have hs : scan (quoteArgument a ++ c :: t) = wordFrom false (quoteArgument a ++ c :: t) ::
      scan (wordFrom false (quoteArgument a ++ c :: t)).2 :=
    scan_cons_word (by decide) _
  rw [hs, wordFrom_quoteArgument a hc t, scan_cons_separator hc]

/-- The words of the quoted line are the arguments. -/
theorem words_quoteLine (as : List (List UInt8)) : words (quoteBytes as) = as := by
  induction as with
  | nil => simp [words, quoteBytes, List.intercalate, scan_cons_separator, isSeparator]
  | cons a as ih =>
    cases as with
    | nil =>
      have h := scan_quoteArgument a (c := 0x0a) (by decide) []
      simpa [words, quoteBytes, List.intercalate] using congrArg (List.map Prod.fst) h
    | cons b as =>
      rw [quoteBytes_cons_cons, words, scan_quoteArgument a (by decide), List.map_cons]
      exact congrArg (a :: ·) ih

/-- The newline closes the last word of the quoted line, and nothing follows it. -/
theorem endsWell_quoteLine (as : List (List UInt8)) : EndsWell (quoteBytes as) := by
  induction as with
  | nil =>
    simp [EndsWell, ClosedWell, quoteBytes, List.intercalate, scan_cons_separator, isSeparator]
  | cons a as ih =>
    cases as with
    | nil =>
      have h := scan_quoteArgument a (c := 0x0a) (by decide) []
      rw [scan_nil] at h
      simp [EndsWell, ClosedWell, quoteBytes, List.intercalate, h]
    | cons b as =>
      have hne : scan (quoteBytes (b :: as)) ≠ [] := fun h => by
        have := words_quoteLine (b :: as)
        simp [words, h] at this
      obtain ⟨p, ps, hps⟩ := List.exists_cons_of_ne_nil hne
      rw [EndsWell, hps] at ih
      rw [EndsWell, quoteBytes_cons_cons, scan_quoteArgument a (by decide), hps,
        List.getLast?_cons_cons]
      exact ih

/-- **Quoting round trip**: on the line that quotes `args`, `parse_command` yields exactly
`args`, then `NULL`. -/
theorem parseCommand_quoteLine (uninit : Effect) (args : List CString)
    (h : ∀ a ∈ args, a.bytes.length < argumentSize) :
    parseCommand uninit (quoteLine args) = some (argv (args.map CString.bytes)) := by
  have hw : words (quoteLine args).bytes = args.map CString.bytes := words_quoteLine _
  have hlen : ∀ w ∈ words (quoteLine args).bytes, w.length < argumentSize := by
    rw [hw]
    simpa using h
  rw [parseCommand_eq uninit _ hlen, ← hw]
  exact congrArg (fun ws => some (argv ws))
    ((delivered_eq_iff _).mpr (endsWell_quoteLine (args.map CString.bytes)))

theorem parseCommand_quoteLine_pair :
    parseCommand ⟨.lookForArg, .ignore⟩ (quoteLine [⟨[], by decide⟩, ⟨[0x20, 0x22], by decide⟩]) =
      some (argv [[], [0x20, 0x22]]) :=
  parseCommand_quoteLine ⟨.lookForArg, .ignore⟩ [⟨[], by decide⟩, ⟨[0x20, 0x22], by decide⟩]
    (by decide)

end CS536Labs.Lab1
