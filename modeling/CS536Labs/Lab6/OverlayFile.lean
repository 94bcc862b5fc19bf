import CS536Labs.Foundations.Tokens
import CS536Labs.Lab6.ReadOverlay

/-!
# Printing `zzoverlay.dat`

`printOverlay` writes the file in its documented form: the number of entries, an empty line, three
lines for each entry, and an empty line between entries. The last line may end with the file.

* `fgets_line` and `readEntry_print`: a line and an entry of such a file are read back, whatever
  stands behind them.
* `readOverlay_print`: `read_overlay` on the whole file returns the entries that were printed.
-/

namespace CS536Labs.Lab6

/-- Tokens with blanks between them. -/
def printLine (words : List (List UInt8)) : List UInt8 := [0x20].intercalate words

/-- The tokens of a path. -/
def PathText.words (path : PathText) : List (List UInt8) :=
  [path.receivePort, path.sendPort, path.sendIp]

/-- The three lines of an entry, without the last newline. -/
def printEntry (text : EntryText) : List UInt8 :=
  printLine [text.ip, text.port] ++ 0x0a :: (printLine text.forwardPath.words ++
    0x0a :: printLine text.returnPath.words)

/-- Entries with empty lines between them. -/
def printEntries (texts : List EntryText) : List UInt8 :=
  [0x0a, 0x0a].intercalate (texts.map printEntry)

/-- The file, with or without a newline at its end. -/
def printOverlay (texts : List EntryText) (finalNewline : Bool) : List UInt8 :=
  numeral texts.length ++ 0x0a :: 0x0a :: (printEntries texts ++
    if finalNewline then [0x0a] else [])

/-- A token of the file: it is not empty, and has neither separators nor NUL. -/
structure IsToken (word : List UInt8) : Prop where
  ne_nil : word ≠ []
  noDelimiter : ∀ c ∈ word, isOverlayDelimiter c = false
  noNul : 0 ∉ word

/-- The texts of the entry are tokens that fit their arrays with a terminator. -/
def EntryText.Printable (text : EntryText) : Prop :=
  ∀ field ∈ text.fields, IsToken field.1 ∧ field.1.length < field.2

theorem isToken_iff (word : List UInt8) :
    IsToken word ↔
      (!word.isEmpty && word.all fun c => !isOverlayDelimiter c && c != 0) = true := by
  simp only [Bool.and_eq_true, Bool.not_eq_true', List.isEmpty_eq_false_iff, List.all_eq_true,
    bne_iff_ne]
  constructor
  · intro h
    refine ⟨h.ne_nil, fun c hc => ⟨h.noDelimiter c hc, ?_⟩⟩
    rintro rfl
    exact h.noNul hc
  · rintro ⟨hne, hall⟩
    exact ⟨hne, fun c hc => (hall c hc).1, fun hc => (hall 0 hc).2 rfl⟩

instance (word : List UInt8) : Decidable (IsToken word) :=
  decidable_of_iff _ (isToken_iff word).symm

instance (text : EntryText) : Decidable text.Printable :=
  inferInstanceAs (Decidable (∀ field ∈ text.fields, IsToken field.1 ∧ field.1.length < field.2))

/-! ## Lines -/

/-- A line that fits the buffer of the reader. -/
structure IsLine (line : List UInt8) : Prop where
  noNewline : 0x0a ∉ line
  noNul : 0 ∉ line
  length : line.length < lineBufferSize - 1

variable {line rest : List UInt8}

theorem takeLine_line {n : ℕ} (hnewline : 0x0a ∉ line) (hlen : line.length < n)
    (rest : List UInt8) : takeLine n (line ++ 0x0a :: rest) = line ++ [0x0a] := by
  induction line generalizing n with
  | nil =>
    obtain ⟨n, rfl⟩ := Nat.exists_eq_succ_of_ne_zero (Nat.ne_of_gt hlen)
    rw [List.nil_append, takeLine, if_pos rfl, List.nil_append]
  | cons c line ih =>
    rw [List.mem_cons, not_or] at hnewline
    rw [List.length_cons] at hlen
    obtain ⟨n, rfl⟩ := Nat.exists_eq_succ_of_ne_zero (Nat.ne_zero_of_lt hlen)
    rw [List.cons_append, takeLine, if_neg (Ne.symm hnewline.1), ih hnewline.2 (by omega),
      List.cons_append]

theorem takeLine_last {n : ℕ} (hnewline : 0x0a ∉ line) (hlen : line.length ≤ n) :
    takeLine n line = line := by
  induction line generalizing n with
  | nil => cases n <;> rfl
  | cons c line ih =>
    rw [List.mem_cons, not_or] at hnewline
    rw [List.length_cons] at hlen
    obtain ⟨n, rfl⟩ := Nat.exists_eq_succ_of_ne_zero (Nat.ne_zero_of_lt hlen)
    rw [takeLine, if_neg (Ne.symm hnewline.1), ih hnewline.2 (by omega)]

/-- **A line is read.** -/
theorem fgets_line (h : IsLine line) (rest : List UInt8) :
    fgets lineBufferSize (line ++ 0x0a :: rest) = some (line ++ [0x0a], rest) := by
  have hsplit : line ++ 0x0a :: rest = (line ++ [0x0a]) ++ rest := by
    rw [List.append_assoc]
    rfl
  have hnul : 0 ∉ line ++ [0x0a] := by
    rw [List.mem_append, not_or]
    exact ⟨h.noNul, by decide⟩
  rw [fgets, if_neg (by simp)]
  simp only [takeLine_line h.noNewline h.length, cString_eq_self hnul]
  rw [hsplit, List.drop_left]

/-- The last line ends with the file. -/
theorem fgets_last (h : IsLine line) (hne : line ≠ []) :
    fgets lineBufferSize line = some (line, []) := by
  rw [fgets, if_neg hne]
  simp only [takeLine_last h.noNewline (Nat.le_of_lt h.length), cString_eq_self h.noNul,
    List.drop_length]

theorem isLine_nil : IsLine [] := ⟨nofun, nofun, by decide⟩

/-! ## The tokens of a line -/

theorem tokens_printLine {words : List (List UInt8)} (h : ∀ word ∈ words, IsToken word)
    {ending : List UInt8} (hending : ending = [] ∨ ending = [0x0a]) :
    tokens isOverlayDelimiter (printLine words ++ ending) = words := by
  have hwords := tokens_intercalate (p := isOverlayDelimiter) (d := 0x20) rfl fun word hword =>
    ⟨(h word hword).ne_nil, (h word hword).noDelimiter⟩
  rcases hending with rfl | rfl
  · rw [List.append_nil]
    exact hwords
  · rw [tokens_concat _ rfl]
    exact hwords

theorem mem_printLine {words : List (List UInt8)} {c : UInt8} (h : c ∈ printLine words) :
    c = 0x20 ∨ ∃ word ∈ words, c ∈ word := by
  induction words with
  | nil => cases h
  | cons word words ih =>
    cases words with
    | nil =>
      rw [printLine, List.intercalate_singleton] at h
      exact .inr ⟨word, List.mem_cons_self, h⟩
    | cons word' words =>
      rw [printLine, List.intercalate_cons_cons, List.append_assoc, List.mem_append,
        List.singleton_append, List.mem_cons] at h
      rcases h with h | rfl | h
      · exact .inr ⟨word, List.mem_cons_self, h⟩
      · exact .inl rfl
      · rcases ih h with rfl | ⟨w, hw, hc⟩
        · exact .inl rfl
        · exact .inr ⟨w, List.mem_cons_of_mem _ hw, hc⟩

theorem length_printLine_le {words : List (List UInt8)} {n : ℕ}
    (h : ∀ word ∈ words, word.length < n) : (printLine words).length ≤ words.length * n := by
  induction words with
  | nil => exact Nat.zero_le _
  | cons word words ih =>
    obtain ⟨hword, hwords⟩ := List.forall_mem_cons.mp h
    have hstep : (printLine (word :: words)).length ≤ (printLine words).length + n := by
      cases words with
      | nil =>
        rw [printLine, List.intercalate_singleton]
        omega
      | cons word' words =>
        rw [printLine, List.intercalate_cons_cons, List.length_append, List.length_append,
          List.length_singleton, ← printLine]
        omega
    rw [List.length_cons, Nat.succ_mul]
    exact Nat.le_trans hstep (Nat.add_le_add_right (ih hwords) n)

/-- A printed line is read as one. -/
theorem isLine_printLine {words : List (List UInt8)} (h : ∀ word ∈ words, IsToken word)
    (hlen : (printLine words).length < lineBufferSize - 1) : IsLine (printLine words) where
  noNewline := by
    intro hmem
    rcases mem_printLine hmem with h' | ⟨word, hword, hc⟩
    · cases h'
    · exact absurd ((h word hword).noDelimiter _ hc) (by decide)
  noNul := by
    intro hmem
    rcases mem_printLine hmem with h' | ⟨word, hword, hc⟩
    · cases h'
    · exact (h word hword).noNul hc
  length := hlen

theorem tokens_newline : tokens isOverlayDelimiter [0x0a] = [] := rfl

theorem parseEntryControl_print {ip port : List UInt8}
    (h : ∀ word ∈ [ip, port], IsToken word) :
    parseEntryControl (printLine [ip, port] ++ [0x0a]) = some (ip, port) := by
  have htokens := tokens_printLine h (.inr rfl)
  have hne : printLine [ip, port] ++ [0x0a] ≠ [0x0a] := by
    intro heq
    rw [heq, tokens_newline] at htokens
    cases htokens
  rw [parseEntryControl, if_neg hne, htokens]

theorem parseEntryDataForwarding_print {path : PathText}
    (h : ∀ word ∈ path.words, IsToken word) {ending : List UInt8}
    (hending : ending = [] ∨ ending = [0x0a]) :
    parseEntryDataForwarding (printLine path.words ++ ending) = some path := by
  have htokens := tokens_printLine h hending
  have hne : printLine path.words ++ ending ≠ [0x0a] := by
    intro heq
    rw [heq, tokens_newline] at htokens
    cases htokens
  rw [parseEntryDataForwarding, if_neg hne, htokens]
  rfl

/-! ## Entries -/

/-- What stands behind an entry, and what is left of it when the entry has been read: the end of
the file, a newline before it, or an empty line and more. -/
inductive EntryEnd : List UInt8 → List UInt8 → Prop
  | eof : EntryEnd [] []
  | newline : EntryEnd [0x0a] []
  | separator (rest : List UInt8) : EntryEnd (0x0a :: 0x0a :: rest) rest

/-- The three lines of a printable entry. -/
structure EntryText.Lines (text : EntryText) : Prop where
  control : ∀ word ∈ [text.ip, text.port], IsToken word
  forward : ∀ word ∈ text.forwardPath.words, IsToken word
  returned : ∀ word ∈ text.returnPath.words, IsToken word
  isLine : IsLine (printLine [text.ip, text.port]) ∧ IsLine (printLine text.forwardPath.words) ∧
    IsLine (printLine text.returnPath.words)

theorem size_le_of_mem_fields {text : EntryText} {field : List UInt8 × ℕ}
    (h : field ∈ text.fields) : field.2 ≤ inetAddrstrlen := by
  have hsizes : ∀ n ∈ text.fields.map Prod.snd, n ≤ inetAddrstrlen := by
    change ∀ n ∈ [inetAddrstrlen, portStrlen, portStrlen, portStrlen, inetAddrstrlen, portStrlen,
      portStrlen, inetAddrstrlen], n ≤ inetAddrstrlen
    decide
  exact hsizes _ (List.mem_map_of_mem h)

/-- A line of at most three tokens of the entry fits the buffer of the reader. -/
theorem EntryText.Printable.isLine {text : EntryText} (h : text.Printable)
    (words : List (List UInt8)) (hwords : words ⊆ text.fields.map Prod.fst)
    (hlen : words.length ≤ 3) :
    (∀ word ∈ words, IsToken word) ∧ IsLine (printLine words) := by
  have htoken : ∀ word ∈ words, IsToken word := by
    intro word hword
    obtain ⟨field, hfield, rfl⟩ := List.mem_map.mp (hwords hword)
    exact (h field hfield).1
  have hlength : ∀ word ∈ words, word.length < inetAddrstrlen := by
    intro word hword
    obtain ⟨field, hfield, rfl⟩ := List.mem_map.mp (hwords hword)
    exact Nat.lt_of_lt_of_le (h field hfield).2 (size_le_of_mem_fields hfield)
  refine ⟨htoken, isLine_printLine htoken ?_⟩
  calc (printLine words).length ≤ words.length * inetAddrstrlen := length_printLine_le hlength
    _ ≤ 3 * inetAddrstrlen := Nat.mul_le_mul_right _ hlen
    _ < lineBufferSize - 1 := by decide

theorem EntryText.Printable.lines {text : EntryText} (h : text.Printable) : text.Lines := by
  have hcontrol := h.isLine [text.ip, text.port] (by simp [fields]) (by simp)
  have hforward := h.isLine text.forwardPath.words (by simp [fields, PathText.words])
    (Nat.le_refl 3)
  have hreturned := h.isLine text.returnPath.words (by simp [fields, PathText.words])
    (Nat.le_refl 3)
  exact ⟨hcontrol.1, hforward.1, hreturned.1, hcontrol.2, hforward.2, hreturned.2⟩

/-- The last line of an entry. -/
theorem EntryEnd.fgets {tail : List UInt8} (h : EntryEnd tail rest) (hline : IsLine line)
    (hne : line ≠ []) :
    ∃ ending after, (ending = [] ∨ ending = [0x0a]) ∧
      fgets lineBufferSize (line ++ tail) = some (line ++ ending, after) ∧
      (after = [] ∧ rest = [] ∨ after = 0x0a :: rest) := by
  cases h with
  | eof =>
    refine ⟨[], [], .inl rfl, ?_, .inl ⟨rfl, rfl⟩⟩
    rw [List.append_nil]
    exact fgets_last hline hne
  | newline => exact ⟨[0x0a], [], .inr rfl, fgets_line hline [], .inl ⟨rfl, rfl⟩⟩
  | separator => exact ⟨[0x0a], _, .inr rfl, fgets_line hline _, .inr rfl⟩

theorem printLine_ne_nil {words : List (List UInt8)} (hne : words ≠ [])
    (h : ∀ word ∈ words, IsToken word) : printLine words ≠ [] := by
  intro hnil
  have htokens := tokens_printLine h (.inl rfl)
  rw [hnil] at htokens
  exact hne htokens.symm

/-- **An entry is read**, with the empty line behind it if there is one. -/
theorem readEntry_print {text : EntryText} (h : text.Printable) {tail : List UInt8}
    (hend : EntryEnd tail rest) : readEntry (printEntry text ++ tail) = some (text, rest) := by
  obtain ⟨hcontrol, hforward, hreturned, hline, hline', hline''⟩ := h.lines
  obtain ⟨ending, after, hending, hfgets, hafter⟩ :=
    hend.fgets hline'' (printLine_ne_nil (List.cons_ne_nil _ _) hreturned)
  have hsplit : printEntry text ++ tail =
      printLine [text.ip, text.port] ++ 0x0a :: (printLine text.forwardPath.words ++
        0x0a :: (printLine text.returnPath.words ++ tail)) := by
    simp only [printEntry, List.append_assoc, List.cons_append]
  rw [hsplit, readEntry]
  simp only [Option.bind_eq_bind, fgets_line hline, fgets_line hline', hfgets, Option.bind_some,
    parseEntryControl_print hcontrol, parseEntryDataForwarding_print hforward (.inr rfl),
    parseEntryDataForwarding_print hreturned hending]
  rcases hafter with ⟨rfl, rfl⟩ | rfl
  · rfl
  · have hempty := fgets_line isLine_nil rest
    rw [List.nil_append, List.nil_append] at hempty
    simp only [hempty, if_true]

/-- **All entries are read**, by induction on the list. -/
theorem readEntries_print {texts : List EntryText} (h : ∀ text ∈ texts, text.Printable) {i : ℕ}
    (hi : i + texts.length ≤ maxOverlaySize) {tail : List UInt8} (htail : EntryEnd tail []) :
    readEntries i texts.length (printEntries texts ++ tail) = some (some texts) := by
  induction texts generalizing i with
  | nil => rfl
  | cons text texts ih =>
    rw [List.length_cons] at hi
    have htext := h text List.mem_cons_self
    have hroom : ¬ (maxOverlaySize ≤ i ∧
        storesEntry (printEntries (text :: texts) ++ tail) = true) := by omega
    rw [List.length_cons, readEntries, if_neg hroom]
    cases texts with
    | nil =>
      rw [printEntries, List.map_singleton, List.intercalate_singleton,
        readEntry_print htext htail]
      rfl
    | cons text' texts =>
      have hsplit : printEntries (text :: text' :: texts) ++ tail =
          printEntry text ++ 0x0a :: 0x0a :: (printEntries (text' :: texts) ++ tail) := by
        simp only [printEntries, List.map_cons, List.intercalate_cons_cons, List.append_assoc,
          List.cons_append, List.nil_append]
      rw [hsplit, readEntry_print htext (.separator _)]
      simp only
      rw [ih (fun text hmem => h text (List.mem_cons_of_mem _ hmem)) (by omega)]
      rfl

/-! ## The file -/

theorem isLine_numeral {n : ℕ} (hn : n ≤ maxOverlaySize) : IsLine (numeral n) where
  noNewline := by
    intro hmem
    exact absurd (isDigit_of_mem_numeral hmem) (by decide)
  noNul := by
    intro hmem
    exact absurd (isDigit_of_mem_numeral hmem) (by decide)
  length := by
    have hlt : n < 10 ^ 3 := Nat.lt_of_le_of_lt hn (by decide)
    exact Nat.lt_of_le_of_lt (length_numeral_le (by decide) hlt) (by decide)

/-- The arrays hold the texts. -/
theorem EntryText.Printable.cString_arrays {text : EntryText} (h : text.Printable) :
    text.store.arrays.map cString = text.fields.map Prod.fst := by
  rw [arrays_store, List.map_map]
  apply List.map_congr_left
  intro field hfield
  exact cString_strncpy (h field hfield).1.noNul (h field hfield).2

/-- **The round trip.** For every list of 1 to 100 entries whose texts are tokens that fit their
arrays: `read_overlay` on the printed file, with or without a final newline, delivers these entries,
and their arrays hold the texts. -/
theorem readOverlay_print (texts : List EntryText) (finalNewline : Bool) (hne : texts ≠ [])
    (hlen : texts.length ≤ maxOverlaySize) (h : ∀ text ∈ texts, text.Printable) :
    readOverlay (some (printOverlay texts finalNewline)) = some (some texts) ∧
      ∀ text ∈ texts, text.store.arrays.map cString = text.fields.map Prod.fst := by
  refine ⟨?_, fun text hmem => (h text hmem).cString_arrays⟩
  have hpos : 0 < texts.length := List.length_pos_iff.mpr hne
  have hnumber : strtoul0 (numeral texts.length ++ [0x0a]) = texts.length := by
    refine strtoul0_numeral_append hpos (Nat.lt_of_le_of_lt hlen (by decide)) ?_
    rintro c ⟨⟩
    decide
  have htail : EntryEnd (if finalNewline then [0x0a] else []) [] := by
    split_ifs
    · exact .newline
    · exact .eof
  have hempty := fgets_line isLine_nil
    (printEntries texts ++ if finalNewline then [0x0a] else [])
  rw [List.nil_append, List.nil_append] at hempty
  simp only [readOverlay, printOverlay, fgets_line (isLine_numeral hlen), hnumber, if_neg hpos.ne',
    hempty, if_true]
  exact readEntries_print h (by omega) htail

/-- A sample with two entries. -/
def sampleTexts : List EntryText :=
  let localhost := inetNtop [127, 0, 0, 1]
  [⟨localhost, numeral 10000, ⟨numeral 10001, numeral 20001, localhost⟩,
      ⟨numeral 10002, numeral 0, inetNtop [0, 0, 0, 0]⟩⟩,
    ⟨localhost, numeral 20000, ⟨numeral 20001, numeral 30001, localhost⟩,
      ⟨numeral 20002, numeral 10002, localhost⟩⟩]

/-- The file `zzoverlay.dat`. -/
theorem readOverlay_print_sample :
    readOverlay (some (printOverlay sampleTexts false)) = some (some sampleTexts) := by
  refine (readOverlay_print sampleTexts false (List.cons_ne_nil _ _) (by decide) ?_).1
  intro text htext
  rcases List.mem_pair.mp htext with rfl | rfl <;> decide

end CS536Labs.Lab6
