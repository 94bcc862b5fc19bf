import CS536Labs.Lab6.OverlayBounds

/-!
# The entries of `zzoverlay.dat`

`entryGroups` are the entries that the file has, whoever reads it: behind its first line, the lines
between two without words. `entryOf` is what such an entry says.

`read_overlay` takes as many entries as the first line announces. It calls `fgets` four times for
each, so that a line which does not fit the buffer counts as several. `readLines` is what the calls
deliver, and `Announced` is the entry in four of them.

* `fileEntries_iff`: the reader accepts entries exactly when they are announced.
* `readOverlay_eq_some_iff`, `readOverlay_eq_none_iff_outruns`: what is read of a file, and when a
  store goes behind the array.
-/

namespace CS536Labs.Lab6

/-! ## The entries that the file has -/

/-- The words of the lines. -/
def fileLines (content : Option (List UInt8)) : List (List (List UInt8)) :=
  ((content.getD []).splitOn 0x0a).map (tokens isOverlayDelimiter)

/-- The entries: behind the first line, the lines between two without words. -/
def entryGroups (content : Option (List UInt8)) : List (List (List (List UInt8))) :=
  ((fileLines content).tail.splitOn []).filter fun group => !group.isEmpty

/-- What an entry says. It has three lines, whose further words do not matter. -/
def entryOf : List (List (List UInt8)) → Option EntryText
  | [ip :: port :: _, receivePort :: sendPort :: sendIp :: _,
      receivePort' :: sendPort' :: sendIp' :: _] =>
    some ⟨ip, port, ⟨receivePort, sendPort, sendIp⟩, ⟨receivePort', sendPort', sendIp'⟩⟩
  | _ => none

/-! ## The entries that it announces -/

/-- What `n` calls of `fgets` deliver. -/
def readLinesOf : ℕ → List UInt8 → List (List UInt8)
  | 0, _ => []
  | n + 1, file =>
    match fgets lineBufferSize file with
    | none => []
    | some (line, file) => line :: readLinesOf n file

/-- What the calls of `fgets` deliver up to the end of the file. -/
def readLines (file : List UInt8) : List (List UInt8) := readLinesOf file.length file

/-- The entry in the `i`-th four lines, the last of which is empty or behind the end of the file. -/
structure Announced (lines : List (List UInt8)) (i : ℕ) (text : EntryText) : Prop where
  words : entryOf (((lines.drop (4 * i)).take 3).map (tokens isOverlayDelimiter)) = some text
  behind : ∀ line ∈ lines[4 * i + 3]?, line = [0x0a]

/-- The lines behind the first two. -/
def bodyLines (content : Option (List UInt8)) : List (List UInt8) :=
  (readLines (content.getD [])).drop 2

/-- An empty line separates the first line from the entries, if there are any. -/
def HasSeparator (content : Option (List UInt8)) : Prop :=
  0 < numFwdPairs content → (readLines (content.getD []))[1]? = some [0x0a]

/-- The entries that the first line announces are there. -/
structure LaidOut (content : Option (List UInt8)) : Prop where
  separator : HasSeparator content
  entries : ∀ i < numFwdPairs content, ∃ text, Announced (bodyLines content) i text

/-- More than 100 entries are announced, and the 101st begins with a word. -/
structure Outruns (content : Option (List UInt8)) : Prop where
  separator : HasSeparator content
  announced : maxOverlaySize < numFwdPairs content
  entries : ∀ i < maxOverlaySize, ∃ text, Announced (bodyLines content) i text
  word : ∃ line ∈ (bodyLines content)[4 * maxOverlaySize]?, tokens isOverlayDelimiter line ≠ []

/-! ## The lines that are read -/

variable {file rest line : List UInt8} {lines : List (List UInt8)} {text : EntryText} {i n : ℕ}

theorem fgets_eq_none_iff {size : ℕ} : fgets size file = none ↔ file = [] := by
  rw [fgets]
  by_cases h : file = []
  · rw [if_pos h]
    exact iff_of_true rfl h
  · rw [if_neg h]
    exact iff_of_false (Option.some_ne_none _) h

/-- A call takes something off the file. -/
theorem length_lt_of_fgets (h : fgets lineBufferSize file = some (line, rest)) :
    rest.length < file.length := by
  cases file with
  | nil => cases h
  | cons c file =>
    rw [fgets, if_neg (List.cons_ne_nil _ _)] at h
    obtain ⟨-, rfl⟩ := Prod.mk.inj (Option.some.inj h)
    have hpos : 0 < (takeLine (lineBufferSize - 1) (c :: file)).length := by
      rw [lineBufferSize, takeLine]
      split_ifs
      · exact Nat.one_pos
      · exact Nat.succ_pos _
    rw [List.length_drop, List.length_cons]
    omega

theorem readLinesOf_eq {m : ℕ} (hn : file.length ≤ n) (hm : file.length ≤ m) :
    readLinesOf n file = readLinesOf m file := by
  induction n generalizing m file with
  | zero =>
    obtain rfl : file = [] := List.length_eq_zero_iff.mp (by omega)
    cases m <;> rfl
  | succ n ih =>
    cases m with
    | zero =>
      obtain rfl : file = [] := List.length_eq_zero_iff.mp (by omega)
      rfl
    | succ m =>
      rw [readLinesOf, readLinesOf]
      cases hfgets : fgets lineBufferSize file with
      | none => rfl
      | some result =>
        have hlt := length_lt_of_fgets hfgets
        dsimp only
        rw [ih (m := m) (by omega) (by omega)]

@[simp] theorem readLines_nil : readLines [] = [] := rfl

theorem readLines_of_fgets (h : fgets lineBufferSize file = some (line, rest)) :
    readLines file = line :: readLines rest := by
  have hlt := length_lt_of_fgets h
  obtain ⟨n, hn⟩ := Nat.exists_eq_succ_of_ne_zero (Nat.ne_zero_of_lt hlt)
  have hrest : readLinesOf n rest = readLines rest := readLinesOf_eq (by omega) (Nat.le_refl _)
  rw [readLines, hn, readLinesOf, h]
  exact congrArg _ hrest

theorem exists_fgets (h : 0 < (readLines file).length) :
    ∃ line rest, fgets lineBufferSize file = some (line, rest) ∧
      readLines file = line :: readLines rest := by
  cases hfgets : fgets lineBufferSize file with
  | none =>
    rw [fgets_eq_none_iff.mp hfgets] at h
    cases h
  | some result => exact ⟨result.1, result.2, rfl, readLines_of_fgets hfgets⟩

/-! ## One entry -/

theorem Announced.unique {text' : EntryText} (h : Announced lines i text)
    (h' : Announced lines i text') : text = text' :=
  Option.some.inj (h.words.symm.trans h'.words)

theorem announced_succ_iff : Announced lines (i + 1) text ↔ Announced (lines.drop 4) i text := by
  have hdrop : (lines.drop 4).drop (4 * i) = lines.drop (4 * (i + 1)) := by
    rw [List.drop_drop]
    congr 1
    omega
  have hindex : (lines.drop 4)[4 * i + 3]? = lines[4 * (i + 1) + 3]? := by
    rw [List.getElem?_drop]
    congr 1
    omega
  constructor
  · rintro ⟨hwords, hbehind⟩
    exact ⟨by rwa [hdrop], by rwa [hindex]⟩
  · rintro ⟨hwords, hbehind⟩
    exact ⟨by rwa [hdrop] at hwords, by rwa [hindex] at hbehind⟩

/-- The three lines of an entry. -/
theorem entryOf_eq_some_iff {control forward back : List (List UInt8)} :
    entryOf [control, forward, back] = some text ↔
      (∃ more, control = text.ip :: text.port :: more) ∧
      (∃ more, forward = text.forwardPath.receivePort :: text.forwardPath.sendPort ::
        text.forwardPath.sendIp :: more) ∧
      ∃ more, back = text.returnPath.receivePort :: text.returnPath.sendPort ::
        text.returnPath.sendIp :: more := by
  constructor
  · intro h
    unfold entryOf at h
    split at h
    · rename_i heq
      simp only [List.cons.injEq, and_true] at heq
      obtain ⟨rfl, rfl, rfl⟩ := heq
      obtain rfl := Option.some.inj h
      exact ⟨⟨_, rfl⟩, ⟨_, rfl⟩, _, rfl⟩
    · cases h
  · rintro ⟨⟨_, rfl⟩, ⟨_, rfl⟩, _, rfl⟩
    rfl

theorem exists_of_entryOf {group : List (List (List UInt8))} (h : entryOf group = some text) :
    ∃ control forward back, group = [control, forward, back] := by
  unfold entryOf at h
  split at h
  · exact ⟨_, _, _, rfl⟩
  · cases h

/-- An entry that is accepted is the one announced. -/
theorem announced_of_readEntry (h : readEntry file = some (text, rest)) :
    Announced (readLines file) 0 text ∧ readLines rest = (readLines file).drop 4 := by
  simp only [readEntry, Option.bind_eq_bind, Option.bind_eq_some_iff, Prod.exists] at h
  obtain ⟨buffer₁, file₁, hfgets₁, ip, port, hcontrol, buffer₂, file₂, hfgets₂, forwardPath,
    hforward, buffer₃, file₃, hfgets₃, returnPath, hreturn, htail⟩ := h
  obtain ⟨more₁, htokens₁, -⟩ := parseEntryControl_eq_some hcontrol
  obtain ⟨more₂, htokens₂, -⟩ := parseEntryDataForwarding_eq_some hforward
  obtain ⟨more₃, htokens₃, -⟩ := parseEntryDataForwarding_eq_some hreturn
  have hlines : readLines file = buffer₁ :: buffer₂ :: buffer₃ :: readLines file₃ := by
    rw [readLines_of_fgets hfgets₁, readLines_of_fgets hfgets₂, readLines_of_fgets hfgets₃]
  have hannounced : (∀ line ∈ (readLines file₃)[0]?, line = [0x0a]) →
      Announced (readLines file) 0 ⟨ip, port, forwardPath, returnPath⟩ := by
    intro hbehind
    rw [hlines]
    refine ⟨?_, hbehind⟩
    show entryOf [tokens isOverlayDelimiter buffer₁, tokens isOverlayDelimiter buffer₂,
      tokens isOverlayDelimiter buffer₃] = _
    rw [htokens₁, htokens₂, htokens₃]
    rfl
  cases hfgets₄ : fgets lineBufferSize file₃ with
  | none =>
    rw [hfgets₄] at htail
    obtain ⟨rfl, rfl⟩ := Prod.mk.inj (Option.some.inj htail)
    rw [fgets_eq_none_iff.mp hfgets₄] at hlines hannounced ⊢
    refine ⟨hannounced fun _ hline => absurd hline (Option.not_mem_none _), ?_⟩
    rw [hlines]
    rfl
  | some result =>
    obtain ⟨line, file₄⟩ := result
    rw [hfgets₄] at htail
    dsimp only at htail
    split_ifs at htail with hline
    obtain ⟨rfl, rfl⟩ := Prod.mk.inj (Option.some.inj htail)
    rw [readLines_of_fgets hfgets₄] at hlines hannounced
    refine ⟨hannounced ?_, ?_⟩
    · rintro _ ⟨⟩
      exact hline
    · rw [hlines]
      rfl

theorem parseEntryControl_of_tokens {ip port : List UInt8} {more : List (List UInt8)}
    (h : tokens isOverlayDelimiter line = ip :: port :: more) :
    parseEntryControl line = some (ip, port) := by
  have hne : line ≠ [0x0a] := by
    rintro rfl
    cases h
  rw [parseEntryControl, if_neg hne, h]

theorem parseEntryDataForwarding_of_tokens {path : PathText} {more : List (List UInt8)}
    (h : tokens isOverlayDelimiter line =
      path.receivePort :: path.sendPort :: path.sendIp :: more) :
    parseEntryDataForwarding line = some path := by
  have hne : line ≠ [0x0a] := by
    rintro rfl
    cases h
  rw [parseEntryDataForwarding, if_neg hne, h]

/-- An entry that is announced is accepted. -/
theorem readEntry_of_announced (h : Announced (readLines file) 0 text) :
    ∃ rest, readEntry file = some (text, rest) := by
  obtain ⟨hwords, hbehind⟩ := h
  rw [Nat.mul_zero, List.drop_zero] at hwords
  rw [Nat.mul_zero, Nat.zero_add] at hbehind
  have hlen : 3 ≤ (readLines file).length := by
    obtain ⟨control, forward, back, hgroup⟩ := exists_of_entryOf hwords
    have hthree := congrArg List.length hgroup
    rw [List.length_map, List.length_take] at hthree
    have hthree : min 3 (readLines file).length = 3 := hthree
    omega
  have hpos₁ : 0 < (readLines file).length := by omega
  obtain ⟨line₁, file₁, hfgets₁, hlines₁⟩ := exists_fgets hpos₁
  rw [hlines₁, List.length_cons] at hlen
  have hpos₂ : 0 < (readLines file₁).length := by omega
  obtain ⟨line₂, file₂, hfgets₂, hlines₂⟩ := exists_fgets hpos₂
  rw [hlines₂, List.length_cons] at hlen
  have hpos₃ : 0 < (readLines file₂).length := by omega
  obtain ⟨line₃, file₃, hfgets₃, hlines₃⟩ := exists_fgets hpos₃
  rw [hlines₁, hlines₂, hlines₃] at hwords hbehind
  obtain ⟨⟨more₁, htokens₁⟩, ⟨more₂, htokens₂⟩, more₃, htokens₃⟩ := entryOf_eq_some_iff.mp hwords
  simp only [readEntry, Option.bind_eq_bind, hfgets₁, hfgets₂, hfgets₃, Option.bind_some,
    parseEntryControl_of_tokens htokens₁, parseEntryDataForwarding_of_tokens htokens₂,
    parseEntryDataForwarding_of_tokens htokens₃]
  cases hfgets₄ : fgets lineBufferSize file₃ with
  | none => exact ⟨file₃, rfl⟩
  | some result =>
    obtain ⟨line₄, file₄⟩ := result
    rw [readLines_of_fgets hfgets₄] at hbehind
    exact ⟨file₄, if_pos (hbehind line₄ rfl)⟩

/-! ## All entries -/

/-- **The first entries.** The reader accepts them when they are announced, and then goes on behind
their lines. -/
theorem fileEntries_iff (n : ℕ) (file : List UInt8) (texts : List EntryText) :
    (∃ rest, fileEntries n file = some (texts, rest) ∧
        readLines rest = (readLines file).drop (4 * n)) ↔
      texts.length = n ∧ ∀ i text, texts[i]? = some text → Announced (readLines file) i text := by
  induction n generalizing file texts with
  | zero =>
    constructor
    · rintro ⟨rest, hfile, -⟩
      obtain ⟨rfl, -⟩ := Prod.mk.inj (Option.some.inj hfile)
      exact ⟨rfl, fun i text h => by cases h⟩
    · rintro ⟨hlen, -⟩
      obtain rfl := List.length_eq_zero_iff.mp hlen
      exact ⟨file, rfl, rfl⟩
  | succ n ih =>
    have hdrop : ∀ {file' : List UInt8}, readLines file' = (readLines file).drop 4 →
        (readLines file').drop (4 * n) = (readLines file).drop (4 * (n + 1)) := by
      intro file' hlines
      rw [hlines, List.drop_drop]
      congr 1
      omega
    constructor
    · rintro ⟨rest, hfile, hrest⟩
      obtain ⟨text, file', texts', hread, hfile', rfl⟩ := fileEntries_succ_iff.mp hfile
      obtain ⟨hfirst, hlines⟩ := announced_of_readEntry hread
      obtain ⟨hlen, hall⟩ := (ih file' texts').mp ⟨rest, hfile', by rw [hrest, hdrop hlines]⟩
      refine ⟨by rw [List.length_cons, hlen], fun i text' h => ?_⟩
      cases i with
      | zero =>
        obtain rfl : text = text' := Option.some.inj h
        exact hfirst
      | succ i =>
        rw [announced_succ_iff, ← hlines]
        exact hall i text' h
    · rintro ⟨hlen, hall⟩
      cases texts with
      | nil => cases hlen
      | cons text texts =>
        obtain ⟨file', hread⟩ := readEntry_of_announced (hall 0 text rfl)
        obtain ⟨-, hlines⟩ := announced_of_readEntry hread
        have htail : ∀ i text', texts[i]? = some text' → Announced (readLines file') i text' := by
          intro i text' h
          rw [hlines, ← announced_succ_iff]
          exact hall (i + 1) text' h
        obtain ⟨rest, hfile, hrest⟩ := (ih file' texts).mpr ⟨Nat.succ.inj hlen, htail⟩
        exact ⟨rest, fileEntries_succ_iff.mpr ⟨_, _, _, hread, hfile, rfl⟩,
          by rw [hrest, hdrop hlines]⟩

/-- The lines behind accepted entries. -/
theorem readLines_of_fileEntries {texts : List EntryText}
    (h : fileEntries n file = some (texts, rest)) :
    readLines rest = (readLines file).drop (4 * n) := by
  induction n generalizing file texts with
  | zero =>
    obtain ⟨-, rfl⟩ := Prod.mk.inj (Option.some.inj h)
    rfl
  | succ n ih =>
    obtain ⟨text, file', texts', hread, hfile', -⟩ := fileEntries_succ_iff.mp h
    rw [ih hfile', (announced_of_readEntry hread).2, List.drop_drop]
    congr 1
    omega

/-- A choice of announced entries. -/
theorem exists_texts {lines : List (List UInt8)}
    (h : ∀ i < n, ∃ text, Announced lines i text) :
    ∃ texts : List EntryText, texts.length = n ∧
      ∀ i text, texts[i]? = some text → Announced lines i text := by
  choose f hf using h
  refine ⟨List.ofFn fun i : Fin n => f i i.isLt, List.length_ofFn, fun i text htext => ?_⟩
  obtain ⟨hlt, rfl⟩ := List.getElem?_eq_some_iff.mp htext
  rw [List.getElem_ofFn]
  exact hf _ _

/-! ## The file -/

variable {content : Option (List UInt8)} {texts : List EntryText}

theorem storesEntry_iff : storesEntry file = true ↔
    ∃ line ∈ (readLines file)[0]?, tokens isOverlayDelimiter line ≠ [] := by
  rw [storesEntry]
  cases hfgets : fgets lineBufferSize file with
  | none =>
    rw [fgets_eq_none_iff.mp hfgets]
    refine iff_of_false Bool.false_ne_true ?_
    rintro ⟨line, hline, -⟩
    exact Option.not_mem_none line hline
  | some result =>
    rw [readLines_of_fgets hfgets]
    simp

/-- An announced entry begins with a word. -/
theorem Announced.word (h : Announced lines i text) :
    ∃ line ∈ lines[4 * i]?, tokens isOverlayDelimiter line ≠ [] := by
  obtain ⟨control, forward, back, hgroup⟩ := exists_of_entryOf h.words
  have hwords := h.words
  rw [hgroup] at hwords
  obtain ⟨⟨more, hcontrol⟩, -⟩ := entryOf_eq_some_iff.mp hwords
  obtain ⟨line, rest, htake, hline, -⟩ := List.map_eq_cons_iff.mp hgroup
  refine ⟨line, ?_, ?_⟩
  · have hhead := congrArg (fun l : List (List UInt8) => l[0]?) htake
    simpa using hhead
  · rw [hline, hcontrol]
    exact List.cons_ne_nil _ _

/-- **The header.** Behind it, the loop runs over the lines of the entries. -/
theorem exists_body (file : List UInt8) : ∃ body, readLines body = bodyLines (some file) ∧
    (HasSeparator (some file) →
      readOverlay (some file) = readEntries 0 (numFwdPairs (some file)) body) ∧
    (¬ HasSeparator (some file) → readOverlay (some file) = some none) := by
  have hlines : bodyLines (some file) = (readLines file).drop 2 := rfl
  have hseparator : HasSeparator (some file) ↔
      (0 < numFwdPairs (some file) → (readLines file)[1]? = some [0x0a]) := Iff.rfl
  rw [hlines, hseparator, readOverlay]
  cases hfgets : fgets lineBufferSize file with
  | none =>
    have hnumber : numFwdPairs (some file) = 0 := by rw [numFwdPairs, Option.bind_some, hfgets]
    rw [hnumber, fgets_eq_none_iff.mp hfgets]
    exact ⟨[], rfl, fun _ => rfl, fun h => absurd (fun hpos => absurd hpos (Nat.lt_irrefl 0)) h⟩
  | some result =>
    obtain ⟨buffer, file₁⟩ := result
    have hnumber : numFwdPairs (some file) = strtoul0 buffer := by
      rw [numFwdPairs, Option.bind_some, hfgets]
    rw [hnumber, readLines_of_fgets hfgets]
    dsimp only
    cases hfgets₁ : fgets lineBufferSize file₁ with
    | none =>
      rw [fgets_eq_none_iff.mp hfgets₁]
      have hnone : (buffer :: readLines [])[1]? ≠ some [0x0a] := by
        rw [readLines_nil]
        exact (Option.some_ne_none _).symm
      refine ⟨[], rfl, fun h => ?_, fun h => ?_⟩
      · have hzero : strtoul0 buffer = 0 := by
          by_contra hne
          exact hnone (h (Nat.pos_of_ne_zero hne))
        rw [if_pos hzero, hzero]
        rfl
      · exact if_neg fun hzero => h fun hpos => absurd hzero hpos.ne'
    | some result =>
      obtain ⟨separator, file₂⟩ := result
      rw [readLines_of_fgets hfgets₁]
      dsimp only
      refine ⟨file₂, rfl, fun h => ?_, fun h => ?_⟩
      · by_cases hzero : strtoul0 buffer = 0
        · rw [if_pos hzero, hzero]
          rfl
        · rw [if_neg hzero, if_pos (Option.some.inj (h (Nat.pos_of_ne_zero hzero)))]
      · have hzero : strtoul0 buffer ≠ 0 := fun hzero => h fun hpos => absurd hzero hpos.ne'
        rw [if_neg hzero, if_neg fun heq => h fun _ => congrArg some heq]

/-- **A store behind the array** happens when the announced entries go on behind the 100th. -/
theorem readOverlay_eq_none_iff_outruns (content : Option (List UInt8)) :
    readOverlay content = none ↔ Outruns content := by
  cases content with
  | none => exact iff_of_false (Option.some_ne_none _) fun h => absurd h.announced (by decide)
  | some file =>
    obtain ⟨body, hbody, hread, hreject⟩ := exists_body file
    by_cases hseparator : HasSeparator (some file)
    · have hstores := loopStores_index_iff (numFwdPairs (some file))
        (Nat.zero_add maxOverlaySize) body
      have hword : ∀ {texts rest}, fileEntries maxOverlaySize body = some (texts, rest) →
          (storesEntry rest = true ↔
            ∃ line ∈ (bodyLines (some file))[4 * maxOverlaySize]?,
              tokens isOverlayDelimiter line ≠ []) := by
        intro texts rest hfile
        rw [storesEntry_iff, readLines_of_fileEntries hfile, hbody, List.getElem?_drop,
          Nat.add_zero]
      rw [hread hseparator, readEntries_eq_none_iff]
      constructor
      · intro hnone
        have hnot := mt hstores.mpr fun hall => by
          obtain ⟨s, hs, hle⟩ := hnone
          exact absurd (hall s hs) (Nat.not_lt.mpr hle)
        push Not at hnot
        obtain ⟨hlt, texts, rest, hfile, hstore⟩ := hnot
        obtain ⟨hlen, hall⟩ :=
          (fileEntries_iff _ _ _).mp ⟨rest, hfile, readLines_of_fileEntries hfile⟩
        rw [hbody] at hall
        refine ⟨hseparator, hlt, fun i hi => ?_, (hword hfile).mp (by simpa using hstore)⟩
        exact ⟨texts[i], hall i _ (List.getElem?_eq_getElem (by omega))⟩
      · intro h
        obtain ⟨texts, htexts⟩ := exists_texts h.entries
        rw [← hbody] at htexts
        obtain ⟨rest, hfile, -⟩ := (fileEntries_iff _ _ _).mpr htexts
        by_contra hnone
        push Not at hnone
        have hfalse := hstores.mp hnone h.announced texts rest hfile
        rw [(hword hfile).mpr h.word] at hfalse
        cases hfalse
    · rw [hreject hseparator]
      exact iff_of_false (Option.some_ne_none _) fun h => hseparator h.separator

/-- **What is read of a file**: the entries that are announced. -/
theorem readOverlay_eq_some_iff (file : List UInt8) (texts : List EntryText) :
    readOverlay (some file) = some (some texts) ↔
      ¬ Outruns (some file) ∧ HasSeparator (some file) ∧
        texts.length = numFwdPairs (some file) ∧
        ∀ i text, texts[i]? = some text → Announced (bodyLines (some file)) i text := by
  have houtruns := readOverlay_eq_none_iff_outruns (some file)
  obtain ⟨body, hbody, hread, hreject⟩ := exists_body file
  constructor
  · intro h
    refine ⟨fun hout => ?_, ?_⟩
    · rw [houtruns.mpr hout] at h
      cases h
    · by_cases hseparator : HasSeparator (some file)
      · rw [hread hseparator] at h
        obtain ⟨rest, hfile⟩ := fileEntries_of_readEntries h
        have hall := (fileEntries_iff _ _ _).mp ⟨rest, hfile, readLines_of_fileEntries hfile⟩
        rw [hbody] at hall
        exact ⟨hseparator, hall⟩
      · rw [hreject hseparator] at h
        cases h
  · rintro ⟨hout, hseparator, hall⟩
    have hle : numFwdPairs (some file) ≤ maxOverlaySize := by
      by_contra hlt
      have hentry : ∀ i < numFwdPairs (some file), ∃ text,
          Announced (bodyLines (some file)) i text := fun i hi =>
        ⟨texts[i], hall.2 i _ (List.getElem?_eq_getElem (by omega))⟩
      obtain ⟨text, htext⟩ := hentry maxOverlaySize (by omega)
      exact hout ⟨hseparator, by omega, fun i hi => hentry i (by omega), htext.word⟩
    rw [← hbody] at hall
    obtain ⟨rest, hfile, -⟩ := (fileEntries_iff _ _ _).mpr hall
    rw [hread hseparator]
    exact readEntries_of_fileEntries (by omega) hfile

/-- The entries of a file that has all that it announces are read. -/
theorem LaidOut.readOverlay_eq_some (h : LaidOut (some file)) (hout : ¬ Outruns (some file)) :
    ∃ texts, readOverlay (some file) = some (some texts) ∧
      texts.length = numFwdPairs (some file) ∧
      ∀ i text, texts[i]? = some text → Announced (bodyLines (some file)) i text := by
  obtain ⟨texts, hlen, hall⟩ := exists_texts h.entries
  exact ⟨texts, (readOverlay_eq_some_iff file texts).mpr ⟨hout, h.separator, hlen, hall⟩,
    hlen, hall⟩

/-- Any other file is rejected. -/
theorem readOverlay_eq_reject (hout : ¬ Outruns (some file)) (h : ¬ LaidOut (some file)) :
    readOverlay (some file) = some none := by
  cases hread : readOverlay (some file) with
  | none => exact absurd ((readOverlay_eq_none_iff_outruns (some file)).mp hread) hout
  | some result =>
    cases result with
    | none => rfl
    | some texts =>
      obtain ⟨-, hseparator, hlen, hall⟩ := (readOverlay_eq_some_iff file texts).mp hread
      refine absurd ⟨hseparator, fun i hi => ?_⟩ h
      exact ⟨texts[i], hall i _ (List.getElem?_eq_getElem (by omega))⟩

theorem nul_notMem_of_mem_readLines (h : line ∈ readLines file) : 0 ∉ line := by
  rw [readLines] at h
  generalize file.length = n at h
  induction n generalizing file with
  | zero => cases h
  | succ n ih =>
    rw [readLinesOf] at h
    cases hfgets : fgets lineBufferSize file with
    | none =>
      rw [hfgets] at h
      cases h
    | some result =>
      rw [hfgets] at h
      rcases List.mem_cons.mp h with rfl | h
      · exact nul_notMem_of_fgets hfgets
      · exact ih h

/-- The texts of an announced entry have no NUL. -/
theorem Announced.nul_notMem (h : Announced (bodyLines content) i text) :
    ∀ field ∈ text.fields, 0 ∉ field.1 := by
  have hword : ∀ words ∈ (((bodyLines content).drop (4 * i)).take 3).map
      (tokens isOverlayDelimiter), ∀ word ∈ words, 0 ∉ word := by
    intro words hwords word hmem hnul
    obtain ⟨line, hline, rfl⟩ := List.mem_map.mp hwords
    have hline := List.mem_of_mem_drop (List.mem_of_mem_drop (List.mem_of_mem_take hline))
    exact nul_notMem_of_mem_readLines hline ((mem_of_mem_tokens hmem).2 0 hnul).1
  obtain ⟨control, forward, back, hgroup⟩ := exists_of_entryOf h.words
  have hwords := h.words
  rw [hgroup] at hwords hword
  obtain ⟨⟨more₁, rfl⟩, ⟨more₂, rfl⟩, more₃, rfl⟩ := entryOf_eq_some_iff.mp hwords
  simp only [List.forall_mem_cons] at hword
  obtain ⟨⟨hip, hport, -⟩, ⟨hreceive, hsend, hsendIp, -⟩, ⟨hreceive', hsend', hsendIp', -⟩, -⟩ :=
    hword
  simp only [EntryText.fields, List.forall_mem_cons]
  exact ⟨hip, hport, hreceive, hsend, hsendIp, hreceive', hsend', hsendIp',
    fun _ hmem => absurd hmem List.not_mem_nil⟩

end CS536Labs.Lab6
