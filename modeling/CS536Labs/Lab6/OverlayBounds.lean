import CS536Labs.Foundations.Tokens
import CS536Labs.Lab6.ReadOverlay

/-!
# The arrays of `read_overlay`

`readOverlayStores` are the stores to the array of entries, each with the entry it goes to. The
number of entries is taken from the file, and `strncpy` leaves no terminator behind a token that
fills its array.

* `entryStores_of_readEntry`: the stores for an entry that is accepted are its arrays.
* `readOverlay_eq_none_iff`: a store behind the array is what makes the result undefined.
* `staysInBounds_iff`: a file is read within bounds exactly when no token stands where the 101st of
  more than 100 announced entries starts, and the tokens of a file that is accepted are shorter than
  their arrays.
-/

namespace CS536Labs.Lab6

/-- The stores of `parse_entry_control`. -/
def controlStores (buffer : List UInt8) : List (List UInt8) :=
  if buffer = [0x0a] then []
  else List.zipWith strncpy (tokens isOverlayDelimiter buffer) [inetAddrstrlen, portStrlen]

/-- The stores of `parse_entry_data_forwarding`. -/
def dataForwardingStores (buffer : List UInt8) : List (List UInt8) :=
  if buffer = [0x0a] then []
  else List.zipWith strncpy (tokens isOverlayDelimiter buffer)
    [portStrlen, portStrlen, inetAddrstrlen]

/-- The stores of `read_entry` behind its first line. -/
def pathStores (file : List UInt8) : List (List UInt8) :=
  match fgets lineBufferSize file with
  | none => []
  | some (buffer, file) =>
    dataForwardingStores buffer ++
      match parseEntryDataForwarding buffer, fgets lineBufferSize file with
      | some _, some (buffer, _) => dataForwardingStores buffer
      | _, _ => []

/-- The stores of `read_entry`. -/
def entryStores (file : List UInt8) : List (List UInt8) :=
  match fgets lineBufferSize file with
  | none => []
  | some (buffer, file) =>
    controlStores buffer ++
      match parseEntryControl buffer with
      | some _ => pathStores file
      | none => []

/-- The stores of the loop of `read_overlay` over `n` more entries, from entry `i` on. -/
def loopStores : ℕ → ℕ → List UInt8 → List (ℕ × List UInt8)
  | _, 0, _ => []
  | i, n + 1, file =>
    (entryStores file).map (Prod.mk i) ++
      match readEntry file with
      | none => []
      | some (_, file) => loopStores (i + 1) n file

/-- The number of entries that is announced, and what stands behind the empty line. -/
def overlayBody (content : Option (List UInt8)) : Option (ℕ × List UInt8) := do
  let (buffer, file) ← content.bind (fgets lineBufferSize)
  if strtoul0 buffer = 0 then none
  else
    let (separator, file) ← fgets lineBufferSize file
    if separator = [0x0a] then some (strtoul0 buffer, file) else none

/-- The stores of `read_overlay`. -/
def readOverlayStores (content : Option (List UInt8)) : List (ℕ × List UInt8) :=
  match overlayBody content with
  | none => []
  | some (n, file) => loopStores 0 n file

/-- The stores go to the entries of the array, and the entries that are delivered are strings. -/
structure StaysInBounds (content : Option (List UInt8)) : Prop where
  index : ∀ s ∈ readOverlayStores content, s.1 < maxOverlaySize
  terminated : ∀ texts, readOverlay content = some (some texts) →
    ∀ text ∈ texts, text.store.Terminated

/-- The first `n` entries of a file, and what is left behind them. -/
def fileEntries : ℕ → List UInt8 → Option (List EntryText × List UInt8)
  | 0, file => some ([], file)
  | n + 1, file =>
    (readEntry file).bind fun (text, file) =>
      (fileEntries n file).map fun (texts, file) => (text :: texts, file)

/-- All texts are shorter than their arrays. -/
def EntryText.Fits (text : EntryText) : Prop := ∀ field ∈ text.fields, field.1.length < field.2

/-- Of more than 100 announced entries, the 101st does not begin with a token; and if all announced
entries are there, their texts fit. -/
structure OverlayFits (n : ℕ) (file : List UInt8) : Prop where
  count : maxOverlaySize < n → ∀ texts rest, fileEntries maxOverlaySize file = some (texts, rest) →
    storesEntry rest = false
  texts : ∀ texts rest, fileEntries n file = some (texts, rest) → ∀ text ∈ texts, text.Fits

/-! ## One entry -/

variable {file rest : List UInt8} {text : EntryText}

theorem nul_notMem_of_fgets {size : ℕ} {buffer : List UInt8}
    (h : fgets size file = some (buffer, rest)) : 0 ∉ buffer := by
  rw [fgets] at h
  split_ifs at h
  obtain ⟨rfl, -⟩ := Prod.mk.inj (Option.some.inj h)
  exact notMem_cString _

theorem parseEntryControl_eq_some {buffer ip port : List UInt8}
    (h : parseEntryControl buffer = some (ip, port)) :
    ∃ more, tokens isOverlayDelimiter buffer = ip :: port :: more ∧
      controlStores buffer = [strncpy ip inetAddrstrlen, strncpy port portStrlen] := by
  rw [parseEntryControl] at h
  split_ifs at h with hne
  rw [controlStores, if_neg hne]
  split at h
  · rename_i ip' port' more htokens
    obtain ⟨rfl, rfl⟩ := Prod.mk.inj (Option.some.inj h)
    refine ⟨more, htokens, ?_⟩
    rw [htokens, List.zipWith_cons_cons, List.zipWith_cons_cons, List.zipWith_nil_right]
  · cases h

theorem parseEntryDataForwarding_eq_some {buffer : List UInt8} {path : PathText}
    (h : parseEntryDataForwarding buffer = some path) :
    ∃ more, tokens isOverlayDelimiter buffer =
        path.receivePort :: path.sendPort :: path.sendIp :: more ∧
      dataForwardingStores buffer = [path.store.receivePort, path.store.sendPort,
        path.store.sendIp] := by
  rw [parseEntryDataForwarding] at h
  split_ifs at h with hne
  rw [dataForwardingStores, if_neg hne]
  split at h
  · rename_i receivePort sendPort sendIp more htokens
    obtain rfl := Option.some.inj h
    refine ⟨more, htokens, ?_⟩
    rw [htokens, List.zipWith_cons_cons, List.zipWith_cons_cons, List.zipWith_cons_cons,
      List.zipWith_nil_right]
    rfl
  · cases h

/-- **An entry that is accepted.** Its texts come from three lines. -/
theorem readEntry_eq_some (h : readEntry file = some (text, rest)) :
    ∃ buffer file' buffer' file'' buffer'' file''',
      fgets lineBufferSize file = some (buffer, file') ∧
      parseEntryControl buffer = some (text.ip, text.port) ∧
      fgets lineBufferSize file' = some (buffer', file'') ∧
      parseEntryDataForwarding buffer' = some text.forwardPath ∧
      fgets lineBufferSize file'' = some (buffer'', file''') ∧
      parseEntryDataForwarding buffer'' = some text.returnPath := by
  simp only [readEntry, Option.bind_eq_bind, Option.bind_eq_some_iff, Prod.exists] at h
  obtain ⟨buffer, file', hfgets, ip, port, hcontrol, buffer', file'', hfgets', forwardPath,
    hforward, buffer'', file''', hfgets'', returnPath, hreturn, htail⟩ := h
  have htext : text = ⟨ip, port, forwardPath, returnPath⟩ := by
    split at htail
    · exact (Prod.mk.inj (Option.some.inj htail)).1.symm
    · split_ifs at htail
      exact (Prod.mk.inj (Option.some.inj htail)).1.symm
  subst htext
  exact ⟨buffer, file', buffer', file'', buffer'', file''', hfgets, hcontrol, hfgets', hforward,
    hfgets'', hreturn⟩

/-- **The stores of an accepted entry** are its arrays. -/
theorem entryStores_of_readEntry (h : readEntry file = some (text, rest)) :
    entryStores file = text.store.arrays := by
  obtain ⟨buffer, file', buffer', file'', buffer'', file''', hfgets, hcontrol, hfgets', hforward,
    hfgets'', hreturn⟩ := readEntry_eq_some h
  obtain ⟨-, -, hstores⟩ := parseEntryControl_eq_some hcontrol
  obtain ⟨-, -, hstores'⟩ := parseEntryDataForwarding_eq_some hforward
  obtain ⟨-, -, hstores''⟩ := parseEntryDataForwarding_eq_some hreturn
  simp only [entryStores, pathStores, hfgets, hcontrol, hfgets', hforward, hfgets'', hstores,
    hstores', hstores'']
  rfl

/-- The texts of an entry come from lines without NUL. -/
theorem nul_notMem_of_readEntry (h : readEntry file = some (text, rest)) :
    ∀ field ∈ text.fields, 0 ∉ field.1 := by
  obtain ⟨buffer, file', buffer', file'', buffer'', file''', hfgets, hcontrol, hfgets', hforward,
    hfgets'', hreturn⟩ := readEntry_eq_some h
  obtain ⟨more, htokens, -⟩ := parseEntryControl_eq_some hcontrol
  obtain ⟨more', htokens', -⟩ := parseEntryDataForwarding_eq_some hforward
  obtain ⟨more'', htokens'', -⟩ := parseEntryDataForwarding_eq_some hreturn
  have hnul : ∀ {line : List UInt8}, 0 ∉ line → ∀ word ∈ tokens isOverlayDelimiter line,
      0 ∉ word := by
    intro line hline word hword hmem
    exact hline ((mem_of_mem_tokens hword).2 0 hmem).1
  have hcontrol := hnul (nul_notMem_of_fgets hfgets)
  have hforward := hnul (nul_notMem_of_fgets hfgets')
  have hreturn := hnul (nul_notMem_of_fgets hfgets'')
  rw [htokens] at hcontrol
  rw [htokens'] at hforward
  rw [htokens''] at hreturn
  simp only [List.forall_mem_cons] at hcontrol hforward hreturn
  simp only [EntryText.fields, List.forall_mem_cons]
  exact ⟨hcontrol.1, hcontrol.2.1, hforward.1, hforward.2.1, hforward.2.2.1, hreturn.1,
    hreturn.2.1, hreturn.2.2.1, nofun⟩

/-- The terminators of the fields. -/
theorem EntryText.terminated_store_iff (hnul : ∀ field ∈ text.fields, 0 ∉ field.1) :
    text.store.Terminated ↔ text.Fits := by
  rw [OverlayEntry.terminated_iff, EntryText.arrays_store, List.forall_mem_map]
  apply forall₂_congr
  intro field hfield
  exact nul_mem_strncpy_iff (hnul field hfield)

/-- `read_entry` stores something exactly when its first line has a token. -/
theorem entryStores_eq_nil_iff : entryStores file = [] ↔ storesEntry file = false := by
  rw [entryStores, storesEntry]
  cases hfgets : fgets lineBufferSize file with
  | none => exact iff_of_true rfl rfl
  | some result =>
    obtain ⟨buffer, file'⟩ := result
    simp only [Option.any_some, decide_eq_false_iff_not, not_not, List.append_eq_nil_iff]
    cases htokens : tokens isOverlayDelimiter buffer with
    | nil =>
      simp only [controlStores, parseEntryControl, htokens, List.zipWith_nil_left, ite_self,
        and_self]
    | cons token more =>
      have hne : buffer ≠ [0x0a] := by
        rintro rfl
        cases htokens
      simp [controlStores, hne, htokens]

/-- An entry without a token on its first line is rejected. -/
theorem readEntry_of_storesEntry (h : storesEntry file = false) : readEntry file = none := by
  cases hread : readEntry file with
  | none => rfl
  | some result =>
    obtain ⟨text, rest⟩ := result
    have hstores := entryStores_of_readEntry hread
    rw [entryStores_eq_nil_iff.mpr h] at hstores
    cases hstores

/-! ## The entries of a file -/

variable {n : ℕ} {texts : List EntryText}

theorem fileEntries_succ_iff : fileEntries (n + 1) file = some (texts, rest) ↔
    ∃ text file' texts', readEntry file = some (text, file') ∧
      fileEntries n file' = some (texts', rest) ∧ texts = text :: texts' := by
  simp only [fileEntries, Option.bind_eq_some_iff, Option.map_eq_some_iff, Prod.exists,
    Prod.mk.injEq]
  constructor
  · rintro ⟨text, file', hread, texts', rest', hfile, rfl, rfl⟩
    exact ⟨text, file', texts', hread, hfile, rfl⟩
  · rintro ⟨text, file', texts', hread, hfile, rfl⟩
    exact ⟨text, file', hread, texts', rest, hfile, rfl, rfl⟩

/-- Behind fewer entries stands one more. -/
theorem exists_of_fileEntries {m : ℕ} (h : fileEntries n file = some (texts, rest)) (hm : m < n) :
    ∃ texts' rest', fileEntries m file = some (texts', rest') ∧ readEntry rest' ≠ none := by
  induction m generalizing n file texts with
  | zero =>
    obtain ⟨n, rfl⟩ := Nat.exists_eq_succ_of_ne_zero (Nat.ne_of_gt hm)
    obtain ⟨text, file', texts', hread, -, -⟩ := fileEntries_succ_iff.mp h
    refine ⟨[], file, rfl, ?_⟩
    rw [hread]
    exact Option.some_ne_none _
  | succ m ih =>
    obtain ⟨n, rfl⟩ := Nat.exists_eq_succ_of_ne_zero (Nat.ne_zero_of_lt hm)
    obtain ⟨text, file', texts', hread, hfile, -⟩ := fileEntries_succ_iff.mp h
    obtain ⟨texts'', rest', hfile', hne⟩ := ih hfile (by omega)
    exact ⟨text :: texts'', rest', fileEntries_succ_iff.mpr ⟨_, _, _, hread, hfile', rfl⟩, hne⟩

/-- The terminators of the entries. -/
theorem terminated_iff_of_fileEntries (h : fileEntries n file = some (texts, rest)) :
    ∀ text ∈ texts, (text.store.Terminated ↔ text.Fits) := by
  induction n generalizing file texts with
  | zero =>
    obtain ⟨rfl, -⟩ := Prod.mk.inj (Option.some.inj h)
    exact nofun
  | succ n ih =>
    obtain ⟨text, file', texts', hread, hfile, rfl⟩ := fileEntries_succ_iff.mp h
    exact List.forall_mem_cons.mpr
      ⟨EntryText.terminated_store_iff (nul_notMem_of_readEntry hread), ih hfile⟩

/-! ## The loop -/

theorem readEntries_of_fileEntries {i : ℕ} (hi : i + n ≤ maxOverlaySize)
    (h : fileEntries n file = some (texts, rest)) : readEntries i n file = some (some texts) := by
  induction n generalizing i file texts with
  | zero =>
    obtain ⟨rfl, -⟩ := Prod.mk.inj (Option.some.inj h)
    rfl
  | succ n ih =>
    obtain ⟨text, file', texts', hread, hfile, rfl⟩ := fileEntries_succ_iff.mp h
    have hroom : ¬ (maxOverlaySize ≤ i ∧ storesEntry file = true) := by omega
    rw [readEntries, if_neg hroom, hread]
    have hrest := ih (i := i + 1) (by omega) hfile
    simp only [hrest, Option.map_some]

theorem fileEntries_of_readEntries {i : ℕ} (h : readEntries i n file = some (some texts)) :
    ∃ rest, fileEntries n file = some (texts, rest) := by
  induction n generalizing i file texts with
  | zero =>
    obtain rfl := Option.some.inj (Option.some.inj h)
    exact ⟨file, rfl⟩
  | succ n ih =>
    rw [readEntries] at h
    split_ifs at h
    cases hread : readEntry file with
    | none => simp [hread] at h
    | some result =>
      obtain ⟨text, file'⟩ := result
      simp only [hread, Option.map_eq_some_iff] at h
      obtain ⟨result, hresult, texts', rfl, rfl⟩ := h
      obtain ⟨rest, hfile⟩ := ih hresult
      exact ⟨rest, fileEntries_succ_iff.mpr ⟨_, _, _, hread, hfile, rfl⟩⟩

/-- **A store behind the array** is what makes the result undefined. -/
theorem readEntries_eq_none_iff (n i : ℕ) (file : List UInt8) :
    readEntries i n file = none ↔ ∃ s ∈ loopStores i n file, maxOverlaySize ≤ s.1 := by
  induction n generalizing i file with
  | zero => simp [readEntries, loopStores]
  | succ n ih =>
    rw [readEntries, loopStores]
    by_cases hstores : storesEntry file = true
    · have hne : entryStores file ≠ [] := by
        rw [Ne, entryStores_eq_nil_iff, hstores]
        decide
      obtain ⟨array, harray⟩ := List.exists_mem_of_ne_nil _ hne
      by_cases hi : maxOverlaySize ≤ i
      · rw [if_pos ⟨hi, hstores⟩]
        refine iff_of_true rfl ⟨(i, array), ?_, hi⟩
        exact List.mem_append_left _ (List.mem_map_of_mem harray)
      · rw [if_neg fun h => hi h.1]
        have hfirst : ¬ ∃ s ∈ (entryStores file).map (Prod.mk i), maxOverlaySize ≤ s.1 := by
          rintro ⟨s, hs, hle⟩
          obtain ⟨array, -, rfl⟩ := List.mem_map.mp hs
          exact hi hle
        cases hread : readEntry file with
        | none => simp [hi]
        | some result =>
          obtain ⟨text, file'⟩ := result
          simp only [Option.map_eq_none_iff, ih, List.mem_append, or_and_right, exists_or,
            or_iff_right hfirst]
    · rw [Bool.not_eq_true] at hstores
      rw [if_neg (by simp [hstores]), entryStores_eq_nil_iff.mpr hstores,
        readEntry_of_storesEntry hstores]
      simp

/-- **The entries that are stored to.** -/
theorem loopStores_index_iff (n : ℕ) {i m : ℕ} (hm : i + m = maxOverlaySize)
    (file : List UInt8) :
    (∀ s ∈ loopStores i n file, s.1 < maxOverlaySize) ↔
      (m < n → ∀ texts rest, fileEntries m file = some (texts, rest) →
        storesEntry rest = false) := by
  induction n generalizing i m file with
  | zero => exact iff_of_true nofun nofun
  | succ n ih =>
    rw [loopStores, List.forall_mem_append, List.forall_mem_map]
    cases m with
    | zero =>
      -- the entry behind the array
      have hi : ¬ i < maxOverlaySize := by omega
      constructor
      · rintro ⟨hfirst, -⟩ - texts rest hfile
        obtain ⟨-, rfl⟩ := Prod.mk.inj (Option.some.inj hfile)
        refine entryStores_eq_nil_iff.mp (List.eq_nil_iff_forall_not_mem.mpr fun array harray => ?_)
        exact hi (hfirst array harray)
      · intro h
        have hfalse := h (Nat.succ_pos n) [] file rfl
        rw [entryStores_eq_nil_iff.mpr hfalse, readEntry_of_storesEntry hfalse]
        exact ⟨nofun, nofun⟩
    | succ m =>
      have hfirst : ∀ array ∈ entryStores file, (i, array).1 < maxOverlaySize := fun _ _ => by omega
      have hm' : i + 1 + m = maxOverlaySize := by omega
      rw [and_iff_right hfirst]
      cases hread : readEntry file with
      | none =>
        refine iff_of_true nofun fun _ texts rest hfile => ?_
        obtain ⟨text, file', texts', hsome, -⟩ := fileEntries_succ_iff.mp hfile
        rw [hread] at hsome
        cases hsome
      | some result =>
        obtain ⟨text, file'⟩ := result
        rw [ih hm', Nat.add_lt_add_iff_right]
        apply imp_congr_right
        intro _
        constructor
        · intro h texts rest hfile
          obtain ⟨text', file'', texts', hsome, hfile', -⟩ := fileEntries_succ_iff.mp hfile
          rw [hread] at hsome
          obtain ⟨-, rfl⟩ := Prod.mk.inj (Option.some.inj hsome)
          exact h texts' rest hfile'
        · intro h texts rest hfile
          exact h _ rest (fileEntries_succ_iff.mpr ⟨_, _, _, hread, hfile, rfl⟩)

/-! ## The whole file -/

variable {content : Option (List UInt8)}

/-- Without a header, there are no entries. -/
theorem readOverlay_of_body_eq_none (h : overlayBody content = none) :
    readOverlay content = some none ∨ readOverlay content = some (some []) := by
  cases content with
  | none => exact .inl rfl
  | some file =>
    simp only [overlayBody, Option.bind_eq_bind, Option.bind_some] at h
    rw [readOverlay]
    cases hfgets : fgets lineBufferSize file with
    | none => exact .inr rfl
    | some result =>
      obtain ⟨buffer, file'⟩ := result
      simp only [hfgets, Option.bind_some] at h ⊢
      split_ifs at h ⊢
      · exact .inr rfl
      · cases hfgets' : fgets lineBufferSize file' with
        | none => exact .inl rfl
        | some result =>
          obtain ⟨separator, file''⟩ := result
          simp only [hfgets', Option.bind_some] at h ⊢
          split_ifs at h ⊢
          exact .inl rfl

/-- Behind a header, the loop runs over the entries. -/
theorem readOverlay_of_body (h : overlayBody content = some (n, file)) :
    readOverlay content = readEntries 0 n file := by
  cases content with
  | none => cases h
  | some text =>
    simp only [overlayBody, Option.bind_eq_bind, Option.bind_some, Option.bind_eq_some_iff,
      Prod.exists] at h
    obtain ⟨buffer, file', hfgets, h⟩ := h
    split_ifs at h with hzero
    obtain ⟨⟨separator, file''⟩, hfgets', h⟩ := Option.bind_eq_some_iff.mp h
    dsimp only at h
    split_ifs at h with hseparator
    obtain ⟨rfl, rfl⟩ := Prod.mk.inj (Option.some.inj h)
    rw [readOverlay]
    simp only [hfgets, if_neg hzero, hfgets', if_pos hseparator]

/-- A result is undefined when something is stored behind the array. -/
theorem readOverlay_eq_none_iff (content : Option (List UInt8)) :
    readOverlay content = none ↔
      ∃ s ∈ readOverlayStores content, maxOverlaySize ≤ s.1 := by
  rw [readOverlayStores]
  cases hbody : overlayBody content with
  | none =>
    rcases readOverlay_of_body_eq_none hbody with h | h
    · simp [h]
    · simp [h]
  | some result =>
    obtain ⟨n, file⟩ := result
    rw [readOverlay_of_body hbody]
    exact readEntries_eq_none_iff n 0 file

/-- **The bounds of `read_overlay`.** For every content of `zzoverlay.dat`: the stores go to the 100
entries and the entries that are delivered are strings, if and only if a file with a header fits. -/
theorem staysInBounds_iff (content : Option (List UInt8)) :
    StaysInBounds content ↔
      ∀ n file, overlayBody content = some (n, file) → OverlayFits n file := by
  constructor
  · intro h n file hbody
    have hindex := h.index
    rw [readOverlayStores, hbody] at hindex
    have hcount := (loopStores_index_iff n (Nat.zero_add maxOverlaySize) file).mp hindex
    refine ⟨hcount, fun texts rest hfile => ?_⟩
    have hle : n ≤ maxOverlaySize := by
      by_contra hlt
      obtain ⟨texts', rest', hfile', hne⟩ := exists_of_fileEntries hfile (Nat.lt_of_not_le hlt)
      exact hne (readEntry_of_storesEntry (hcount (Nat.lt_of_not_le hlt) texts' rest' hfile'))
    have hread : readOverlay content = some (some texts) := by
      rw [readOverlay_of_body hbody]
      exact readEntries_of_fileEntries (by omega) hfile
    intro text htext
    exact (terminated_iff_of_fileEntries hfile text htext).mp (h.terminated texts hread text htext)
  · intro h
    cases hbody : overlayBody content with
    | none =>
      refine ⟨?_, fun texts hread => ?_⟩
      · rw [readOverlayStores, hbody]
        exact nofun
      · rcases readOverlay_of_body_eq_none hbody with hnone | hnil
        · rw [hnone] at hread
          cases hread
        · rw [hnil] at hread
          obtain rfl := Option.some.inj (Option.some.inj hread)
          exact nofun
    | some result =>
      obtain ⟨n, file⟩ := result
      have hfits := h n file hbody
      refine ⟨?_, fun texts hread text htext => ?_⟩
      · rw [readOverlayStores, hbody]
        exact (loopStores_index_iff n (Nat.zero_add maxOverlaySize) file).mpr hfits.count
      · rw [readOverlay_of_body hbody] at hread
        obtain ⟨rest, hfile⟩ := fileEntries_of_readEntries hread
        exact (terminated_iff_of_fileEntries hfile text htext).mpr
          (hfits.texts texts rest hfile text htext)

/-- The entry of the lines `a 1`, `2 3 b` and `4 5 c`, with the empty line behind it, that many
times. -/
def repeatedEntries : ℕ → List UInt8
  | 0 => []
  | n + 1 =>
    0x61 :: 0x20 :: 0x31 :: 0x0a :: 0x32 :: 0x20 :: 0x33 :: 0x20 :: 0x62 :: 0x0a ::
      0x34 :: 0x20 :: 0x35 :: 0x20 :: 0x63 :: 0x0a :: 0x0a :: repeatedEntries n

theorem readEntry_repeatedEntries (n : ℕ) :
    ∃ text, readEntry (repeatedEntries (n + 1)) = some (text, repeatedEntries n) :=
  ⟨_, rfl⟩

theorem readEntries_repeatedEntries {i : ℕ} (hi : i ≤ maxOverlaySize) (n : ℕ)
    (hn : maxOverlaySize < i + n) : readEntries i n (repeatedEntries n) = none := by
  induction n generalizing i with
  | zero => omega
  | succ n ih =>
    rw [readEntries]
    by_cases hfull : maxOverlaySize ≤ i
    · exact if_pos ⟨hfull, rfl⟩
    · obtain ⟨text, hread⟩ := readEntry_repeatedEntries n
      rw [if_neg fun h => hfull h.1, hread]
      simp only [Option.map_eq_none_iff]
      exact ih (by omega) (by omega)

/-- A file that announces 101 entries and has them. -/
def tooManyEntries : List UInt8 :=
  0x31 :: 0x30 :: 0x31 :: 0x0a :: 0x0a :: repeatedEntries 101

/-- The last entry is stored behind the array. -/
theorem not_staysInBounds_tooManyEntries :
    numFwdPairs (some tooManyEntries) = 101 ∧
      (∃ s ∈ readOverlayStores (some tooManyEntries), maxOverlaySize ≤ s.1) ∧
      ¬ StaysInBounds (some tooManyEntries) := by
  have hbody : overlayBody (some tooManyEntries) = some (101, repeatedEntries 101) := rfl
  have hstore : ∃ s ∈ readOverlayStores (some tooManyEntries), maxOverlaySize ≤ s.1 := by
    rw [← readOverlay_eq_none_iff, readOverlay_of_body hbody]
    exact readEntries_repeatedEntries (Nat.zero_le _) 101 (by decide)
  refine ⟨rfl, hstore, fun h => ?_⟩
  obtain ⟨s, hs, hle⟩ := hstore
  exact absurd (h.index s hs) (Nat.not_lt.mpr hle)

end CS536Labs.Lab6
