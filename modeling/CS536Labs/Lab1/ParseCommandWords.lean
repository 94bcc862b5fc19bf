import CS536Labs.Lab1.ParseCommand
import CS536Labs.Lab1.Words

/-!
# What `parse_command` delivers

The transition table, run from the start of a word, reads the word as `wordFrom` does
(`readsWord`), so a run over the line follows `scan`. The code after the loop is where the
two part: it looks at the last action and at the length of the pending argument, and therefore
appends a non-empty last word again when two or more separators follow it, and drops an empty
last word that no separator follows. `parseCommand_eq` states the outcome for every line, and
`parseCommand_words_iff` that it is the list of words exactly when the line ends well.
-/

namespace CS536Labs.Lab1

/-- The arguments delivered for the scanned words of a line. -/
def delivered : List (List UInt8 × List UInt8) → List (List UInt8)
  | [] => []
  | [(w, [])] => if w = [] then [] else [w]
  | [(w, [_])] => [w]
  | [(w, _ :: _ :: _)] => if w = [] then [w] else [w, w]
  | p :: q :: ps => p.1 :: delivered (q :: ps)

/-! ## Running the table over a word -/

/-- The state inside a word. -/
def wordState (quoted : Bool) : State := if quoted then .inQuote else .inArg

/-- The state inside a word, after a backslash. -/
def escapedState (quoted : Bool) : State := if quoted then .escapedInQuotedArg else .escapedInArg

/-- The locals after a separator has closed the argument `buf`. -/
def closed (buf : List UInt8) (args : List (List UInt8)) : Locals :=
  ⟨⟨.lookForArg, .closeArg⟩, .lookForArg, some buf, args ++ [buf]⟩

theorem parseNextChar_separator {c : UInt8} (hc : isSeparator c = true) :
    parseNextChar c = .whitespace := by
  simp only [isSeparator, Bool.or_eq_true, beq_iff_eq] at hc
  rw [parseNextChar, if_pos (by tauto)]

theorem parseNextChar_other {c : UInt8} (hs : isSeparator c = false) (hq : c ≠ 0x22)
    (he : c ≠ 0x5c) : parseNextChar c = .others := by
  simp only [isSeparator, Bool.or_eq_false_iff, beq_eq_false_iff_ne] at hs
  rw [parseNextChar, if_neg (by tauto), if_neg hq, if_neg he]

section Step

variable {e : Effect} {buf : List UInt8} {args : List (List UInt8)}

theorem step_escape (quoted : Bool) :
    Locals.step ⟨e, wordState quoted, some buf, args⟩ 0x5c =
      some ⟨⟨escapedState quoted, .ignore⟩, escapedState quoted, some buf, args⟩ := by
  cases quoted <;> rfl

theorem step_escaped (quoted : Bool) (d : UInt8) (h : buf.length < argumentSize) :
    Locals.step ⟨e, escapedState quoted, some buf, args⟩ d =
      some ⟨⟨wordState quoted, .addToArg⟩, wordState quoted, some (buf ++ [d]), args⟩ := by
  cases quoted <;> simp [Locals.step, transitions, Action.run, wordState, escapedState, h]

theorem step_doubleQuote (quoted : Bool) :
    Locals.step ⟨e, wordState quoted, some buf, args⟩ 0x22 =
      some ⟨⟨wordState (!quoted), .ignore⟩, wordState (!quoted), some buf, args⟩ := by
  cases quoted <;> rfl

theorem step_literal (quoted : Bool) {c : UInt8} (hs : (isSeparator c && !quoted) = false)
    (hq : c ≠ 0x22) (he : c ≠ 0x5c) (h : buf.length < argumentSize) :
    Locals.step ⟨e, wordState quoted, some buf, args⟩ c =
      some ⟨⟨wordState quoted, .addToArg⟩, wordState quoted, some (buf ++ [c]), args⟩ := by
  cases hc : isSeparator c with
  | true =>
    obtain rfl : quoted = true := by simpa [hc] using hs
    simp [Locals.step, parseNextChar_separator hc, transitions, Action.run, wordState, h]
  | false =>
    cases quoted <;>
      simp [Locals.step, parseNextChar_other hc hq he, transitions, Action.run, wordState, h]

theorem step_close {c : UInt8} (hc : isSeparator c = true) (h : buf.length < argumentSize) :
    Locals.step ⟨e, wordState false, some buf, args⟩ c = some (closed buf args) := by
  simp [Locals.step, parseNextChar_separator hc, transitions, Action.run, wordState, closed, h]

end Step

/-- The run over `s` from `ℓ` reads the word `w` with `rest` left: it either ends with the whole
text of the word pending, or closes the argument at the separator after the word and goes on from
there. -/
structure ReadsWord (ℓ : Locals) (s w rest : List UInt8) (args : List (List UInt8)) : Prop where
  pending : rest = [] → ∃ e st, e.action ≠ .closeArg ∧
    s.foldlM Locals.step ℓ = some ⟨e, st, some w, args⟩
  closes : ∀ c r, rest = c :: r →
    s.foldlM Locals.step ℓ = r.foldlM Locals.step (closed w args)

theorem ReadsWord.cons {ℓ ℓ' : Locals} {c : UInt8} {s w rest : List UInt8}
    {args : List (List UInt8)} (h : ReadsWord ℓ' s w rest args) (hc : ℓ.step c = some ℓ') :
    ReadsWord ℓ (c :: s) w rest args where
  pending hr := by simpa [hc] using h.pending hr
  closes d r hr := by simpa [hc] using h.closes d r hr

variable (args : List (List UInt8))

/-- **The table reads a word as `wordFrom` does**, from inside the word with `buf` stored. -/
theorem readsWord (quoted : Bool) (s : List UInt8) (e : Effect) (buf : List UInt8)
    (he : e.action ≠ .closeArg) (hlen : buf.length + (wordFrom quoted s).1.length < argumentSize) :
    ReadsWord ⟨e, wordState quoted, some buf, args⟩ s (buf ++ (wordFrom quoted s).1)
      (wordFrom quoted s).2 args := by
  induction quoted, s using wordFrom.induct generalizing e buf with
  | case1 quoted =>
    exact ⟨fun _ => ⟨e, wordState quoted, he, by simp [wordFrom]⟩, by simp [wordFrom]⟩
  | case2 quoted =>
    refine ⟨fun _ => ?_, by simp [wordFrom]⟩
    exact ⟨⟨escapedState quoted, .ignore⟩, escapedState quoted, by simp,
      by simp [wordFrom, step_escape]⟩
  | case3 quoted d s ih =>
    simp only [wordFrom, if_true, List.length_cons] at hlen ⊢
    have h := ih ⟨wordState quoted, .addToArg⟩ (buf ++ [d]) (by simp) (by simp; omega)
    rw [List.append_assoc, List.singleton_append] at h
    exact (h.cons (step_escaped quoted d (by omega))).cons (step_escape quoted)
  | case4 quoted s hne ih =>
    have hw : wordFrom quoted (0x22 :: s) = wordFrom (!quoted) s := by
      rw [wordFrom.eq_def]; simp
    rw [hw] at hlen ⊢
    exact (ih ⟨wordState (!quoted), .ignore⟩ buf (by simp) hlen).cons (step_doubleQuote quoted)
  | case5 quoted c s hne hq hs =>
    have hw : wordFrom quoted (c :: s) = ([], c :: s) := by
      rw [wordFrom.eq_def]; simp [hne, hq, hs]
    obtain ⟨hc, rfl⟩ : isSeparator c = true ∧ quoted = false := by simpa using hs
    rw [hw] at hlen ⊢
    refine ⟨by simp, fun c' r hr => ?_⟩
    obtain ⟨rfl, rfl⟩ := List.cons.inj hr
    rw [List.foldlM_cons, step_close hc (by simpa using hlen)]
    simp
  | case6 quoted c s hne hq hs ih =>
    have hw : wordFrom quoted (c :: s) = (c :: (wordFrom quoted s).1, (wordFrom quoted s).2) := by
      rw [wordFrom.eq_def]; simp only [hne, hq, hs, if_false, Bool.false_eq_true]
    rw [hw] at hlen ⊢
    simp only [List.length_cons] at hlen
    have h := ih ⟨wordState quoted, .addToArg⟩ (buf ++ [c]) (by simp) (by simp; omega)
    rw [List.append_assoc, List.singleton_append] at h
    exact h.cons (step_literal quoted (by simpa using hs) hq hne (by omega))

/-- From `LOOK_FOR_ARG` the table reads the word that starts at the next character. -/
theorem readsWord_start (e : Effect) (arg : Option (List UInt8)) {c : UInt8}
    (hc : isSeparator c = false) (s : List UInt8)
    (hlen : (wordFrom false (c :: s)).1.length < argumentSize) :
    ReadsWord ⟨e, .lookForArg, arg, args⟩ (c :: s) (wordFrom false (c :: s)).1
      (wordFrom false (c :: s)).2 args := by
  by_cases hq : c = 0x22
  · subst hq
    have hw : wordFrom false (0x22 :: s) = wordFrom true s := by rw [wordFrom.eq_def]; simp
    rw [hw] at hlen ⊢
    exact (readsWord args true s ⟨.inQuote, .createArg⟩ [] (by simp) (by simpa using hlen)).cons rfl
  by_cases he : c = 0x5c
  · subst he
    cases s with
    | nil =>
      exact ⟨fun _ => ⟨⟨.escapedInArg, .createArg⟩, .escapedInArg, by simp, rfl⟩,
        by simp [wordFrom]⟩
    | cons d s =>
      simp only [wordFrom, if_true, List.length_cons] at hlen ⊢
      have h := readsWord args false s ⟨wordState false, .addToArg⟩ [d] (by simp)
        (by simpa [Nat.add_comm] using hlen)
      exact (h.cons (step_escaped false d (by simp [argumentSize]))).cons rfl
  · have hw : wordFrom false (c :: s) = (c :: (wordFrom false s).1, (wordFrom false s).2) := by
      rw [wordFrom.eq_def]; simp [he, hq, hc]
    rw [hw] at hlen ⊢
    have h := readsWord args false s ⟨.inArg, .createAndAddToArg⟩ [c] (by simp)
      (by simpa [Nat.add_comm] using hlen)
    exact h.cons (by simp [Locals.step, parseNextChar_other hc hq he, transitions, Action.run,
      wordState])

/-! ## The whole line -/

/-- Over separators only, the last argument is appended again if it is not empty, unless the
line stops at the separator that closed it. -/
theorem finish_separators (e : Effect) (arg : Option (List UInt8)) {s : List UInt8}
    (hs : scan s = []) (hlen : (arg.getD []).length < argumentSize) :
    (s.foldlM Locals.step ⟨e, .lookForArg, arg, args⟩).bind Locals.finish = some (argv (args ++
      if (s = [] → e.action ≠ .closeArg) ∧ arg.getD [] ≠ [] then [arg.getD []] else [])) := by
  induction s generalizing e with
  | nil =>
    simp only [List.foldlM_nil, Option.pure_def, Option.bind_some, Locals.finish, hlen, if_true,
      ne_eq, List.length_eq_zero_iff, forall_const]
    split_ifs <;> simp
  | cons c s ih =>
    have hc : isSeparator c = true := scan_eq_nil_iff.mp hs c (by simp)
    rw [scan_cons_separator hc] at hs
    have hstep : Locals.step ⟨e, .lookForArg, arg, args⟩ c =
        some ⟨⟨.lookForArg, .ignore⟩, .lookForArg, arg, args⟩ := by
      simp [Locals.step, parseNextChar_separator hc, transitions, Action.run]
    rw [List.foldlM_cons, hstep]
    simpa using ih ⟨.lookForArg, .ignore⟩ hs

/-- **The outcome on a line with at least one word.** -/
theorem finish_words (e : Effect) (arg : Option (List UInt8)) {s : List UInt8}
    (hs : scan s ≠ []) (hlen : ∀ p ∈ scan s, p.1.length < argumentSize) :
    (s.foldlM Locals.step ⟨e, .lookForArg, arg, args⟩).bind Locals.finish =
      some (argv (args ++ delivered (scan s))) := by
  induction hn : s.length using Nat.strongRecOn generalizing s args e arg with
  | ind n ih =>
  subst hn
  cases s with
  | nil => simp at hs
  | cons c s =>
    cases hc : isSeparator c with
    | true =>
      rw [scan_cons_separator hc] at hs hlen ⊢
      have hstep : Locals.step ⟨e, .lookForArg, arg, args⟩ c =
          some ⟨⟨.lookForArg, .ignore⟩, .lookForArg, arg, args⟩ := by
        simp [Locals.step, parseNextChar_separator hc, transitions, Action.run]
      rw [List.foldlM_cons, hstep]
      simpa using ih s.length (by simp) args ⟨.lookForArg, .ignore⟩ arg hs hlen rfl
    | false =>
      rw [scan_cons_word hc] at hlen ⊢
      have hw := readsWord_start args e arg hc s (hlen _ (by simp))
      have hlt := length_wordFrom_lt hc s
      rcases hp : wordFrom false (c :: s) with ⟨w, rest⟩
      rw [hp] at hw hlt hlen
      have hwlen : w.length < argumentSize := hlen (w, rest) (by simp)
      rcases hrest : rest with _ | ⟨d, r⟩
      · obtain ⟨e', st, he', hrun⟩ := hw.pending hrest
        simp only [hrun, Option.bind_some, Locals.finish, Option.getD_some, hwlen, if_true,
          he', ne_eq, not_false_eq_true, true_and, List.length_eq_zero_iff, scan_nil, delivered]
        split_ifs <;> simp
      · have hd : isSeparator d = true := by
          rcases wordFrom_rest false (c :: s) with h | ⟨d', r', h, hd⟩
          · rw [hp] at h
            exact absurd (hrest.symm.trans h) (by simp)
          · rw [hp] at h
            obtain ⟨rfl, -⟩ := List.cons.inj (hrest.symm.trans h)
            exact hd
        rw [hw.closes d r hrest, scan_cons_separator hd]
        by_cases hr : scan r = []
        · rw [closed, finish_separators _ _ _ hr (by simpa using hwlen), hr]
          rcases r with _ | ⟨d', r⟩ <;> simp [delivered]
          split_ifs <;> simp
        · have h := ih r.length (by rw [hrest] at hlt; simp at hlt ⊢; omega) (args ++ [w])
            ⟨.lookForArg, .closeArg⟩ (some w) hr
            (fun p hm => hlen p (by rw [hrest, scan_cons_separator hd]; simp [hm])) rfl
          rw [closed, h]
          obtain ⟨q, ps, hps⟩ := List.exists_cons_of_ne_nil hr
          rw [hps]
          simp [delivered]

/-- **What `parse_command` leaves in `arguments`**, for every command whose words fit. -/
theorem parseCommand_eq (uninit : Effect) (command : CString)
    (h : ∀ w ∈ words command.bytes, w.length < argumentSize) :
    parseCommand uninit command = some (argv (delivered (scan command.bytes))) := by
  have hlen : ∀ p ∈ scan command.bytes, p.1.length < argumentSize := fun p hp =>
    h p.1 (List.mem_map_of_mem hp)
  rw [parseCommand, Locals.initial]
  by_cases hs : scan command.bytes = []
  · rw [finish_separators [] uninit none hs (by simp [argumentSize]), hs]
    simp [delivered]
  · simpa using finish_words [] uninit none hs hlen

theorem delivered_eq_iff (l : List (List UInt8 × List UInt8)) :
    delivered l = l.map Prod.fst ↔ ClosedWell l.getLast? := by
  induction l using delivered.induct with
  | case1 => simp [delivered, ClosedWell]
  | case2 => simp [delivered, ClosedWell]
  | case3 w hw => simp [delivered, ClosedWell, hw]
  | case4 w c => simp [delivered, ClosedWell]
  | case5 c d r => simp [delivered, ClosedWell]
  | case6 w c d r hw => simp [delivered, ClosedWell, hw]
  | case7 p q ps ih =>
    rw [List.getLast?_cons_cons, ← ih]
    simp [delivered]

/-- **`parse_command` delivers exactly the words of the command, in order, then `NULL`, if and
only if the command ends well**: it does not end inside an empty word, and no second separator
follows a non-empty last word. -/
theorem parseCommand_words_iff (uninit : Effect) (command : CString)
    (h : ∀ w ∈ words command.bytes, w.length < argumentSize) :
    parseCommand uninit command = some (argv (words command.bytes)) ↔ EndsWell command.bytes := by
  rw [parseCommand_eq uninit command h, Option.some_inj, argv_injective.eq_iff, words,
    delivered_eq_iff, EndsWell]

/-- `ls` and a newline. -/
def lsCommand : CString := ⟨[0x6c, 0x73, 0x0a], by decide⟩

theorem words_lsCommand : words lsCommand.bytes = [[0x6c, 0x73]] := by
  simp [words, lsCommand, scan_cons_word, scan_cons_separator, isSeparator, wordFrom]

theorem parseCommand_words_iff_ls :
    parseCommand ⟨.lookForArg, .ignore⟩ lsCommand = some (argv (words lsCommand.bytes)) ↔
      EndsWell lsCommand.bytes :=
  parseCommand_words_iff ⟨.lookForArg, .ignore⟩ lsCommand
    (by simp [words_lsCommand, argumentSize])

/-- `ls`, a space and a newline. -/
def lsSpaceCommand : CString := ⟨[0x6c, 0x73, 0x20, 0x0a], by decide⟩

/-- The one word of `ls`, followed by a space and a newline, is delivered twice. -/
theorem parseCommand_lsSpace :
    words lsSpaceCommand.bytes = [[0x6c, 0x73]] ∧
      parseCommand ⟨.lookForArg, .ignore⟩ lsSpaceCommand =
        some [some [0x6c, 0x73], some [0x6c, 0x73], none] ∧
      parseCommand ⟨.lookForArg, .ignore⟩ lsSpaceCommand ≠
        some (argv (words lsSpaceCommand.bytes)) := by
  have hw : words lsSpaceCommand.bytes = [[0x6c, 0x73]] := by
    simp [words, lsSpaceCommand, scan_cons_word, scan_cons_separator, isSeparator, wordFrom]
  have hp : parseCommand ⟨.lookForArg, .ignore⟩ lsSpaceCommand =
      some [some [0x6c, 0x73], some [0x6c, 0x73], none] := by decide
  exact ⟨hw, hp, by rw [hw, hp]; decide⟩

end CS536Labs.Lab1
