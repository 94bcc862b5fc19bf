import CS536Labs.Foundations.Access
import CS536Labs.Lab1.CommandServer
import CS536Labs.Lab1.ParseCommand

/-!
# The arrays of `start_server` and `parse_command`

`commandStores` are the stores of `start_server` to `command` while it splits a read, and
`parseCommandStores` those of `parse_command` to `argument` and `arguments`.

A message of a client ends with its only NUL and is not longer than `PIPE_BUF`. The stream of the
messages therefore has a NUL among any `PIPE_BUF` bytes (`length_lt_of_window`), which leaves room
for the terminator of `command`, and for that of `argument` behind it. `storesSafe_of_mem_reads`:
all stores are in bounds, and none goes to the literal that `argument` points to at first. By
`CommandServer.storesSafe`, this is so in every run of the server.
-/

namespace CS536Labs.Lab1

open Access

/-- The arrays, and the literal `"\0"`. -/
inductive ServerArray
  | command
  | argument
  | literal
  | arguments
  deriving DecidableEq

/-- The declared sizes. -/
def ServerArray.size : ServerArray → ℕ
  | .command => pipeBuf
  | .argument => argumentSize
  | .literal => 2
  | .arguments => pipeBuf

/-- The stores of the loops of `start_server` over the bytes of a read, with the bytes in `command`
so far. -/
def commandStores (command : List UInt8) : List UInt8 → List (Access ServerArray)
  | [] => if command = [] then [] else [.cell .command command.length]
  | c :: buf =>
    if c = 0x0a then
      if command = [] then commandStores [] buf
      else .cell .command command.length :: commandStores [] buf
    else if c = 0 then commandStores command buf
    else .cell .command command.length :: commandStores (command ++ [c]) buf

/-- What `argument` points to. -/
def Locals.argumentArray (ℓ : Locals) : ServerArray :=
  match ℓ.argument with
  | none => .literal
  | some _ => .argument

/-- `argument_idx`. -/
def Locals.argumentIdx (ℓ : Locals) : ℕ := (ℓ.argument.getD []).length

/-- The stores of one case of the `switch`. -/
def Action.stores (a : Action) (ℓ : Locals) : List (Access ServerArray) :=
  match a with
  | .createArg => []
  | .createAndAddToArg => [.cell .argument 0]
  | .addToArg => [.cell ℓ.argumentArray ℓ.argumentIdx]
  | .closeArg => [.cell ℓ.argumentArray ℓ.argumentIdx, .cell .arguments ℓ.arguments.length]
  | .ignore => []

/-- The stores of the body of the loop. -/
def Locals.stores (ℓ : Locals) (c : UInt8) : List (Access ServerArray) :=
  (transitions ℓ.state (parseNextChar c)).action.stores ℓ

/-- The stores of the code after the loop, where `behind` is the byte at `argument_idx`. That of the
literal is NUL. -/
def Locals.finishStores (ℓ : Locals) (behind : UInt8) : List (Access ServerArray) :=
  (if ℓ.argument ≠ none ∧ behind ≠ 0 then [.cell ℓ.argumentArray ℓ.argumentIdx] else []) ++
    if ℓ.effect.action ≠ .closeArg ∧ ℓ.argumentIdx ≠ 0 then
      [.cell .arguments ℓ.arguments.length, .cell .arguments (ℓ.arguments.length + 1)]
    else [.cell .arguments ℓ.arguments.length]

/-- The stores from the locals on, up to one that fails. -/
def storesFrom (behind : UInt8) (ℓ : Locals) : List UInt8 → List (Access ServerArray)
  | [] => ℓ.finishStores behind
  | c :: s =>
    ℓ.stores c ++
      match ℓ.step c with
      | none => []
      | some ℓ => storesFrom behind ℓ s

/-- The stores of `parse_command`. -/
def parseCommandStores (uninit : Effect) (behind : UInt8) (command : List UInt8) :
    List (Access ServerArray) :=
  storesFrom behind (Locals.initial uninit) command

/-- The stores behind one read are in bounds, and the literal is left alone. -/
structure StoresSafe (buf : List UInt8) : Prop where
  command : AllInBounds ServerArray.size (commandStores [] buf)
  parse : ∀ command ∈ splitCommands [] buf, ∀ uninit behind,
    AllInBounds ServerArray.size (parseCommandStores uninit behind command)
  literal : ∀ command ∈ splitCommands [] buf, ∀ uninit behind,
    ∀ a ∈ parseCommandStores uninit behind command, a.array ≠ .literal

/-- What a client writes at once. -/
def IsMessage (bytes : List UInt8) : Prop :=
  ∃ text, bytes = text ++ [0] ∧ 0 ∉ text ∧ bytes.length ≤ pipeBuf

/-! ## The stream of the messages -/

theorem IsMessage.mem_of_suffix {bytes before tail : List UInt8} (h : IsMessage bytes)
    (hbytes : bytes = before ++ tail) (hne : tail ≠ []) : 0 ∈ tail := by
  obtain ⟨text, rfl, -, -⟩ := h
  have hlast := congrArg List.getLast? hbytes
  rw [List.getLast?_concat, List.getLast?_append_of_ne_nil _ hne] at hlast
  exact List.mem_of_getLast? hlast.symm

/-- **A window without a NUL** is shorter than `PIPE_BUF`. -/
theorem length_lt_of_window {messages : List (List UInt8)}
    (hmessages : ∀ m ∈ messages, IsMessage m) {before window after : List UInt8}
    (h : before ++ (window ++ after) = messages.flatten) (hnul : 0 ∉ window) :
    window.length < pipeBuf := by
  induction messages generalizing before with
  | nil =>
    obtain ⟨-, hrest⟩ := List.append_eq_nil_iff.mp h
    rw [(List.append_eq_nil_iff.mp hrest).1]
    exact Nat.succ_pos _
  | cons m messages ih =>
    have hm := hmessages m List.mem_cons_self
    have hmessages' : ∀ m ∈ messages, IsMessage m := fun m hm =>
      hmessages m (List.mem_cons_of_mem _ hm)
    rw [List.flatten_cons] at h
    rcases List.append_eq_append_iff.mp h with ⟨tail, hsplit, hrest⟩ | ⟨skip, -, hrest⟩
    · have hlen := congrArg List.length hsplit
      rw [List.length_append] at hlen
      obtain ⟨-, -, -, hle⟩ := id hm
      rcases List.append_eq_append_iff.mp hrest with ⟨more, rfl, -⟩ | ⟨more, rfl, hmore⟩
      · -- the window ends in this message, before its NUL
        rcases eq_or_ne more [] with rfl | hne
        · rw [List.append_nil] at hsplit
          rcases eq_or_ne window [] with rfl | hwindow
          · exact Nat.succ_pos _
          · exact absurd (hm.mem_of_suffix hsplit hwindow) hnul
        · have hpos := List.length_pos_iff.mpr hne
          rw [List.length_append] at hlen
          omega
      · -- it goes on behind the message, and does not start in it
        rcases eq_or_ne tail [] with rfl | hne
        · have hmore : [] ++ ([] ++ more ++ after) = messages.flatten := hmore.symm
          exact ih hmessages' hmore
        · exact absurd (List.mem_append_left _ (hm.mem_of_suffix hsplit hne)) hnul
    · exact ih hmessages' hrest.symm

/-! ## `start_server` -/

/-- The bytes of a read that go into `command`. -/
def kept (buf : List UInt8) : List UInt8 := buf.filter (· ≠ 0)

/-- What one byte adds to them. -/
theorem kept_cons (c : UInt8) (buf : List UInt8) :
    (kept buf).length ≤ (kept (c :: buf)).length ∧
      (c ≠ 0 → (kept (c :: buf)).length = (kept buf).length + 1) := by
  rw [kept, kept, List.filter_cons]
  split_ifs with hc
  · exact ⟨Nat.le_succ _, fun _ => rfl⟩
  · exact ⟨Nat.le_refl _, fun hne => absurd (decide_eq_true hne) hc⟩

theorem commandStores_inBounds {command buf : List UInt8}
    (h : command.length + (kept buf).length < pipeBuf) :
    AllInBounds ServerArray.size (commandStores command buf) := by
  have hcell : (.cell .command command.length : Access ServerArray).InBounds ServerArray.size :=
    inBounds_cell.mpr (Nat.lt_of_le_of_lt (Nat.le_add_right _ _) h)
  fun_induction commandStores command buf with
  | case1 => exact allInBounds_nil
  | case2 => exact allInBounds_cons.mpr ⟨hcell, allInBounds_nil⟩
  | case3 buf ih =>
    have hkept := (kept_cons 0x0a buf).1
    exact ih (by rw [List.length_nil] at h ⊢; omega) (inBounds_cell.mpr (Nat.succ_pos _))
  | case4 command buf hne ih =>
    have hkept := (kept_cons 0x0a buf).1
    refine allInBounds_cons.mpr ⟨hcell, ih ?_ (inBounds_cell.mpr (Nat.succ_pos _))⟩
    rw [List.length_nil]
    omega
  | case5 command buf hc ih =>
    have hkept := (kept_cons 0 buf).1
    exact ih (by omega) hcell
  | case6 command c buf hnewline hnul ih =>
    have hkept := (kept_cons c buf).2 hnul
    have hlen : (command ++ [c]).length = command.length + 1 := List.length_append
    refine allInBounds_cons.mpr ⟨hcell, ih (by omega) (inBounds_cell.mpr ?_)⟩
    show (command ++ [c]).length < pipeBuf
    omega

/-- The commands fit, too. -/
theorem length_of_mem_splitCommands {command buf text : List UInt8}
    (h : text ∈ splitCommands command buf) : text.length ≤ command.length + (kept buf).length := by
  fun_induction splitCommands command buf with
  | case1 => cases h
  | case2 =>
    rw [List.mem_singleton.mp h]
    exact Nat.le_add_right _ _
  | case3 buf ih =>
    have hkept := (kept_cons 0x0a buf).1
    have := ih h
    omega
  | case4 command buf hne ih =>
    have hkept := (kept_cons 0x0a buf).1
    rcases List.mem_cons.mp h with rfl | h
    · exact Nat.le_add_right _ _
    · have := ih h
      rw [List.length_nil] at this
      omega
  | case5 command buf hc ih =>
    have hkept := (kept_cons 0 buf).1
    have := ih h
    omega
  | case6 command c buf hnewline hnul ih =>
    have hkept := (kept_cons c buf).2 hnul
    have := ih h
    rw [List.length_append, List.length_singleton] at this
    omega

/-! ## `parse_command` -/

/-- Where the rows of the table lead. -/
theorem transitions_cases (state : State) (category : NextCharCategory) :
    let effect := transitions state category
    match effect.action with
    | .createArg | .createAndAddToArg => state = .lookForArg ∧ effect.nextState ≠ .lookForArg
    | .addToArg => state ≠ .lookForArg ∧ effect.nextState ≠ .lookForArg
    | .closeArg => state ≠ .lookForArg ∧ effect.nextState = .lookForArg
    | .ignore => state = .lookForArg ↔ effect.nextState = .lookForArg := by
  cases state <;> cases category <;> simp [transitions]

/-- The locals behind `n` characters: the argument is no longer than them, it is a buffer while the
table is inside it, and each argument has taken two characters. -/
structure ParsedInv (n : ℕ) (ℓ : Locals) : Prop where
  argumentIdx : ℓ.argumentIdx ≤ n
  pending : ℓ.state ≠ .lookForArg → ℓ.argumentArray = .argument
  arguments : 2 * ℓ.arguments.length + (if ℓ.state = .lookForArg then 0 else 1) ≤ n

theorem parsedInv_initial (uninit : Effect) : ParsedInv 0 (Locals.initial uninit) where
  argumentIdx := Nat.le_refl 0
  pending h := absurd rfl h
  arguments := Nat.le_refl 0

/-- The stores are in bounds, and the literal is left alone. -/
def Harmless (as : List (Access ServerArray)) : Prop :=
  AllInBounds ServerArray.size as ∧ ∀ a ∈ as, a.array ≠ .literal

theorem harmless_nil : Harmless [] := ⟨allInBounds_nil, by simp⟩

theorem Harmless.append {as bs : List (Access ServerArray)} (h : Harmless as) (h' : Harmless bs) :
    Harmless (as ++ bs) :=
  ⟨allInBounds_append.mpr ⟨h.1, h'.1⟩, List.forall_mem_append.mpr ⟨h.2, h'.2⟩⟩

theorem harmless_cell {array : ServerArray} {i : ℕ} (hi : i < array.size)
    (harray : array ≠ .literal) : Harmless [.cell array i] := by
  refine ⟨allInBounds_cons.mpr ⟨inBounds_cell.mpr hi, allInBounds_nil⟩, ?_⟩
  intro a ha
  rwa [List.mem_singleton.mp ha]

variable {n : ℕ} {ℓ : Locals}

/-- The pending argument has room. -/
theorem ParsedInv.harmless_argument (h : ParsedInv n ℓ) (hn : n < argumentSize)
    (hpending : ℓ.argumentArray = .argument) :
    Harmless [.cell ℓ.argumentArray ℓ.argumentIdx] := by
  rw [hpending]
  exact harmless_cell (Nat.lt_of_le_of_lt h.argumentIdx hn) nofun

theorem ParsedInv.harmless_arguments (h : ParsedInv n ℓ) (hn : n < argumentSize) :
    Harmless [.cell .arguments ℓ.arguments.length] ∧
      Harmless [.cell .arguments (ℓ.arguments.length + 1)] := by
  have harguments := h.arguments
  refine ⟨harmless_cell ?_ nofun, harmless_cell ?_ nofun⟩
  · show ℓ.arguments.length < pipeBuf
    unfold argumentSize at hn
    unfold pipeBuf
    omega
  · show ℓ.arguments.length + 1 < pipeBuf
    unfold argumentSize at hn
    unfold pipeBuf
    omega

/-- Inside an argument there is a buffer, with room for one more character. -/
theorem ParsedInv.exists_argument (h : ParsedInv n ℓ) (hn : n < argumentSize)
    (hstate : ℓ.state ≠ .lookForArg) :
    ∃ buf, ℓ.argument = some buf ∧ buf.length ≤ n ∧ buf.length < argumentSize ∧
      Harmless [.cell ℓ.argumentArray ℓ.argumentIdx] := by
  have hpending := h.pending hstate
  have hidx := h.argumentIdx
  have hharmless := h.harmless_argument hn hpending
  cases hbuf : ℓ.argument with
  | none => simp [Locals.argumentArray, hbuf] at hpending
  | some buf =>
    have hle : buf.length ≤ n := by
      rwa [Locals.argumentIdx, hbuf] at hidx
    exact ⟨buf, rfl, hle, Nat.lt_of_le_of_lt hle hn, hharmless⟩

/-- **One character.** -/
theorem ParsedInv.step (h : ParsedInv n ℓ) (hn : n < argumentSize) (c : UInt8) :
    Harmless (ℓ.stores c) ∧ ∃ ℓ', ℓ.step c = some ℓ' ∧ ParsedInv (n + 1) ℓ' := by
  have hcases := transitions_cases ℓ.state (parseNextChar c)
  have hidx := h.argumentIdx
  have harguments := h.arguments
  unfold Locals.stores Locals.step
  generalize transitions ℓ.state (parseNextChar c) = effect at hcases ⊢
  obtain ⟨next, action⟩ := effect
  cases action with
  | createArg =>
    obtain ⟨hstate, hnext⟩ := hcases
    rw [if_pos hstate] at harguments
    refine ⟨harmless_nil, _, rfl, Nat.zero_le _, fun _ => rfl, ?_⟩
    simp only [if_neg hnext]
    omega
  | createAndAddToArg =>
    obtain ⟨hstate, hnext⟩ := hcases
    rw [if_pos hstate] at harguments
    refine ⟨harmless_cell (Nat.succ_pos _) nofun, _, rfl, Nat.succ_le_succ (Nat.zero_le _),
      fun _ => rfl, ?_⟩
    simp only [if_neg hnext]
    omega
  | addToArg =>
    obtain ⟨hstate, hnext⟩ := hcases
    rw [if_neg hstate] at harguments
    obtain ⟨buf, hbuf, hlen, hroom, hharmless⟩ := h.exists_argument hn hstate
    refine ⟨hharmless, ?_⟩
    simp only [Action.run, hbuf, if_pos hroom, Option.map_some, Option.some.injEq, exists_eq_left']
    refine ⟨?_, fun _ => rfl, ?_⟩
    · show (buf ++ [c]).length ≤ n + 1
      rw [List.length_append, List.length_singleton]
      omega
    · simp only [if_neg hnext]
      omega
  | closeArg =>
    obtain ⟨hstate, hnext⟩ := hcases
    rw [if_neg hstate] at harguments
    obtain ⟨buf, hbuf, hlen, hroom, hharmless⟩ := h.exists_argument hn hstate
    refine ⟨hharmless.append (h.harmless_arguments hn).1, ?_⟩
    simp only [Action.run, hbuf, if_pos hroom, Option.map_some, Option.some.injEq, exists_eq_left']
    refine ⟨?_, fun hne => absurd hnext hne, ?_⟩
    · show buf.length ≤ n + 1
      omega
    · simp only [if_pos hnext, List.length_append, List.length_singleton]
      omega
  | ignore =>
    refine ⟨harmless_nil, _, rfl, Nat.le_succ_of_le hidx, fun hne => ?_, ?_⟩
    · exact h.pending fun hstate => hne (hcases.mp hstate)
    · have heq : (if next = .lookForArg then 0 else 1) =
          if ℓ.state = .lookForArg then 0 else 1 := if_congr hcases.symm rfl rfl
      simp only [heq]
      omega

/-- The code after the loop. -/
theorem ParsedInv.finish (h : ParsedInv n ℓ) (hn : n < argumentSize) (behind : UInt8) :
    Harmless (ℓ.finishStores behind) := by
  obtain ⟨hargument, hnull⟩ := h.harmless_arguments hn
  refine Harmless.append ?_ ?_
  · split_ifs with hstore
    · refine h.harmless_argument hn ?_
      rw [Locals.argumentArray]
      cases hbuf : ℓ.argument with
      | none => exact absurd hbuf hstore.1
      | some buf => rfl
    · exact harmless_nil
  · split_ifs
    · exact hargument.append hnull
    · exact hargument

/-- **The whole command**, by induction on what is left of it. -/
theorem ParsedInv.run (h : ParsedInv n ℓ) {s : List UInt8} (hn : n + s.length < argumentSize)
    (behind : UInt8) : Harmless (storesFrom behind ℓ s) := by
  induction s generalizing n ℓ with
  | nil => exact h.finish hn behind
  | cons c s ih =>
    rw [List.length_cons] at hn
    obtain ⟨hstores, ℓ', hstep, hinv⟩ := h.step (by omega) c
    rw [storesFrom, hstep]
    exact hstores.append (ih hinv (by omega))

/-- **The stores of `parse_command`** on a command that leaves room for its terminator. -/
theorem parseCommandStores_harmless (uninit : Effect) (behind : UInt8) {command : List UInt8}
    (h : command.length < argumentSize) :
    Harmless (parseCommandStores uninit behind command) :=
  (parsedInv_initial uninit).run (by omega) behind

/-! ## Reads of the stream -/

/-- A read that keeps fewer than `PIPE_BUF` bytes. -/
theorem storesSafe_of_kept {buf : List UInt8} (h : (kept buf).length < pipeBuf) :
    StoresSafe buf := by
  have hharmless : ∀ command ∈ splitCommands [] buf, ∀ uninit behind,
      Harmless (parseCommandStores uninit behind command) := by
    intro command hcommand uninit behind
    have hle := length_of_mem_splitCommands hcommand
    rw [List.length_nil, Nat.zero_add] at hle
    exact parseCommandStores_harmless uninit behind (Nat.lt_of_le_of_lt hle h)
  constructor
  · exact commandStores_inBounds (by rwa [List.length_nil, Nat.zero_add])
  · exact fun command hcommand uninit behind => (hharmless command hcommand uninit behind).1
  · exact fun command hcommand uninit behind => (hharmless command hcommand uninit behind).2

theorem length_kept_lt {buf : List UInt8} (hle : buf.length ≤ pipeBuf)
    (h : 0 ∈ buf ∨ buf.length < pipeBuf) : (kept buf).length < pipeBuf := by
  have hfilter : (kept buf).length ≤ buf.length := List.length_filter_le _ _
  rcases h with hnul | hlt
  · have hlt : (kept buf).length < buf.length :=
      List.length_filter_lt_length_iff_exists.mpr ⟨0, hnul, by decide⟩
    omega
  · omega

/-- A read that stands anywhere in the stream. -/
theorem storesSafe_of_window {messages : List (List UInt8)}
    (hmessages : ∀ m ∈ messages, IsMessage m) {reads : List (List UInt8)}
    {buf queue : List UInt8} (hcut : reads.flatten ++ queue = messages.flatten)
    (hbuf : buf ∈ reads) (hsize : buf.length ≤ pipeBuf) : StoresSafe buf := by
  obtain ⟨before, after, rfl⟩ := List.append_of_mem hbuf
  have hwindow : before.flatten ++ (buf ++ (after.flatten ++ queue)) = messages.flatten := by
    rw [← hcut, List.flatten_append, List.flatten_cons]
    simp only [List.append_assoc]
  apply storesSafe_of_kept
  apply length_kept_lt hsize
  by_cases hnul : 0 ∈ buf
  · exact .inl hnul
  · exact .inr (length_lt_of_window hmessages hwindow hnul)

/-- **Buffer safety of the server**, for the reads of any stream of messages. -/
theorem storesSafe_of_mem_reads {messages reads : List (List UInt8)} {queue : List UInt8}
    (hmessages : ∀ m ∈ messages, IsMessage m) (hcut : reads.flatten ++ queue = messages.flatten)
    (hsize : ∀ buf ∈ reads, buf.length ≤ pipeBuf) :
    ∀ buf ∈ reads, StoresSafe buf := by
  intro buf hbuf
  exact storesSafe_of_window hmessages hcut hbuf (hsize buf hbuf)

/-- The message of `ls`, in two reads. -/
theorem storesSafe_ls : StoresSafe [0x6c, 0x73] ∧ StoresSafe [0x0a, 0] := by
  have hmessages : ∀ m ∈ ([[0x6c, 0x73, 0x0a, 0]] : List (List UInt8)), IsMessage m := by
    intro m hm
    rw [List.mem_singleton.mp hm]
    exact ⟨[0x6c, 0x73, 0x0a], rfl, by simp, by decide⟩
  have hcut : [[0x6c, 0x73], [0x0a, 0]].flatten ++ [] =
      ([[0x6c, 0x73, 0x0a, 0]] : List (List UInt8)).flatten := rfl
  have hsize : ∀ buf ∈ ([[0x6c, 0x73], [0x0a, 0]] : List (List UInt8)),
      buf.length ≤ pipeBuf := by
    intro buf hbuf
    rcases List.mem_pair.mp hbuf with rfl | rfl <;> decide
  have hsafe := storesSafe_of_mem_reads hmessages hcut hsize
  exact ⟨hsafe _ (by simp), hsafe _ (by simp)⟩

theorem Line.isMessage (line : Line) (h : line.message.length ≤ pipeBuf) :
    IsMessage line.message := by
  refine ⟨line.text ++ [0x0a], by rw [message, List.append_assoc]; rfl, ?_, h⟩
  rw [List.mem_append, not_or]
  exact ⟨line.noNul, by simp⟩

/-- The clients write what fits, and the server reads what fits. -/
theorem CommandServer.fits_of_reachable {s : CommandServer} (h : system.Reachable s) :
    (∀ line ∈ s.pipe.written, line.message.length ≤ pipeBuf) ∧
      ∀ buf ∈ s.pipe.reads, buf.length ≤ pipeBuf := by
  refine h.invariant (I := fun s => (∀ line ∈ s.pipe.written, line.message.length ≤ pipeBuf) ∧
    ∀ buf ∈ s.pipe.reads, buf.length ≤ pipeBuf) ?_ ?_
  · rintro s rfl
    exact ⟨nofun, nofun⟩
  · rintro s a s' - ⟨hwritten, hreads⟩ hstep
    have hstep : s.exec a = some s' := hstep
    cases a with
    | line line =>
      rw [exec] at hstep
      split_ifs at hstep with hle
      · obtain rfl := Option.some.inj hstep
        refine ⟨List.forall_mem_append.mpr ⟨hwritten, ?_⟩, hreads⟩
        intro m hm
        rwa [List.mem_singleton.mp hm]
      · obtain rfl := Option.some.inj hstep
        exact ⟨hwritten, hreads⟩
    | read n =>
      obtain ⟨⟨buf, pipe⟩, hread, rfl⟩ := Option.map_eq_some_iff.mp hstep
      obtain ⟨-, -, -, hreads', hwritten'⟩ := Pipe.read_eq_some hread
      refine ⟨by rwa [hwritten'], ?_⟩
      rw [hreads']
      refine List.forall_mem_append.mpr ⟨hreads, ?_⟩
      intro buf hbuf
      rw [List.mem_singleton.mp hbuf]
      exact Pipe.length_le_of_read hread

/-- **Every run of the server** is safe. -/
theorem CommandServer.storesSafe {s : CommandServer} (h : system.Reachable s) :
    ∀ buf ∈ s.pipe.reads, StoresSafe buf := by
  intro buf hbuf
  obtain ⟨hwritten, hreads⟩ := fits_of_reachable h
  have hcut : s.pipe.reads.flatten ++ s.pipe.queue = (s.pipe.written.map Line.message).flatten := by
    rw [s.pipe.conserved, List.flatMap_def]
  refine storesSafe_of_window ?_ hcut hbuf (hreads buf hbuf)
  intro m hm
  obtain ⟨line, hline, rfl⟩ := List.mem_map.mp hm
  exact line.isMessage (hwritten line hline)

end CS536Labs.Lab1
