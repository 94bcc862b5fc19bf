import CS536Labs.Foundations.Access
import CS536Labs.Lab2.ServerRuns

/-!
# The array `command` of the remote command server

`Server.accesses` are the accesses of `run`, and of the functions that it calls, to the array of
`BUFFER_SIZE` bytes. `read_command` asks for as many bytes and stores a terminator behind those that
it gets. `accesses_inBounds_iff`: the accesses of a run are in bounds exactly when no call of `read`
returns all the bytes it asks for. The last character that `remove_newline` looks at is in bounds,
since what `sanitize_command` lets through is not empty.
-/

namespace CS536Labs.Lab2

open Access

/-- The array of `run`. -/
inductive CommandArray
  | command
  deriving DecidableEq

/-- Its declared size. -/
def CommandArray.size : CommandArray → ℕ
  | .command => bufferSize

/-- `read_command`: the bytes that `read` stores, and the terminator. -/
def readCommandAccesses (data : List UInt8) : List (Access CommandArray) :=
  [.front .command data.length, .cell .command data.length]

/-- The string with its terminator, or what lies behind an array without one: `strlen`, `strdup`, or
the format `%s`. -/
def stringAccess (command : List UInt8) : Access CommandArray :=
  .front .command ((cString command).length + 1)

/-- `sanitize_command`: `strncmp` looks at no more characters than an allowed command has, and the
message shows the whole string. -/
def sanitizeCommandAccesses (command : List UInt8) : List (Access CommandArray) :=
  allowedCommands.map (fun allowed => .front .command allowed.length) ++
    if sanitizeCommand command then [] else [stringAccess command]

/-- `remove_newline`: `strlen`, and the last character. -/
def removeNewlineAccesses (command : List UInt8) : List (Access CommandArray) :=
  [stringAccess command, ⟨.command, (cString command).length - 1, 1⟩]

namespace Server

/-- What `run` does to the array behind a call of `read` that returned some bytes. -/
def receiveAccesses (command data : List UInt8) (rand : ℕ) : List (Access CommandArray) :=
  readCommandAccesses data ++
    match readCommand command data with
    | none => []
    | some command =>
      if rand % 2 = 0 then []
      else
        sanitizeCommandAccesses command ++
          if !sanitizeCommand command then []
          else
            removeNewlineAccesses command ++
              match removeNewline command with
              | none => []
              | some command => [stringAccess command]

/-- The accesses of a step. -/
def accesses (s : Server) (a : Label) : List (Access CommandArray) :=
  match s.ctl, a with
  | .read _ command, .read data rand _ => receiveAccesses command data rand
  | _, _ => []

end Server

/-- A call of `read` leaves room for the terminator. -/
def Label.LeavesRoom : Label → Prop
  | .read data _ _ => data.length < bufferSize
  | _ => True

/-! ## The accesses of one function -/

variable {command text data : List UInt8}

theorem stringAccess_inBounds (h : (cString command).length < bufferSize) :
    (stringAccess command).InBounds CommandArray.size := inBounds_front.mpr h

theorem sanitizeCommand_inBounds (h : HoldsText command text) :
    AllInBounds CommandArray.size (sanitizeCommandAccesses command) := by
  have hstring : (stringAccess command).InBounds CommandArray.size :=
    stringAccess_inBounds (h.cString_eq ▸ h.length_lt)
  rw [sanitizeCommandAccesses, allInBounds_append]
  refine ⟨?_, ?_⟩
  · intro a ha
    obtain ⟨allowed, hallowed, rfl⟩ := List.mem_map.mp ha
    rw [inBounds_front]
    rcases List.mem_pair.mp hallowed with rfl | rfl <;> decide
  · split_ifs
    · exact allInBounds_nil
    · exact allInBounds_cons.mpr ⟨hstring, allInBounds_nil⟩

/-- **`remove_newline`** on a string that is not empty. -/
theorem removeNewline_inBounds (h : HoldsText command text) (hne : text ≠ []) :
    AllInBounds CommandArray.size (removeNewlineAccesses command) := by
  have hpos := List.length_pos_iff.mpr hne
  have hlt := h.length_lt
  have hstring : (stringAccess command).InBounds CommandArray.size :=
    stringAccess_inBounds (h.cString_eq ▸ hlt)
  have hlast : (⟨.command, (cString command).length - 1, 1⟩ : Access CommandArray).InBounds
      CommandArray.size := by
    rw [h.cString_eq]
    simp only [InBounds, CommandArray.size]
    omega
  exact allInBounds_cons.mpr ⟨hstring, allInBounds_cons.mpr ⟨hlast, allInBounds_nil⟩⟩

theorem length_withoutNewline_le (text : List UInt8) :
    (withoutNewline text).length ≤ text.length := by
  rw [withoutNewline]
  split
  · exact (List.dropLast_sublist text).length_le
  · exact Nat.le_refl _

/-! ## Runs -/

namespace Server

variable {s t : Server} {a : Label}

/-- **The accesses behind a call of `read`.** -/
theorem receive_inBounds_iff (hcommand : command.length = bufferSize) (data : List UInt8)
    (rand : ℕ) :
    AllInBounds CommandArray.size (receiveAccesses command data rand) ↔
      data.length < bufferSize := by
  rw [receiveAccesses, allInBounds_append, readCommandAccesses, allInBounds_cons, allInBounds_cons,
    inBounds_front, inBounds_cell]
  rcases readCommand_eq hcommand data with ⟨hge, -⟩ | ⟨hlt, command', hread, hholds⟩
  · exact iff_of_false (fun h => Nat.not_lt.mpr hge h.1.2.1) (Nat.not_lt.mpr hge)
  · refine iff_of_true ⟨⟨Nat.le_of_lt hlt, hlt, allInBounds_nil⟩, ?_⟩ hlt
    rw [hread]
    dsimp only
    split_ifs with hrand hsanitize
    · exact allInBounds_nil
    · rw [allInBounds_append]
      exact ⟨sanitizeCommand_inBounds hholds, allInBounds_nil⟩
    · have hallowed : Allowed (cString data) := by
        rw [Bool.not_eq_true', Bool.not_eq_false, sanitizeCommand_iff, hholds.cString_eq]
          at hsanitize
        exact hsanitize
      obtain ⟨command'', hremove, hstring⟩ := removeNewline_eq hholds hallowed.ne_nil
      rw [allInBounds_append, allInBounds_append, hremove]
      refine ⟨sanitizeCommand_inBounds hholds, removeNewline_inBounds hholds hallowed.ne_nil, ?_⟩
      refine allInBounds_cons.mpr ⟨stringAccess_inBounds ?_, allInBounds_nil⟩
      rw [hstring]
      exact Nat.lt_of_le_of_lt (length_withoutNewline_le _) hholds.length_lt

/-- **One step.** -/
theorem step_inBounds_iff (hsized : s.CommandSized) (h : s.exec a = some t) :
    AllInBounds CommandArray.size (s.accesses a) ↔ a.LeavesRoom := by
  unfold exec at h
  unfold accesses
  split at h
  all_goals rename_i hctl
  · exact iff_of_true (by rw [hctl]; exact allInBounds_nil) trivial
  · exact iff_of_true (by rw [hctl]; exact allInBounds_nil) trivial
  · rw [hctl]
    exact receive_inBounds_iff (hsized _ _ hctl) _ _
  · exact iff_of_true (by rw [hctl]; exact allInBounds_nil) trivial
  · exact iff_of_true (by rw [hctl]; exact allInBounds_nil) trivial
  · cases h

/-- **Bounds of the command array.** -/
theorem accesses_inBounds_iff {as : List Label}
    (h : LTS.run exec (fun _ _ => True) Server.start as = some t) :
    LTS.EachStep exec Server.start as
        (fun s a => AllInBounds CommandArray.size (s.accesses a)) ↔
      ∀ a ∈ as, a.LeavesRoom := by
  refine LTS.eachStep_iff_forall (I := CommandSized) ?_ ?_ h
  · intro s a t hsized hexec
    exact ⟨step_inBounds_iff hsized hexec, hsized.step (step_of_exec hsized hexec)⟩
  · intro sockfdFull command hread
    cases hread

/-- A client that sends one byte less than the array has. -/
theorem accesses_inBounds_short :
    ∃ t, LTS.run exec (fun _ _ => True) Server.start (oneClient (List.replicate 1024 0)
        (.read (List.replicate 1023 0x61) 1 ⟨true, true⟩)) = some t ∧
      LTS.EachStep exec Server.start (oneClient (List.replicate 1024 0)
        (.read (List.replicate 1023 0x61) 1 ⟨true, true⟩))
        fun s a => AllInBounds CommandArray.size (s.accesses a) := by
  have hrun := run_oneClient List.length_replicate (exec_read (List.replicate 1024 0)
    (List.replicate 1023 0x61)
    (List.ne_nil_of_length_pos (by rw [List.length_replicate]; decide))
    (by rw [List.length_replicate]; decide) 1 ⟨true, true⟩)
  refine ⟨_, hrun, (accesses_inBounds_iff hrun).mpr ?_⟩
  intro a ha
  rcases List.mem_pair.mp ha with rfl | rfl
  · trivial
  · show (List.replicate 1023 0x61).length < bufferSize
    rw [List.length_replicate]
    decide

/-- A client that fills the array: the terminator is stored behind it. -/
theorem not_accesses_inBounds_full :
    ∃ t, LTS.run exec (fun _ _ => True) Server.start (oneClient (List.replicate 1024 0)
        (.read (List.replicate 1024 0x61) 1 ⟨true, true⟩)) = some t ∧
      ¬ LTS.EachStep exec Server.start (oneClient (List.replicate 1024 0)
        (.read (List.replicate 1024 0x61) 1 ⟨true, true⟩))
        fun s a => AllInBounds CommandArray.size (s.accesses a) := by
  have hrun := run_oneClient List.length_replicate (exec_read (List.replicate 1024 0)
    (List.replicate 1024 0x61)
    (List.ne_nil_of_length_pos (by rw [List.length_replicate]; decide))
    (by rw [List.length_replicate]; decide) 1 ⟨true, true⟩)
  refine ⟨_, hrun, fun heach => ?_⟩
  have hconnected : LTS.run exec (fun _ _ => True) Server.start [.accept 0x800a1901
      (List.replicate 1024 0)] = some (connected (List.replicate 1024 0)) :=
    LTS.run_cons trivial (exec_accept List.length_replicate) []
  have hbounds : AllInBounds CommandArray.size
      (receiveAccesses (List.replicate 1024 0) (List.replicate 1024 0x61) 1) :=
    heach [_] _ List.prefix_rfl _ hconnected
  have hlt := (receive_inBounds_iff List.length_replicate _ _).mp hbounds
  rw [List.length_replicate] at hlt
  exact absurd hlt (by decide)

end Server

end CS536Labs.Lab2
