import CS536Labs.Lab1.ParseCommandWords
import CS536Labs.Lab1.RequestServer

/-!
# `lab1/v3`: the processes of `simsh1.c`

The parent runs `start_server` and forks a child for each request. Whoever returns from
`start_server` runs the rest of `main`, which executes `tear_down` and unlinks the FIFO of the
server: the parent does so for bytes without a pid or a command, and a child does so when it cannot
open the FIFO of its client. Other failures end the child with `exit`.

`survives_iff` says which byte strings, and which outcomes of the child's calls, leave the server
as it was.
-/

namespace CS536Labs.Lab1

/-- `CLIENT_FIFO_NAME_PREFIX`. -/
def clientFifoNamePrefix : List UInt8 := [0x63, 0x66, 0x69, 0x66, 0x6f]

/-- The size of `client_fifo_filename`. -/
def clientFifoFilenameSize : ℕ := 100

/-- What the system contributes to the handling of a read: the outcomes of the calls, and what the
uninitialised local of `parse_command` holds. -/
structure Env where
  uninit : Effect
  forkOk : Bool
  openOk : Bool
  dup2Ok : Bool
  execOk : Bool

/-- How a child leaves `start_server`. -/
inductive ChildEnd
  /-- `execvp` has replaced the program. -/
  | replaced
  /-- `exit(EXIT_FAILURE)`. -/
  | exited
  /-- `return -1`, to `main`. -/
  | returned
  deriving DecidableEq

/-- The child of a request, `none` when `strcat` stores behind `client_fifo_filename`. -/
def child (env : Env) (pidStr : List UInt8) : Option ChildEnd :=
  if clientFifoFilenameSize ≤ (clientFifoNamePrefix ++ pidStr).length then none
  else if !env.openOk then some .returned
  else if !env.dup2Ok then some .exited
  else if env.execOk then some .replaced
  else some .exited

/-- Whether the parent is in the loop of `start_server`, whether some process has executed
`tear_down`, and whether the FIFO of the server is linked. -/
structure Processes where
  parentInLoop : Bool
  tornDown : Bool
  linked : Bool
  deriving DecidableEq

namespace Processes

/-- `main` has entered `start_server`. -/
def start : Processes := ⟨true, false, true⟩

/-- A process executes `tear_down`. -/
def tearDown (s : Processes) : Processes := { s with tornDown := true, linked := false }

/-- The parent handles what a read returned, and a child of its own. The result is `none` for a
store behind an array. -/
def handle (s : Processes) (buf : List UInt8) (env : Env) : Option Processes :=
  if !s.parentInLoop || buf = [] then some s
  else
    match parseRequest buf with
    | none => some { s.tearDown with parentInLoop := false }
    | some (pidStr, command) =>
      (parseCommand env.uninit ⟨cString command, notMem_cString command⟩).bind fun _ =>
        if env.forkOk then
          (child env pidStr).map fun childEnd =>
            if childEnd = .returned then s.tearDown else s
        else some s

/-- The parent is in its loop, no process has executed `tear_down`, and the FIFO is linked. -/
structure Up (s : Processes) : Prop where
  parentInLoop : s.parentInLoop = true
  tornDown : s.tornDown = false
  linked : s.linked = true

end Processes

/-- What a read returned, and the outcomes of the calls. -/
structure Received where
  buf : List UInt8
  env : Env
  fits : buf.length ≤ pipeBuf

/-- The server is up after all that the reads returned. -/
def Survives (received : List Received) : Prop :=
  ∃ s, received.foldlM (fun s r => s.handle r.buf r.env) Processes.start = some s ∧ s.Up

/-- A read at the end of file, or of a request whose child, if there is one, has a pid that fits the
name of the client's FIFO, and can open that. -/
def Received.Harmless (r : Received) : Prop :=
  r.buf = [] ∨ ∃ pidStr command, parseRequest r.buf = some (pidStr, command) ∧
    (r.env.forkOk = false ∨ (pidStr.length < 95 ∧ r.env.openOk = true))

/-! ## One read -/

theorem length_cString_le (array : List UInt8) : (cString array).length ≤ array.length :=
  (List.takeWhile_prefix _).length_le

/-- `parse_command` stays inside its arrays on what a read returned. -/
theorem parseCommand_ne_none {buf pidStr command : List UInt8} (hfits : buf.length ≤ pipeBuf)
    (hparse : parseRequest buf = some (pidStr, command)) (uninit : Effect) :
    parseCommand uninit ⟨cString command, notMem_cString command⟩ ≠ none := by
  obtain ⟨-, -, -, k, hbuf⟩ := (parseRequest_eq_some_iff _ _ _).mp hparse
  have hlength := congrArg List.length hbuf
  rw [List.length_append, List.length_append, List.length_cons] at hlength
  have hle := length_cString_le buf
  have hcommand := length_cString_le command
  rw [parseCommand_eq]
  · exact Option.some_ne_none _
  · intro w hw
    have hword := length_of_mem_words hw
    simp only [argumentSize, pipeBuf] at hfits hword ⊢
    omega

namespace Processes

variable {s : Processes}

theorem not_up_tearDown (s : Processes) : ¬ s.tearDown.Up := by
  intro h
  cases h.linked

/-- What the child does to a server that is up. -/
theorem child_iff (h : s.Up) (env : Env) (pidStr : List UInt8) :
    (∃ t, ((child env pidStr).map fun childEnd =>
        if childEnd = .returned then s.tearDown else s) = some t ∧ t.Up) ↔
      pidStr.length < 95 ∧ env.openOk = true := by
  have hlength : (clientFifoNamePrefix ++ pidStr).length = 5 + pidStr.length :=
    List.length_append
  rw [child, hlength, clientFifoFilenameSize]
  by_cases hlt : pidStr.length < 95
  · rw [if_neg (by omega)]
    by_cases hopen : env.openOk = true
    · refine iff_of_true ⟨s, ?_, h⟩ ⟨hlt, hopen⟩
      rw [hopen]
      cases env.dup2Ok <;> cases env.execOk <;> rfl
    · rw [Bool.not_eq_true] at hopen
      refine iff_of_false ?_ fun hand => by simp [hopen] at hand
      rintro ⟨t, ht, hup⟩
      rw [hopen] at ht
      rw [← Option.some.inj ht] at hup
      exact not_up_tearDown s hup
  · rw [if_pos (by omega)]
    refine iff_of_false ?_ fun hand => hlt hand.1
    rintro ⟨t, ht, -⟩
    cases ht

/-- **One read.** -/
theorem handle_iff (h : s.Up) (r : Received) :
    (∃ t, s.handle r.buf r.env = some t ∧ t.Up) ↔ r.Harmless := by
  rw [handle, h.parentInLoop, Received.Harmless]
  by_cases hbuf : r.buf = []
  · refine iff_of_true ⟨s, ?_, h⟩ (.inl hbuf)
    simp [hbuf]
  · rw [or_iff_right hbuf]
    simp only [hbuf, decide_false, Bool.not_true, Bool.or_self, Bool.false_eq_true, if_false]
    rcases hparse : parseRequest r.buf with _ | ⟨pidStr, command⟩
    · simp only
      refine iff_of_false ?_ ?_
      · rintro ⟨t, ht, hup⟩
        rw [← Option.some.inj ht] at hup
        cases hup.parentInLoop
      · rintro ⟨pidStr, command, hsome, -⟩
        cases hsome
    · obtain ⟨arguments, harguments⟩ := Option.ne_none_iff_exists'.mp
        (parseCommand_ne_none r.fits hparse r.env.uninit)
      have hrequest : ∀ P : List UInt8 → Prop, (∃ pidStr' command',
          some (pidStr, command) = some (pidStr', command') ∧ P pidStr') ↔ P pidStr := by
        intro P
        constructor
        · rintro ⟨pidStr', command', heq, hP⟩
          cases heq
          exact hP
        · intro hP
          exact ⟨pidStr, command, rfl, hP⟩
      simp only [harguments, Option.bind_some]
      rw [hrequest fun pidStr => r.env.forkOk = false ∨ (pidStr.length < 95 ∧ r.env.openOk = true),
        ← child_iff h r.env pidStr]
      cases r.env.forkOk with
      | false => exact iff_of_true ⟨s, rfl, h⟩ (.inl rfl)
      | true => exact (or_iff_right Bool.noConfusion).symm

/-- A server that is not up stays so. -/
theorem up_of_handle {t : Processes} {buf : List UInt8} {env : Env}
    (h : s.handle buf env = some t) (ht : t.Up) : s.Up := by
  rw [handle] at h
  split at h
  · rw [Option.some.inj h]
    exact ht
  · split at h
    · rw [← Option.some.inj h] at ht
      cases ht.parentInLoop
    · obtain ⟨arguments, -, h⟩ := Option.bind_eq_some_iff.mp h
      split at h
      · obtain ⟨childEnd, -, rfl⟩ := Option.map_eq_some_iff.mp h
        split at ht
        · exact absurd ht (not_up_tearDown s)
        · exact ht
      · rw [Option.some.inj h]
        exact ht

/-- Any number of reads. -/
theorem foldlM_handle_iff (received : List Received) (s : Processes) :
    (∃ t, received.foldlM (fun s r => s.handle r.buf r.env) s = some t ∧ t.Up) ↔
      s.Up ∧ ∀ r ∈ received, r.Harmless := by
  induction received generalizing s with
  | nil => simp
  | cons r received ih =>
    simp only [List.foldlM_cons, Option.bind_eq_bind, Option.bind_eq_some_iff, List.forall_mem_cons]
    constructor
    · rintro ⟨t, ⟨s', hs', ht⟩, hup⟩
      obtain ⟨hup', hrest⟩ := (ih s').mp ⟨t, ht, hup⟩
      have hup := up_of_handle hs' hup'
      exact ⟨hup, (handle_iff hup r).mp ⟨s', hs', hup'⟩, hrest⟩
    · rintro ⟨hup, hr, hrest⟩
      obtain ⟨s', hs', hup'⟩ := (handle_iff hup r).mpr hr
      obtain ⟨t, ht, hup⟩ := (ih s').mpr ⟨hup', hrest⟩
      exact ⟨t, ⟨s', hs', ht⟩, hup⟩

end Processes

/-- **No request takes the server down** exactly when all that the reads return is harmless. -/
theorem survives_iff (received : List Received) :
    Survives received ↔ ∀ r ∈ received, r.Harmless := by
  rw [Survives, Processes.foldlM_handle_iff]
  exact and_iff_right ⟨rfl, rfl, rfl⟩

/-- The client 99999 asks for `ls`, and its FIFO does not exist. -/
def noClientFifo : Received where
  buf := [0x39, 0x39, 0x39, 0x39, 0x39, 0x0a, 0x6c, 0x73, 0x0a, 0x00]
  env := ⟨⟨.lookForArg, .ignore⟩, true, false, true, true⟩
  fits := by decide

/-- A NUL alone. -/
def nulAlone : Received where
  buf := [0x00]
  env := ⟨⟨.lookForArg, .ignore⟩, true, true, true, true⟩
  fits := by decide

/-- The child of a request without a client FIFO unlinks the FIFO of the server. -/
theorem noClientFifo_tearDown :
    Processes.start.handle noClientFifo.buf noClientFifo.env = some ⟨true, true, false⟩ ∧
      Processes.start.handle nulAlone.buf nulAlone.env = some ⟨false, true, false⟩ ∧
      ¬ Survives [noClientFifo] ∧ ¬ Survives [nulAlone] := by
  have hchild : Processes.start.handle noClientFifo.buf noClientFifo.env =
      some ⟨true, true, false⟩ := by
    decide
  have hparent : Processes.start.handle nulAlone.buf nulAlone.env =
      some ⟨false, true, false⟩ := by
    decide
  refine ⟨hchild, hparent, ?_, ?_⟩
  · rintro ⟨t, ht, hup⟩
    rw [List.foldlM_cons, hchild] at ht
    rw [← Option.some.inj ht] at hup
    cases hup.linked
  · rintro ⟨t, ht, hup⟩
    rw [List.foldlM_cons, hparent] at ht
    rw [← Option.some.inj ht] at hup
    cases hup.linked

end CS536Labs.Lab1
