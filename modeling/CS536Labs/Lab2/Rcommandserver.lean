import CS536Labs.Foundations.Buffer
import CS536Labs.Foundations.CString
import CS536Labs.Foundations.Transition
import CS536Labs.Lab3.FileServer

/-!
# `lab2/v2/rcommandserver.c`

The remote command server in `run`, between two calls of `accept` or `read`. A label is the outcome
of the call it makes next, with everything that follows it: the coin toss, the checks, and the
calls of a child. `opened` are the connection sockets that are open in the parent, numbered in the
order in which they were accepted, and `execs` logs the calls of `execvp`.

The array `command` of every connection is on the stack and not initialized. An access outside of it
leads to the control point `undefined`, from which nothing follows.
-/

namespace CS536Labs.Lab2

/-- `BUFFER_SIZE`. -/
def bufferSize : ℕ := 1024

/-- `date` -/
def date : List UInt8 := [0x64, 0x61, 0x74, 0x65]

/-- `/bin/date` -/
def binDate : List UInt8 := [0x2f, 0x62, 0x69, 0x6e, 0x2f, 0x64, 0x61, 0x74, 0x65]

/-- `allowed_commands`. -/
def allowedCommands : List (List UInt8) := [date, binDate]

/-- `sanitize_client_addr`, the same function as in lab 3. -/
def sanitizeClientAddr (ip : UInt32) : Bool := Lab3.sanitizeClientAddr ip

/-- `sanitize_command`. -/
def sanitizeCommand (command : List UInt8) : Bool :=
  allowedCommands.any fun allowed => strncmpEq command allowed allowed.length

/-- `remove_newline`, `none` for an access outside of the array. -/
def removeNewline (command : List UInt8) : Option (List UInt8) :=
  let len := (cString command).length
  if len = 0 ∨ len = command.length then none
  else if command[len - 1]? = some 0x0a then some (storeAt command (len - 1) [0])
  else some command

/-- `read_command` when `read` returned `data`, `none` for a store outside of the array. -/
def readCommand (command data : List UInt8) : Option (List UInt8) :=
  if data.length < command.length then
    some (storeAt (recvInto command data) data.length [0])
  else none

/-- The call of `accept` or `read` that the server makes next. -/
inductive Ctl
  | accept
  /-- `read` from the connection, with the array `command`. -/
  | read (sockfdFull : ℕ) (command : List UInt8)
  | returned (ret : ℤ)
  | undefined

/-- A call of `execvp`. -/
structure Exec where
  file : List UInt8
  argv : List (List UInt8)

structure Server where
  ctl : Ctl
  accepted : ℕ
  opened : List ℕ
  execs : List Exec

def Server.start : Server := ⟨.accept, 0, [], []⟩

/-- Whether `fork` succeeds, and the two calls of `dup2` in the child. -/
structure Child where
  fork : Bool
  dup2 : Bool

inductive Label
  /-- A connection from the address, and what the array `command` holds. -/
  | accept (ip : UInt32) (uninit : List UInt8)
  | acceptError
  /-- `read` returns some bytes, and `rand` a number. -/
  | read (data : List UInt8) (rand : ℕ) (child : Child)
  /-- `read` returns 0. -/
  | endOfStream
  /-- `read` returns -1. -/
  | readError

namespace Server

/-- A connection is accepted. One from a denied address is left open. -/
def connect (s : Server) (ip : UInt32) (uninit : List UInt8) : Server :=
  { s with
    ctl := if sanitizeClientAddr ip then .read s.accepted uninit else .accept
    accepted := s.accepted + 1
    opened := s.opened ++ [s.accepted] }

/-- The child, and the parent, which closes the connection. `close` succeeds on a descriptor that is
open. -/
def spawn (s : Server) (sockfdFull : ℕ) (command : List UInt8) (child : Child) : Server :=
  { s with
    ctl := .accept
    opened := s.opened.erase sockfdFull
    execs := s.execs ++
      if child.fork && child.dup2 then [⟨cString command, [cString command]⟩] else [] }

/-- `read` has returned some bytes. -/
def receive (s : Server) (sockfdFull : ℕ) (command data : List UInt8) (rand : ℕ)
    (child : Child) : Server :=
  match readCommand command data with
  | none => { s with ctl := .undefined }
  | some command =>
    if rand % 2 = 0 then { s with ctl := .read sockfdFull command }
    else if !sanitizeCommand command then { s with ctl := .accept }
    else
      match removeNewline command with
      | none => { s with ctl := .undefined }
      | some command => s.spawn sockfdFull command child

def exec (s : Server) (a : Label) : Option Server :=
  match s.ctl, a with
  | .accept, .accept ip uninit =>
    if uninit.length = bufferSize then some (s.connect ip uninit) else none
  | .accept, .acceptError => some s
  | .read sockfdFull command, .read data rand child =>
    if data ≠ [] ∧ data.length ≤ bufferSize then
      some (s.receive sockfdFull command data rand child)
    else none
  | .read _ _, .endOfStream => some { s with ctl := .accept }
  | .read _ _, .readError => some { s with ctl := .returned (-1) }
  | _, _ => none

end Server

/-! ## The functions on `command` -/

/-- An array of `BUFFER_SIZE` bytes with this string in it, and its terminator. -/
structure HoldsText (command text : List UInt8) : Prop where
  length_eq : command.length = bufferSize
  cString_eq : cString command = text
  length_lt : text.length < bufferSize

/-- **`read_command`** leaves the string that `read` returned, when there is room for the
terminator. -/
theorem readCommand_eq {command : List UInt8} (hcommand : command.length = bufferSize)
    (data : List UInt8) :
    (bufferSize ≤ data.length ∧ readCommand command data = none) ∨
      (data.length < bufferSize ∧ ∃ command',
        readCommand command data = some command' ∧ HoldsText command' (cString data)) := by
  rw [readCommand, hcommand]
  rcases Nat.lt_or_ge data.length bufferSize with hlt | hge
  · refine .inr ⟨hlt, _, if_pos hlt, ?_⟩
    have hstore : storeAt (recvInto command data) data.length [0] =
        data ++ 0 :: command.drop (data.length + 1) := by
      rw [recvInto_of_le (by omega), storeAt, List.take_left, ← List.drop_drop, List.drop_left,
        List.drop_drop, List.append_assoc]
      rfl
    have hle : (cString data).length ≤ data.length := (List.takeWhile_prefix _).length_le
    rw [hstore]
    refine ⟨?_, cString_append_zero _ _, by omega⟩
    rw [List.length_append, List.length_cons, List.length_drop]
    omega
  · exact .inl ⟨hge, if_neg (Nat.not_lt.mpr hge)⟩

/-- What `sanitize_command` looks at: the beginning of the string. -/
def Allowed (text : List UInt8) : Prop := date <+: text ∨ binDate <+: text

/-- What is let through is not empty. -/
theorem Allowed.ne_nil {text : List UInt8} (h : Allowed text) : text ≠ [] := by
  rintro rfl
  simp [Allowed, date, binDate] at h

/-- **`sanitize_command`** -/
theorem sanitizeCommand_iff (command : List UInt8) :
    sanitizeCommand command = true ↔ Allowed (cString command) := by
  have hallowed : ∀ allowed : List UInt8, cString allowed = allowed →
      (strncmpEq command allowed allowed.length = true ↔ allowed <+: cString command) := by
    intro allowed hallowed
    rw [strncmpEq, beq_iff_eq, hallowed, List.take_length, List.prefix_iff_eq_take, eq_comm]
  simp only [sanitizeCommand, allowedCommands, Allowed, List.any_cons, List.any_nil,
    Bool.or_false, Bool.or_eq_true, hallowed date rfl, hallowed binDate rfl]

/-- A text without the newline at its end. -/
def withoutNewline (text : List UInt8) : List UInt8 :=
  if text.getLast? = some 0x0a then text.dropLast else text

theorem withoutNewline_eq_iff {text w : List UInt8} (hw : w.getLast? ≠ some 0x0a) :
    withoutNewline text = w ↔ text = w ∨ text = w ++ [0x0a] := by
  rw [withoutNewline]
  split
  · rename_i hlast
    obtain ⟨u, rfl⟩ := List.getLast?_eq_some_iff.mp hlast
    rw [List.dropLast_concat, List.append_cancel_right_eq]
    refine ⟨.inr, ?_⟩
    rintro (rfl | rfl)
    · exact absurd hlast hw
    · rfl
  · rename_i hlast
    refine ⟨.inl, ?_⟩
    rintro (rfl | rfl)
    · rfl
    · exact absurd List.getLast?_concat hlast

/-- **`remove_newline`** on a string that is not empty. -/
theorem removeNewline_eq {command text : List UInt8} (h : HoldsText command text)
    (hne : text ≠ []) :
    ∃ command', removeNewline command = some command' ∧
      cString command' = withoutNewline text := by
  obtain ⟨hlength, hstring, hlt⟩ := h
  have hnul : 0 ∉ text := hstring ▸ notMem_cString command
  obtain ⟨rest, rfl⟩ : text <+: command := hstring ▸ List.takeWhile_prefix _
  have hpos := List.length_pos_iff.mpr hne
  have hlast : (text ++ rest)[text.length - 1]? = text.getLast? := by
    rw [List.getLast?_eq_getElem?, List.getElem?_append_left (by omega)]
  have htake : (text ++ rest).take (text.length - 1) = text.dropLast := by
    rw [List.dropLast_eq_take, List.take_append_of_le_length (Nat.sub_le _ _)]
  rw [removeNewline, hstring, if_neg (by omega), hlast, withoutNewline]
  split
  · refine ⟨_, rfl, ?_⟩
    have hnul' : 0 ∉ text.dropLast := fun hmem => hnul (List.dropLast_subset text hmem)
    rw [storeAt, List.append_assoc, List.singleton_append, cString_append_zero, htake,
      cString_eq_self hnul']
  · exact ⟨_, rfl, hstring⟩

/-! ## The steps of the server -/

namespace Server

variable {s t : Server} {a : Label}

/-- A call of `accept` or `read`, and what the server does behind it. -/
inductive Step (s : Server) : Label → Server → Prop
  | denied {ip : UInt32} {uninit : List UInt8} (hctl : s.ctl = .accept)
      (hip : ¬ sanitizeClientAddr ip = true) : Step s (.accept ip uninit)
        { s with accepted := s.accepted + 1, opened := s.opened ++ [s.accepted] }
  | admitted {ip : UInt32} {uninit : List UInt8} (hctl : s.ctl = .accept)
      (hip : sanitizeClientAddr ip = true) (huninit : uninit.length = bufferSize) :
      Step s (.accept ip uninit)
        { s with
          ctl := .read s.accepted uninit
          accepted := s.accepted + 1
          opened := s.opened ++ [s.accepted] }
  | acceptError (hctl : s.ctl = .accept) : Step s .acceptError s
  | overflow {sockfdFull rand : ℕ} {command data : List UInt8} {child : Child}
      (hctl : s.ctl = .read sockfdFull command) (hdata : bufferSize ≤ data.length) :
      Step s (.read data rand child) { s with ctl := .undefined }
  | ignored {sockfdFull rand : ℕ} {command command' data : List UInt8} {child : Child}
      (hctl : s.ctl = .read sockfdFull command) (hdata : data.length < bufferSize)
      (hrand : rand % 2 = 0) (hcommand' : command'.length = bufferSize) :
      Step s (.read data rand child) { s with ctl := .read sockfdFull command' }
  | rejected {sockfdFull rand : ℕ} {command data : List UInt8} {child : Child}
      (hctl : s.ctl = .read sockfdFull command) (hdata : data.length < bufferSize)
      (hrand : ¬ rand % 2 = 0) (hallowed : ¬ Allowed (cString data)) :
      Step s (.read data rand child) { s with ctl := .accept }
  | spawned {sockfdFull rand : ℕ} {command command' data : List UInt8} {child : Child}
      (hctl : s.ctl = .read sockfdFull command) (hdata : data.length < bufferSize)
      (hrand : ¬ rand % 2 = 0) (hallowed : Allowed (cString data))
      (hcommand' : cString command' = withoutNewline (cString data)) :
      Step s (.read data rand child) (s.spawn sockfdFull command' child)
  | endOfStream {sockfdFull : ℕ} {command : List UInt8}
      (hctl : s.ctl = .read sockfdFull command) : Step s .endOfStream { s with ctl := .accept }
  | readError {sockfdFull : ℕ} {command : List UInt8}
      (hctl : s.ctl = .read sockfdFull command) :
      Step s .readError { s with ctl := .returned (-1) }

/-- The array `command` has its size. -/
def CommandSized (s : Server) : Prop :=
  ∀ sockfdFull command, s.ctl = .read sockfdFull command → command.length = bufferSize

theorem step_receive {sockfdFull : ℕ} {command data : List UInt8}
    (hctl : s.ctl = .read sockfdFull command) (hcommand : command.length = bufferSize) (rand : ℕ)
    (child : Child) :
    Step s (.read data rand child) (s.receive sockfdFull command data rand child) := by
  rw [receive]
  rcases readCommand_eq hcommand data with ⟨hdata, hread⟩ | ⟨hdata, command', hread, hholds⟩
  · rw [hread]
    exact .overflow hctl hdata
  · rw [hread]
    by_cases hrand : rand % 2 = 0
    · simp only [if_pos hrand]
      exact .ignored hctl hdata hrand hholds.length_eq
    · by_cases hallowed : Allowed (cString data)
      · have hsanitize : sanitizeCommand command' = true := by
          rwa [sanitizeCommand_iff, hholds.cString_eq]
        obtain ⟨command'', hremove, hstring⟩ := removeNewline_eq hholds hallowed.ne_nil
        simp only [if_neg hrand, hsanitize, hremove]
        exact .spawned hctl hdata hrand hallowed hstring
      · have hsanitize : sanitizeCommand command' = false := by
          rwa [← Bool.not_eq_true, sanitizeCommand_iff, hholds.cString_eq]
        simp only [if_neg hrand, hsanitize]
        exact .rejected hctl hdata hrand hallowed

theorem step_of_exec (hsized : s.CommandSized) (h : s.exec a = some t) : Step s a t := by
  unfold exec at h
  split at h
  · rename_i ip uninit hctl
    split at h
    · rename_i huninit
      obtain rfl := Option.some.inj h
      by_cases hip : sanitizeClientAddr ip = true
      · rw [connect, if_pos hip]
        exact .admitted hctl hip huninit
      · rw [connect, if_neg hip, ← hctl]
        exact .denied hctl hip
    · cases h
  · rename_i hctl
    obtain rfl := Option.some.inj h
    exact .acceptError hctl
  · rename_i sockfdFull command data rand child hctl
    split at h
    · obtain rfl := Option.some.inj h
      exact step_receive hctl (hsized _ _ hctl) rand child
    · cases h
  · rename_i hctl
    obtain rfl := Option.some.inj h
    exact .endOfStream hctl
  · rename_i hctl
    obtain rfl := Option.some.inj h
    exact .readError hctl
  · cases h

theorem CommandSized.step (hsized : s.CommandSized) (h : Step s a t) : t.CommandSized := by
  intro sockfdFull command hread
  cases h with
  | denied hctl => exact hsized _ _ hread
  | admitted _ _ huninit =>
    obtain ⟨-, rfl⟩ := Ctl.read.inj hread
    exact huninit
  | acceptError => exact hsized _ _ hread
  | overflow => cases hread
  | ignored _ _ _ hcommand' =>
    obtain ⟨-, rfl⟩ := Ctl.read.inj hread
    exact hcommand'
  | rejected => cases hread
  | spawned => cases hread
  | endOfStream => cases hread
  | readError => cases hread

end Server

end CS536Labs.Lab2
