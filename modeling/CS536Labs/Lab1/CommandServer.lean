import CS536Labs.Foundations.Pipe
import CS536Labs.Foundations.Tokens
import CS536Labs.Foundations.Transition

/-!
# `lab1/v2`: `commandclient.c` and `start_server` of `simsh1.c`

The clients write their lines to a FIFO, each line with its newline and a NUL. The server splits
what a read returns at newlines and passes every non-empty piece to `parse_command`. It keeps
nothing from one read to the next: a line that is cut by the end of a read becomes two commands.

`framed_iff` says that the commands are the lines that were written exactly when no read ended
inside the text of a line.
-/

namespace CS536Labs.Lab1

/-- `PIPE_BUF`. -/
def pipeBuf : ℕ := 4096

/-- A line of a client, without its newline. -/
structure Line where
  text : List UInt8
  noNewline : 0x0a ∉ text
  noNul : 0 ∉ text

/-- What a client writes for a line: the string that `fgets` stored, with its terminator. -/
def Line.message (line : Line) : List UInt8 := line.text ++ [0x0a, 0]

/-- The loops of `start_server` over the bytes of a read, with the bytes in `command` so far. -/
def splitCommands (command : List UInt8) : List UInt8 → List (List UInt8)
  | [] => if command = [] then [] else [command]
  | c :: buf =>
    if c = 0x0a then
      if command = [] then splitCommands [] buf else command :: splitCommands [] buf
    else if c = 0 then splitCommands command buf
    else splitCommands (command ++ [c]) buf

/-- The FIFO, and the commands that `parse_command` got. -/
structure CommandServer where
  pipe : Pipe Line.message
  commands : List (List UInt8)

namespace CommandServer

inductive Label
  /-- A client has read a line. -/
  | line (line : Line)
  /-- The server reads `n` bytes and handles them. -/
  | read (n : ℕ)

/-- A client writes its line if the message is not longer than `PIPE_BUF`, or the server runs
through its loop. -/
def exec (s : CommandServer) : Label → Option CommandServer
  | .line line =>
    if line.message.length ≤ pipeBuf then some { s with pipe := s.pipe.write line } else some s
  | .read n =>
    (s.pipe.read pipeBuf n).map fun (buf, pipe) =>
      ⟨pipe, s.commands ++ splitCommands [] buf⟩

/-- The server with any number of clients. -/
def system : LTS CommandServer Label := LTS.ofExec ⟨.empty, []⟩ exec

end CommandServer

/-- The lines that are not empty. -/
def nonEmptyLines (lines : List Line) : List (List UInt8) :=
  (lines.map Line.text).filter fun text => !text.isEmpty

/-- The commands are the lines that were written, up to lines that are still queued. -/
structure CommandServer.Framed (s : CommandServer) : Prop where
  isPrefix : s.commands <+: nonEmptyLines s.pipe.written
  all : s.pipe.queue = [] → s.commands = nonEmptyLines s.pipe.written

/-- The bytes that end the text of a line. -/
def isLineEnd (c : UInt8) : Bool := c == 0x0a || c == 0

/-- No read ended inside the text of a line. -/
def CommandServer.CutsBetweenLines (s : CommandServer) : Prop :=
  (s.pipe.reads ++ [s.pipe.queue]).IsChain (Breaks isLineEnd)

/-! ## The bytes of the lines -/

/-- A NUL stands behind a newline only. -/
def NulBehindEnd (c d : UInt8) : Prop := isLineEnd c = false → d ≠ 0

theorem Line.isLineEnd_of_mem (line : Line) {c : UInt8} (hc : c ∈ line.text) :
    isLineEnd c = false := by
  have hnewline : c ≠ 0x0a := by
    rintro rfl
    exact line.noNewline hc
  have hnul : c ≠ 0 := by
    rintro rfl
    exact line.noNul hc
  simp [isLineEnd, hnewline, hnul]

theorem Line.isChain_message (line : Line) : line.message.IsChain NulBehindEnd := by
  have hall : ∀ text : List UInt8, 0 ∉ text → (text ++ [0x0a, 0]).IsChain NulBehindEnd := by
    intro text htext
    induction text with
    | nil => exact List.isChain_pair.mpr fun h => absurd h (by decide)
    | cons c text ih =>
      rw [List.mem_cons, not_or] at htext
      rw [List.cons_append, List.isChain_cons]
      refine ⟨?_, ih htext.2⟩
      intro d hd _
      cases text with
      | nil =>
        obtain rfl : 0x0a = d := Option.some.inj hd
        decide
      | cons d' text =>
        obtain rfl : d' = d := Option.some.inj hd
        rintro rfl
        exact htext.2 List.mem_cons_self
  exact hall line.text line.noNul

theorem Line.getLast?_message (line : Line) : line.message.getLast? = some 0 := by
  rw [message, List.getLast?_append_of_ne_nil _ (List.cons_ne_nil _ _)]
  rfl

theorem isChain_messages (lines : List Line) :
    (lines.flatMap Line.message).IsChain NulBehindEnd := by
  induction lines with
  | nil => exact List.isChain_nil
  | cons line lines ih =>
    rw [List.flatMap_cons]
    refine line.isChain_message.append ih ?_
    intro c hc d _ hend
    rw [line.getLast?_message] at hc
    obtain rfl : 0 = c := Option.some.inj hc
    cases hend

theorem Line.tokens_message (line : Line) :
    tokens isLineEnd line.message = [line.text].filter fun text => !text.isEmpty := by
  rw [message, tokens_append_cons line.text [0] rfl, tokens_cons [] rfl, tokens_nil,
    List.append_nil]
  rcases List.eq_nil_or_concat' line.text with hnil | ⟨text, c, htext⟩
  · rw [hnil]
    rfl
  · have hne : line.text ≠ [] := by simp [htext]
    rw [tokens_eq_singleton hne fun c => line.isLineEnd_of_mem]
    simp [hne]

/-- **The lines are the tokens of the stream.** -/
theorem tokens_messages (lines : List Line) :
    tokens isLineEnd (lines.flatMap Line.message) = nonEmptyLines lines := by
  induction lines with
  | nil => rfl
  | cons line lines ih =>
    have hbreaks : Breaks isLineEnd line.message (lines.flatMap Line.message) := by
      apply breaks_of_getLast?
      intro c hc
      rw [line.getLast?_message] at hc
      rw [← Option.some.inj hc]
      rfl
    rw [List.flatMap_cons, tokens_append_of_breaks hbreaks, ih, line.tokens_message,
      nonEmptyLines, ← List.filter_append]
    rfl

/-! ## The splitting loop -/

/-- **The loop splits at newlines and NULs**, where a NUL only stands behind a newline. -/
theorem splitCommands_eq_tokens {command buf : List UInt8}
    (hcommand : ∀ c ∈ command, isLineEnd c = false)
    (hchain : (command ++ buf).IsChain NulBehindEnd) :
    splitCommands command buf = tokens isLineEnd (command ++ buf) := by
  induction buf generalizing command with
  | nil =>
    rw [splitCommands, List.append_nil]
    split_ifs with hnil
    · rw [hnil, tokens_nil]
    · exact (tokens_eq_singleton hnil hcommand).symm
  | cons c buf ih =>
    have hbuf : ([] ++ buf).IsChain NulBehindEnd :=
      hchain.right_of_append.tail
    rw [splitCommands]
    split_ifs with hnewline hnil hnul
    · subst hnewline hnil
      rw [ih (by simp) hbuf, List.nil_append, List.nil_append, tokens_cons buf rfl]
    · subst hnewline
      rw [ih (by simp) hbuf, tokens_append_cons command buf rfl,
        tokens_eq_singleton hnil hcommand]
      rfl
    · subst hnul
      -- `command` is empty: a NUL does not stand behind text
      obtain rfl : command = [] := by
        rcases List.eq_nil_or_concat' command with hnil | ⟨text, d, rfl⟩
        · exact hnil
        · rw [List.append_assoc, List.singleton_append] at hchain
          have hrel := (List.isChain_append_cons_cons.mp hchain).2.1
          exact absurd rfl (hrel (hcommand d (by simp)))
      rw [ih (by simp) hbuf, List.nil_append, List.nil_append, tokens_cons buf rfl]
    · have hc : isLineEnd c = false := by simp [isLineEnd, hnewline, hnul]
      have happend : (command ++ [c]) ++ buf = command ++ c :: buf := by
        rw [List.append_assoc, List.singleton_append]
      rw [← happend] at hchain ⊢
      refine ih ?_ hchain
      intro d hd
      rcases List.mem_append.mp hd with hd | hd
      · exact hcommand d hd
      · rw [List.mem_singleton.mp hd]
        exact hc

/-! ## Runs of the server -/

namespace CommandServer

variable {s : CommandServer}

/-- The commands are the pieces of the reads. -/
theorem commands_of_reachable (h : system.Reachable s) :
    s.commands = s.pipe.reads.flatMap (splitCommands []) := by
  refine h.invariant (I := fun s => s.commands = s.pipe.reads.flatMap (splitCommands [])) ?_ ?_
  · rintro s rfl
    rfl
  · rintro s a s' - hs hstep
    have hstep : s.exec a = some s' := hstep
    cases a with
    | line line =>
      rw [exec] at hstep
      split_ifs at hstep <;>
      · obtain rfl := Option.some.inj hstep
        exact hs
    | read n =>
      obtain ⟨⟨buf, pipe⟩, hread, rfl⟩ := Option.map_eq_some_iff.mp hstep
      obtain ⟨-, -, -, hreads, -⟩ := Pipe.read_eq_some hread
      simp only [hreads, hs, List.flatMap_append, List.flatMap_singleton]

/-- A read returns a part of the stream. -/
theorem isChain_of_mem_reads {chunk : List UInt8} (hchunk : chunk ∈ s.pipe.reads) :
    chunk.IsChain NulBehindEnd := by
  obtain ⟨before, after, hreads⟩ := List.append_of_mem hchunk
  have hstream : before.flatten ++ (chunk ++ (after.flatten ++ s.pipe.queue)) =
      s.pipe.written.flatMap Line.message := by
    rw [← s.pipe.conserved, hreads, List.flatten_append, List.flatten_cons]
    simp only [List.append_assoc]
  have hchain := isChain_messages s.pipe.written
  rw [← hstream] at hchain
  exact hchain.right_of_append.left_of_append

theorem commands_eq_tokens (h : system.Reachable s) :
    s.commands = s.pipe.reads.flatMap (tokens isLineEnd) := by
  rw [commands_of_reachable h]
  apply List.flatMap_congr
  intro chunk hchunk
  exact splitCommands_eq_tokens (by simp) (isChain_of_mem_reads hchunk)

theorem nonEmptyLines_eq_tokens (s : CommandServer) :
    nonEmptyLines s.pipe.written = tokens isLineEnd (s.pipe.reads.flatten ++ s.pipe.queue) := by
  rw [s.pipe.conserved, tokens_messages]

/-- **Framing.** In every reachable state, the commands are the non-empty lines that were written,
in order, exactly when no read ended inside the text of a line. -/
theorem framed_iff (h : system.Reachable s) : s.Framed ↔ s.CutsBetweenLines := by
  have hiff := flatMap_tokens_isPrefix_iff (p := isLineEnd) s.pipe.reads_ne_nil s.pipe.queue
  rw [← commands_eq_tokens h, ← nonEmptyLines_eq_tokens] at hiff
  constructor
  · intro hframed
    exact hiff.mp hframed.isPrefix
  · intro hcuts
    refine ⟨hiff.mpr hcuts, ?_⟩
    intro hqueue
    have happend := flatMap_tokens_append s.pipe.reads_ne_nil hcuts
    rw [← commands_eq_tokens h, ← nonEmptyLines_eq_tokens, hqueue, tokens_nil,
      List.append_nil] at happend
    exact happend

/-- The line `ls -l`. -/
def lsLine : Line := ⟨[0x6c, 0x73, 0x20, 0x2d, 0x6c], by decide, by decide⟩

/-- A read that ends between the text of a line and its newline does no harm. -/
theorem framed_lsLine :
    ∃ s, system.Reachable s ∧ s.pipe.reads = [lsLine.text, [0x0a, 0]] ∧ s.Framed := by
  have hrun : LTS.run exec (fun _ _ => True) ⟨.empty, []⟩ [.line lsLine, .read 5, .read 2] =
    some _ := rfl
  have hreach := (LTS.reachable_of_run (LTS.Reachable.init rfl) hrun).of_restrict
  refine ⟨_, hreach, rfl, (framed_iff hreach).mpr ?_⟩
  refine List.isChain_cons_cons.mpr ⟨?_, List.isChain_pair.mpr ?_⟩
  · apply breaks_of_head?
    intro d hd
    rw [← Option.some.inj hd]
    rfl
  · apply breaks_of_head?
    intro d hd
    cases hd

/-! ## A line that is cut -/

/-- Text is collected in `command`. -/
theorem splitCommands_append {text : List UInt8} (htext : ∀ c ∈ text, isLineEnd c = false)
    (command buf : List UInt8) :
    splitCommands command (text ++ buf) = splitCommands (command ++ text) buf := by
  induction text generalizing command with
  | nil => rw [List.nil_append, List.append_nil]
  | cons c text ih =>
    have hc := htext c List.mem_cons_self
    simp only [isLineEnd, Bool.or_eq_false_iff, beq_eq_false_iff_ne] at hc
    rw [List.cons_append, splitCommands, if_neg hc.1, if_neg hc.2,
      ih (fun d hd => htext d (List.mem_cons_of_mem _ hd)), List.append_assoc,
      List.singleton_append]

/-- A line of 4090 characters. -/
def longLine : Line where
  text := List.replicate 4090 0x61
  noNewline := by
    intro h
    exact absurd (List.eq_of_mem_replicate h) (by decide)
  noNul := by
    intro h
    exact absurd (List.eq_of_mem_replicate h) (by decide)

theorem splitCommands_longLine :
    splitCommands [] (longLine.message ++ [0x6c, 0x73, 0x20, 0x2d]) =
      [longLine.text, [0x6c, 0x73, 0x20, 0x2d]] := by
  have hne : longLine.text ≠ [] := by
    rw [longLine, ← List.length_pos_iff, List.length_replicate]
    decide
  rw [Line.message, List.append_assoc, splitCommands_append fun c => longLine.isLineEnd_of_mem,
    List.nil_append, List.cons_append, splitCommands, if_pos rfl, if_neg hne]
  rfl

/-- Both lines are queued. -/
def queued : CommandServer := ⟨(Pipe.empty.write longLine).write lsLine, []⟩

theorem length_longLine : longLine.message.length = 4092 := by
  rw [Line.message, List.length_append, longLine, List.length_replicate]
  rfl

theorem reachable_queued : system.Reachable queued := by
  have hlong : exec ⟨.empty, []⟩ (.line longLine) = some ⟨Pipe.empty.write longLine, []⟩ := by
    rw [exec, if_pos (by rw [length_longLine]; decide)]
  have hls : exec ⟨Pipe.empty.write longLine, []⟩ (.line lsLine) = some queued := by
    rw [exec, if_pos (by decide)]
    rfl
  exact ((LTS.Reachable.init rfl).step hlong).step hls

/-- The server reads what it may read. -/
theorem exists_reachable_read (h : system.Reachable s) {buf rest : List UInt8}
    (hqueue : s.pipe.queue = buf ++ rest) (hne : buf ≠ []) (hsize : buf.length ≤ pipeBuf) :
    ∃ s', system.Reachable s' ∧ s'.pipe.queue = rest ∧ s'.pipe.written = s.pipe.written ∧
      s'.commands = s.commands ++ splitCommands [] buf := by
  obtain ⟨pipe, hread, hrest, hwritten⟩ := Pipe.exists_read_eq_some hqueue hne hsize
  have hstep : exec s (.read buf.length) = some ⟨pipe, s.commands ++ splitCommands [] buf⟩ := by
    rw [exec, hread, Option.map_some]
  exact ⟨_, h.step hstep, hrest, hwritten, rfl⟩

/-- The long line and `ls -l` are queued when the server reads: the first read ends behind `ls -`,
and `ls -l` becomes two commands. -/
theorem lsLine_cut :
    ∃ s, system.Reachable s ∧ s.pipe.written = [longLine, lsLine] ∧
      s.commands = [longLine.text, [0x6c, 0x73, 0x20, 0x2d], [0x6c]] ∧ ¬ s.Framed := by
  have hqueue : queued.pipe.queue =
      (longLine.message ++ [0x6c, 0x73, 0x20, 0x2d]) ++ [0x6c, 0x0a, 0] := by
    rw [List.append_assoc]
    rfl
  obtain ⟨s, hs, hrest, hwritten, hcommands⟩ := exists_reachable_read reachable_queued hqueue
    (by simp) (by rw [List.length_append, length_longLine]; decide)
  have hrest : s.pipe.queue = [0x6c, 0x0a, 0] ++ [] := hrest
  obtain ⟨s', hs', hrest', hwritten', hcommands'⟩ :=
    exists_reachable_read hs hrest (by decide) (by decide)
  rw [hcommands, splitCommands_longLine] at hcommands'
  have hall : s'.pipe.written = [longLine, lsLine] := hwritten'.trans hwritten
  refine ⟨s', hs', hall, hcommands', ?_⟩
  intro hframed
  have hlength := congrArg List.length (hframed.all hrest')
  rw [hcommands', hall, nonEmptyLines] at hlength
  have hle := List.length_filter_le (fun text : List UInt8 => !text.isEmpty)
    ([longLine, lsLine].map Line.text)
  rw [← hlength] at hle
  exact absurd hle (by decide)

end CommandServer

end CS536Labs.Lab1
