import CS536Labs.Lab1.RequestServer
import Mathlib.Logic.Function.Basic

/-!
# `lab1/v3`: the shell of the clients and the server

Any number of clients run `start_client` with the server in `start_server` and its child. A client
writes its request at once, and then opens its own FIFO, which waits until the child of the request
opens it too. The parent waits for the child, which writes what it likes to the FIFO and ends. The
client prints what it reads up to the end of file, which comes when the child has ended.

The calls succeed, except that the FIFO of the server cannot be opened when `start_server` has
returned. A child for a pid that is not that of a client gets no further.
-/

namespace CS536Labs.Lab1

/-- `COMMAND_SIZE` -/
def commandSize : ℕ := pipeBuf * 2

/-- A line that one `fgets` returns. -/
structure InputLine extends Line where
  length_lt : text.length + 1 < commandSize

/-- The processes of the clients, whose pids fit into the buffers. -/
structure Clients (ι : Type) where
  pid : ι → List UInt8
  pid_ne_nil : ∀ i, pid i ≠ []
  pid_noNewline : ∀ i, 0x0a ∉ pid i
  pid_noNul : ∀ i, 0 ∉ pid i
  pid_inj : Function.Injective pid

/-- What a client prints for a line. -/
def Clients.request {ι : Type} (clients : Clients ι) (i : ι) (line : InputLine) : Request :=
  ⟨clients.pid i, line.text, clients.pid_ne_nil i, clients.pid_noNewline i, clients.pid_noNul i,
    line.noNul⟩

/-- `> ` -/
def prompt : List UInt8 := [0x3e, 0x20]

/-- A line with the command that was executed for it, what this has written, what the client has
read of that, and what it has printed. -/
structure Answer where
  line : InputLine
  command : List UInt8
  output : List UInt8
  received : List UInt8
  printed : List UInt8

namespace CommandClient

/-- The call that the client makes next. -/
inductive Ctl
  | fgets
  /-- `open`, `write` and `close` of the server's FIFO. -/
  | write (line : InputLine)
  /-- `open` of its own FIFO. -/
  | openFifo (line : InputLine)
  | read (answer : Answer)
  | returned (ret : ℤ)

end CommandClient

structure CommandClient where
  ctl : CommandClient.Ctl
  input : List InputLine
  answers : List Answer
  stdout : List UInt8

namespace CommandClient

def start (input : List InputLine) : CommandClient := ⟨.fgets, input, [], prompt⟩

/-- `fgets` returns the next line, or `NULL`. -/
def readLine (c : CommandClient) : CommandClient :=
  match c.input with
  | [] => { c with ctl := .returned 0 }
  | line :: input => { c with ctl := .write line, input := input }

/-- `read` returns some bytes, which are printed. -/
def print (c : CommandClient) (answer : Answer) (data : List UInt8) : CommandClient :=
  { c with
    ctl := .read { answer with
      received := answer.received ++ data
      printed := answer.printed ++ cString data }
    stdout := c.stdout ++ cString data }

/-- `read` returns 0. -/
def finish (c : CommandClient) (answer : Answer) : CommandClient :=
  { c with ctl := .fgets, answers := c.answers ++ [answer], stdout := c.stdout ++ prompt }

end CommandClient

/-- The process that the parent waits for. -/
inductive ShellChild (ι : Type)
  /-- There is none. -/
  | absent
  /-- `open` of the FIFO of the client with this pid, for this command. -/
  | opening (request : List UInt8 × List UInt8)
  /-- The program still has to write these bytes to the FIFO of the client. -/
  | writing (i : ι) (rest : List UInt8)

/-- What the program still has to write to the FIFO of the client, `none` when it does not have it
open. -/
def ShellChild.rest {ι : Type} [DecidableEq ι] : ShellChild ι → ι → Option (List UInt8)
  | .writing j rest, i => if j = i then some rest else none
  | _, _ => none

structure CommandShell (ι : Type) where
  client : ι → CommandClient
  server : RequestServer
  child : ShellChild ι
  /-- The FIFOs of the clients. -/
  fifo : ι → List UInt8

namespace CommandShell

inductive Label (ι : Type)
  | fgets (i : ι)
  | write (i : ι)
  /-- The server reads a request, and forks. -/
  | serve (n : ℕ)
  /-- The client and the child open the FIFO, and the program has something to write. -/
  | openFifo (i : ι) (output : List UInt8)
  | childWrite (n : ℕ)
  | childExit
  | read (i : ι) (n : ℕ)
  | endOfFile (i : ι)

variable {ι : Type}

def start (input : ι → List InputLine) : CommandShell ι :=
  ⟨fun i => .start (input i), ⟨.empty, [], true⟩, .absent, fun _ => []⟩

/-- The child for what was read. -/
def forked : List (List UInt8 × List UInt8) → ShellChild ι
  | request :: _ => .opening request
  | [] => .absent

/-- Each read of the server returns one whole message. -/
def WholeMessage (s : CommandShell ι) : Label ι → Prop
  | .serve n => s.server.WholeMessage (.read n)
  | _ => True

/-- Each read of the server returns one whole message, or several. -/
def WholeMessages (s : CommandShell ι) : Label ι → Prop
  | .serve n => ∃ (r : Request) (rs : List Request),
    s.server.pipe.queue.take n = r.message ++ rs.flatMap Request.message
  | _ => True

theorem WholeMessage.wholeMessages {s : CommandShell ι} {a : Label ι} (h : s.WholeMessage a) :
    s.WholeMessages a := by
  cases a with
  | serve n =>
    obtain ⟨r, hr⟩ := h
    exact ⟨r, [], hr.trans (List.append_nil _).symm⟩
  | fgets | write | openFifo | childWrite | childExit | read | endOfFile => trivial

variable [DecidableEq ι]

def exec (clients : Clients ι) (s : CommandShell ι) : Label ι → Option (CommandShell ι)
  | .fgets i =>
    match (s.client i).ctl with
    | .fgets => some { s with client := Function.update s.client i (s.client i).readLine }
    | _ => none
  | .write i =>
    match (s.client i).ctl with
    | .write line =>
      if s.server.running then do
        let server ← s.server.exec (.request (clients.request i line))
        let c := { s.client i with ctl := .openFifo line }
        some { s with client := Function.update s.client i c, server := server }
      else
        let c := { s.client i with ctl := .returned (-1) }
        some { s with client := Function.update s.client i c }
    | _ => none
  | .serve n =>
    match s.child with
    | .absent => do
      let server ← s.server.exec (.read n)
      some { s with
        server := server
        child := forked (server.handled.drop s.server.handled.length) }
    | _ => none
  | .openFifo i output =>
    match (s.client i).ctl, s.child with
    | .openFifo line, .opening (pidStr, command) =>
      if pidStr = clients.pid i then
        let c := { s.client i with ctl := .read ⟨line, command, output, [], []⟩ }
        some { s with client := Function.update s.client i c, child := .writing i output }
      else none
    | _, _ => none
  | .childWrite n =>
    match s.child with
    | .writing i rest =>
      if 0 < n ∧ n ≤ rest.length then
        some { s with
          child := .writing i (rest.drop n)
          fifo := Function.update s.fifo i (s.fifo i ++ rest.take n) }
      else none
    | _ => none
  | .childExit =>
    match s.child with
    | .writing _ [] => some { s with child := .absent }
    | _ => none
  | .read i n =>
    match (s.client i).ctl with
    | .read answer =>
      if 0 < n ∧ n ≤ (s.fifo i).length ∧ n < pipeBuf then
        some { s with
          client := Function.update s.client i ((s.client i).print answer ((s.fifo i).take n))
          fifo := Function.update s.fifo i ((s.fifo i).drop n) }
      else none
    | _ => none
  | .endOfFile i =>
    match (s.client i).ctl with
    | .read answer =>
      if s.fifo i = [] ∧ s.child.rest i = none then
        some { s with client := Function.update s.client i ((s.client i).finish answer) }
      else none
    | _ => none

/-- The clients with these inputs, and the server. -/
def system (clients : Clients ι) (input : ι → List InputLine) : LTS (CommandShell ι) (Label ι) :=
  LTS.ofExec (start input) (exec clients)

/-- What one step does. -/
inductive Step (clients : Clients ι) (s : CommandShell ι) : Label ι → CommandShell ι → Prop
  | fgets {i : ι} : (s.client i).ctl = .fgets → Step clients s (.fgets i)
      { s with client := Function.update s.client i (s.client i).readLine }
  | write {i : ι} {line : InputLine} : (s.client i).ctl = .write line → s.server.running = true →
    (clients.request i line).message.length ≤ pipeBuf → Step clients s (.write i)
      { s with
        client := Function.update s.client i { s.client i with ctl := .openFifo line }
        server := { s.server with pipe := s.server.pipe.write (clients.request i line) } }
  | notWritten {i : ι} {line : InputLine} : (s.client i).ctl = .write line →
    pipeBuf < (clients.request i line).message.length → Step clients s (.write i)
      { s with client := Function.update s.client i { s.client i with ctl := .openFifo line } }
  | notOpened {i : ι} {line : InputLine} : (s.client i).ctl = .write line →
    s.server.running = false →
    Step clients s (.write i)
      { s with client := Function.update s.client i { s.client i with ctl := .returned (-1) } }
  | serve {n : ℕ} {server : RequestServer} : s.child = .absent →
    s.server.exec (.read n) = some server → Step clients s (.serve n)
      { s with
        server := server
        child := forked (server.handled.drop s.server.handled.length) }
  | openFifo {i : ι} {line : InputLine} {command : List UInt8} (output : List UInt8) :
    (s.client i).ctl = .openFifo line → s.child = .opening (clients.pid i, command) →
    Step clients s (.openFifo i output)
      { s with
        client := Function.update s.client i
          { s.client i with ctl := .read ⟨line, command, output, [], []⟩ }
        child := .writing i output }
  | childWrite {i : ι} {n : ℕ} {rest : List UInt8} : s.child = .writing i rest →
    0 < n → n ≤ rest.length → Step clients s (.childWrite n)
      { s with
        child := .writing i (rest.drop n)
        fifo := Function.update s.fifo i (s.fifo i ++ rest.take n) }
  | childExit {i : ι} : s.child = .writing i [] → Step clients s .childExit
      { s with child := .absent }
  | read {i : ι} {n : ℕ} {answer : Answer} : (s.client i).ctl = .read answer → 0 < n →
    n ≤ (s.fifo i).length → Step clients s (.read i n)
      { s with
        client := Function.update s.client i ((s.client i).print answer ((s.fifo i).take n))
        fifo := Function.update s.fifo i ((s.fifo i).drop n) }
  | endOfFile {i : ι} {answer : Answer} : (s.client i).ctl = .read answer → s.fifo i = [] →
    s.child.rest i = none → Step clients s (.endOfFile i)
      { s with client := Function.update s.client i ((s.client i).finish answer) }

theorem step_of_exec {clients : Clients ι} {s t : CommandShell ι} {a : Label ι}
    (h : exec clients s a = some t) : Step clients s a t := by
  cases a with
  | fgets i =>
    simp only [exec] at h
    split at h
    · rename_i hctl
      obtain rfl := Option.some.inj h
      exact .fgets hctl
    · cases h
  | write i =>
    simp only [exec] at h
    split at h
    · rename_i line hctl
      split at h
      · rename_i hrunning
        obtain ⟨server, hserver, h⟩ := Option.bind_eq_some_iff.mp h
        obtain rfl := Option.some.inj h
        rw [RequestServer.exec] at hserver
        split at hserver
        · rename_i hlen
          obtain rfl := Option.some.inj hserver
          exact .write hctl hrunning hlen.2
        · rename_i hlen
          obtain rfl := Option.some.inj hserver
          exact .notWritten hctl (Nat.lt_of_not_le fun hle => hlen ⟨hrunning, hle⟩)
      · rename_i hrunning
        obtain rfl := Option.some.inj h
        exact .notOpened hctl (Bool.eq_false_iff.mpr hrunning)
    · cases h
  | serve n =>
    simp only [exec] at h
    split at h
    · rename_i hchild
      obtain ⟨server, hserver, h⟩ := Option.bind_eq_some_iff.mp h
      obtain rfl := Option.some.inj h
      exact .serve hchild hserver
    · cases h
  | openFifo i output =>
    simp only [exec] at h
    split at h
    · rename_i line pidStr command hctl hchild
      split at h
      · rename_i hpid
        obtain rfl := Option.some.inj h
        exact .openFifo output hctl (hpid ▸ hchild)
      · cases h
    · cases h
  | childWrite n =>
    simp only [exec] at h
    split at h
    · rename_i i rest hchild
      split at h
      · rename_i hn
        obtain rfl := Option.some.inj h
        exact .childWrite hchild hn.1 hn.2
      · cases h
    · cases h
  | childExit =>
    simp only [exec] at h
    split at h
    · rename_i i hchild
      obtain rfl := Option.some.inj h
      exact .childExit hchild
    · cases h
  | read i n =>
    simp only [exec] at h
    split at h
    · rename_i answer hctl
      split at h
      · rename_i hn
        obtain rfl := Option.some.inj h
        exact .read hctl hn.1 hn.2.1
      · cases h
    · cases h
  | endOfFile i =>
    simp only [exec] at h
    split at h
    · rename_i answer hctl
      split at h
      · rename_i hend
        obtain rfl := Option.some.inj h
        exact .endOfFile hctl hend.1 hend.2
      · cases h
    · cases h

end CommandShell

end CS536Labs.Lab1
