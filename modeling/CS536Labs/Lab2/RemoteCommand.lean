import CS536Labs.Foundations.Transition
import CS536Labs.Lab2.Rcommandclient

/-!
# Remote commands

Any number of clients `rcommandclient` with their server `rcommandserver`. A connection is a byte
stream in each direction. The server accepts the connections in the order in which they were
established. It reads whatever part of the written bytes has arrived, and a client may find its
connection broken at any time. Once the behaviour of the server is undefined, nothing follows.
-/

namespace CS536Labs.Lab2

/-- What a client knows about one of its connections. -/
structure ClientEnd where
  line : List UInt8
  written : List UInt8
  /-- The number of bytes that `read` has returned. -/
  received : ℕ
  printed : List UInt8
  /-- What `attempt_write_and_read` has returned. -/
  status : Option ℤ
  closed : Bool

/-- What the server and its child have done on a connection. -/
structure ServerEnd where
  /-- The number of bytes that `read` has returned. -/
  consumed : ℕ
  execs : List Exec
  output : List UInt8

structure Connection (ι : Type) where
  owner : ι
  client : ClientEnd
  server : ServerEnd

structure RemoteCommand (ι : Type) where
  client : ι → Rcommandclient
  server : Server
  connections : List (Connection ι)

namespace RemoteCommand

inductive Label (ι : Type)
  | client (i : ι) (a : Rcommandclient.Label)
  | accept (uninit : List UInt8)
  | acceptError
  /-- `read` returns the next bytes of the connection, and the child writes its output. -/
  | read (count rand : ℕ) (child : Child) (output : List UInt8)
  | endOfStream
  | readError

end RemoteCommand

/-! ## The ends of a connection -/

/-- A call of the client on a connection with this output, which the server has closed or not. -/
def ClientEnd.call (e : ClientEnd) (output : List UInt8) (ended : Bool) :
    Rcommandclient.Label → Option ClientEnd
  | .write (some count) =>
    some { e with written := e.written ++ (commandMessage e.line).take count }
  | .read data =>
    if data <+: output.drop e.received then
      some { e with received := e.received + data.length, printed := e.printed ++ cString data }
    else none
  | .endOfStream => if ended && e.received == output.length then some e else none
  | .close _ => some { e with closed := true }
  | _ => some e

/-- `attempt_write_and_read` has returned when `close` is next. -/
def ClientEnd.finish (e : ClientEnd) : Rcommandclient.Ctl → ClientEnd
  | .close _ status => { e with status := some status }
  | _ => e

/-- `read` has returned `count` bytes, and the child has executed a program or not. -/
def ServerEnd.serve (e : ServerEnd) (count : ℕ) (execs : List Exec) (output : List UInt8) :
    ServerEnd :=
  ⟨e.consumed + count, e.execs ++ execs, e.output ++ if execs.isEmpty then [] else output⟩

namespace Connection

variable {ι : Type}

/-- A new connection. -/
def new (i : ι) (line : List UInt8) : Connection ι :=
  ⟨i, ⟨line, [], 0, [], none, false⟩, ⟨0, [], []⟩⟩

/-- What the server has not read. -/
def unread (conn : Connection ι) : List UInt8 := conn.client.written.drop conn.server.consumed

end Connection

/-! ## The steps of the system -/

namespace RemoteCommand

variable {ι : Type}

def start (stdin : ι → List UInt8) : RemoteCommand ι :=
  ⟨fun i => Rcommandclient.start (stdin i), Server.start, []⟩

/-- The server has closed the connection, or all of them. -/
def ended (server : Server) (sockfd : ℕ) : Bool :=
  match server.ctl with
  | .returned _ => true
  | _ => sockfd < server.accepted && !server.opened.contains sockfd

/-- The connections behind a step that takes the client `i` to `ctl`. -/
def follow (s : RemoteCommand ι) (i : ι) (a : Rcommandclient.Label) (ctl : Rcommandclient.Ctl) :
    Option (List (Connection ι)) :=
  match (s.client i).ctl, a with
  | .connect line, .connect (some sockfd) =>
    if sockfd = s.connections.length then some (s.connections ++ [.new i line]) else none
  | _, .sigalrm false => some s.connections
  | before, a =>
    match before.sockfd with
    | none => some s.connections
    | some sockfd => do
      let conn ← s.connections[sockfd]?
      let e ← conn.client.call conn.server.output (ended s.server sockfd) a
      some (s.connections.set sockfd { conn with client := e.finish ctl })

def next [DecidableEq ι] (ip : ι → UInt32) (s : RemoteCommand ι) :
    Label ι → Option (RemoteCommand ι)
  | .client i a => do
    let c ← (s.client i).exec a
    let connections ← s.follow i a c.ctl
    some { s with client := Function.update s.client i c, connections := connections }
  | .accept uninit => do
    let conn ← s.connections[s.server.accepted]?
    let server ← s.server.exec (.accept (ip conn.owner) uninit)
    some { s with server := server }
  | .acceptError => do
    let server ← s.server.exec .acceptError
    some { s with server := server }
  | .read count rand child output =>
    match s.server.ctl with
    | .read sockfd _ => do
      let conn ← s.connections[sockfd]?
      let data := conn.unread.take count
      let server ← s.server.exec (.read data rand child)
      let execs := server.execs.drop s.server.execs.length
      let conn := { conn with server := conn.server.serve data.length execs output }
      some { s with server := server, connections := s.connections.set sockfd conn }
    | _ => none
  | .endOfStream =>
    match s.server.ctl with
    | .read sockfd _ => do
      let conn ← s.connections[sockfd]?
      if conn.client.closed && conn.unread.isEmpty then
        let server ← s.server.exec .endOfStream
        some { s with server := server }
      else none
    | _ => none
  | .readError => do
    let server ← s.server.exec .readError
    some { s with server := server }

def exec [DecidableEq ι] (ip : ι → UInt32) (s : RemoteCommand ι) (a : Label ι) :
    Option (RemoteCommand ι) :=
  match s.server.ctl with
  | .undefined => none
  | _ => s.next ip a

/-- The system with these addresses and inputs of the clients. -/
def system [DecidableEq ι] (ip : ι → UInt32) (stdin : ι → List UInt8) :
    LTS (RemoteCommand ι) (Label ι) := LTS.ofExec (start stdin) (exec ip)

/-- What one step of the system does. -/
inductive Step [DecidableEq ι] (ip : ι → UInt32) (s : RemoteCommand ι) :
    Label ι → RemoteCommand ι → Prop
  | alone {i : ι} {a : Rcommandclient.Label} {c : Rcommandclient} : (s.client i).Step a c →
    (s.client i).ctl.sockfd = none → c.ctl.sockfd = none →
    Step ip s (.client i a) { s with client := Function.update s.client i c }
  | ignored (i : ι) : Step ip s (.client i (.sigalrm false))
      { s with client := Function.update s.client i { s.client i with alarm := false } }
  | connect {i : ι} {line : List UInt8} : (s.client i).ctl = .connect line →
    Step ip s (.client i (.connect (some s.connections.length)))
      { s with
        client := Function.update s.client i
          { s.client i with ctl := .write s.connections.length line 0 }
        connections := s.connections ++ [.new i line] }
  | call {i : ι} {a : Rcommandclient.Label} {c : Rcommandclient} {sockfd : ℕ}
    {conn : Connection ι} {e : ClientEnd} : (s.client i).Step a c →
    (s.client i).ctl.sockfd = some sockfd → s.connections[sockfd]? = some conn →
    conn.client.call conn.server.output (ended s.server sockfd) a = some e →
    a ≠ .sigalrm false → Step ip s (.client i a)
      { s with
        client := Function.update s.client i c
        connections := s.connections.set sockfd { conn with client := e.finish c.ctl } }
  | accept {uninit : List UInt8} {conn : Connection ι} {server : Server} :
    s.connections[s.server.accepted]? = some conn →
    s.server.Step (.accept (ip conn.owner) uninit) server →
    Step ip s (.accept uninit) { s with server := server }
  | read {count rand sockfd : ℕ} {child : Child} {output command : List UInt8}
    {conn : Connection ι} {server : Server} : s.server.ctl = .read sockfd command →
    s.connections[sockfd]? = some conn →
    s.server.Step (.read (conn.unread.take count) rand child) server →
    Step ip s (.read count rand child output)
      { s with
        server := server
        connections := s.connections.set sockfd
          { conn with
            server := conn.server.serve (conn.unread.take count).length
              (server.execs.drop s.server.execs.length) output } }
  | acceptError {server : Server} : s.server.Step .acceptError server →
    Step ip s .acceptError { s with server := server }
  | endOfStream {server : Server} : s.server.Step .endOfStream server →
    Step ip s .endOfStream { s with server := server }
  | readError {server : Server} : s.server.Step .readError server →
    Step ip s .readError { s with server := server }

section Step

variable [DecidableEq ι] {ip : ι → UInt32} {s t : RemoteCommand ι}

/-- The client stays away from the connections. -/
theorem sockfd_eq_none {c c' : Rcommandclient} {a : Rcommandclient.Label} (h : c.Step a c')
    (hctl : c.ctl.sockfd = none)
    (ha : ∀ line sockfd, ¬ (c.ctl = .connect line ∧ a = .connect (some sockfd))) :
    c'.ctl.sockfd = none := by
  cases h with
  | connected sockfd hconnect => exact absurd ⟨hconnect, rfl⟩ (ha _ sockfd)
  | endOfInput | readLine | notConnected | closed | stopped | inputInterrupted => rfl
  | wrote hread | notWritten hread | ended hread | notRead hread | retried hread | gaveUp hread =>
    rw [hread] at hctl
    cases hctl
  | received hread | ignored => exact hctl

theorem step_of_client {i : ι} {a : Rcommandclient.Label}
    (hnext : s.next ip (.client i a) = some t) : Step ip s (.client i a) t := by
  obtain ⟨c, hc, h⟩ := Option.bind_eq_some_iff.mp hnext
  obtain ⟨connections, hfollow, h⟩ := Option.bind_eq_some_iff.mp h
  obtain rfl := Option.some.inj h
  clear hnext h
  have hstep := Rcommandclient.step_of_exec hc
  unfold follow at hfollow
  split at hfollow
  · rename_i line sockfd hctl
    split at hfollow
    · rename_i hsockfd
      obtain rfl := Option.some.inj hfollow
      subst hsockfd
      simp only [Rcommandclient.exec, hctl] at hc
      obtain rfl := Option.some.inj hc
      exact .connect hctl
    · cases hfollow
  · obtain rfl := Option.some.inj hfollow
    cases hstep
    exact .ignored i
  · rename_i hignored hconnect
    split at hfollow
    · rename_i hctl
      obtain rfl := Option.some.inj hfollow
      refine .alone hstep hctl (sockfd_eq_none hstep hctl ?_)
      rintro line sockfd ⟨hline, rfl⟩
      exact hconnect line sockfd hline rfl
    · rename_i sockfd hctl
      obtain ⟨conn, hconn, hfollow⟩ := Option.bind_eq_some_iff.mp hfollow
      obtain ⟨e, he, hfollow⟩ := Option.bind_eq_some_iff.mp hfollow
      obtain rfl := Option.some.inj hfollow
      exact .call hstep hctl hconn he hignored

theorem step_of_exec {a : Label ι} (hsized : s.server.CommandSized) (h : exec ip s a = some t) :
    Step ip s a t := by
  have hnext : s.next ip a = some t := by
    unfold exec at h
    split at h
    · cases h
    · exact h
  cases a with
  | client i a => exact step_of_client hnext
  | accept uninit =>
    obtain ⟨conn, hconn, h⟩ := Option.bind_eq_some_iff.mp hnext
    obtain ⟨server, hserver, h⟩ := Option.bind_eq_some_iff.mp h
    obtain rfl := Option.some.inj h
    exact .accept hconn (Server.step_of_exec hsized hserver)
  | acceptError =>
    obtain ⟨server, hserver, h⟩ := Option.bind_eq_some_iff.mp hnext
    obtain rfl := Option.some.inj h
    exact .acceptError (Server.step_of_exec hsized hserver)
  | read count rand child output =>
    unfold next at hnext
    simp only at hnext
    split at hnext
    · rename_i sockfd command hctl
      obtain ⟨conn, hconn, h⟩ := Option.bind_eq_some_iff.mp hnext
      obtain ⟨server, hserver, h⟩ := Option.bind_eq_some_iff.mp h
      obtain rfl := Option.some.inj h
      exact .read hctl hconn (Server.step_of_exec hsized hserver)
    · cases hnext
  | endOfStream =>
    unfold next at hnext
    simp only at hnext
    split at hnext
    · obtain ⟨conn, hconn, h⟩ := Option.bind_eq_some_iff.mp hnext
      split at h
      · obtain ⟨server, hserver, h⟩ := Option.bind_eq_some_iff.mp h
        obtain rfl := Option.some.inj h
        exact .endOfStream (Server.step_of_exec hsized hserver)
      · cases h
    · cases hnext
  | readError =>
    obtain ⟨server, hserver, h⟩ := Option.bind_eq_some_iff.mp hnext
    obtain rfl := Option.some.inj h
    exact .readError (Server.step_of_exec hsized hserver)

end Step

end RemoteCommand

end CS536Labs.Lab2
