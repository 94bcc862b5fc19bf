import CS536Labs.Lab3.FileServer
import CS536Labs.Lab3.FileTransfer
import Mathlib.Logic.Function.Basic

/-!
# `lab3/v1`: the clients `myftpc` and their server `myftps`

Any number of clients run `run` of `myftpc.c`, each in a directory of its own, with `run` of
`myftps.c` and its children. A `Link` is a client with its connection and the child that serves it:
the connection is a byte stream in each direction. The server accepts the connections in the order
in which they were made, and handles one request after the other. The children run beside it.

A label names the call that is made next, with its outcome. Before a request is read, its array
holds anything. No file of the server changes, and no `fread` of one fails. A block size of 0 makes
an empty array.
-/

namespace CS536Labs.Lab3

/-- The arguments of a client, its address, and the size of the largest array that its stack can
hold. -/
structure MyftpcConfig where
  filename : CString
  secretKey : UInt16
  blocksizeByte : UInt64
  checkFilename : checkFilename filename.bytes = 0
  ip : UInt32
  stack : ℕ

/-- The arguments of the server, and its files. -/
structure MyftpsConfig where
  secretKey : UInt16
  blocksizeByte : UInt64
  files : List UInt8 → Option (List UInt8)

/-- The call that a client makes next. -/
inductive Myftpc.Ctl
  | connect
  | write
  | access
  | read (totalBytesRead : ℕ)
  /-- The process has ended, with what `fetch_and_save_file` has returned, or -1. -/
  | returned (ret : ℤ)
  /-- The buffer did not fit in the stack. -/
  | killed
  deriving DecidableEq

def Myftpc.Ctl.isEnded : Myftpc.Ctl → Bool
  | .returned _ | .killed => true
  | _ => false

/-- A client with its file, and what `read` has returned. -/
structure Myftpc where
  ctl : Myftpc.Ctl
  file : Option (List UInt8)
  received : List UInt8

/-- The child for a connection. -/
inductive FileChild
  | absent
  | fopen (t : Transfer)
  /-- The part of the file that is not yet read. -/
  | write (t : Transfer) (rest : List UInt8)
  | exited (t : Transfer)

structure Link where
  client : Myftpc
  /-- What the client has written and the server has not read. -/
  request : List UInt8
  /-- What the child has written and the client has not read. -/
  response : List UInt8
  /-- The server and its child have closed the connection. -/
  closed : Bool
  child : FileChild

/-- What a client and its child do. -/
inductive Event
  /-- `write` fails, or takes at most `n` bytes. -/
  | write (o : Option ℕ)
  | access
  /-- `read` fails, or returns `n` bytes, which are appended. -/
  | read (o : Option (ℕ × Append))
  /-- `read` returns 0. -/
  | endOfFile
  | fopen (ok : Bool)
  /-- The `write` of a block. -/
  | childWrite (o : Option ℕ)
  /-- `fread` returns 0. -/
  | childExit

namespace Link

def start (file : Option (List UInt8)) : Link := ⟨⟨.connect, file, []⟩, [], [], false, .absent⟩

/-- The call of `send_file` in `run` converts the argument to 16 bits. -/
def blocksize (server : MyftpsConfig) : ℕ := server.blocksizeByte.toUInt16.toNat

/-- The client returns -1. -/
def fail (l : Link) : Link := { l with client := { l.client with ctl := .returned (-1) } }

/-- The child ends. -/
def exit (l : Link) (t : Transfer) : Link := { l with child := .exited t, closed := true }

/-- What `encode_request` leaves in the array of the client, whatever this held. -/
def message (config : MyftpcConfig) : List UInt8 :=
  encodeRequest config.filename config.secretKey.toNat (List.replicate requestSize 0)

def exec (server : MyftpsConfig) (config : MyftpcConfig) (l : Link) : Event → Option Link
  | .write o =>
    match l.client.ctl with
    | .write =>
      match o with
      | none => some l.fail
      | some n =>
        if 0 < n then
          some { l with
            client := { l.client with ctl := .access }
            request := (message config).take n }
        else none
    | _ => none
  | .access =>
    match l.client.ctl with
    | .access =>
      if l.client.file.isSome then some l.fail
      else if config.stack < config.blocksizeByte.toNat then
        some { l with client := { l.client with ctl := .killed } }
      else some { l with client := { l.client with ctl := .read 0 } }
    | _ => none
  | .read o =>
    match l.client.ctl with
    | .read totalBytesRead =>
      match o with
      | none => some l.fail
      | some (n, append) =>
        let buffer := l.response.take n
        if 0 < n ∧ n ≤ config.blocksizeByte.toNat ∧ n ≤ l.response.length then
          some { l with
            client :=
              { ctl := .read (totalBytesRead + n)
                file := (appendFile append l.client.file buffer).2
                received := l.client.received ++ buffer }
            response := l.response.drop n }
        else none
    | _ => none
  | .endOfFile =>
    match l.client.ctl with
    | .read totalBytesRead =>
      if config.blocksizeByte.toNat = 0 ∨ l.response = [] ∧ l.closed = true then
        some { l with client := { l.client with ctl := .returned totalBytesRead } }
      else none
    | _ => none
  | .fopen ok =>
    match l.child with
    | .fopen t =>
      match server.files t.filename, ok with
      | some file, true => some { l with child := .write t file }
      | _, _ => some (l.exit t)
    | _ => none
  | .childWrite o =>
    match l.child with
    | .write t rest =>
      let buffer := rest.take (blocksize server)
      if 0 < buffer.length then
        match o with
        | none => some (l.exit t)
        | some n =>
          some { l with
            response := l.response ++ buffer.take n
            child := .write t (rest.drop (blocksize server)) }
      else none
    | _ => none
  | .childExit =>
    match l.child with
    | .write t rest =>
      if 0 < (rest.take (blocksize server)).length then none else some (l.exit t)
    | _ => none

/-- The server reads a request of `n` bytes into an array, and forks a child or closes the
connection. -/
def serve (server : MyftpsConfig) (config : MyftpcConfig) (l : Link) (buffer : List UInt8) (n : ℕ)
    (rand : ℕ) (fork : Bool) : Link :=
  let access := fun filename => (server.files filename).isSome
  match ((myftps server.secretKey).serve buffer
    ⟨config.ip, some (l.request.take n), access, rand, fork⟩).2 with
  | none => { l with request := l.request.drop n, closed := true }
  | some t => { l with request := l.request.drop n, child := .fopen t }

/-- What one step of a client or its child does. -/
inductive Step (server : MyftpsConfig) (config : MyftpcConfig) (l : Link) : Event → Link → Prop
  | notWritten : l.client.ctl = .write → Step server config l (.write none) l.fail
  | write {n : ℕ} : l.client.ctl = .write → 0 < n → Step server config l (.write (some n))
      { l with
        client := { l.client with ctl := .access }
        request := (message config).take n }
  | exists : l.client.ctl = .access → l.client.file.isSome = true →
    Step server config l .access l.fail
  | killed : l.client.ctl = .access → Step server config l .access
      { l with client := { l.client with ctl := .killed } }
  | fetch : l.client.ctl = .access → l.client.file = none → Step server config l .access
      { l with client := { l.client with ctl := .read 0 } }
  | readError {total : ℕ} : l.client.ctl = .read total → Step server config l (.read none) l.fail
  | read {total n : ℕ} {append : Append} : l.client.ctl = .read total → 0 < n →
    n ≤ l.response.length → Step server config l (.read (some (n, append)))
      { l with
        client :=
          { ctl := .read (total + n)
            file := (appendFile append l.client.file (l.response.take n)).2
            received := l.client.received ++ l.response.take n }
        response := l.response.drop n }
  | endOfFile {total : ℕ} : l.client.ctl = .read total →
    config.blocksizeByte.toNat = 0 ∨ l.response = [] ∧ l.closed = true →
    Step server config l .endOfFile
      { l with client := { l.client with ctl := .returned total } }
  | fopen {t : Transfer} {file : List UInt8} : l.child = .fopen t →
    server.files t.filename = some file → Step server config l (.fopen true)
      { l with child := .write t file }
  | notOpened {t : Transfer} (ok : Bool) : l.child = .fopen t →
    Step server config l (.fopen ok) (l.exit t)
  | childWrite {t : Transfer} {rest : List UInt8} {n : ℕ} : l.child = .write t rest →
    0 < (rest.take (blocksize server)).length → Step server config l (.childWrite (some n))
      { l with
        response := l.response ++ (rest.take (blocksize server)).take n
        child := .write t (rest.drop (blocksize server)) }
  | childWriteError {t : Transfer} {rest : List UInt8} : l.child = .write t rest →
    Step server config l (.childWrite none) (l.exit t)
  | childExit {t : Transfer} {rest : List UInt8} : l.child = .write t rest →
    ¬ 0 < (rest.take (blocksize server)).length → Step server config l .childExit (l.exit t)

theorem step_of_exec {server : MyftpsConfig} {config : MyftpcConfig} {l l' : Link} {e : Event}
    (h : l.exec server config e = some l') : Step server config l e l' := by
  cases e with
  | write o =>
    simp only [exec] at h
    split at h
    · rename_i hctl
      split at h
      · obtain rfl := Option.some.inj h
        exact .notWritten hctl
      · split at h
        · rename_i hn
          obtain rfl := Option.some.inj h
          exact .write hctl hn
        · cases h
    · cases h
  | access =>
    simp only [exec] at h
    split at h
    · rename_i hctl
      split at h
      · rename_i hfile
        obtain rfl := Option.some.inj h
        exact .exists hctl hfile
      · rename_i hfile
        split at h
        · obtain rfl := Option.some.inj h
          exact .killed hctl
        · obtain rfl := Option.some.inj h
          exact .fetch hctl (Option.not_isSome_iff_eq_none.mp hfile)
    · cases h
  | read o =>
    simp only [exec] at h
    split at h
    · rename_i total hctl
      split at h
      · obtain rfl := Option.some.inj h
        exact .readError hctl
      · split at h
        · rename_i hn
          obtain rfl := Option.some.inj h
          exact .read hctl hn.1 hn.2.2
        · cases h
    · cases h
  | endOfFile =>
    simp only [exec] at h
    split at h
    · rename_i total hctl
      split at h
      · rename_i hend
        obtain rfl := Option.some.inj h
        exact .endOfFile hctl hend
      · cases h
    · cases h
  | fopen ok =>
    simp only [exec] at h
    split at h
    · rename_i t hchild
      split at h
      · rename_i file hfile
        obtain rfl := Option.some.inj h
        exact .fopen hchild hfile
      · obtain rfl := Option.some.inj h
        exact .notOpened _ hchild
    · cases h
  | childWrite o =>
    simp only [exec] at h
    split at h
    · rename_i t rest hchild
      split at h
      · rename_i hpos
        split at h
        · obtain rfl := Option.some.inj h
          exact .childWriteError hchild
        · obtain rfl := Option.some.inj h
          exact .childWrite hchild hpos
      · cases h
    · cases h
  | childExit =>
    simp only [exec] at h
    split at h
    · rename_i t rest hchild
      split at h
      · cases h
      · rename_i hpos
        obtain rfl := Option.some.inj h
        exact .childExit hchild hpos
    · cases h

end Link

/-- The call that the server makes next. -/
inductive Myftps.Ctl (ι : Type)
  | accept
  /-- `read_request` of a client. -/
  | read (i : ι)

structure FileService (ι : Type) where
  link : ι → Link
  /-- The connections that are not yet accepted. -/
  backlog : List ι
  server : Myftps.Ctl ι

namespace FileService

inductive Label (ι : Type)
  | connect (i : ι) (ok : Bool)
  | event (i : ι) (e : Event)
  | accept
  /-- `read` fails, or returns `n` bytes into an array that held these bytes. -/
  | readRequest (buffer : List UInt8) (o : Option ℕ) (rand : ℕ) (fork : Bool)

variable {ι : Type}

/-- The clients may have files of these names already. -/
def start (file : ι → Option (List UInt8)) : FileService ι :=
  ⟨fun i => .start (file i), [], .accept⟩

variable [DecidableEq ι]

def exec (server : MyftpsConfig) (clients : ι → MyftpcConfig) (s : FileService ι) :
    Label ι → Option (FileService ι)
  | .connect i ok =>
    match (s.link i).client.ctl with
    | .connect =>
      if ok then
        let client := { (s.link i).client with ctl := .write }
        some { s with
          link := Function.update s.link i { s.link i with client := client }
          backlog := s.backlog ++ [i] }
      else some { s with link := Function.update s.link i (s.link i).fail }
    | _ => none
  | .event i e =>
    ((s.link i).exec server (clients i) e).map fun l =>
      { s with link := Function.update s.link i l }
  | .accept =>
    match s.server, s.backlog with
    | .accept, i :: backlog =>
      if sanitizeClientAddr (clients i).ip then
        some { s with backlog := backlog, server := .read i }
      else
        some { s with
          link := Function.update s.link i { s.link i with closed := true }
          backlog := backlog }
    | _, _ => none
  | .readRequest buffer o rand fork =>
    match s.server with
    | .accept => none
    | .read i =>
      match o with
      | none =>
        some { s with
          link := Function.update s.link i { s.link i with closed := true }
          server := .accept }
      | some n =>
        let l := s.link i
        if buffer.length = requestSize ∧ n ≤ requestSize ∧ n ≤ l.request.length ∧
            (n = 0 → l.request = [] ∧ l.client.ctl.isEnded = true) then
          some { s with
            link := Function.update s.link i (l.serve server (clients i) buffer n rand fork)
            server := .accept }
        else none

/-- The clients with these files, and the server. -/
def system (server : MyftpsConfig) (clients : ι → MyftpcConfig)
    (file : ι → Option (List UInt8)) : LTS (FileService ι) (Label ι) :=
  LTS.ofExec (start file) (exec server clients)

/-- What one step does. -/
inductive Step (server : MyftpsConfig) (clients : ι → MyftpcConfig) (s : FileService ι) :
    Label ι → FileService ι → Prop
  | connect {i : ι} : (s.link i).client.ctl = .connect → Step server clients s (.connect i true)
      { s with
        link := Function.update s.link i
          { s.link i with client := { (s.link i).client with ctl := .write } }
        backlog := s.backlog ++ [i] }
  | notConnected {i : ι} : (s.link i).client.ctl = .connect →
    Step server clients s (.connect i false)
      { s with link := Function.update s.link i (s.link i).fail }
  | event {i : ι} {e : Event} {l : Link} : Link.Step server (clients i) (s.link i) e l →
    Step server clients s (.event i e) { s with link := Function.update s.link i l }
  | accept {i : ι} {backlog : List ι} : s.server = .accept → s.backlog = i :: backlog →
    sanitizeClientAddr (clients i).ip = true → Step server clients s .accept
      { s with backlog := backlog, server := .read i }
  | denied {i : ι} {backlog : List ι} : s.server = .accept → s.backlog = i :: backlog →
    Step server clients s .accept
      { s with
        link := Function.update s.link i { s.link i with closed := true }
        backlog := backlog }
  | readError {i : ι} {buffer : List UInt8} {rand : ℕ} {fork : Bool} : s.server = .read i →
    Step server clients s (.readRequest buffer none rand fork)
      { s with
        link := Function.update s.link i { s.link i with closed := true }
        server := .accept }
  | readRequest {i : ι} {buffer : List UInt8} {n rand : ℕ} {fork : Bool} : s.server = .read i →
    buffer.length = requestSize → n ≤ (s.link i).request.length →
    Step server clients s (.readRequest buffer (some n) rand fork)
      { s with
        link := Function.update s.link i
          ((s.link i).serve server (clients i) buffer n rand fork)
        server := .accept }

theorem step_of_exec {server : MyftpsConfig} {clients : ι → MyftpcConfig} {s t : FileService ι}
    {a : Label ι} (h : exec server clients s a = some t) : Step server clients s a t := by
  cases a with
  | connect i ok =>
    simp only [exec] at h
    split at h
    · rename_i hctl
      cases ok with
      | true =>
        obtain rfl := Option.some.inj h
        exact .connect hctl
      | false =>
        obtain rfl := Option.some.inj h
        exact .notConnected hctl
    · cases h
  | event i e =>
    obtain ⟨l, hl, rfl⟩ := Option.map_eq_some_iff.mp h
    exact .event (Link.step_of_exec hl)
  | accept =>
    simp only [exec] at h
    split at h
    · rename_i i backlog hserver hbacklog
      split at h
      · rename_i hip
        obtain rfl := Option.some.inj h
        exact .accept hserver hbacklog hip
      · obtain rfl := Option.some.inj h
        exact .denied hserver hbacklog
    · cases h
  | readRequest buffer o rand fork =>
    simp only [exec] at h
    split at h
    · cases h
    · rename_i i hserver
      split at h
      · obtain rfl := Option.some.inj h
        exact .readError hserver
      · split at h
        · rename_i hn
          obtain rfl := Option.some.inj h
          exact .readRequest hserver hn.1 hn.2.2.1
        · cases h

end FileService

end CS536Labs.Lab3
