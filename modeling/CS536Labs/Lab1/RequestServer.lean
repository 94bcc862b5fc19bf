import CS536Labs.Lab1.CommandServer

/-!
# `lab1/v3`: `commandclient.c` and the requests that `start_server` of `simsh1.c` reads

A request is the pid of a client, a newline, a command line and a NUL. The server takes what one
read returns for one request: `strtok` finds the pid in its first line, the rest up to the first NUL
is the command, and what stands behind the NUL is lost. When there is no pid or no command,
`start_server` returns.

* `parseRequest_eq_some_iff` says what bytes a request is found in.
* `delivered_of_whole`: in every run in which each read returns one whole message, the requests are
  handled in order, each with its own pid and command.
-/

namespace CS536Labs.Lab1

/-- A request: the pid of the client and the line that it read, without its newline. -/
structure Request where
  pid : List UInt8
  line : List UInt8
  pid_ne_nil : pid ≠ []
  pid_noNewline : 0x0a ∉ pid
  pid_noNul : 0 ∉ pid
  line_noNul : 0 ∉ line

/-- The string that `start_client` prints: `"%d\n%s"` of the pid and the line with its newline. -/
def Request.text (r : Request) : List UInt8 := r.pid ++ 0x0a :: (r.line ++ [0x0a])

/-- What the client writes. -/
def Request.message (r : Request) : List UInt8 := r.text ++ [0]

/-- The pid and the command that the server must find. -/
def Request.parsed (r : Request) : List UInt8 × List UInt8 := (r.pid, r.line ++ [0x0a])

/-- `pid_str` and `command` in a buffer: `strtok(buf, "\n")`, and `strtok(NULL, "\0")`, which
returns what is left of the string unless that is empty. -/
def parseRequest (buf : List UInt8) : Option (List UInt8 × List UInt8) :=
  let s := (cString buf).dropWhile (· == 0x0a)
  let pidStr := s.takeWhile (· != 0x0a)
  let command := s.drop (pidStr.length + 1)
  if pidStr = [] ∨ command = [] then none else some (pidStr, command)

/-- The FIFO, the pids and commands of the children, and whether `start_server` is in its loop. -/
structure RequestServer where
  pipe : Pipe Request.message
  handled : List (List UInt8 × List UInt8)
  running : Bool

namespace RequestServer

inductive Label
  /-- A client has read a line. -/
  | request (r : Request)
  /-- The server reads `n` bytes and handles them. -/
  | read (n : ℕ)

/-- A client writes its request if the message is not longer than `PIPE_BUF` and the FIFO can be
opened, or the server runs through its loop. -/
def exec (s : RequestServer) : Label → Option RequestServer
  | .request r =>
    if s.running = true ∧ r.message.length ≤ pipeBuf then some { s with pipe := s.pipe.write r }
    else some s
  | .read n =>
    if s.running then
      (s.pipe.read pipeBuf n).map fun (buf, pipe) =>
        match parseRequest buf with
        | none => ⟨pipe, s.handled, false⟩
        | some request => ⟨pipe, s.handled ++ [request], true⟩
    else none

/-- The server with any number of clients. -/
def system : LTS RequestServer Label := LTS.ofExec ⟨.empty, [], true⟩ exec

end RequestServer

/-- The requests are handled in order, each with its own pid and command, or still queued in full,
with the server in its loop. -/
structure RequestServer.Delivered (s : RequestServer) : Prop where
  running : s.running = true
  handled : ∃ done pending, s.pipe.written = done ++ pending ∧
    s.handled = done.map Request.parsed ∧ s.pipe.queue = pending.flatMap Request.message
  pid_mem : ∀ request ∈ s.handled, ∃ r ∈ s.pipe.written, request.1 = r.pid

/-- A read returns one whole message. -/
def RequestServer.WholeMessage (s : RequestServer) : Label → Prop
  | .request _ => True
  | .read n => ∃ r : Request, s.pipe.queue.take n = r.message

/-! ## Requests in a buffer -/

/-- The text behind the newlines in front, split at the first newline. -/
theorem dropWhile_newlines {pidStr : List UInt8} (hne : pidStr ≠ []) (hpid : 0x0a ∉ pidStr)
    (command : List UInt8) (k : ℕ) :
    (List.replicate k 0x0a ++ (pidStr ++ 0x0a :: command)).dropWhile (· == (0x0a : UInt8)) =
      pidStr ++ 0x0a :: command := by
  induction k with
  | zero =>
    cases pidStr with
    | nil => exact absurd rfl hne
    | cons c pidStr =>
      rw [List.mem_cons, not_or] at hpid
      rw [List.replicate_zero, List.nil_append, List.cons_append,
        List.dropWhile_cons_of_neg (by simpa using Ne.symm hpid.1)]
  | succ k ih =>
    rw [List.replicate_succ, List.cons_append, List.dropWhile_cons_of_pos (by decide), ih]

theorem takeWhile_pid {pidStr : List UInt8} (hpid : 0x0a ∉ pidStr) (command : List UInt8) :
    (pidStr ++ 0x0a :: command).takeWhile (· != (0x0a : UInt8)) = pidStr := by
  have hall : ∀ c ∈ pidStr, (c != 0x0a) = true := by
    intro c hc
    rw [bne_iff_ne]
    rintro rfl
    exact hpid hc
  rw [List.takeWhile_append_of_pos hall, List.takeWhile_cons_of_neg (by decide), List.append_nil]

/-- What stands in front of a text that starts behind its newlines. -/
theorem takeWhile_newlines (s : List UInt8) :
    s.takeWhile (· == (0x0a : UInt8)) =
      List.replicate (s.takeWhile (· == (0x0a : UInt8))).length 0x0a := by
  rw [List.eq_replicate_iff]
  refine ⟨rfl, ?_⟩
  intro c hc
  simpa using List.mem_takeWhile_imp hc

/-- Behind the first line stands its newline, if anything. -/
theorem takeWhile_append_newline_drop {s : List UInt8}
    (h : s.drop ((s.takeWhile (· != (0x0a : UInt8))).length + 1) ≠ []) :
    s.takeWhile (· != (0x0a : UInt8)) ++
      0x0a :: s.drop ((s.takeWhile (· != (0x0a : UInt8))).length + 1) = s := by
  have hsplit : s.takeWhile (· != (0x0a : UInt8)) ++ s.dropWhile (· != (0x0a : UInt8)) = s :=
    List.takeWhile_append_dropWhile
  have hdrop : s.drop (s.takeWhile (· != (0x0a : UInt8))).length =
      s.dropWhile (· != (0x0a : UInt8)) := by
    conv_lhs =>
      arg 2
      rw [← hsplit]
    exact List.drop_left
  rw [← List.drop_drop, hdrop] at h ⊢
  cases hrest : s.dropWhile (· != (0x0a : UInt8)) with
  | nil =>
    rw [hrest] at h
    exact absurd rfl h
  | cons c rest =>
    have hnot := List.head?_dropWhile_not (· != (0x0a : UInt8)) s
    rw [hrest] at hnot hsplit
    obtain rfl : c = 0x0a := by simpa using hnot
    exact hsplit

/-- **Where a request is found**: the string in the buffer has a line that is not empty, and
something behind it. -/
theorem parseRequest_eq_some_iff (buf pidStr command : List UInt8) :
    parseRequest buf = some (pidStr, command) ↔
      pidStr ≠ [] ∧ 0x0a ∉ pidStr ∧ command ≠ [] ∧
        ∃ k, cString buf = List.replicate k 0x0a ++ (pidStr ++ 0x0a :: command) := by
  constructor
  · intro h
    simp only [parseRequest] at h
    split_ifs at h with hnone
    obtain ⟨rfl, rfl⟩ := Prod.mk.inj (Option.some.inj h)
    rw [not_or] at hnone
    set s := (cString buf).dropWhile (· == (0x0a : UInt8)) with hs
    have hpid : 0x0a ∉ s.takeWhile (· != (0x0a : UInt8)) := by
      intro hmem
      simpa using List.mem_takeWhile_imp hmem
    refine ⟨hnone.1, hpid, hnone.2, ((cString buf).takeWhile (· == (0x0a : UInt8))).length, ?_⟩
    rw [takeWhile_append_newline_drop hnone.2, hs, ← takeWhile_newlines,
      List.takeWhile_append_dropWhile]
  · rintro ⟨hne, hpid, hcommand, k, hbuf⟩
    have hdrop : (pidStr ++ 0x0a :: command).drop (pidStr.length + 1) = command := by
      rw [← List.drop_drop, List.drop_left]
      rfl
    simp only [parseRequest, hbuf, dropWhile_newlines hne hpid, takeWhile_pid hpid, hdrop]
    rw [if_neg (not_or.mpr ⟨hne, hcommand⟩)]

theorem Request.nul_notMem_text (r : Request) : 0 ∉ r.text := by
  simp only [text, List.mem_append, List.mem_cons, List.not_mem_nil, or_false, not_or]
  exact ⟨r.pid_noNul, by decide, r.line_noNul, by decide⟩

/-- The string in a buffer that starts with a message. -/
theorem Request.cString_message_append (r : Request) (rest : List UInt8) :
    cString (r.message ++ rest) = r.text := by
  rw [message, List.append_assoc, cString_append_of_notMem r.nul_notMem_text]
  exact List.append_nil _

theorem Request.parseRequest_message (r : Request) :
    parseRequest r.message = some r.parsed := by
  refine (parseRequest_eq_some_iff _ _ _).mpr ⟨r.pid_ne_nil, r.pid_noNewline, by simp, 0, ?_⟩
  have h := r.cString_message_append []
  rw [List.append_nil] at h
  exact h

/-- **A stream has one first message.** -/
theorem Request.message_unique {r r' : Request} {rest rest' : List UInt8}
    (h : r.message ++ rest = r'.message ++ rest') : r.message = r'.message := by
  have htext := congrArg cString h
  rw [r.cString_message_append, r'.cString_message_append] at htext
  rw [message, message, htext]

/-! ## Runs of the server -/

namespace RequestServer

/-- The requests that were handled, and the messages that are queued. -/
structure Inv (s : RequestServer) : Prop where
  running : s.running = true
  split : ∃ done pending, s.pipe.written = done ++ pending ∧
    s.handled = done.map Request.parsed ∧ s.pipe.queue = pending.flatMap Request.message

theorem Inv.request {s : RequestServer} (h : Inv s) (r : Request) :
    Inv { s with pipe := s.pipe.write r } := by
  obtain ⟨done, pending, hwritten, hhandled, hqueue⟩ := h.split
  refine ⟨h.running, done, pending ++ [r], ?_, hhandled, ?_⟩
  · rw [← List.append_assoc, ← hwritten]
    rfl
  · rw [List.flatMap_append, List.flatMap_singleton, ← hqueue]
    rfl

/-- A read of one whole message takes the first request from the queue. -/
theorem Inv.read {s : RequestServer} (h : Inv s) {n : ℕ} {r : Request}
    (hwhole : s.pipe.queue.take n = r.message) {buf : List UInt8} {pipe : Pipe Request.message}
    (hread : s.pipe.read pipeBuf n = some (buf, pipe)) :
    ∃ request, parseRequest buf = some request ∧ Inv ⟨pipe, s.handled ++ [request], true⟩ := by
  obtain ⟨done, pending, hwritten, hhandled, hqueue⟩ := h.split
  obtain ⟨hne, htake, hsplit, -, hwritten'⟩ := Pipe.read_eq_some hread
  rw [hwhole] at htake
  subst htake
  cases pending with
  | nil =>
    rw [hsplit, List.flatMap_nil] at hqueue
    exact absurd (List.append_eq_nil_iff.mp hqueue).1 hne
  | cons r' pending =>
    rw [hsplit, List.flatMap_cons] at hqueue
    have hmessage := Request.message_unique hqueue
    rw [hmessage] at hqueue ⊢
    refine ⟨r'.parsed, r'.parseRequest_message, rfl, done ++ [r'], pending, ?_, ?_, ?_⟩
    · rw [hwritten', hwritten, List.append_assoc]
      rfl
    · rw [hhandled, List.map_append]
      rfl
    · exact List.append_cancel_left hqueue

/-- **Delivery.** In every run in which each read returns one whole message, no request is lost, and
the child of each request gets its own pid and command. -/
theorem delivered_of_whole {s : RequestServer} (h : (system.restrict WholeMessage).Reachable s) :
    s.Delivered := by
  have hinv : Inv s := by
    refine h.invariant (I := Inv) ?_ ?_
    · rintro s rfl
      exact ⟨rfl, [], [], rfl, rfl, rfl⟩
    · rintro s a s' - hs ⟨hstep, hwhole⟩
      have hstep : s.exec a = some s' := hstep
      cases a with
      | request r =>
        rw [exec] at hstep
        split_ifs at hstep
        · obtain rfl := Option.some.inj hstep
          exact hs.request r
        · obtain rfl := Option.some.inj hstep
          exact hs
      | read n =>
        obtain ⟨r, hr⟩ := hwhole
        rw [exec, if_pos hs.running] at hstep
        obtain ⟨⟨buf, pipe⟩, hread, rfl⟩ := Option.map_eq_some_iff.mp hstep
        obtain ⟨request, hparse, hnext⟩ := hs.read hr hread
        simp only [hparse]
        exact hnext
  obtain ⟨done, pending, hwritten, hhandled, hqueue⟩ := hinv.split
  refine ⟨hinv.running, ⟨done, pending, hwritten, hhandled, hqueue⟩, ?_⟩
  intro request hrequest
  rw [hhandled] at hrequest
  obtain ⟨r, hr, rfl⟩ := List.mem_map.mp hrequest
  exact ⟨r, hwritten ▸ List.mem_append_left _ hr, rfl⟩

/-! ## Two requests in one read -/

/-- The client 22225 asks for `ls`. -/
def lsRequest : Request where
  pid := [0x32, 0x32, 0x32, 0x32, 0x35]
  line := [0x6c, 0x73]
  pid_ne_nil := by decide
  pid_noNewline := by decide
  pid_noNul := by decide
  line_noNul := by decide

/-- The client 22226 asks for `ps`. -/
def psRequest : Request where
  pid := [0x32, 0x32, 0x32, 0x32, 0x36]
  line := [0x70, 0x73]
  pid_ne_nil := by decide
  pid_noNewline := by decide
  pid_noNul := by decide
  line_noNul := by decide

/-- The read returns one of the two messages. -/
def readsOne (s : RequestServer) : Label → Bool
  | .request _ => true
  | .read n =>
    s.pipe.queue.take n == lsRequest.message || s.pipe.queue.take n == psRequest.message

theorem wholeMessage_of_readsOne (s : RequestServer) (a : Label) (h : readsOne s a = true) :
    s.WholeMessage a := by
  cases a with
  | request r => trivial
  | read n =>
    rw [readsOne, Bool.or_eq_true, beq_iff_eq, beq_iff_eq] at h
    rcases h with h | h
    · exact ⟨lsRequest, h⟩
    · exact ⟨psRequest, h⟩

/-- Each request is read before the next one is written. -/
theorem delivered_lsRequest_psRequest :
    ∃ s, (system.restrict WholeMessage).Reachable s ∧
      s.handled = [lsRequest.parsed, psRequest.parsed] ∧ s.Delivered := by
  have hrun : LTS.run exec (fun s a => readsOne s a = true) ⟨.empty, [], true⟩
      [.request lsRequest, .read 10, .request psRequest, .read 10] = some _ := rfl
  have hreach := (LTS.reachable_of_run (LTS.Reachable.init rfl) hrun).mono wholeMessage_of_readsOne
  exact ⟨_, hreach, rfl, delivered_of_whole hreach⟩

/-- The requests of two clients are queued when the server reads: the second one is lost. -/
theorem psRequest_lost :
    ∃ s, system.Reachable s ∧ s.pipe.written = [lsRequest, psRequest] ∧ s.pipe.queue = [] ∧
      s.handled = [lsRequest.parsed] ∧ ¬ s.Delivered := by
  have hrun : LTS.run exec (fun _ _ => True) ⟨.empty, [], true⟩
      [.request lsRequest, .request psRequest, .read 20] = some _ := rfl
  refine ⟨_, (LTS.reachable_of_run (LTS.Reachable.init rfl) hrun).of_restrict, rfl, rfl, rfl, ?_⟩
  intro hdelivered
  obtain ⟨done, pending, hwritten, hhandled, hqueue⟩ := hdelivered.handled
  have hpending : pending = [] := by
    cases pending with
    | nil => rfl
    | cons r pending =>
      rw [List.flatMap_cons] at hqueue
      exact absurd (List.append_eq_nil_iff.mp hqueue.symm).1 (by simp [Request.message])
  have hlength := congrArg List.length hwritten
  rw [hpending, List.append_nil] at hlength
  have hlength' := congrArg List.length hhandled
  rw [List.length_map, ← hlength] at hlength'
  cases hlength'

end RequestServer

end CS536Labs.Lab1
