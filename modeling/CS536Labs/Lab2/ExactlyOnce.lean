import CS536Labs.Lab2.AtMostOnce
import Mathlib.Data.List.Flatten

/-!
# Remote commands are executed exactly once

What a client writes arrives as a whole, the server reads all that has arrived, and its children are
made. Then the program that is executed for a line is the one that the line names. A client whose
calls have all returned 0 has had all its lines executed, in their order, and its screen shows their
outputs: the remote session is that of a local shell.
-/

namespace CS536Labs.Lab2

variable {ι : Type}

namespace RemoteCommand

/-- Nothing is cut off, and a child is made. -/
def Whole (s : RemoteCommand ι) : Label ι → Bool
  | .client i (.write (some count)) =>
    match (s.client i).ctl with
    | .write _ line _ => count == (commandMessage line).length
    | _ => true
  | .read count _ child _ =>
    child.fork && child.dup2 &&
      match s.server.ctl with
      | .read sockfd _ => s.connections[sockfd]?.all fun conn => conn.unread.length ≤ count
      | _ => true
  | _ => true

end RemoteCommand

/-! ## The messages of a connection -/

/-- The string at the beginning of some messages. -/
theorem cString_messages (line : List UInt8) (n : ℕ) :
    cString ((List.replicate (n + 1) (commandMessage line)).flatten) = cString line := by
  rw [List.replicate_succ, List.flatten_cons, commandMessage, List.append_assoc]
  exact (cString_append_zero _ _).trans (cString_eq_self (notMem_cString line))

theorem length_messages (message : List UInt8) (n : ℕ) :
    ((List.replicate n message).flatten).length = n * message.length := by
  simp

/-- The messages behind the first ones. -/
theorem drop_messages (message : List UInt8) (n m : ℕ) :
    ((List.replicate n message).flatten).drop (m * message.length) =
      (List.replicate (n - m) message).flatten := by
  induction m generalizing n with
  | zero => simp
  | succ m ih =>
    cases n with
    | zero => simp
    | succ n =>
      rw [List.replicate_succ, List.flatten_cons, Nat.succ_mul, Nat.add_comm, ← List.drop_drop,
        List.drop_left, ih, Nat.succ_sub_succ]

/-- A connection without messages that are cut off. -/
structure WholeMessages (server : Server) (k : ℕ) (conn : Connection ι) : Prop where
  written : ∃ n, conn.client.written =
    (List.replicate n (commandMessage conn.client.line)).flatten
  consumed : ∃ m, conn.server.consumed = m * (commandMessage conn.client.line).length
  execs : conn.server.execs = [] ∨ conn.server.execs = [execOf conn.client.line]
  executed : k < server.accepted → k ∉ server.opened →
    Allowed (cString conn.client.line) ∧ conn.server.execs = [execOf conn.client.line]

namespace WholeMessages

variable {server server' : Server} {k : ℕ} {conn : Connection ι}

/-- The server does not close the connection. -/
theorem mono (h : WholeMessages server k conn)
    (hclosed : k < server'.accepted → k ∉ server'.opened →
      k < server.accepted ∧ k ∉ server.opened) : WholeMessages server' k conn where
  written := h.written
  consumed := h.consumed
  execs := h.execs
  executed hlt hnotMem := by
    obtain ⟨hlt', hnotMem'⟩ := hclosed hlt hnotMem
    exact h.executed hlt' hnotMem'

/-- The client makes a call. -/
theorem client (h : WholeMessages server k conn) {e : ClientEnd} (hline : e.line = conn.client.line)
    (hwritten : e.written = conn.client.written ∨
      e.written = conn.client.written ++ commandMessage e.line) :
    WholeMessages server k { conn with client := e } := by
  obtain ⟨⟨n, hn⟩, hconsumed, hexecs, hexecuted⟩ := h
  rw [← hline] at hn hconsumed hexecs hexecuted
  refine ⟨?_, hconsumed, hexecs, hexecuted⟩
  rcases hwritten with hwritten | hwritten
  · exact ⟨n, hwritten.trans hn⟩
  · refine ⟨n + 1, ?_⟩
    show e.written = (List.replicate (n + 1) (commandMessage e.line)).flatten
    rw [hwritten, hn, List.replicate_succ', List.flatten_append, List.flatten_singleton]

/-- What the server reads, when it reads all there is. -/
theorem take_unread (h : WholeMessages server k conn) {count : ℕ}
    (hcount : conn.unread.length ≤ count) :
    ∃ n, conn.unread.take count =
      (List.replicate n (commandMessage conn.client.line)).flatten := by
  obtain ⟨⟨n, hn⟩, ⟨m, hm⟩, -, -⟩ := h
  refine ⟨n - m, ?_⟩
  rw [List.take_of_length_le hcount, Connection.unread, hn, hm, drop_messages]

/-- The server reads, and executes nothing. -/
theorem quiet (h : WholeMessages server k conn) {count : ℕ} (hcount : conn.unread.length ≤ count)
    (output : List UInt8)
    (hclosed : k < server'.accepted → k ∉ server'.opened →
      k < server.accepted ∧ k ∉ server.opened) :
    WholeMessages server' k
      { conn with server := conn.server.serve (conn.unread.take count).length [] output } := by
  obtain ⟨n, hn⟩ := h.take_unread hcount
  obtain ⟨hwritten, ⟨m, hm⟩, hexecs, hexecuted⟩ := h.mono hclosed
  refine ⟨hwritten, ⟨m + n, ?_⟩, ?_, fun hlt hnotMem => ?_⟩
  · rw [Nat.add_mul, ← hm, ← length_messages _ n, ← hn]
    rfl
  · show conn.server.execs ++ [] = [] ∨ conn.server.execs ++ [] = _
    rw [List.append_nil]
    exact hexecs
  · exact (hexecuted hlt hnotMem).imp_right (List.append_nil _).trans

/-- The server reads a command that is executed. -/
theorem exec (h : WholeMessages server k conn) (huntouched : conn.Untouched) {count : ℕ}
    (hcount : conn.unread.length ≤ count) (hallowed : Allowed (cString (conn.unread.take count)))
    (output : List UInt8) :
    WholeMessages server' k
      { conn with
        server := conn.server.serve (conn.unread.take count).length
          [execOf (conn.unread.take count)] output } := by
  obtain ⟨n, hn⟩ := h.take_unread hcount
  obtain ⟨hwritten, ⟨m, hm⟩, -, -⟩ := h
  have hline : cString (conn.unread.take count) = cString conn.client.line := by
    cases n with
    | zero =>
      rw [hn] at hallowed
      exact absurd rfl hallowed.ne_nil
    | succ n => rw [hn, cString_messages]
  have hexecs : conn.server.execs ++ [execOf (conn.unread.take count)] =
      [execOf conn.client.line] := by
    rw [huntouched.1, execOf, execOf, hline, List.nil_append]
  refine ⟨hwritten, ⟨m + n, ?_⟩, .inr hexecs, fun _ _ => ⟨hline ▸ hallowed, hexecs⟩⟩
  rw [Nat.add_mul, ← hm, ← length_messages _ n, ← hn]
  rfl

end WholeMessages

/-! ## The system -/

theorem ClientEnd.call_line {e e' : ClientEnd} {output : List UInt8} {ended : Bool}
    {a : Rcommandclient.Label} (hcall : e.call output ended a = some e') : e'.line = e.line := by
  unfold ClientEnd.call at hcall
  split at hcall
  · obtain rfl := Option.some.inj hcall
    rfl
  · split at hcall
    · obtain rfl := Option.some.inj hcall
      rfl
    · cases hcall
  · split at hcall
    · obtain rfl := Option.some.inj hcall
      rfl
    · cases hcall
  · obtain rfl := Option.some.inj hcall
    rfl
  · obtain rfl := Option.some.inj hcall
    rfl

namespace RemoteCommand

variable [DecidableEq ι] {ip : ι → UInt32} {stdin : ι → List UInt8} {s t : RemoteCommand ι}

/-- The line that is written is the one of the connection. -/
theorem Inv.line_eq (h : Inv ip stdin s) {i : ι} {sockfd attempt : ℕ} {line : List UInt8}
    {conn : Connection ι} (hctl : (s.client i).ctl = .write sockfd line attempt)
    (hconn : s.connections[sockfd]? = some conn) : conn.client.line = line := by
  have hlast := (h.callers i).current sockfd (by rw [hctl]; rfl)
  obtain ⟨past, hover, -⟩ := hlast.calls_set hconn
  have hsession := (h.callers i).session
  rw [hover] at hsession
  obtain ⟨-, -, -, hphase⟩ := hsession.of_ctl hctl Rcommandclient.Ctl.noConfusion
  exact (current_concat.mp hphase).2.1

/-- The messages of all connections. -/
def AllWhole (s : RemoteCommand ι) : Prop :=
  ∀ k conn, s.connections[k]? = some conn → WholeMessages s.server k conn

theorem AllWhole.call (h : AllWhole s) (hinv : Inv ip stdin s) {i : ι} {a : Rcommandclient.Label}
    {c : Rcommandclient} {sockfd : ℕ} {conn : Connection ι} {e : ClientEnd}
    (hstep : (s.client i).Step a c) (hconn : s.connections[sockfd]? = some conn)
    (hsockfd : (s.client i).ctl.sockfd = some sockfd)
    (hcall : conn.client.call conn.server.output (ended s.server sockfd) a = some e)
    (hwhole : s.Whole (.client i a) = true) :
    WholeMessages s.server sockfd { conn with client := e.finish c.ctl } := by
  have hline := ClientEnd.call_line hcall
  refine (h sockfd conn hconn).client ((e.finish_line c.ctl).trans hline) ?_
  rw [ClientEnd.finish_written, ClientEnd.finish_line]
  cases hstep with
  | @wrote sockfd' attempt count line hctl =>
    obtain rfl : sockfd' = sockfd := by
      rw [hctl] at hsockfd
      exact Option.some.inj hsockfd
    rw [Whole, hctl] at hwhole
    obtain rfl := beq_iff_eq.mp hwhole
    obtain rfl := Option.some.inj hcall
    refine .inr ?_
    rw [← hinv.line_eq hctl hconn, List.take_length]
  | received | ended =>
    rw [ClientEnd.call] at hcall
    split at hcall
    · obtain rfl := Option.some.inj hcall
      exact .inl rfl
    · cases hcall
  | endOfInput | readLine | connected | notConnected | inputInterrupted | closed | stopped | retried
  | notWritten | notRead | gaveUp | ignored =>
    obtain rfl := Option.some.inj hcall
    exact .inl rfl

theorem AllWhole.read (h : AllWhole s) (hinv : Inv ip stdin s) {count rand sockfd : ℕ}
    {child : Child} {output command : List UInt8} {conn : Connection ι} {server : Server}
    (hctl : s.server.ctl = .read sockfd command) (hconn : s.connections[sockfd]? = some conn)
    (hstep : s.server.Step (.read (conn.unread.take count) rand child) server)
    (hwhole : s.Whole (.read count rand child output) = true) :
    AllWhole
      { s with
        server := server
        connections := s.connections.set sockfd
          { conn with
            server := conn.server.serve (conn.unread.take count).length
              (server.execs.drop s.server.execs.length) output } } := by
  simp only [Whole, hctl, hconn, Bool.and_eq_true, Option.all_some, decide_eq_true_eq] at hwhole
  obtain ⟨hchild, hcount⟩ := hwhole
  intro k d hd
  have hclosed : server.accepted = s.server.accepted ∧
      (k ≠ sockfd → k ∉ server.opened → k ∉ s.server.opened) := by
    cases hstep with
    | overflow | ignored | rejected => exact ⟨rfl, fun _ => id⟩
    | spawned hread =>
      obtain ⟨rfl, -⟩ := Ctl.read.inj (hctl.symm.trans hread)
      exact ⟨rfl, fun hne hnotMem hmem => hnotMem ((List.mem_erase_of_ne hne).mpr hmem)⟩
  rcases getElem?_set_cases hd with ⟨rfl, rfl⟩ | ⟨hne, hd⟩
  · have hconnWhole := h k conn hconn
    obtain ⟨-, hopened, -⟩ := hinv.serves.reading k command hctl
    cases hstep with
    | overflow | ignored | rejected =>
      rw [List.drop_length]
      exact hconnWhole.quiet hcount output fun hlt hnotMem => absurd hopened hnotMem
    | @spawned _ _ _ command' _ _ hread _ _ hallowed hcommand' =>
      obtain ⟨rfl, -⟩ := Ctl.read.inj (hctl.symm.trans hread)
      have hnew : (s.server.spawn k command' child).execs.drop s.server.execs.length =
          [execOf (conn.unread.take count)] := by
        rw [Server.spawn, List.drop_left, hcommand', hchild.1, hchild.2]
        rfl
      rw [hnew]
      exact hconnWhole.exec (hinv.serves.waiting k conn hconn (.inr hopened)) hcount
        hallowed output
  · refine (h k d hd).mono fun hlt hnotMem => ?_
    exact ⟨hclosed.1 ▸ hlt, hclosed.2 hne hnotMem⟩

theorem AllWhole.step (h : AllWhole s) (hinv : Inv ip stdin s) {a : Label ι}
    (hstep : Step ip s a t) (hwhole : s.Whole a = true) : AllWhole t := by
  cases hstep with
  | alone | ignored => exact h
  | connect hctl =>
    intro k conn hconn
    rw [List.getElem?_append] at hconn
    split at hconn
    · exact h k conn hconn
    · rename_i hge
      obtain rfl := List.mem_singleton.mp (List.mem_of_getElem? hconn)
      refine ⟨⟨0, rfl⟩, ⟨0, (Nat.zero_mul _).symm⟩, .inl rfl, fun hlt => ?_⟩
      exact absurd (hlt.trans_le hinv.serves.accepted_le) hge
  | call hclient hsockfd hconn hcall =>
    intro k d hd
    rcases getElem?_set_cases hd with ⟨rfl, rfl⟩ | ⟨-, hd⟩
    · exact h.call hinv hclient hconn hsockfd hcall hwhole
    · exact h k d hd
  | accept hconn hserver =>
    intro k conn hconn
    refine (h k conn hconn).mono fun hlt hnotMem => ?_
    cases hserver with
    | denied | admitted =>
      rw [List.mem_append, List.mem_singleton, not_or] at hnotMem
      exact ⟨Nat.lt_of_le_of_ne (Nat.le_of_lt_succ hlt) hnotMem.2, hnotMem.1⟩
  | read hctl hconn hserver => exact h.read hinv hctl hconn hserver hwhole
  | acceptError hserver | endOfStream hserver | readError hserver =>
    intro k conn hconn
    refine (h k conn hconn).mono fun hlt hnotMem => ?_
    cases hserver
    exact ⟨hlt, hnotMem⟩

theorem allWhole_of_reachable
    (h : ((system ip stdin).restrict fun s a => s.Whole a = true).Reachable s) : AllWhole s := by
  refine h.invariant ?_ ?_
  · rintro s rfl k conn hconn
    rw [start, List.getElem?_nil] at hconn
    cases hconn
  · intro s a t hreach hall hstep
    have hinv := inv_of_reachable hreach.of_restrict
    exact hall.step hinv (step_of_exec hinv.serves.sized hstep.1) hstep.2

/-- The connections of a client. -/
def own (i : ι) (connections : List (Connection ι)) : List (Connection ι) :=
  connections.filter (·.owner = i)

theorem calls_eq_map_own (i : ι) (connections : List (Connection ι)) :
    calls i connections = (own i connections).map (·.client) := by
  induction connections with
  | nil => rfl
  | cons conn connections ih =>
    by_cases howner : conn.owner = i
    · rw [calls, own, List.filterMap_cons, List.filter_cons, if_pos howner,
        if_pos (decide_eq_true howner), List.map_cons]
      exact congrArg (conn.client :: ·) ih
    · rw [calls, own, List.filterMap_cons, List.filter_cons, if_neg howner,
        if_neg (by simpa using howner)]
      exact ih

/-- The session of a client is that of a local shell. -/
structure ExactlyOnce (stdin : List UInt8) (i : ι) (s : RemoteCommand ι) : Prop where
  ordered : ((own i s.connections).flatMap (·.server.execs)).Sublist
    ((inputLines stdin).map execOf)
  answered : (∀ ret, s.server.ctl ≠ .returned ret) → ∀ conn ∈ own i s.connections,
    conn.client.status = some 0 →
      Allowed (cString conn.client.line) ∧ conn.server.execs = [execOf conn.client.line]
  session : (∀ ret, s.server.ctl ≠ .returned ret) → (s.client i).ctl = .returned 0 →
    (∀ conn ∈ own i s.connections, conn.client.status = some 0 ∧ conn.server.output ≠ [] ∧
      0 ∉ conn.server.output) →
    (own i s.connections).flatMap (·.server.execs) = (inputLines stdin).map execOf ∧
      (s.client i).stdout =
        (own i s.connections).flatMap (fun conn => prompt ++ conn.server.output) ++ prompt

/-- **Exactly one execution for each command.** -/
theorem exactlyOnce_of_reachable
    (h : ((system ip stdin).restrict fun s a => s.Whole a = true).Reachable s) (i : ι) :
    ExactlyOnce (stdin i) i s := by
  have hinv := inv_of_reachable h.of_restrict
  have hwhole := allWhole_of_reachable h
  have hsession := (hinv.callers i).session
  have hown : ∀ conn ∈ own i s.connections, ∃ k, s.connections[k]? = some conn := fun conn hconn =>
    List.mem_iff_getElem?.mp (List.mem_filter.mp hconn).1
  have hcalls := calls_eq_map_own i s.connections
  have hanswered : (∀ ret, s.server.ctl ≠ .returned ret) → ∀ conn ∈ own i s.connections,
      conn.client.status = some 0 →
        Allowed (cString conn.client.line) ∧ conn.server.execs = [execOf conn.client.line] := by
    intro hrunning conn hconn hstatus
    obtain ⟨k, hk⟩ := hown conn hconn
    obtain ⟨hended, -⟩ := (hinv.linked k conn hk).status hstatus
    obtain ⟨ret, hret⟩ | ⟨hlt, hnotMem⟩ := ended_iff.mp hended
    · exact absurd hret (hrunning ret)
    · exact (hwhole k conn hk).executed hlt hnotMem
  refine ⟨?_, hanswered, fun hrunning hctl hall => ⟨?_, ?_⟩⟩
  · obtain ⟨lost, hlines, -⟩ := hsession.lines
    rw [hlines, hcalls, List.map_append, List.map_map, List.map_map]
    refine List.Sublist.trans ?_ (List.sublist_append_left _ _)
    rw [List.map_eq_flatMap]
    refine List.Sublist.flatMap_right _ fun conn hconn => ?_
    obtain ⟨k, hk⟩ := hown conn hconn
    rcases (hwhole k conn hk).execs with hexecs | hexecs
    · rw [hexecs]
      exact List.nil_sublist _
    · rw [hexecs]
      exact List.Sublist.refl _
  · have hanswered' : ¬ Unanswered (calls i s.connections) := by
      rintro ⟨e, hlast, -, hreceived⟩
      have hmem := List.mem_of_getLast? hlast
      rw [hcalls] at hmem
      obtain ⟨conn, hconn, rfl⟩ := List.mem_map.mp hmem
      obtain ⟨k, hk⟩ := hown conn hconn
      obtain ⟨hstatus, hne, -⟩ := hall conn hconn
      obtain ⟨-, heq⟩ := (hinv.linked k conn hk).status hstatus
      exact hne (List.length_eq_zero_iff.mp (heq.symm.trans hreceived))
    have hlines := (hsession.of_returned hctl).resolve_right hanswered'
    rw [← hlines, hcalls, List.map_map, List.map_map, List.map_eq_flatMap]
    refine List.flatMap_congr fun conn hconn => ?_
    exact (hanswered hrunning conn hconn (hall conn hconn).1).2
  · obtain ⟨-, hstdout, -⟩ := hsession.of_ctl hctl (by decide)
    rw [hstdout, hcalls, transcript, List.flatMap_map]
    refine congrArg (· ++ prompt) (List.flatMap_congr fun conn hconn => ?_)
    obtain ⟨k, hk⟩ := hown conn hconn
    obtain ⟨hstatus, -, hnul⟩ := hall conn hconn
    have hlinked := hinv.linked k conn hk
    rw [hlinked.printed hnul, (hlinked.status hstatus).2, List.take_length]

/-- `date` is executed once, and the client ends with its input. -/
theorem exactlyOnce_date : ∃ s,
    ((system labIp dateInput).restrict fun s a => s.Whole a = true).Reachable s ∧
      (s.client true).ctl = .returned 0 ∧ s.server.execs.map Exec.file = [date] ∧
      ExactlyOnce (dateInput true) true s := by
  have hrun : (LTS.run (RemoteCommand.exec labIp) (fun s a => s.Whole a = true) (start dateInput)
      dateLabels).map (fun s => ((s.client true).ctl, s.server.execs.map Exec.file)) =
      some (.returned 0, [date]) := by decide +kernel
  obtain ⟨s, hrun, hs⟩ := Option.map_eq_some_iff.mp hrun
  obtain ⟨hctl, hfile⟩ := Prod.mk.inj hs
  have hreach := LTS.reachable_of_run (LTS.Reachable.init rfl) hrun
  exact ⟨s, hreach, hctl, hfile, exactlyOnce_of_reachable hreach true⟩

end RemoteCommand

end CS536Labs.Lab2
