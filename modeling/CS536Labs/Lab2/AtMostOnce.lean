import CS536Labs.Lab2.ServedConnections

/-!
# Remote commands are executed at most once

However often a client writes its command again, and however the connections are interleaved, the
server executes at most one program for it.
-/

namespace CS536Labs.Lab2

variable {ι : Type}

/-! ## The calls of a client -/

section Calls

/-- The connection is the last one of this client. -/
structure LastOf (i : ι) (connections : List (Connection ι)) (k : ℕ) : Prop where
  exists_conn : ∃ conn, connections[k]? = some conn ∧ conn.owner = i
  later : ∀ j conn, k < j → connections[j]? = some conn → conn.owner ≠ i

variable {i : ι} {connections : List (Connection ι)} {conn : Connection ι} {k : ℕ}

theorem LastOf.set {j : ℕ} {conn' : Connection ι} (h : LastOf i connections k)
    (hconn : connections[j]? = some conn) (howner : conn'.owner = conn.owner) :
    LastOf i (connections.set j conn') k where
  exists_conn := by
    obtain ⟨d, hd, hd'⟩ := h.exists_conn
    rcases eq_or_ne j k with rfl | hne
    · obtain rfl := Option.some.inj (hconn.symm.trans hd)
      exact ⟨conn', List.getElem?_set_self (List.getElem?_eq_some_iff.mp hconn).1,
        howner.trans hd'⟩
    · exact ⟨d, by rw [List.getElem?_set_ne hne, hd], hd'⟩
  later l d hl hd := by
    rcases getElem?_set_cases hd with ⟨rfl, rfl⟩ | ⟨-, hd⟩
    · rw [howner]
      exact h.later l conn hl hconn
    · exact h.later l d hl hd

theorem LastOf.append {j : ι} {line : List UInt8} (h : LastOf i connections k) (hne : j ≠ i) :
    LastOf i (connections ++ [.new j line]) k where
  exists_conn := by
    obtain ⟨d, hd, hd'⟩ := h.exists_conn
    exact ⟨d, by rw [List.getElem?_append_left (List.getElem?_eq_some_iff.mp hd).1, hd], hd'⟩
  later l d hl hd := by
    rw [List.getElem?_append] at hd
    split at hd
    · exact h.later l d hl hd
    · obtain rfl := List.mem_singleton.mp (List.mem_of_getElem? hd)
      exact hne

theorem lastOf_new (i : ι) (connections : List (Connection ι)) (line : List UInt8) :
    LastOf i (connections ++ [.new i line]) connections.length where
  exists_conn := ⟨_, List.getElem?_concat_length, rfl⟩
  later l d hl hd := by
    have hlt := (List.getElem?_eq_some_iff.mp hd).1
    rw [List.length_append, List.length_singleton] at hlt
    omega

variable [DecidableEq ι]

/-- The calls of a client, in their order. -/
def calls (i : ι) (connections : List (Connection ι)) : List ClientEnd :=
  connections.filterMap fun conn => if conn.owner = i then some conn.client else none

theorem calls_set_of_server (hconn : connections[k]? = some conn) (server : ServerEnd) (i : ι) :
    calls i (connections.set k { conn with server := server }) = calls i connections := by
  obtain ⟨before, after, heq, -, hset⟩ := exists_set hconn
  rw [hset, heq, calls, calls, List.filterMap_append, List.filterMap_append, List.filterMap_cons,
    List.filterMap_cons]

theorem calls_set_of_ne (hconn : connections[k]? = some conn) (hne : conn.owner ≠ i)
    (client : ClientEnd) :
    calls i (connections.set k { conn with client := client }) = calls i connections := by
  obtain ⟨before, after, heq, -, hset⟩ := exists_set hconn
  rw [hset, heq, calls, calls, List.filterMap_append, List.filterMap_append, List.filterMap_cons,
    List.filterMap_cons, if_neg hne, if_neg hne]

theorem LastOf.calls_set (h : LastOf i connections k) (hconn : connections[k]? = some conn) :
    ∃ past, calls i connections = past ++ [conn.client] ∧ ∀ client,
      calls i (connections.set k { conn with client := client }) = past ++ [client] := by
  obtain ⟨before, after, heq, hlen, hset⟩ := exists_set hconn
  have howner : conn.owner = i := by
    obtain ⟨conn', hconn', howner⟩ := h.exists_conn
    obtain rfl := Option.some.inj (hconn.symm.trans hconn')
    exact howner
  have hafter : calls i after = [] := by
    rw [calls, List.filterMap_eq_nil_iff]
    intro d hd
    obtain ⟨j, hj⟩ := List.mem_iff_getElem?.mp hd
    refine if_neg (h.later (k + 1 + j) d (by omega) ?_)
    rw [heq, List.getElem?_append_right (by omega), ← hj]
    have hindex : k + 1 + j - before.length = j + 1 := by omega
    rw [hindex, List.getElem?_cons_succ]
  refine ⟨calls i before, ?_, fun client => ?_⟩
  · rw [heq, calls, List.filterMap_append, List.filterMap_cons, if_pos howner]
    exact congrArg (calls i before ++ conn.client :: ·) hafter
  · rw [hset, calls, List.filterMap_append, List.filterMap_cons, if_pos howner]
    exact congrArg (calls i before ++ client :: ·) hafter

end Calls

/-! ## The system -/

namespace RemoteCommand

variable [DecidableEq ι] {ip : ι → UInt32} {stdin : ι → List UInt8} {s t : RemoteCommand ι}

/-- A client with its connections. -/
structure Caller (stdin : List UInt8) (i : ι) (connections : List (Connection ι))
    (c : Rcommandclient) : Prop where
  session : Session stdin c (calls i connections)
  current : ∀ k, c.ctl.sockfd = some k → LastOf i connections k

/-- The invariant of the system. -/
structure Inv (ip : ι → UInt32) (stdin : ι → List UInt8) (s : RemoteCommand ι) : Prop where
  serves : Serves ip s.server s.connections
  linked : ∀ k conn, s.connections[k]? = some conn → Linked (ended s.server k) conn
  callers : ∀ i, Caller (stdin i) i s.connections (s.client i)

theorem inv_start (ip : ι → UInt32) (stdin : ι → List UInt8) : Inv ip stdin (start stdin) where
  serves := Serves.start ip
  linked k conn hconn := by
    rw [start, List.getElem?_nil] at hconn
    cases hconn
  callers i := ⟨Session.start (stdin i), fun k hk => by cases hk⟩

theorem callers_update {connections : List (Connection ι)} {i : ι} {c : Rcommandclient}
    (hi : Caller (stdin i) i connections c)
    (hne : ∀ j, j ≠ i → Caller (stdin j) j connections (s.client j)) (j : ι) :
    Caller (stdin j) j connections (Function.update s.client i c j) :=
  (Function.forall_update_iff s.client fun j c => Caller (stdin j) j connections c).mpr
    ⟨hi, hne⟩ j

/-- A step of the client that is not on a connection. -/
theorem Inv.client (h : Inv ip stdin s) {i : ι} {c : Rcommandclient}
    (hcaller : Caller (stdin i) i s.connections c) :
    Inv ip stdin { s with client := Function.update s.client i c } where
  serves := h.serves
  linked := h.linked
  callers := callers_update hcaller fun j _ => h.callers j

/-- A client has got its connection. -/
theorem Inv.connect (h : Inv ip stdin s) {i : ι} {line : List UInt8}
    (hctl : (s.client i).ctl = .connect line) :
    Inv ip stdin
      { s with
        client := Function.update s.client i
          { s.client i with ctl := .write s.connections.length line 0 }
        connections := s.connections ++ [.new i line] } where
  serves := h.serves.connected ⟨rfl, rfl⟩
  linked k conn hconn := by
    rw [List.getElem?_append] at hconn
    split at hconn
    · exact h.linked k conn hconn
    · obtain rfl := List.mem_singleton.mp (List.mem_of_getElem? hconn)
      exact ⟨Nat.le_refl 0, fun _ => rfl, fun hzero => by cases hzero⟩
  callers := by
    have hcalls : ∀ j, calls j (s.connections ++ [Connection.new i line]) =
        calls j s.connections ++ calls j [Connection.new i line] := fun j => List.filterMap_append
    refine callers_update ⟨?_, fun k hk => ?_⟩ fun j hne => ⟨?_, fun k hk => ?_⟩
    · have hnew : calls i [Connection.new i line] = [⟨line, [], 0, [], none, false⟩] := by
        rw [calls, List.filterMap_cons, Connection.new, if_pos rfl]
        rfl
      rw [hcalls, hnew]
      exact (h.callers i).session.connected hctl
    · obtain rfl := Option.some.inj hk
      exact lastOf_new i s.connections line
    · have hnone : calls j [Connection.new i line] = [] := by
        rw [calls, List.filterMap_cons, Connection.new, if_neg hne.symm]
        rfl
      rw [hcalls, hnone, List.append_nil]
      exact (h.callers j).session
    · exact ((h.callers j).current k hk).append hne.symm

/-- What the client writes stays on the connection. -/
theorem written_prefix {e e' : ClientEnd} {output : List UInt8} {ended : Bool}
    {a : Rcommandclient.Label} (hcall : e.call output ended a = some e')
    (ctl : Rcommandclient.Ctl) : e.written <+: (e'.finish ctl).written := by
  rw [ClientEnd.finish_written]
  unfold ClientEnd.call at hcall
  split at hcall
  · obtain rfl := Option.some.inj hcall
    exact List.prefix_append _ _
  · split at hcall
    · obtain rfl := Option.some.inj hcall
      exact List.prefix_rfl
    · cases hcall
  · split at hcall
    · obtain rfl := Option.some.inj hcall
      exact List.prefix_rfl
    · cases hcall
  · obtain rfl := Option.some.inj hcall
    exact List.prefix_rfl
  · obtain rfl := Option.some.inj hcall
    exact List.prefix_rfl

/-- A client makes a call on its connection. -/
theorem Inv.call (h : Inv ip stdin s) {i : ι} {a : Rcommandclient.Label} {c : Rcommandclient}
    {sockfd : ℕ} {conn : Connection ι} {e : ClientEnd} (hstep : (s.client i).Step a c)
    (hsockfd : (s.client i).ctl.sockfd = some sockfd)
    (hconn : s.connections[sockfd]? = some conn)
    (hcall : conn.client.call conn.server.output (ended s.server sockfd) a = some e)
    (hignored : a ≠ .sigalrm false) :
    Inv ip stdin
      { s with
        client := Function.update s.client i c
        connections := s.connections.set sockfd { conn with client := e.finish c.ctl } } := by
  have hlast := (h.callers i).current sockfd hsockfd
  have howner : conn.owner = i := by
    obtain ⟨conn', hconn', howner⟩ := hlast.exists_conn
    obtain rfl := Option.some.inj (hconn.symm.trans hconn')
    exact howner
  have hnone : (s.client i).ctl.sockfd ≠ none := by
    rw [hsockfd]
    exact Option.some_ne_none _
  have hwritten := written_prefix hcall c.ctl
  refine ⟨h.serves.set hconn ⟨rfl, rfl, rfl, hwritten⟩, fun k d hd => ?_,
    callers_update ⟨?_, fun k hk => ?_⟩ fun j hne => ⟨?_, fun k hk => ?_⟩⟩
  · rcases getElem?_set_cases hd with ⟨rfl, rfl⟩ | ⟨-, hd⟩
    · exact (h.linked k conn hconn).call hstep hcall hignored
    · exact h.linked k d hd
  · obtain ⟨past, hover, hset⟩ := hlast.calls_set hconn
    have hsession := (h.callers i).session
    rw [hover] at hsession
    rw [hset]
    exact hsession.call hstep hnone hcall hignored
  · obtain rfl := hstep.sockfd_eq hsockfd hk
    exact hlast.set hconn rfl
  · rw [calls_set_of_ne hconn (howner ▸ hne.symm)]
    exact (h.callers j).session
  · exact ((h.callers j).current k hk).set hconn rfl

/-- The server goes on, with the same connections. -/
theorem Inv.server (h : Inv ip stdin s) {a : Lab2.Label} {server : Server}
    (hstep : s.server.Step a server) (hserves : Serves ip server s.connections) :
    Inv ip stdin { s with server := server } where
  serves := hserves
  linked k conn hconn := (h.linked k conn hconn).mono (ended_of_step hstep)
  callers := h.callers

/-- The server reads from a connection. -/
theorem Inv.read (h : Inv ip stdin s) {count rand sockfd : ℕ} {child : Child}
    {output command : List UInt8} {conn : Connection ι} {server : Server}
    (hctl : s.server.ctl = .read sockfd command) (hconn : s.connections[sockfd]? = some conn)
    (hstep : s.server.Step (.read (conn.unread.take count) rand child) server) :
    Inv ip stdin
      { s with
        server := server
        connections := s.connections.set sockfd
          { conn with
            server := conn.server.serve (conn.unread.take count).length
              (server.execs.drop s.server.execs.length) output } } := by
  obtain ⟨hk, hopened, -⟩ := h.serves.reading sockfd command hctl
  refine ⟨h.serves.read hctl hconn hstep, fun k d hd => ?_, fun j => ⟨?_, fun k hk => ?_⟩⟩
  · rcases getElem?_set_cases hd with ⟨rfl, rfl⟩ | ⟨-, hd⟩
    · have hended : ended s.server k = false := by
        rw [← Bool.not_eq_true, ended_iff]
        rintro (⟨ret, hret⟩ | ⟨-, hnotMem⟩)
        · cases hctl.symm.trans hret
        · exact hnotMem hopened
      have hlinked := h.linked k conn hconn
      rw [hended] at hlinked
      exact hlinked.serve (h.serves.waiting k conn hconn (.inr hopened)).2 _ _ _
    · exact (h.linked k d hd).mono (ended_of_step hstep)
  · rw [calls_set_of_server hconn]
    exact (h.callers j).session
  · exact ((h.callers j).current k hk).set hconn rfl

theorem Inv.step (h : Inv ip stdin s) {a : Label ι} (hstep : Step ip s a t) : Inv ip stdin t := by
  cases hstep with
  | alone hclient hnone hnone' =>
    refine h.client ⟨(h.callers _).session.alone hclient hnone hnone', fun k hk => ?_⟩
    cases hnone'.symm.trans hk
  | ignored i => exact h.client ⟨(h.callers i).session.ignored, (h.callers i).current⟩
  | connect hctl => exact h.connect hctl
  | call hclient hsockfd hconn hcall hignored =>
    exact h.call hclient hsockfd hconn hcall hignored
  | accept hconn hserver => exact h.server hserver (h.serves.accept hconn hserver)
  | read hctl hconn hserver => exact h.read hctl hconn hserver
  | acceptError hserver | endOfStream hserver | readError hserver =>
    exact h.server hserver (h.serves.other hserver (by simp))

/-- **The invariant holds in every run.** -/
theorem inv_of_reachable (h : (system ip stdin).Reachable s) : Inv ip stdin s := by
  refine h.invariant ?_ ?_
  · rintro s rfl
    exact inv_start ip stdin
  · intro s a t _ hinv hexec
    exact hinv.step (step_of_exec hinv.serves.sized hexec)

theorem mem_calls {i : ι} {connections : List (Connection ι)} {e : ClientEnd} :
    e ∈ calls i connections ↔ ∃ conn ∈ connections, conn.owner = i ∧ conn.client = e := by
  rw [calls, List.mem_filterMap]
  refine exists_congr fun conn => and_congr_right fun _ => ?_
  split
  · rename_i howner
    rw [and_iff_right howner, Option.some_inj]
  · rename_i howner
    exact iff_of_false (Option.some_ne_none e).symm fun h => howner h.1

theorem Inv.attempts (h : Inv ip stdin s) {conn : Connection ι} (hconn : conn ∈ s.connections) :
    ∃ n ≤ maxAttempts, conn.client.Attempts n :=
  (h.callers conn.owner).session.attempts _ (mem_calls.mpr ⟨conn, hconn, rfl, rfl⟩)

theorem Inv.untouched_or_taken (h : Inv ip stdin s) {k : ℕ} {conn : Connection ι}
    (hconn : s.connections[k]? = some conn) : conn.Untouched ∨ conn.Taken ip := by
  by_cases hk : s.server.accepted ≤ k ∨ k ∈ s.server.opened
  · exact .inl (h.serves.waiting k conn hconn hk)
  · rw [not_or, not_le] at hk
    exact .inr (h.serves.taken k conn hconn hk.1 hk.2)

/-- What the server has executed for the connections, and what a status 0 says about it. -/
structure AtMostOnce (ip : ι → UInt32) (s : RemoteCommand ι) : Prop where
  execs : s.server.execs = s.connections.flatMap (·.server.execs)
  once : ∀ conn ∈ s.connections, conn.Untouched ∨ conn.Taken ip
  attempts : ∀ conn ∈ s.connections, ∃ n ≤ maxAttempts, conn.client.Attempts n
  answered : ∀ conn ∈ s.connections, conn.client.status = some 0 →
    conn.client.received = conn.server.output.length ∧
      ((∃ ret, s.server.ctl = .returned ret) ∨ conn.Taken ip)

/-- **At most one execution for each command.** -/
theorem atMostOnce_of_reachable (h : (system ip stdin).Reachable s) : AtMostOnce ip s := by
  have hinv := inv_of_reachable h
  refine ⟨hinv.serves.execs, fun conn hconn => ?_, fun conn hconn => hinv.attempts hconn,
    fun conn hconn hstatus => ?_⟩
  · obtain ⟨k, hk⟩ := List.mem_iff_getElem?.mp hconn
    exact hinv.untouched_or_taken hk
  · obtain ⟨k, hk⟩ := List.mem_iff_getElem?.mp hconn
    obtain ⟨hended, hreceived⟩ := (hinv.linked k conn hk).status hstatus
    refine ⟨hreceived, (ended_iff.mp hended).imp_right fun ⟨hlt, hnotMem⟩ => ?_⟩
    exact hinv.serves.taken k conn hk hlt hnotMem

/-- What the user of a client has typed and sees. -/
structure Screen (stdin : List UInt8) (i : ι) (s : RemoteCommand ι) : Prop where
  commands : (calls i s.connections).map (·.line) <+: inputLines stdin
  stdout : (s.client i).stdout = transcript (calls i s.connections) ++ prompt ∨
    (s.client i).stdout = transcript (calls i s.connections)
  printed : ∀ conn ∈ s.connections, conn.owner = i → 0 ∉ conn.server.output →
    conn.client.printed = conn.server.output.take conn.client.received
  rewritten : ∀ sockfd line attempt, (s.client i).ctl = .write sockfd line attempt →
    ∃ e, (calls i s.connections).getLast? = some e ∧ e.line = line ∧ e.received = 0
  returned : (s.client i).ctl = .returned 0 →
    (calls i s.connections).map (·.line) = inputLines stdin ∨ Unanswered (calls i s.connections)

/-- **What the user sees.** -/
theorem screen_of_reachable (h : (system ip stdin).Reachable s) (i : ι) : Screen (stdin i) i s := by
  have hinv := inv_of_reachable h
  have hsession := (hinv.callers i).session
  refine ⟨?_, ?_, fun conn hconn _ hnul => ?_, fun sockfd line attempt hctl => ?_,
    hsession.of_returned⟩
  · obtain ⟨lost, hlines, -⟩ := hsession.lines
    exact ⟨_, hlines.symm⟩
  · rcases hsession.stdout with hstdout | ⟨-, hstdout⟩
    · cases hctl : (s.client i).ctl with
      | fgets | connect | returned =>
        rw [hctl] at hstdout
        exact .inl hstdout
      | write | read | close =>
        rw [hctl] at hstdout
        exact .inr (hstdout.trans (List.append_nil _))
    · exact .inr hstdout
  · obtain ⟨k, hk⟩ := List.mem_iff_getElem?.mp hconn
    exact (hinv.linked k conn hk).printed hnul
  · obtain ⟨-, -, -, past, e, hcalls, -, hline, -, hreceived⟩ :=
      hsession.of_ctl hctl Rcommandclient.Ctl.noConfusion
    exact ⟨e, hcalls ▸ List.getLast?_concat, hline, hreceived⟩

/-- **The server is safe from its clients**, when their commands are short: three of them fit into
its array. -/
theorem defined_of_reachable (h : (system ip stdin).Reachable s)
    (hshort : ∀ conn ∈ s.connections, conn.client.line.length ≤ 340) :
    s.server.ctl ≠ .undefined := by
  intro hundefined
  have hinv := inv_of_reachable h
  obtain ⟨conn, hconn, hlen⟩ := hinv.serves.overflow hundefined
  obtain ⟨n, hn, hattempts⟩ := hinv.attempts hconn
  have hline := hshort conn hconn
  have hle : n * (conn.client.line.length + 1) ≤ 3 * 341 :=
    Nat.mul_le_mul hn (Nat.succ_le_succ hline)
  have := hlen.trans hattempts.length_le
  rw [bufferSize] at this
  omega

/-- Two clients, and the input of the first one. -/
def dateInput (i : Bool) : List UInt8 := if i then date ++ [0x0a] else []

/-- The address of the clients. -/
def labIp (_ : Bool) : UInt32 := 0x800a1901

/-- The array of the server. -/
def blankCommand : List UInt8 := List.replicate 1024 0

/-- `date` is written two times, since the coin toss ignores it, and executed once. -/
def dateLabels : List (Label Bool) :=
  [.client true .fgets, .client true (.connect (some 0)), .client true (.write (some 6)),
    .accept blankCommand, .read 6 0 ⟨true, true⟩ [], .client true (.sigalrm true),
    .client true (.write (some 6)), .read 6 1 ⟨true, true⟩ [0x31, 0x32],
    .client true (.read [0x31]), .client true (.read [0x32]), .client true .endOfStream,
    .client true (.close true), .client true .fgets]

theorem reachable_date : ∃ s, (system labIp dateInput).Reachable s ∧
    s.server.execs.map Exec.file = [date] ∧
    (s.client true).stdout = prompt ++ [0x31, 0x32] ++ prompt ∧
    s.connections.map (·.client.line) = [date ++ [0x0a]] := by
  have hrun : (LTS.run (exec labIp) (fun _ _ => True) (start dateInput) dateLabels).map
      (fun s => (s.server.execs.map Exec.file, (s.client true).stdout,
        s.connections.map (·.client.line))) =
      some ([date], prompt ++ [0x31, 0x32] ++ prompt, [date ++ [0x0a]]) := by decide +kernel
  obtain ⟨s, hrun, hs⟩ := Option.map_eq_some_iff.mp hrun
  obtain ⟨hfile, hrest⟩ := Prod.mk.inj hs
  obtain ⟨hstdout, hline⟩ := Prod.mk.inj hrest
  have hreach := (LTS.reachable_of_run (LTS.Reachable.init rfl) hrun).of_restrict
  exact ⟨s, hreach, hfile, hstdout, hline⟩

/-- `date` is executed once. -/
theorem atMostOnce_date : ∃ s, (system labIp dateInput).Reachable s ∧
    s.server.execs.map Exec.file = [date] ∧ AtMostOnce labIp s := by
  obtain ⟨s, hreach, hfile, -⟩ := reachable_date
  exact ⟨s, hreach, hfile, atMostOnce_of_reachable hreach⟩

/-- The output stands behind the prompt. -/
theorem screen_date : ∃ s, (system labIp dateInput).Reachable s ∧
    (s.client true).stdout = prompt ++ [0x31, 0x32] ++ prompt ∧
    Screen (dateInput true) true s := by
  obtain ⟨s, hreach, -, hstdout, -⟩ := reachable_date
  exact ⟨s, hreach, hstdout, screen_of_reachable hreach true⟩

theorem defined_date : ∃ s, (system labIp dateInput).Reachable s ∧
    s.connections.map (·.client.line) = [date ++ [0x0a]] ∧ s.server.ctl ≠ .undefined := by
  obtain ⟨s, hreach, -, -, hline⟩ := reachable_date
  refine ⟨s, hreach, hline, defined_of_reachable hreach fun conn hconn => ?_⟩
  have hmem := List.mem_map_of_mem (f := fun conn => conn.client.line) hconn
  rw [hline, List.mem_singleton] at hmem
  rw [hmem]
  decide

end RemoteCommand

end CS536Labs.Lab2
