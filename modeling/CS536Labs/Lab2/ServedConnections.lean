import CS536Labs.Lab2.CommandSession

/-!
# The connections of the server

* `Serves`: on a connection that the server has not accepted, or not closed, nothing was executed.
  On a connection that it has closed it has read one allowed command.
* `Linked`: what the client has got is the beginning of the output, and all of it when its call has
  returned 0.

Both are kept by the steps of the server and of the clients.
-/

namespace CS536Labs.Lab2

variable {ι : Type}

/-- What is executed for the bytes that `read` has returned. -/
def execOf (data : List UInt8) : Exec :=
  ⟨withoutNewline (cString data), [withoutNewline (cString data)]⟩

namespace Connection

/-- Nothing was executed. -/
def Untouched (conn : Connection ι) : Prop := conn.server.execs = [] ∧ conn.server.output = []

/-- The server has read an allowed command, and executed it unless there was no child. -/
def Taken (ip : ι → UInt32) (conn : Connection ι) : Prop :=
  sanitizeClientAddr (ip conn.owner) = true ∧
    ∃ data, data <:+: conn.client.written ∧ Allowed (cString data) ∧
      (conn.Untouched ∨ conn.server.execs = [execOf data])

/-- A connection on which nothing was executed in between. -/
structure Grows (conn conn' : Connection ι) : Prop where
  owner : conn'.owner = conn.owner
  execs : conn'.server.execs = conn.server.execs
  output : conn'.server.output = conn.server.output
  written : conn.client.written <+: conn'.client.written

theorem Untouched.grows {conn conn' : Connection ι} (h : conn.Untouched)
    (hgrows : conn.Grows conn') : conn'.Untouched :=
  ⟨hgrows.execs.trans h.1, hgrows.output.trans h.2⟩

theorem Taken.grows {ip : ι → UInt32} {conn conn' : Connection ι} (h : conn.Taken ip)
    (hgrows : conn.Grows conn') : conn'.Taken ip := by
  obtain ⟨hip, data, hdata, hallowed, hexecs⟩ := h
  refine ⟨hgrows.owner ▸ hip, data, hdata.trans hgrows.written.isInfix, hallowed, ?_⟩
  exact hexecs.imp (·.grows hgrows) hgrows.execs.trans

end Connection

/-! ## Replacing a connection -/

/-- An element of a list is replaced. -/
theorem exists_set {α : Type*} {l : List α} {a : α} {k : ℕ} (h : l[k]? = some a) :
    ∃ l₁ l₂, l = l₁ ++ a :: l₂ ∧ l₁.length = k ∧ ∀ b, l.set k b = l₁ ++ b :: l₂ := by
  obtain ⟨hk, rfl⟩ := List.getElem?_eq_some_iff.mp h
  refine ⟨l.take k, l.drop (k + 1), ?_, List.length_take_of_le hk.le, fun b => ?_⟩
  · rw [← List.drop_eq_getElem_cons hk, List.take_append_drop]
  · exact List.set_eq_take_append_cons_drop.trans (if_pos hk)

/-- What a connection that was replaced is at the places of the list. -/
theorem getElem?_set_cases {α : Type*} {l : List α} {a b : α} {j k : ℕ}
    (h : (l.set k b)[j]? = some a) : j = k ∧ a = b ∨ j ≠ k ∧ l[j]? = some a := by
  rw [List.getElem?_set] at h
  split at h
  · rename_i hjk
    split at h
    · exact .inl ⟨hjk.symm, (Option.some.inj h).symm⟩
    · cases h
  · rename_i hjk
    exact .inr ⟨Ne.symm hjk, h⟩

/-! ## The server -/

/-- What the server has done with its connections. -/
structure Serves (ip : ι → UInt32) (server : Server) (connections : List (Connection ι)) :
    Prop where
  sized : server.CommandSized
  opened : server.opened.Sublist (List.range server.accepted)
  accepted_le : server.accepted ≤ connections.length
  reading : ∀ k command, server.ctl = .read k command →
    k + 1 = server.accepted ∧ k ∈ server.opened ∧
      ∀ conn, connections[k]? = some conn → sanitizeClientAddr (ip conn.owner) = true
  execs : server.execs = connections.flatMap (·.server.execs)
  waiting : ∀ k conn, connections[k]? = some conn →
    server.accepted ≤ k ∨ k ∈ server.opened → conn.Untouched
  taken : ∀ k conn, connections[k]? = some conn → k < server.accepted → k ∉ server.opened →
    conn.Taken ip
  overflow : server.ctl = .undefined →
    ∃ conn ∈ connections, bufferSize ≤ conn.client.written.length

namespace Serves

variable {ip : ι → UInt32} {server server' : Server} {connections : List (Connection ι)}
  {conn conn' : Connection ι} {k : ℕ}

theorem start (ip : ι → UInt32) : Serves ip Server.start [] where
  sized := by
    intro k command hctl
    cases hctl
  opened := List.Sublist.refl _
  accepted_le := Nat.le_refl 0
  reading := by
    intro k command hctl
    cases hctl
  execs := rfl
  waiting k conn hconn := by
    rw [List.getElem?_nil] at hconn
    cases hconn
  taken k conn hconn := by
    rw [List.getElem?_nil] at hconn
    cases hconn
  overflow := by
    intro hctl
    cases hctl

/-- Bytes are written or read on a connection, or it is closed by its client. -/
theorem set (h : Serves ip server connections) (hconn : connections[k]? = some conn)
    (hgrows : conn.Grows conn') : Serves ip server (connections.set k conn') where
  sized := h.sized
  opened := h.opened
  accepted_le := by
    rw [List.length_set]
    exact h.accepted_le
  reading j command hctl := by
    obtain ⟨hj, hopened, hip⟩ := h.reading j command hctl
    refine ⟨hj, hopened, fun d hd => ?_⟩
    rcases getElem?_set_cases hd with ⟨rfl, rfl⟩ | ⟨-, hd⟩
    · exact hgrows.owner ▸ hip conn hconn
    · exact hip d hd
  execs := by
    obtain ⟨before, after, heq, -, hset⟩ := exists_set hconn
    rw [h.execs, hset, heq, List.flatMap_append, List.flatMap_append, List.flatMap_cons,
      List.flatMap_cons, hgrows.execs]
  waiting j d hd hj := by
    rcases getElem?_set_cases hd with ⟨rfl, rfl⟩ | ⟨-, hd⟩
    · exact (h.waiting j conn hconn hj).grows hgrows
    · exact h.waiting j d hd hj
  taken j d hd hj hopened := by
    rcases getElem?_set_cases hd with ⟨rfl, rfl⟩ | ⟨-, hd⟩
    · exact (h.taken j conn hconn hj hopened).grows hgrows
    · exact h.taken j d hd hj hopened
  overflow hctl := by
    obtain ⟨d, hd, hlen⟩ := h.overflow hctl
    obtain ⟨j, hj⟩ := List.mem_iff_getElem?.mp hd
    rcases eq_or_ne k j with rfl | hne
    · obtain rfl := Option.some.inj (hconn.symm.trans hj)
      exact ⟨conn', List.mem_set (List.getElem?_eq_some_iff.mp hconn).1 _,
        hlen.trans hgrows.written.length_le⟩
    · refine ⟨d, List.mem_iff_getElem?.mpr ⟨j, ?_⟩, hlen⟩
      rw [List.getElem?_set_ne hne, hj]

/-- A connection is made. -/
theorem connected (h : Serves ip server connections) (hnew : conn.Untouched) :
    Serves ip server (connections ++ [conn]) where
  sized := h.sized
  opened := h.opened
  accepted_le := by
    rw [List.length_append]
    exact Nat.le_add_right_of_le h.accepted_le
  reading j command hctl := by
    obtain ⟨hj, hopened, hip⟩ := h.reading j command hctl
    have hle := h.accepted_le
    refine ⟨hj, hopened, fun d hd => ?_⟩
    rw [List.getElem?_append_left (by omega)] at hd
    exact hip d hd
  execs := by
    rw [h.execs, List.flatMap_append, List.flatMap_singleton, hnew.1, List.append_nil]
  waiting j d hd hj := by
    rcases Nat.lt_or_ge j connections.length with hlt | hge
    · rw [List.getElem?_append_left hlt] at hd
      exact h.waiting j d hd hj
    · rw [List.getElem?_append_right hge] at hd
      obtain rfl := List.mem_singleton.mp (List.mem_of_getElem? hd)
      exact hnew
  taken j d hd hj hopened := by
    rw [List.getElem?_append_left (hj.trans_le h.accepted_le)] at hd
    exact h.taken j d hd hj hopened
  overflow hctl := by
    obtain ⟨d, hd, hlen⟩ := h.overflow hctl
    exact ⟨d, List.mem_append_left _ hd, hlen⟩

/-- **`accept`** -/
theorem accept {uninit : List UInt8} (h : Serves ip server connections)
    (hconn : connections[server.accepted]? = some conn)
    (hstep : server.Step (.accept (ip conn.owner) uninit) server') :
    Serves ip server' connections := by
  have hlt := (List.getElem?_eq_some_iff.mp hconn).1
  have hopened : (server.opened ++ [server.accepted]).Sublist
      (List.range (server.accepted + 1)) := by
    rw [List.range_succ]
    exact h.opened.append (List.Sublist.refl _)
  have hwaiting : ∀ j d, connections[j]? = some d →
      server.accepted + 1 ≤ j ∨ j ∈ server.opened ++ [server.accepted] → d.Untouched := by
    intro j d hd hj
    apply h.waiting j d hd
    rcases hj with hle | hmem
    · exact .inl (by omega)
    · rw [List.mem_append, List.mem_singleton] at hmem
      exact hmem.symm.imp_left fun heq => heq.ge
  have htaken : ∀ j d, connections[j]? = some d → j < server.accepted + 1 →
      j ∉ server.opened ++ [server.accepted] → d.Taken ip := by
    intro j d hd hj hnotMem
    rw [List.mem_append, List.mem_singleton, not_or] at hnotMem
    exact h.taken j d hd (by omega) hnotMem.1
  have hsized := h.sized.step hstep
  cases hstep with
  | denied hctl =>
    refine ⟨hsized, hopened, hlt, ?_, h.execs, hwaiting, htaken, fun hundefined => ?_⟩
    · intro k command hread
      cases hctl.symm.trans hread
    · cases hctl.symm.trans hundefined
  | admitted hctl hip =>
    refine ⟨hsized, hopened, hlt, ?_, h.execs, hwaiting, htaken, fun hundefined => ?_⟩
    · intro k command hread
      obtain ⟨rfl, -⟩ := Ctl.read.inj hread
      refine ⟨rfl, List.mem_append_right _ (List.mem_singleton_self _), fun d hd => ?_⟩
      obtain rfl := Option.some.inj (hconn.symm.trans hd)
      exact hip
    · cases hundefined

/-- A step that opens and closes no connection, and executes nothing. -/
theorem quiet (h : Serves ip server connections) (hsized : server'.CommandSized)
    (haccepted : server'.accepted = server.accepted) (hopened : server'.opened = server.opened)
    (hexecs : server'.execs = server.execs)
    (hctl : ∀ k command, server'.ctl = .read k command → ∃ command', server.ctl = .read k command')
    (hoverflow : server'.ctl = .undefined →
      ∃ conn ∈ connections, bufferSize ≤ conn.client.written.length) :
    Serves ip server' connections where
  sized := hsized
  opened := by
    rw [hopened, haccepted]
    exact h.opened
  accepted_le := haccepted ▸ h.accepted_le
  reading k command hread := by
    obtain ⟨command', hread'⟩ := hctl k command hread
    rw [haccepted, hopened]
    exact h.reading k command' hread'
  execs := hexecs.trans h.execs
  waiting k conn hconn hk := by
    rw [haccepted, hopened] at hk
    exact h.waiting k conn hconn hk
  taken k conn hconn hk hnotMem := by
    rw [haccepted] at hk
    rw [hopened] at hnotMem
    exact h.taken k conn hconn hk hnotMem
  overflow := hoverflow

/-- The outcomes of a call that gives the server nothing. -/
theorem other {a : Label} (h : Serves ip server connections) (hstep : server.Step a server')
    (ha : a = .acceptError ∨ a = .endOfStream ∨ a = .readError) :
    Serves ip server' connections := by
  have hsized := h.sized.step hstep
  cases hstep with
  | denied | admitted | overflow | ignored | rejected | spawned => simp at ha
  | acceptError => exact h
  | endOfStream hctl | readError hctl =>
    refine h.quiet hsized rfl rfl rfl ?_ ?_
    · intro k command hread
      cases hread
    · intro hundefined
      cases hundefined

/-- **The child and the parent.** -/
theorem spawn {command : List UInt8} {child : Child} (h : Serves ip server connections)
    (hctl : ∃ command, server.ctl = .read k command) (hconn : connections[k]? = some conn)
    (howner : conn'.owner = conn.owner)
    (hexecs : conn'.server.execs = (server.spawn k command child).execs.drop server.execs.length)
    (htaken : conn'.Taken ip) :
    Serves ip (server.spawn k command child) (connections.set k conn') where
  sized := by
    intro j command hread
    cases hread
  opened := List.erase_sublist.trans h.opened
  accepted_le := by
    rw [List.length_set]
    exact h.accepted_le
  reading := by
    intro j command hread
    cases hread
  execs := by
    obtain ⟨command', hread⟩ := hctl
    obtain ⟨hk, hopened, -⟩ := h.reading k command' hread
    obtain ⟨before, after, heq, hlen, hset⟩ := exists_set hconn
    have hafter : after.flatMap (·.server.execs) = [] := by
      rw [List.flatMap_eq_nil_iff]
      intro d hd
      obtain ⟨j, hj⟩ := List.mem_iff_getElem?.mp hd
      refine (h.waiting (k + 1 + j) d ?_ (.inl (by omega))).1
      rw [heq, List.getElem?_append_right (by omega), ← hj]
      have hindex : k + 1 + j - before.length = j + 1 := by omega
      rw [hindex, List.getElem?_cons_succ]
    have hbefore : server.execs = before.flatMap (·.server.execs) := by
      rw [h.execs, heq, List.flatMap_append, List.flatMap_cons, hafter,
        (h.waiting k conn hconn (.inr hopened)).1]
      simp
    rw [hset, List.flatMap_append, List.flatMap_cons, hafter, List.append_nil, ← hbefore, hexecs,
      Server.spawn, List.drop_left]
  waiting j d hd hj := by
    have hnodup : server.opened.Nodup := h.opened.nodup List.nodup_range
    rcases getElem?_set_cases hd with ⟨rfl, rfl⟩ | ⟨hne, hd⟩
    · obtain ⟨command', hread⟩ := hctl
      obtain ⟨hk, -, -⟩ := h.reading j command' hread
      rcases hj with hj | hj
      · exact absurd hj (by show ¬ server.accepted ≤ j; omega)
      · exact absurd hj hnodup.not_mem_erase
    · exact h.waiting j d hd (hj.imp_right List.mem_of_mem_erase)
  taken j d hd hj hnotMem := by
    rcases getElem?_set_cases hd with ⟨rfl, rfl⟩ | ⟨hne, hd⟩
    · exact htaken
    · exact h.taken j d hd hj fun hmem => hnotMem ((List.mem_erase_of_ne hne).mpr hmem)
  overflow := by
    intro hundefined
    cases hundefined

theorem unread_take_infix (conn : Connection ι) (count : ℕ) :
    conn.unread.take count <:+: conn.client.written :=
  (List.take_prefix _ _).isInfix.trans (List.drop_suffix _ _).isInfix

/-- Bytes that are read, and nothing is executed for. -/
theorem grows_serve (conn : Connection ι) (count : ℕ) (output : List UInt8) :
    conn.Grows { conn with server := conn.server.serve count [] output } :=
  ⟨rfl, List.append_nil _, List.append_nil _, List.prefix_rfl⟩

/-- **`read`, and what the server does with the bytes.** -/
theorem read {count rand : ℕ} {child : Child} {output command : List UInt8}
    (h : Serves ip server connections) (hctl : server.ctl = .read k command)
    (hconn : connections[k]? = some conn)
    (hstep : server.Step (.read (conn.unread.take count) rand child) server') :
    Serves ip server' (connections.set k
      { conn with
        server := conn.server.serve (conn.unread.take count).length
          (server'.execs.drop server.execs.length) output }) := by
  have hsized := h.sized.step hstep
  have hinfix := unread_take_infix conn count
  obtain ⟨-, hopened, hip⟩ := h.reading k command hctl
  cases hstep with
  | overflow _ hdata =>
    rw [List.drop_length]
    refine (h.quiet hsized rfl rfl rfl ?_ fun _ => ?_).set hconn (grows_serve _ _ _)
    · intro j command' hread
      cases hread
    · exact ⟨conn, List.mem_of_getElem? hconn, hdata.trans hinfix.length_le⟩
  | ignored hread =>
    rw [List.drop_length]
    refine (h.quiet hsized rfl rfl rfl ?_ ?_).set hconn (grows_serve _ _ _)
    · intro j command' hread'
      obtain ⟨rfl, -⟩ := Ctl.read.inj hread'
      exact ⟨_, hread⟩
    · intro hundefined
      cases hundefined
  | rejected =>
    rw [List.drop_length]
    refine (h.quiet hsized rfl rfl rfl ?_ ?_).set hconn (grows_serve _ _ _)
    · intro j command' hread'
      cases hread'
    · intro hundefined
      cases hundefined
  | @spawned sockfd _ _ command' _ _ hread hdata hrand hallowed hcommand' =>
    obtain ⟨rfl, -⟩ := Ctl.read.inj (hctl.symm.trans hread)
    obtain ⟨hexecs, houtput⟩ := h.waiting k conn hconn (.inr hopened)
    have hnew : (server.spawn k command' child).execs.drop server.execs.length =
        if child.fork && child.dup2 then [execOf (conn.unread.take count)] else [] := by
      rw [Server.spawn, List.drop_left, hcommand']
      rfl
    refine h.spawn ⟨command, hctl⟩ hconn rfl ?_ ⟨hip conn hconn, _, hinfix, hallowed, ?_⟩
    · show conn.server.execs ++ _ = _
      rw [hexecs, List.nil_append]
    · rw [hnew]
      split
      · refine .inr ?_
        show conn.server.execs ++ _ = _
        rw [hexecs, List.nil_append]
      · refine .inl ⟨?_, ?_⟩
        · show conn.server.execs ++ _ = _
          rw [hexecs, List.nil_append]
        · show conn.server.output ++ _ = _
          rw [houtput]
          rfl

end Serves

/-! ## Both ends of a connection -/

theorem ended_iff {server : Server} {k : ℕ} : RemoteCommand.ended server k = true ↔
    (∃ ret, server.ctl = .returned ret) ∨ k < server.accepted ∧ k ∉ server.opened := by
  unfold RemoteCommand.ended
  split
  · rename_i ret hctl
    exact iff_of_true rfl (.inl ⟨ret, hctl⟩)
  · rename_i hctl
    rw [or_iff_right fun ⟨ret, hret⟩ => hctl ret hret]
    simp

/-- A connection that is closed stays closed. -/
theorem ended_of_step {server server' : Server} {a : Label} {k : ℕ} (hstep : server.Step a server')
    (h : RemoteCommand.ended server k = true) : RemoteCommand.ended server' k = true := by
  rw [ended_iff] at h ⊢
  have hclosed : k < server.accepted ∧ k ∉ server.opened := by
    refine h.resolve_left ?_
    rintro ⟨ret, hret⟩
    cases hstep with
    | denied hctl | admitted hctl | acceptError hctl | overflow hctl | ignored hctl
    | rejected hctl | spawned hctl | endOfStream hctl | readError hctl => cases hret.symm.trans hctl
  obtain ⟨hlt, hnotMem⟩ := hclosed
  have hnotMem' : k ∉ server.opened ++ [server.accepted] := by
    rw [List.mem_append, List.mem_singleton, not_or]
    exact ⟨hnotMem, hlt.ne⟩
  cases hstep with
  | denied | admitted => exact .inr ⟨Nat.lt_succ_of_lt hlt, hnotMem'⟩
  | acceptError | overflow | ignored | rejected | endOfStream => exact .inr ⟨hlt, hnotMem⟩
  | spawned => exact .inr ⟨hlt, fun hmem => hnotMem (List.mem_of_mem_erase hmem)⟩
  | readError => exact .inl ⟨-1, rfl⟩

/-- What the client has got is the beginning of the output, and all of it when its call has
returned 0. -/
structure Linked (ended : Bool) (conn : Connection ι) : Prop where
  received_le : conn.client.received ≤ conn.server.output.length
  printed : 0 ∉ conn.server.output →
    conn.client.printed = conn.server.output.take conn.client.received
  status : conn.client.status = some 0 →
    ended = true ∧ conn.client.received = conn.server.output.length

namespace Linked

variable {ended : Bool} {conn : Connection ι}

theorem mono {ended' : Bool} (h : Linked ended conn) (hended : ended = true → ended' = true) :
    Linked ended' conn :=
  ⟨h.received_le, h.printed, fun hstatus => (h.status hstatus).imp_left hended⟩

/-- The child writes its output. -/
theorem serve {ended' : Bool} (h : Linked false conn) (houtput : conn.server.output = [])
    (count : ℕ) (execs : List Exec) (output : List UInt8) :
    Linked ended' { conn with server := conn.server.serve count execs output } := by
  obtain ⟨hreceived, hprinted, hstatus⟩ := h
  rw [houtput] at hreceived hprinted
  obtain hzero : conn.client.received = 0 := Nat.le_zero.mp hreceived
  refine ⟨?_, fun _ => ?_, fun hzero => ?_⟩
  · rw [hzero]
    exact Nat.zero_le _
  · rw [hzero, List.take_zero, hprinted List.not_mem_nil, List.take_nil]
  · cases (hstatus hzero).1

/-- The client gets nothing. -/
theorem of_client {e : ClientEnd} (h : Linked ended conn)
    (hreceived : e.received = conn.client.received) (hprinted : e.printed = conn.client.printed)
    (hstatus : e.status = some 0 →
      ended = true ∧ conn.client.received = conn.server.output.length) :
    Linked ended { conn with client := e } where
  received_le := hreceived.symm ▸ h.received_le
  printed hnul := by
    show e.printed = conn.server.output.take e.received
    rw [hprinted, hreceived]
    exact h.printed hnul
  status hzero := hreceived.symm ▸ hstatus hzero

/-- The client gets some bytes of the output. -/
theorem receive {data : List UInt8} (h : Linked ended conn)
    (hdata : data <+: conn.server.output.drop conn.client.received) :
    Linked ended
      { conn with
        client := { conn.client with
          received := conn.client.received + data.length
          printed := conn.client.printed ++ cString data } } := by
  have hle := h.received_le
  have hlen := hdata.length_le
  rw [List.length_drop] at hlen
  refine ⟨?_, fun hnul => ?_, fun hzero => ?_⟩
  · show conn.client.received + data.length ≤ conn.server.output.length
    omega
  · have hnul' : 0 ∉ data := fun hmem => hnul (List.mem_of_mem_drop (hdata.subset hmem))
    show conn.client.printed ++ cString data =
      conn.server.output.take (conn.client.received + data.length)
    rw [h.printed hnul, cString_eq_self hnul', List.take_add, ← List.prefix_iff_eq_take.mp hdata]
  · obtain ⟨hended, heq⟩ := h.status hzero
    refine ⟨hended, ?_⟩
    show conn.client.received + data.length = conn.server.output.length
    omega

/-- **A call of the client.** -/
theorem call {c c' : Rcommandclient} {a : Rcommandclient.Label} {e : ClientEnd}
    (h : Linked ended conn) (hstep : c.Step a c')
    (hcall : conn.client.call conn.server.output ended a = some e)
    (hignored : a ≠ .sigalrm false) : Linked ended { conn with client := e.finish c'.ctl } := by
  cases hstep with
  | ignored => exact absurd rfl hignored
  | endOfInput | readLine | connected | notConnected | inputInterrupted | wrote | closed | stopped
  | retried =>
    obtain rfl := Option.some.inj hcall
    exact h.of_client rfl rfl h.status
  | notWritten | notRead | gaveUp =>
    obtain rfl := Option.some.inj hcall
    refine h.of_client rfl rfl fun hzero => ?_
    cases hzero
  | received hread =>
    rw [ClientEnd.call] at hcall
    split at hcall
    · rename_i hdata
      obtain rfl := Option.some.inj hcall
      simp only [hread]
      exact h.receive hdata
    · cases hcall
  | ended hread =>
    rw [ClientEnd.call] at hcall
    split at hcall
    · rename_i hall
      obtain rfl := Option.some.inj hcall
      rw [Bool.and_eq_true, beq_iff_eq] at hall
      exact h.of_client rfl rfl fun _ => hall
    · cases hcall

end Linked

end CS536Labs.Lab2
