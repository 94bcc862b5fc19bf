import CS536Labs.Lab4.LosslessLog

/-!
# Lossless transfers

Every datagram and every ACK is delivered once, in order and before a timer fires (`Lossless`). Then
the next ACK is the one the child waits for, and no party waits in vain: `lossless` says that every
run comes to a state in which both sides have returned 0 and the client has the file. Its rank
counts the calls and the deliveries that are left.
-/

namespace CS536Labs.Lab4

variable {config : Config} {key : Option UInt32} {file : List UInt8}
  {uninit : ℕ → ℕ → ℕ → UInt8}

/-- No call fails, no timer fires, and the datagrams and the ACKs are delivered one after the
other. -/
def System.Lossless (s : System) : Label → Prop
  | .server _ e => e = .ok
  | .ack i => i = s.acked.length
  | .deliver _ i o => i = s.delivered.length ∧ o = .ok
  | .requestTimeout | .recvError | .fork => False

/-! ## Transfers -/

/-- The invariant of a lossless transfer with the given child. -/
structure LosslessInv (config : Config) (key : Option UInt32) (file : List UInt8) (s : System)
    (server : Server) : Prop where
  inv : SystemInv config key file s
  child : s.children = [server]
  log : LosslessServer config file server
  client : LosslessClient config file s.client s.delivered.length s.acks.length
  delivered_le : s.delivered.length ≤ server.sent.length
  acked : s.acked.length = server.window
  acks : ∀ w < s.client.windows,
    s.acks[w]? = some ⟨0, w + 1, lastSequenceNumber config file w⟩

variable {s t : System} {server : Server}

theorem losslessInv_initial (hfile : file ≠ []) :
    LosslessInv config key file (System.initial config uninit [Server.initial file])
      (Server.initial file) where
  inv := systemInv_initial 1
  child := rfl
  log := losslessServer_initial
  client := by
    refine ⟨fun _ => ⟨rfl, 0, blockCount_pos hfile (Nat.zero_le _), ?_, ?_⟩, fun h => absurd rfl h⟩
    · exact (Nat.zero_mul _).symm
    · simp [System.initial, Client.initial, Client.start, Client.enter]
  delivered_le := Nat.zero_le _
  acked := rfl
  acks w hw := absurd hw (Nat.not_lt_zero w)

theorem LosslessInv.reachable (h : LosslessInv config key file s server) :
    ((serverSystem config key file).restrict Server.Clean).Reachable server :=
  h.inv.children server (by simp [h.child])

theorem LosslessInv.serverInv (h : LosslessInv config key file s server) :
    ServerInv config key file server := reachable_serverInv h.reachable.of_restrict

/-- An entry of the log of the child, which is the only one. -/
theorem LosslessInv.child_eq (h : LosslessInv config key file s server) {child : ℕ}
    {server' : Server} (hget : s.children[child]? = some server') :
    child = 0 ∧ server' = server := by
  rw [h.child] at hget
  obtain ⟨hlt, heq⟩ := List.getElem?_eq_some_iff.mp hget
  obtain rfl : child = 0 := by simpa using hlt
  exact ⟨rfl, heq.symm⟩

/-- The ACK that is delivered next is the one that the child waits for. -/
theorem LosslessInv.ack_eq (h : LosslessInv config key file s server) {ack : Ack}
    (hack : s.acks[s.acked.length]? = some ack) (hlt : server.window < s.client.windows) :
    ack = ⟨0, server.window + 1, lastSequenceNumber config file server.window⟩ := by
  rw [h.acked, h.acks _ hlt] at hack
  exact (Option.some.inj hack).symm

/-- What one step of a lossless transfer can do. -/
inductive LosslessStep (config : Config) (key : Option UInt32) (uninit : ℕ → ℕ → ℕ → UInt8)
    (s : System) (server : Server) : System → Server → Prop
  | call {server' : Server} (h : server.Step config key .ok server') :
    LosslessStep config key uninit s server { s with children := [server'] } server'
  | ack {site : Site} {num : UInt8} (hctl : server.ctl = .recvAck site num) :
    LosslessStep config key uninit s server
      { s with
        children := [server.acknowledged config key site]
        acked := s.acked ++ [s.acked.length] }
      (server.acknowledged config key site)
  | deliver {d : Datagram} (hd : server.sent[s.delivered.length]? = some d)
    (hret : s.client.ret = none) :
    LosslessStep config key uninit s server
      { s with
        client := (s.client.receive config key uninit d.bytes .ok).1
        acks := s.acks ++
          (s.client.receive config key uninit d.bytes .ok).2.map fun num => ⟨0, d.socket, num⟩
        delivered := s.delivered ++ [(0, s.delivered.length)] }
      server

theorem LosslessInv.step_cases (h : LosslessInv config key file s server) {a : Label}
    (hstep : s.Step config key file uninit a t) (ha : s.Lossless a) :
    ∃ server', LosslessStep config key uninit s server t server' := by
  cases hstep with
  | @server child e server₀ server' hget hexec =>
    obtain rfl : e = .ok := ha
    obtain ⟨rfl, rfl⟩ := h.child_eq hget
    rw [h.child]
    exact ⟨server', .call (Server.step_of_exec hexec)⟩
  | @ack i ack server₀ server' hack hget hsocket hexec =>
    obtain rfl : i = s.acked.length := ha
    obtain ⟨hchild, rfl⟩ := h.child_eq hget
    have hstep := Server.step_of_exec hexec
    obtain ⟨⟨site, expected, hctl⟩, -⟩ := hstep.ack_window
    have hlt := h.inv.ack_lt (List.mem_of_getElem? hack) hget hsocket hctl
    have hexpected : expected = ack.num := by
      have hat := (reachable_numberInv h.reachable).numberAt
      rw [hctl] at hat
      rw [h.ack_eq hack hlt]
      exact hat
    rw [hchild, h.child]
    cases hstep with
    | acknowledged hctl => exact ⟨_, .ack hctl⟩
    | ignored hctl' hne =>
      rw [hctl] at hctl'
      cases hctl'
      exact absurd hexpected.symm hne
  | @deliver child i o server₀ d hget hd hret =>
    obtain ⟨rfl, rfl⟩ : i = s.delivered.length ∧ o = .ok := ha
    obtain ⟨rfl, rfl⟩ := h.child_eq hget
    exact ⟨server₀, .deliver hd hret⟩
  | requestTimeout | recvError | fork => exact absurd ha id

/-- The datagram that is delivered next is of the window the client is in. -/
theorem LosslessInv.receive (hfile : file ≠ []) (h : LosslessInv config key file s server)
    {d : Datagram} (hd : server.sent[s.delivered.length]? = some d) (hret : s.client.ret = none)
    (uninit : ℕ → ℕ → ℕ → UInt8) :
    d.window = s.client.windows ∧ LosslessReceive config file s.client s.delivered.length
      s.acks.length (s.client.receive config key uninit d.bytes .ok) := by
  have hwire := onWire_of_reachable h.reachable (List.mem_of_getElem? hd)
  have hclient := h.client
  rw [h.log.place _ d hd] at hclient ⊢
  exact hclient.receive hfile h.inv.client hret hwire

theorem LosslessInv.nonAliasing (hfile : file ≠ []) (h : LosslessInv config key file s server)
    {a : Label} (hstep : s.Step config key file uninit a t) (ha : s.Lossless a) :
    s.NonAliasing a := by
  cases hstep with
  | @deliver child i o server₀ d hget hd hret =>
    obtain ⟨rfl, rfl⟩ : i = s.delivered.length ∧ o = .ok := ha
    obtain ⟨rfl, rfl⟩ := h.child_eq hget
    intro w hw
    rw [windowOf_eq hget hd] at hw
    obtain rfl : d.window = w := Option.some.inj hw
    exact .inl (h.receive hfile hd hret uninit).1
  | server | ack | requestTimeout | recvError | fork => trivial

theorem System.Lossless.clean {a : Label} (ha : s.Lossless a) : s.Clean a := by
  cases a with
  | server child e =>
    obtain rfl : e = .ok := ha
    intro server _ hfail
    cases hfail
  | deliver child i o =>
    obtain ⟨-, rfl⟩ := ha
    exact Outcomes.appendOk_ok
  | ack | requestTimeout | recvError | fork => trivial

theorem LosslessInv.step (hfile : file ≠ []) (h : LosslessInv config key file s server)
    {server' : Server} (hstep : LosslessStep config key uninit s server t server')
    (hinv : SystemInv config key file t) : LosslessInv config key file t server' := by
  cases hstep with
  | call hcall =>
    have hgrow := hcall.log_grows.length_le
    have hwindow := hcall.window_eq (by intro hfail; cases hfail) (by intro num hnum; cases hnum)
    exact ⟨hinv, rfl, h.log.step_ok h.serverInv hcall, h.client, h.delivered_le.trans hgrow,
      h.acked.trans hwindow.symm, h.acks⟩
  | @ack site num hctl =>
    have hacknowledged : server.Step config key (.ack num) (server.acknowledged config key site) :=
      .acknowledged hctl
    have hgrow := hacknowledged.log_grows.length_le
    refine ⟨hinv, rfl, h.log.acknowledged h.serverInv hctl, h.client, h.delivered_le.trans hgrow,
      ?_, h.acks⟩
    show (s.acked ++ [_]).length = _
    rw [List.length_append, List.length_singleton, h.acked, Server.acknowledged_window]
  | @deliver d hd hret =>
    have hlt := (List.getElem?_eq_some_iff.mp hd).1
    have hsocket := h.log.socket d (List.mem_of_getElem? hd)
    obtain ⟨hwindow, hclient, hacks⟩ := h.receive hfile hd hret uninit
    refine ⟨hinv, h.child, h.log, ?_, ?_, h.acked, ?_⟩
    · simpa only [List.length_append, List.length_singleton, List.length_map] using hclient
    · show (s.delivered ++ [_]).length ≤ _
      rw [List.length_append, List.length_singleton]
      exact hlt
    · intro w hw
      obtain ⟨hcount, -⟩ := h.client.running hret
      dsimp only at hw ⊢
      rcases hacks with ⟨hsame, hnone⟩ | ⟨hnext, k, hreplicate⟩
      · rw [hnone, List.map_nil, List.append_nil]
        exact h.acks w (hsame ▸ hw)
      · rw [hreplicate, hsocket, hwindow]
        rcases Nat.lt_succ_iff_lt_or_eq.mp (hnext ▸ hw) with hlt | rfl
        · rw [List.getElem?_append_left (by omega)]
          exact h.acks w hlt
        · rw [List.getElem?_append_right (by omega), hcount, Nat.sub_self]
          rfl

/-! ## Termination -/

/-- A bound on the calls that are left in the window. -/
def Ctl.rank (config : Config) : Ctl → ℕ
  | .fopen => config.windowsize + 5
  | .readPrev => config.windowsize + 4
  | .readCurr => config.windowsize + 3
  | .socket _ => config.windowsize + 2
  | .sendto _ _ blockIndex => config.windowsize + 1 - blockIndex / config.blocksize
  | .recvAck _ _ => 1
  | .returned _ => 0

/-- A bound on the calls that are left. -/
def Server.rank (config : Config) (file : List UInt8) (s : Server) : ℕ :=
  (lastWindow config file + 1 - s.window) * (config.windowsize + 6) + s.ctl.rank config

/-- A call of a child adds at most one datagram to those that are left to be delivered. -/
def System.rank (config : Config) (file : List UInt8) (s : System) : ℕ :=
  (s.children.map fun server => 2 * server.rank config file + server.sent.length).sum -
    s.delivered.length

theorem Server.rank_loop_le (config : Config) (file : List UInt8) (s : Server) (site : Site)
    (num : UInt8) {j : ℕ} (hj : j ≤ config.windowsize) :
    (s.loop site num (j * config.blocksize)).rank config file ≤
      (lastWindow config file + 1 - s.window) * (config.windowsize + 6) +
        (config.windowsize + 1 - j) := by
  unfold Server.loop
  split_ifs
  · simp only [Server.rank, Ctl.rank, config.mul_blocksize_div]
    exact le_rfl
  · simp only [Server.rank, Ctl.rank]
    omega

theorem Server.Step.rank_lt {s t : Server} (hinv : ServerInv config key file s)
    (hstep : s.Step config key .ok t) :
    2 * t.rank config file + t.sent.length < 2 * s.rank config file + s.sent.length := by
  have hat := hinv.atCall
  cases hstep with
  | fopen hctl | readPrev hctl =>
    simp only [Server.rank, Ctl.rank, hctl]
    omega
  | readCurr hctl =>
    unfold Server.readCurr
    dsimp only
    split_ifs <;> simp only [Server.rank, Ctl.rank, Server.call, hctl] <;> omega
  | @socket site hctl =>
    have hloop := Server.rank_loop_le config file { s with socket := s.socket + 1 } site
      s.initialSequenceNumber (Nat.zero_le config.windowsize)
    rw [Nat.zero_mul] at hloop
    rw [Server.loop_sent]
    simp only [Server.rank, Ctl.rank, hctl] at hloop ⊢
    omega
  | @sendto site num blockIndex hctl =>
    rw [hctl] at hat
    obtain ⟨-, -, j, hj, rfl⟩ := hat
    have hcount := blockCount_le config file s.window
    have hsucc : j + 1 ≤ config.windowsize := by omega
    have hrank : s.rank config file = (lastWindow config file + 1 - s.window) *
        (config.windowsize + 6) + (config.windowsize + 1 - j) := by
      simp only [Server.rank, Ctl.rank, hctl, config.mul_blocksize_div]
    unfold Server.transmit
    rw [← Nat.succ_mul, Server.loop_sent, List.length_append, List.length_singleton, hrank]
    refine Nat.lt_of_le_of_lt (Nat.add_le_add_right
      (Nat.mul_le_mul_left 2 (Server.rank_loop_le config file _ site (num + 1) hsucc)) _) ?_
    dsimp only
    omega

theorem Server.rank_acknowledged_lt {s : Server} {site : Site} {num : UInt8}
    (hinv : ServerInv config key file s) (hctl : s.ctl = .recvAck site num) :
    (s.acknowledged config key site).rank config file < s.rank config file := by
  have hat := hinv.atCall
  rw [hctl] at hat
  have hle := hat.1.window_le
  have hleft : lastWindow config file + 1 - s.window =
      lastWindow config file + 1 - (s.window + 1) + 1 := by omega
  unfold Server.rank
  rw [Server.acknowledged_window, hleft, Nat.succ_mul, hctl]
  have hctl' : (s.acknowledged config key site).ctl.rank config ≤ config.windowsize + 3 := by
    cases site <;> simp [Server.acknowledged, Server.afterCall, Server.call, Ctl.rank]
  have hone : (Ctl.recvAck site num).rank config = 1 := rfl
  omega

theorem LosslessStep.rank_lt {server' : Server} (h : LosslessInv config key file s server)
    (hstep : LosslessStep config key uninit s server t server') :
    t.rank config file < s.rank config file := by
  have hle := h.delivered_le
  cases hstep with
  | call hcall =>
    have hlt := hcall.rank_lt h.serverInv
    have hgrow := hcall.log_grows.length_le
    simp only [System.rank, h.child, List.map_cons, List.map_nil, List.sum_cons, List.sum_nil]
    omega
  | @ack site num hctl =>
    have hlt := Server.rank_acknowledged_lt h.serverInv hctl
    simp only [System.rank, h.child, List.map_cons, List.map_nil, List.sum_cons, List.sum_nil,
      Server.acknowledged_sent]
    omega
  | deliver hd hret =>
    have hlt := (List.getElem?_eq_some_iff.mp hd).1
    simp only [System.rank, h.child, List.map_cons, List.map_nil, List.sum_cons, List.sum_nil,
      List.length_append, List.length_singleton]
    omega

/-! ## Progress -/

/-- The end of a transfer: both sides have returned 0, the client has the file and has stopped with
the window of the last datagram, the only one that is not of `blocksize + 1` bytes. -/
structure System.Transferred (config : Config) (file : List UInt8) (s : System) : Prop where
  client : s.client.ret = some 0
  file_eq : s.client.file = file
  child : ∃ server sent d, s.children = [server] ∧ server.ctl = .returned 0 ∧
    server.sent = sent ++ [d] ∧ (∀ d' ∈ sent, d'.bytes.length = config.blocksize + 1) ∧
    d.bytes.length ≠ config.blocksize + 1 ∧ s.client.windows = d.window + 1

theorem LosslessInv.windows_of_returned (h : LosslessInv config key file s server)
    (hret : s.client.ret ≠ none) : s.client.windows = lastWindow config file + 1 :=
  h.inv.client.done (h.client.finished hret).1

/-- The child has sent the whole file: the transfer is at its end. -/
theorem LosslessInv.transferred (hfile : file ≠ []) (h : LosslessInv config key file s server)
    {ret : ℤ} (hctl : server.ctl = .returned ret) : s.Transferred config file := by
  have hlog := h.log.loggedAt
  have hat := h.serverInv.atCall
  rw [hctl] at hlog hat
  obtain ⟨rfl, -⟩ := hlog
  have hle := h.inv.window_le server (by simp [h.child])
  have hwindow := hat rfl
  have hret : s.client.ret ≠ none := by
    intro hnone
    have := (h.inv.client.receiving hnone).window_le
    omega
  obtain ⟨hzero, heq⟩ := h.client.finished hret
  obtain ⟨sent, d, hsent, hfull, hlast, hd⟩ := h.log.sent_eq hfile
    (fun d hd => onWire_of_reachable h.reachable hd) hctl
  refine ⟨hzero, heq, server, sent, d, h.child, hctl, hsent, hfull, hlast, ?_⟩
  rw [hd]
  exact h.windows_of_returned hret

/-- The child can make a call that does not wait for the client. -/
theorem LosslessInv.exec_call (h : LosslessInv config key file s server)
    (hexec : (server.exec config key .ok).isSome = true) :
    (s.exec config key file uninit (.server 0 .ok)).isSome = true := by
  obtain ⟨server', hexec⟩ := Option.isSome_iff_exists.mp hexec
  simp [System.exec, h.child, hexec]

/-- The child can receive the ACK of its window. -/
theorem LosslessInv.exec_ack (h : LosslessInv config key file s server) {site : Site}
    {expected : UInt8} (hctl : server.ctl = .recvAck site expected)
    (hlt : server.window < s.client.windows) :
    (s.exec config key file uninit (.ack s.acked.length)).isSome = true := by
  have hlog := h.log.loggedAt
  rw [hctl] at hlog
  have hack := h.acks _ hlt
  rw [← h.acked] at hack
  have hsocket : server.socket = s.acked.length + 1 := by
    rw [h.acked]
    exact hlog.2
  obtain ⟨server', hexec⟩ : ∃ server', server.exec config key
      (.ack (lastSequenceNumber config file s.acked.length)) = some server' := by
    simp only [Server.exec, hctl]
    split_ifs
    · exact ⟨_, rfl⟩
    · exact ⟨_, rfl⟩
  simp [System.exec, hack, h.child, hsocket, hexec]

/-- The client can receive a block of a window that it has not completed. -/
theorem LosslessInv.exec_deliver (h : LosslessInv config key file s server) {site : Site}
    {expected : UInt8} (hctl : server.ctl = .recvAck site expected)
    (hge : s.client.windows ≤ server.window) :
    (s.exec config key file uninit (.deliver 0 s.delivered.length .ok)).isSome = true := by
  have hlog := h.log.loggedAt
  have hat := h.serverInv.atCall
  rw [hctl] at hlog hat
  have hle := hat.1.window_le
  have hret : s.client.ret = none := by
    by_contra hret
    have := h.windows_of_returned hret
    omega
  have hwindow : s.client.windows = server.window :=
    le_antisymm hge (h.inv.window_le server (by simp [h.child]))
  obtain ⟨-, i, hi, hplace, -⟩ := h.client.running hret
  have hlen := hlog.1
  rw [hwindow] at hplace hi
  obtain ⟨d, hd⟩ : ∃ d, server.sent[s.delivered.length]? = some d :=
    ⟨_, List.getElem?_eq_getElem (by omega)⟩
  simp [System.exec, h.child, hd, hret]

/-- **Nobody waits in vain.** -/
theorem LosslessInv.progress (hfile : file ≠ []) (h : LosslessInv config key file s server)
    (uninit : ℕ → ℕ → ℕ → UInt8) : s.Transferred config file ∨
      ∃ a, (s.exec config key file uninit a).isSome = true ∧ s.Lossless a := by
  cases hctl : server.ctl with
  | fopen | readPrev | readCurr | socket | sendto =>
    have hexec : (server.exec config key .ok).isSome = true := by
      unfold Server.exec
      rw [hctl]
      rfl
    exact .inr ⟨_, h.exec_call hexec, rfl⟩
  | recvAck site expected =>
    rcases Nat.lt_or_ge server.window s.client.windows with hlt | hge
    · exact .inr ⟨_, h.exec_ack hctl hlt, rfl⟩
    · exact .inr ⟨_, h.exec_deliver hctl hge, rfl, rfl⟩
  | returned => exact .inl (h.transferred hfile hctl)

theorem reachable_losslessInv (hfile : file ≠ [])
    (h : (roadrunner config key file uninit 1 System.Lossless).Reachable s) :
    ∃ server, LosslessInv config key file s server := by
  refine h.invariant (I := fun s => ∃ server, LosslessInv config key file s server) ?_ ?_
  · rintro _ rfl
    exact ⟨_, losslessInv_initial hfile⟩
  · rintro s a t - ⟨server, hinv⟩ ⟨hexec, ha⟩
    have hstep := System.step_of_exec hexec
    obtain ⟨server', hcases⟩ := hinv.step_cases hstep ha
    exact ⟨server', hinv.step hfile hcases
      (hinv.inv.step hstep ha.clean (hinv.nonAliasing hfile hstep ha))⟩

/-- **Segmentation and reassembly.** For every non-empty file, every run in which nothing is lost,
late or out of order comes to its end, with the file transferred. -/
theorem lossless (config : Config) (key : Option UInt32) (file : List UInt8)
    (uninit : ℕ → ℕ → ℕ → UInt8) (hfile : file ≠ []) :
    (roadrunner config key file uninit 1 System.Lossless).Inevitably
      (System.Transferred config file)
      (System.initial config uninit [Server.initial file]) := by
  refine LTS.Reachable.inevitably (System.rank config file) ?_ ?_ (.init rfl)
  · intro s hs
    obtain ⟨server, hinv⟩ := reachable_losslessInv hfile hs
    rcases hinv.progress hfile uninit with hend | ⟨a, hexec, ha⟩
    · exact .inl hend
    · obtain ⟨t, hexec⟩ := Option.isSome_iff_exists.mp hexec
      exact .inr ⟨a, t, hexec, ha⟩
  · rintro s a t hs ⟨hexec, ha⟩
    obtain ⟨server, hinv⟩ := reachable_losslessInv hfile hs
    obtain ⟨server', hcases⟩ := hinv.step_cases (System.step_of_exec hexec) ha
    exact hcases.rank_lt hinv

/-- A file of two windows, both full. -/
theorem lossless_two : (roadrunner .two none [1, 2, 3, 4, 5, 6, 7, 8] (fun _ _ _ => 0) 1
    System.Lossless).Inevitably (System.Transferred .two [1, 2, 3, 4, 5, 6, 7, 8])
      (System.initial .two (fun _ _ _ => 0) [Server.initial [1, 2, 3, 4, 5, 6, 7, 8]]) :=
  lossless .two none [1, 2, 3, 4, 5, 6, 7, 8] (fun _ _ _ => 0) (by decide)

end CS536Labs.Lab4
