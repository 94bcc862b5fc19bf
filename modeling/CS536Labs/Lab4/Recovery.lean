import CS536Labs.Lab4.Lossless
import Mathlib.Data.Finset.Card
import Mathlib.Data.Finset.Range

/-!
# Recovery

Whatever has been lost, delayed or delivered twice, a transfer can still be completed
(`recovers`): from every state in which neither side has returned, there is a run in which both
return 0 and in which nothing is delivered that was sent before. The child comes to the end of its
attempt, runs into the timeout, and sends its window again; the client lacks some blocks of that
window, or it has completed the window and the ACK was lost.

An attempt that waits for its ACK has sent all blocks of its window on its socket (`AttemptAt`).
`RecoveryInv` is the invariant of the run, whose rank is what is left of the file, of the window and
of the attempt.
-/

namespace CS536Labs.Lab4

variable {config : Config} {key : Option UInt32} {file : List UInt8}
  {uninit : ℕ → ℕ → ℕ → UInt8}

/-! ## The attempt -/

section Attempt

/-- The first `n` blocks of the window have been sent on the socket of the attempt. -/
def SentBlocks (s : Server) (n : ℕ) : Prop :=
  ∀ j < n, ∃ d ∈ s.sent, d.socket = s.socket ∧ d.window = s.window ∧ d.block = j

/-- What the attempt has sent when the server is about to make the call. -/
def AttemptAt (config : Config) (file : List UInt8) (s : Server) : Ctl → Prop
  | .sendto _ _ blockIndex => SentBlocks s (blockIndex / config.blocksize)
  | .recvAck _ _ => SentBlocks s (blockCount config file s.window)
  | _ => True

variable {s t : Server} {site : Site}

/-- The loop over the blocks, after `j` of them. -/
theorem attemptAt_loop {num : UInt8} {j : ℕ} (hsent : SentBlocks s j)
    (hj : j ≤ blockCount config file s.window)
    (hlen : (s.data site).length = (fileWindow config file s.window).length) :
    AttemptAt config file (s.loop site num (j * config.blocksize))
      (s.loop site num (j * config.blocksize)).ctl := by
  rw [Server.loop_eq hlen]
  split_ifs with hlt
  · show SentBlocks s (j * config.blocksize / config.blocksize)
    rw [config.mul_blocksize_div]
    exact hsent
  · obtain rfl : j = blockCount config file s.window := by omega
    exact hsent

theorem attemptAt_call (s : Server) (site : Site) :
    AttemptAt config file (s.call key site) (s.call key site).ctl := by
  cases site <;> trivial

theorem attemptAt_afterCall (s : Server) (site : Site) (success : Bool) :
    AttemptAt config file (s.afterCall key site success) (s.afterCall key site success).ctl := by
  cases site <;> cases success <;> trivial

theorem AttemptAt.step {e : ServerEvent} (h : AttemptAt config file s s.ctl)
    (hinv : ServerInv config key file s) (hstep : s.Step config key e t) :
    AttemptAt config file t t.ctl := by
  have hat := hinv.atCall
  cases hstep with
  | fopen | fileFail | readPrev | timeout => trivial
  | readCurr =>
    unfold Server.readCurr
    dsimp only
    split_ifs <;> exact attemptAt_call _ _
  | @socket site hctl =>
    rw [hctl] at hat
    have hloop : AttemptAt config file ({ s with socket := s.socket + 1 }.loop site
        s.initialSequenceNumber (0 * config.blocksize)) _ :=
      attemptAt_loop (by simp [SentBlocks]) (Nat.zero_le _) (Buffers.length_data hat)
    rwa [Nat.zero_mul] at hloop
  | sendto hctl =>
    rw [hctl] at hat h
    obtain ⟨hbuf, -, j, hj, rfl⟩ := hat
    have hsent : SentBlocks s (j * config.blocksize / config.blocksize) := h
    rw [config.mul_blocksize_div] at hsent
    unfold Server.transmit
    rw [config.mul_blocksize_div, ← Nat.succ_mul]
    refine attemptAt_loop ?_ hj hbuf.length_data
    intro i hi
    rcases Nat.lt_succ_iff_lt_or_eq.mp hi with hlt | rfl
    · obtain ⟨d, hd, hplace⟩ := hsent i hlt
      exact ⟨d, List.mem_append_left _ hd, hplace⟩
    · exact ⟨_, List.mem_append_right _ (List.mem_singleton_self _), rfl, rfl, rfl⟩
  | callFail => exact attemptAt_afterCall _ _ _
  | acknowledged => exact attemptAt_afterCall _ _ _
  | ignored => exact h

theorem reachable_attemptAt (h : (serverSystem config key file).Reachable s) :
    AttemptAt config file s s.ctl := by
  refine h.invariant (I := fun s => AttemptAt config file s s.ctl) ?_ ?_
  · rintro _ rfl
    trivial
  · intro s e t hreach hat hstep
    exact hat.step (reachable_serverInv hreach) (Server.step_of_exec hstep)

end Attempt

/-! ## The client -/

section Client

variable {c c' : Client} {d : Datagram}

/-- The blocks that the client has of its window are the first ones. -/
def Client.InOrder (c : Client) : Prop := ∀ i j, i ≤ j → c.received j = true → c.received i = true

/-- The block to send next: the first one that is missing, or the last one. -/
theorem exists_nextBlock (received : ℕ → Bool) {n : ℕ} (hn : 0 < n) :
    ∃ j < n, (∀ i < j, received i = true) ∧ (received j = false ∨ j + 1 = n) := by
  induction n with
  | zero => exact absurd hn (Nat.lt_irrefl 0)
  | succ n ih =>
    by_cases hall : ∀ i < n, received i = true
    · exact ⟨n, Nat.lt_succ_self n, hall, .inr rfl⟩
    · push Not at hall
      obtain ⟨i, hi, hmissing⟩ := hall
      obtain ⟨j, hj, hfirst, hnext⟩ := ih (by omega)
      refine ⟨j, Nat.lt_succ_of_lt hj, hfirst, .inl ?_⟩
      rcases hnext with hnext | hlast
      · exact hnext
      · rcases Nat.lt_or_ge i j with hlt | hge
        · exact absurd (hfirst i hlt) hmissing
        · obtain rfl : i = j := by omega
          simpa using hmissing

/-- The datagram completes the window of the client `c`, which the iteration leaves as `r`. -/
structure Completes (config : Config) (file : List UInt8) (c : Client) (r : Client × List UInt8) :
    Prop where
  windows : r.1.windows = c.windows + 1
  acks : lastSequenceNumber config file c.windows ∈ r.2
  ret : r.1.ret = none ∧ r.1.received = (fun _ => false) ∨ r.1.ret = some 0

/-- The datagram is stored, and blocks of the window are missing. -/
structure Adds (d : Datagram) (c : Client) (r : Client × List UInt8) : Prop where
  windows : r.1.windows = c.windows
  ret : r.1.ret = none
  acks : r.2 = []
  received : ∀ i, r.1.received i = true ↔ i = d.block ∨ c.received i = true

/-- No call fails when a window is complete. -/
theorem Stored.completes (h : Stored config file d c c') (hc : c'.completed = true)
    (uninit : ℕ → ℕ → ℕ → UInt8) (blocksize : ℕ) :
    Completes config file c (c'.complete config uninit blocksize .ok) := by
  have hnum := h.receiving.lastNum_eq hc
  have hok := Outcomes.appendOk_ok
  rw [h.windows] at hnum
  have hwindows : (c'.complete config uninit blocksize .ok).1.windows = c.windows + 1 := by
    rw [Client.complete_windows hok, h.windows]
  cases heof : c'.isEof with
  | true =>
    obtain ⟨hret, hacks⟩ := Client.complete_last config uninit heof blocksize
    refine ⟨hwindows, ?_, .inr hret⟩
    rw [hacks, hnum]
    exact List.mem_replicate.mpr ⟨by decide, rfl⟩
  | false =>
    obtain ⟨hret, hreceived, hacks⟩ := Client.complete_next config uninit heof blocksize
    refine ⟨hwindows, ?_, .inl ⟨hret.trans h.ret, hreceived⟩⟩
    rw [hacks, hnum]
    exact List.mem_singleton_self _

/-- **The next block arrives.** -/
theorem ClientInv.receive_next (h : ClientInv config file c) (hret : c.ret = none)
    (hd : OnWire config key file d) (hw : d.window = c.windows)
    (hfirst : ∀ i < d.block, c.received i = true)
    (hnext : c.received d.block = false ∨ d.block + 1 = blockCount config file d.window)
    (uninit : ℕ → ℕ → ℕ → UInt8) :
    Adds d c (c.receive config key uninit d.bytes .ok) ∧ c.received d.block = false ∨
      Completes config file c (c.receive config key uninit d.bytes .ok) ∧
        (c.InOrder → (c.receive config key uninit d.bytes .ok).1.ret = some 0 →
          (c.receive config key uninit d.bytes .ok).1.file = file) := by
  obtain ⟨c', hstored, heq⟩ := h.receive_current hret hd hw uninit .ok
  have hj := hd.block_lt
  have hok := Outcomes.appendOk_ok
  have hspec : ReceiveSpec config file d.window c.windows
      (c.receive config key uninit d.bytes .ok) := h.receive hret hd (.inl hw) hok
  rw [heq] at hspec ⊢
  split_ifs at hspec ⊢ with hc
  · refine .inr ⟨hstored.completes hc uninit _, fun horder hzero => ?_⟩
    have hdone := hspec.inv.done hzero
    rw [(hstored.completes hc uninit _).windows] at hdone
    refine (hstored.file_iff hd hw (by omega) hc hok).mpr (.inl ?_)
    rcases hnext with hmissing | hlast
    · by_contra hne
      -- a block behind this one has been received before it
      have hall := (hstored.receiving.completed_spec hc).1 (d.block + 1)
      rw [hstored.received, hstored.windows, ← hw] at hall
      have hafter : c.received (d.block + 1) = true := (hall (by omega)).resolve_left (by omega)
      have hbefore := horder _ _ (Nat.le_succ _) hafter
      rw [hmissing] at hbefore
      cases hbefore
    · exact hlast
  · refine .inl ⟨⟨hstored.windows, hstored.ret, rfl, hstored.received⟩, ?_⟩
    rcases hnext with hmissing | hlast
    · exact hmissing
    · refine absurd (hstored.receiving.completed_of_all ?_ ?_) hc
      · rw [hstored.windows, ← hw]
        omega
      · intro i hi
        rw [hstored.windows, ← hw] at hi
        rcases Nat.lt_succ_iff_lt_or_eq.mp (hlast ▸ hi) with hlt | rfl
        · exact (hstored.received i).mpr (.inr (hfirst i hlt))
        · exact (hstored.received _).mpr (.inl rfl)

/-- The client answers a datagram of the window it has completed last. -/
theorem ClientInv.receive_lagging (h : ClientInv config file c) (hret : c.ret = none)
    (hd : OnWire config key file d) (hw : d.window + 1 = c.windows)
    (uninit : ℕ → ℕ → ℕ → UInt8) :
    c.receive config key uninit d.bytes .ok =
      ({ c with requestTimer := false }, [lastSequenceNumber config file d.window]) := by
  have hrecv := h.stopTimer.receiving hret
  have hlt : d.window < c.windows := by omega
  have hparity : d.window % 2 ≠ c.windows % 2 := by omega
  have hok : ∀ (c : Client) (num : UInt8), c.reply num .ok = (c, [num]) := fun _ _ => rfl
  rw [receive_onWire hd]
  dsimp only
  rcases hrecv.lagging hd hlt hparity with ⟨hlow, hack⟩ | ⟨hlow, hhigh, hack⟩
  · rw [if_pos hlow, hack, hok]
  · rw [if_neg hlow, if_pos hhigh, hack, hok]

end Client

/-! ## The run -/

/-- No call fails, and what is delivered was sent behind the first `n` datagrams of the child and
the first `m` ACKs. -/
def Label.Fresh (n m : ℕ) : Label → Prop
  | .server _ e => e ≠ .fail
  | .ack i => m ≤ i
  | .deliver _ i o => n ≤ i ∧ o = .ok
  | .requestTimeout | .recvError | .fork => False

/-- Both sides have returned 0. -/
def System.Returned (s : System) : Prop :=
  s.client.ret = some 0 ∧ ∃ server, s.children = [server] ∧ server.ctl = .returned 0

/-- The ACK that the attempt waits for has been sent behind the first `m` ACKs. -/
def System.Answered (config : Config) (file : List UInt8) (m : ℕ) (s : System) (server : Server) :
    Prop :=
  (⟨0, server.socket, lastSequenceNumber config file server.window⟩ : Ack) ∈ s.acks.drop m

instance (config : Config) (file : List UInt8) (m : ℕ) (s : System) (server : Server) :
    Decidable (s.Answered config file m server) :=
  inferInstanceAs (Decidable (_ ∈ _))

/-- The control points of an attempt that has opened its socket. -/
def Ctl.inAttempt : Ctl → Bool
  | .sendto _ _ _ | .recvAck _ _ => true
  | _ => false

/-- A bound on the calls that are left, with those of an attempt on the socket `old`, of which
nothing is delivered. -/
def Server.recoveryRank (config : Config) (file : List UInt8) (old : ℕ) (s : Server) : ℕ :=
  s.rank config file + if s.ctl.inAttempt = true ∧ s.socket = old then config.windowsize + 2 else 0

/-- The number of deliveries that an attempt which has sent its window waits for. -/
def System.awaited (config : Config) (file : List UInt8) (m : ℕ) (s : System) (server : Server) :
    ℕ :=
  if s.Answered config file m server then 0
  else ((Finset.range (blockCount config file server.window)).filter fun j =>
    s.client.windows = server.window ∧ s.client.received j = false).card + 1

def System.recoveryRank (config : Config) (file : List UInt8) (old m : ℕ) (s : System)
    (server : Server) : ℕ :=
  (config.windowsize + 2) * server.recoveryRank config file old +
    match server.ctl with
    | .recvAck _ _ => s.awaited config file m server
    | _ => 0

section Rank

variable {s t : Server} {site : Site} {old : ℕ}

@[simp] theorem Server.loop_socket (s : Server) (site : Site) (num : UInt8) (blockIndex : ℕ) :
    (s.loop site num blockIndex).socket = s.socket := by
  unfold Server.loop
  split_ifs <;> rfl

theorem Server.readCurr_ctl (config : Config) (key : Option UInt32) (s : Server) :
    ∃ site, (s.readCurr config key).ctl = .socket site := by
  unfold Server.readCurr
  dsimp only
  split_ifs <;> exact ⟨_, rfl⟩

theorem Server.loop_ctl_ne (s : Server) (site : Site) (num : UInt8) (blockIndex : ℕ) (ret : ℤ) :
    (s.loop site num blockIndex).ctl ≠ .returned ret := by
  unfold Server.loop
  split_ifs <;> simp

theorem Server.acknowledged_inAttempt (config : Config) (key : Option UInt32) (s : Server)
    (site : Site) : (s.acknowledged config key site).ctl.inAttempt = false := by
  cases site <;> rfl

theorem Server.acknowledged_socket (config : Config) (key : Option UInt32) (s : Server)
    (site : Site) : (s.acknowledged config key site).socket = s.socket := by
  cases site <;> rfl

/-- A call that does not wait does not return either. -/
theorem Server.Step.ok_ctl (h : s.Step config key .ok t) (ret : ℤ) : t.ctl ≠ .returned ret := by
  cases h with
  | fopen | readPrev => simp
  | readCurr =>
    obtain ⟨site, hctl⟩ := s.readCurr_ctl config key
    simp [hctl]
  | socket | sendto => exact Server.loop_ctl_ne _ _ _ _ _

theorem Server.Step.socket_le {e : ServerEvent} (h : s.Step config key e t) :
    s.socket ≤ t.socket := by
  cases h with
  | fopen | fileFail | readPrev | ignored | timeout => exact le_rfl
  | readCurr =>
    unfold Server.readCurr
    dsimp only
    split_ifs <;> exact le_rfl
  | socket =>
    rw [Server.loop_socket]
    exact Nat.le_succ _
  | sendto =>
    unfold Server.transmit
    rw [Server.loop_socket]
  | @callFail site => cases site <;> exact le_rfl
  | acknowledged =>
    rw [Server.acknowledged_socket]

theorem Server.Step.recoveryRank_lt (hinv : ServerInv config key file s) (hold : old ≤ s.socket)
    (h : s.Step config key .ok t) :
    t.recoveryRank config file old < s.recoveryRank config file old := by
  have hlt := h.rank_lt hinv
  have hgrow := h.log_grows.length_le
  have hstale : t.ctl.inAttempt = true ∧ t.socket = old →
      s.ctl.inAttempt = true ∧ s.socket = old := by
    rintro ⟨hin, hsocket⟩
    cases h with
    | fopen | readPrev => cases hin
    | readCurr =>
      obtain ⟨site, hctl⟩ := s.readCurr_ctl config key
      rw [hctl] at hin
      cases hin
    | socket =>
      rw [Server.loop_socket] at hsocket
      dsimp only at hsocket
      omega
    | sendto hctl =>
      unfold Server.transmit at hsocket
      rw [Server.loop_socket] at hsocket
      exact ⟨by rw [hctl]; rfl, hsocket⟩
  unfold Server.recoveryRank
  split_ifs with ht hs
  · omega
  · exact absurd (hstale ht) hs
  · omega
  · omega

/-- The attempt that was made before the run is given up. -/
theorem Server.recoveryRank_timeout {num : UInt8} (hctl : s.ctl = .recvAck site num)
    (hsocket : s.socket = old) :
    Server.recoveryRank config file old { s with ctl := .socket site } <
      s.recoveryRank config file old := by
  unfold Server.recoveryRank
  simp [Server.rank, Ctl.rank, Ctl.inAttempt, hctl, hsocket]

theorem Server.recoveryRank_acknowledged_lt {num : UInt8} (hinv : ServerInv config key file s)
    (hctl : s.ctl = .recvAck site num) :
    (s.acknowledged config key site).recoveryRank config file old <
      s.recoveryRank config file old := by
  have hlt := Server.rank_acknowledged_lt hinv hctl
  have hin := s.acknowledged_inAttempt config key site
  unfold Server.recoveryRank
  rw [if_neg (by simp [hin])]
  omega

theorem System.awaited_le (config : Config) (file : List UInt8) (m : ℕ) (s : System)
    (server : Server) : s.awaited config file m server ≤ config.windowsize + 1 := by
  have hcard := Finset.card_filter_le (Finset.range (blockCount config file server.window)) fun j =>
    s.client.windows = server.window ∧ s.client.received j = false
  have hcount := blockCount_le config file server.window
  rw [Finset.card_range] at hcard
  unfold System.awaited
  split_ifs <;> omega

/-- The child comes closer to its end. -/
theorem System.recoveryRank_lt {m : ℕ} {s t : System} {server server' : Server}
    (hlt : server'.recoveryRank config file old < server.recoveryRank config file old) :
    t.recoveryRank config file old m server' < s.recoveryRank config file old m server := by
  have hmul := Nat.mul_le_mul_left (config.windowsize + 2) hlt
  have hle := t.awaited_le config file m server'
  rw [Nat.mul_succ] at hmul
  unfold System.recoveryRank
  split <;> omega

end Rank

/-- The invariant of a run that begins when the child is `start` and `m` ACKs have been sent. In an
`ordered` run the client has the first blocks of the final window. -/
structure RecoveryInv (config : Config) (key : Option UInt32) (file : List UInt8) (start : Server)
    (m : ℕ) (ordered : Prop) (s : System) (server : Server) : Prop where
  inv : SingleInv config key file s
  child : s.children = [server]
  old : ∀ d ∈ start.sent, d.socket ≤ start.socket
  sent : start.sent <+: server.sent
  socket_le : start.socket ≤ server.socket
  acks_le : m ≤ s.acks.length
  ctl : ∀ ret, server.ctl = .returned ret → ret = 0
  client : s.client.ret = none ∨ s.client.ret = some 0 ∧ (server.ctl = .returned 0 ∨
    (∃ site num, server.ctl = .recvAck site num) ∧ s.Answered config file m server)
  inOrder : ordered → s.client.ret = none → s.client.windows = lastWindow config file →
    s.client.InOrder
  file_eq : ordered → s.client.ret = some 0 → s.client.file = file

/-- The run can be continued, and comes closer to its end. -/
def Advances (config : Config) (key : Option UInt32) (file : List UInt8)
    (uninit : ℕ → ℕ → ℕ → UInt8) (start : Server) (m : ℕ) (ordered : Prop) (s : System)
    (server : Server) : Prop :=
  ∃ a t, s.exec config key file uninit a = some t ∧
    (s.SingleTransfer a ∧ a.Fresh start.sent.length m) ∧
    ∃ server', RecoveryInv config key file start m ordered t server' ∧
      t.recoveryRank config file start.socket m server' <
        s.recoveryRank config file start.socket m server

section Steps

variable {start server : Server} {m : ℕ} {ordered : Prop} {s : System} {site : Site}

theorem RecoveryInv.reachable (h : RecoveryInv config key file start m ordered s server) :
    ((serverSystem config key file).restrict Server.Clean).Reachable server :=
  h.inv.inv.children server (by simp [h.child])

theorem RecoveryInv.serverInv (h : RecoveryInv config key file start m ordered s server) :
    ServerInv config key file server := reachable_serverInv h.reachable.of_restrict

/-- Only an attempt that waits for an ACK outlives the client. -/
theorem RecoveryInv.client_ret (h : RecoveryInv config key file start m ordered s server)
    (hreturned : ∀ ret, server.ctl ≠ .returned ret)
    (hwait : ∀ site num, server.ctl ≠ .recvAck site num) : s.client.ret = none := by
  rcases h.client with hret | ⟨-, hctl | ⟨⟨site, num, hctl⟩, -⟩⟩
  · exact hret
  · exact absurd hctl (hreturned 0)
  · exact absurd hctl (hwait site num)

/-- The child makes a call, or its timer fires. -/
theorem RecoveryInv.advances_call (h : RecoveryInv config key file start m ordered s server)
    (hret : s.client.ret = none) {e : ServerEvent} (he : e = .ok ∨ e = .timeout) {server' : Server}
    (hexec : server.exec config key e = some server')
    (hctl : ∀ ret, server'.ctl ≠ .returned ret)
    (hrank : server'.recoveryRank config file start.socket <
      server.recoveryRank config file start.socket) :
    Advances config key file uninit start m ordered s server := by
  have hstep := Server.step_of_exec hexec
  have hsystem : s.exec config key file uninit (.server 0 e) =
      some { s with children := [server'] } := by
    rcases he with rfl | rfl <;> simp [System.exec, h.child, hexec]
  have hfail : e ≠ .fail := by rcases he with rfl | rfl <;> simp
  have hpolicy : s.SingleTransfer (.server 0 e) :=
    ⟨fun server _ hfail' => absurd hfail' hfail, trivial, trivial⟩
  exact ⟨_, _, hsystem, ⟨hpolicy, hfail⟩, server',
    ⟨h.inv.step (System.step_of_exec hsystem) hpolicy, rfl, h.old,
      h.sent.trans hstep.log_grows, h.socket_le.trans hstep.socket_le, h.acks_le,
      fun ret heq => absurd heq (hctl ret), .inl hret, h.inOrder, h.file_eq⟩,
    System.recoveryRank_lt hrank⟩

/-- A client that has returned 0 has acknowledged the final window. -/
theorem RecoveryInv.acknowledged_ctl (h : RecoveryInv config key file start m ordered s server)
    (hret : s.client.ret = some 0) {num : UInt8} (hctl : server.ctl = .recvAck site num) :
    (server.acknowledged config key site).ctl = .returned 0 := by
  have hat := h.serverInv.atCall
  rw [hctl] at hat
  obtain ⟨server', hchild, hwindow⟩ := h.inv.agreement
  obtain rfl : server = server' := by simpa [h.child] using hchild
  have hdone := h.inv.inv.client.done hret
  have hle := hat.1.window_le
  have heof := hat.1.isEof_iff.mpr (by omega)
  cases site with
  | onlyPrev | lastCurr => rfl
  | prevThenCurr | lookAhead => cases heof

/-- The ACK reaches the attempt. -/
theorem RecoveryInv.advances_ack (h : RecoveryInv config key file start m ordered s server)
    {num : UInt8} (hctl : server.ctl = .recvAck site num)
    (hanswered : s.Answered config file m server) :
    Advances config key file uninit start m ordered s server := by
  obtain ⟨i, hi⟩ := List.mem_iff_getElem?.mp hanswered
  rw [List.getElem?_drop] at hi
  have hexpected := (reachable_numberInv h.reachable).numberAt
  rw [hctl] at hexpected
  have hexpected : num = lastSequenceNumber config file server.window := hexpected
  have hexec : server.exec config key (.ack (lastSequenceNumber config file server.window)) =
      some (server.acknowledged config key site) := by
    simp only [Server.exec, hctl, hexpected, if_true]
  have hsystem : s.exec config key file uninit (.ack (m + i)) =
      some { s with
        children := [server.acknowledged config key site]
        acked := s.acked ++ [m + i] } := by
    simp [System.exec, hi, h.child, hexec]
  have hpolicy : s.SingleTransfer (.ack (m + i)) := ⟨trivial, trivial, trivial⟩
  refine ⟨_, _, hsystem, ⟨hpolicy, Nat.le_add_right m i⟩, _,
    ⟨h.inv.step (System.step_of_exec hsystem) hpolicy, rfl, h.old, ?_, ?_, h.acks_le, ?_, ?_,
      h.inOrder, h.file_eq⟩,
    System.recoveryRank_lt (Server.recoveryRank_acknowledged_lt h.serverInv hctl)⟩
  · rw [Server.acknowledged_sent]
    exact h.sent
  · rw [Server.acknowledged_socket]
    exact h.socket_le
  · intro ret heq
    cases site with
    | onlyPrev | lastCurr => exact (Ctl.returned.inj heq).symm
    | prevThenCurr | lookAhead => cases heq
  · rcases h.client with hret | ⟨hret, -⟩
    · exact .inl hret
    · exact .inr ⟨hret, .inl (h.acknowledged_ctl hret hctl)⟩

/-- A datagram of the attempt reaches the client. -/
theorem RecoveryInv.advances_deliver (h : RecoveryInv config key file start m ordered s server)
    {num : UInt8} (hctl : server.ctl = .recvAck site num) (hnew : server.socket ≠ start.socket)
    (hret : s.client.ret = none) {d : Datagram} (hd : d ∈ server.sent)
    (hsocket : d.socket = server.socket) (hwindow : d.window = server.window)
    {r : Client × List UInt8} (hr : s.client.receive config key uninit d.bytes .ok = r)
    (hanswer : r.1.ret = some 0 → lastSequenceNumber config file server.window ∈ r.2)
    (hclient : r.1.ret = none ∨ r.1.ret = some 0)
    (horder : ordered → r.1.ret = none → r.1.windows = lastWindow config file → r.1.InOrder)
    (hfile : ordered → r.1.ret = some 0 → r.1.file = file)
    (hawaited : ∀ t : System, t.client = r.1 →
      t.acks = s.acks ++ r.2.map (fun num => ⟨0, server.socket, num⟩) →
      t.awaited config file m server < s.awaited config file m server) :
    Advances config key file uninit start m ordered s server := by
  obtain ⟨i, hi⟩ := List.mem_iff_getElem?.mp hd
  have hfresh : start.sent.length ≤ i := by
    by_contra hlt
    -- an entry that was there before the run is of an old socket
    obtain ⟨rest, hrest⟩ := h.sent
    rw [← hrest, List.getElem?_append_left (Nat.lt_of_not_ge hlt)] at hi
    have hle := h.old d (List.mem_of_getElem? hi)
    have hge := h.socket_le
    omega
  have hsystem : s.exec config key file uninit (.deliver 0 i .ok) = some { s with
      client := r.1
      acks := s.acks ++ r.2.map fun num => ⟨0, server.socket, num⟩
      delivered := s.delivered ++ [(0, i)] } := by
    simp [System.exec, h.child, hi, hret, hr, hsocket]
  have hinOrder : s.InWindowOrder (.deliver 0 i .ok) := by
    intro entry _ w hw w' hw'
    obtain ⟨server', hmem, hle⟩ := h.inv.inv.windowOf_le hw
    obtain rfl : server' = server := by simpa [h.child] using hmem
    have hw' : d.window = w' := by simpa [System.windowOf, h.child, hi] using hw'
    omega
  have hok := Outcomes.appendOk_ok
  have hpolicy : s.SingleTransfer (.deliver 0 i .ok) := ⟨hok, hinOrder, trivial⟩
  refine ⟨_, _, hsystem, ⟨hpolicy, hfresh, rfl⟩, server,
    ⟨h.inv.step (System.step_of_exec hsystem) hpolicy, h.child, h.old, h.sent, h.socket_le, ?_,
      h.ctl, ?_, horder, hfile⟩, ?_⟩
  · have hle := h.acks_le
    simp only [List.length_append]
    omega
  · rcases hclient with hnone | hzero
    · exact .inl hnone
    · refine .inr ⟨hzero, .inr ⟨⟨site, num, hctl⟩, ?_⟩⟩
      unfold System.Answered
      rw [List.drop_append_of_le_length h.acks_le]
      exact List.mem_append_right _ (List.mem_map.mpr ⟨_, hanswer hzero, rfl⟩)
  · unfold System.recoveryRank
    rw [hctl]
    exact Nat.add_lt_add_left (hawaited _ rfl rfl) _

/-- The client has completed the window, and answers once more. -/
theorem RecoveryInv.advances_lagging (hfile : file ≠ [])
    (h : RecoveryInv config key file start m ordered s server) {num : UInt8}
    (hctl : server.ctl = .recvAck site num) (hnew : server.socket ≠ start.socket)
    (hret : s.client.ret = none) (hanswered : ¬ s.Answered config file m server)
    (hwindow : server.window + 1 = s.client.windows) :
    Advances config key file uninit start m ordered s server := by
  have hat := h.serverInv.atCall
  have hsent := reachable_attemptAt h.reachable.of_restrict
  rw [hctl] at hat hsent
  obtain ⟨d, hd, hsocket, hw, -⟩ := hsent 0 (blockCount_pos hfile hat.1.window_le)
  have hreceive := h.inv.inv.client.receive_lagging hret (onWire_of_reachable h.reachable hd)
    (hw ▸ hwindow) uninit
  rw [hw] at hreceive
  refine h.advances_deliver hctl hnew hret hd hsocket hw hreceive (by simp) (.inl hret)
    h.inOrder h.file_eq fun t _ hacks => ?_
  have hanswered' : t.Answered config file m server := by
    unfold System.Answered
    rw [hacks, List.drop_append_of_le_length h.acks_le]
    simp
  unfold System.awaited
  rw [if_pos hanswered', if_neg hanswered]
  exact Nat.succ_pos _

/-- The client is in the window, and receives the next block. -/
theorem RecoveryInv.advances_next (hfile : file ≠ [])
    (h : RecoveryInv config key file start m ordered s server) {num : UInt8}
    (hctl : server.ctl = .recvAck site num) (hnew : server.socket ≠ start.socket)
    (hret : s.client.ret = none) (hanswered : ¬ s.Answered config file m server)
    (hwindow : server.window = s.client.windows) :
    Advances config key file uninit start m ordered s server := by
  have hat := h.serverInv.atCall
  have hsent := reachable_attemptAt h.reachable.of_restrict
  rw [hctl] at hat hsent
  obtain ⟨j, hj, hfirst, hnext⟩ := exists_nextBlock s.client.received
    (blockCount_pos hfile hat.1.window_le)
  obtain ⟨d, hd, hsocket, hw, rfl⟩ := hsent j hj
  rw [← hw] at hnext
  have hclient := h.inv.inv.client
  rcases hclient.receive_next hret (onWire_of_reachable h.reachable hd) (hw.trans hwindow) hfirst
    hnext uninit with ⟨hadds, hmissing⟩ | ⟨hcompletes, hfile_eq⟩
  · refine h.advances_deliver hctl hnew hret hd hsocket hw rfl ?_ (.inl hadds.ret) ?_ ?_ ?_
    · intro hzero
      rw [hadds.ret] at hzero
      cases hzero
    · intro hordered _ _ i i' hle hi'
      rcases (hadds.received i').mp hi' with rfl | hold
      · rcases Nat.lt_or_eq_of_le hle with hlt | rfl
        · exact (hadds.received i).mpr (.inr (hfirst i hlt))
        · exact hi'
      · have hwindows := hadds.windows
        exact (hadds.received i).mpr (.inr (h.inOrder hordered hret (by omega) i i' hle hold))
    · intro _ hzero
      rw [hadds.ret] at hzero
      cases hzero
    · intro t hclient' hacks
      rw [hadds.acks, List.map_nil, List.append_nil] at hacks
      have hanswered' : ¬ t.Answered config file m server := by
        unfold System.Answered
        rw [hacks]
        exact hanswered
      unfold System.awaited
      rw [if_neg hanswered, if_neg hanswered', hclient']
      refine Nat.succ_lt_succ (Finset.card_lt_card ((Finset.ssubset_iff_of_subset ?_).mpr
        ⟨d.block, by simpa [← hwindow, hmissing] using hj, ?_⟩))
      · intro i hi
        obtain ⟨hlt, -, hi⟩ := Finset.mem_filter.mp hi
        have hnot : ¬ s.client.received i = true := by
          intro hold
          rw [(hadds.received i).mpr (.inr hold)] at hi
          cases hi
        exact Finset.mem_filter.mpr ⟨hlt, hwindow.symm, by simpa using hnot⟩
      · simp [(hadds.received d.block).mpr (.inl rfl)]
  · refine h.advances_deliver hctl hnew hret hd hsocket hw rfl ?_ ?_ ?_ ?_ ?_
    · intro _
      rw [hwindow]
      exact hcompletes.acks
    · rcases hcompletes.ret with ⟨hnone, -⟩ | hzero
      · exact .inl hnone
      · exact .inr hzero
    · intro _ hnone _ i i' _ hi'
      rcases hcompletes.ret with ⟨-, hreceived⟩ | hzero
      · rw [hreceived] at hi'
        cases hi'
      · rw [hnone] at hzero
        cases hzero
    · intro hordered hzero
      have hok := Outcomes.appendOk_ok
      have hspec : ReceiveSpec config file d.window s.client.windows
          (s.client.receive config key uninit d.bytes .ok) :=
        hclient.receive hret (onWire_of_reachable h.reachable hd) (.inl (hw.trans hwindow)) hok
      have hdone := hspec.inv.done hzero
      have hwindows := hcompletes.windows
      exact hfile_eq (h.inOrder hordered hret (by omega)) hzero
    · intro t _ hacks
      have hanswered' : t.Answered config file m server := by
        unfold System.Answered
        rw [hacks, List.drop_append_of_le_length h.acks_le, hwindow]
        exact List.mem_append_right _ (List.mem_map.mpr ⟨_, hcompletes.acks, rfl⟩)
      unfold System.awaited
      rw [if_pos hanswered', if_neg hanswered]
      exact Nat.succ_pos _

/-- **The run comes to its end.** -/
theorem RecoveryInv.progress (hfile : file ≠ [])
    (h : RecoveryInv config key file start m ordered s server) (uninit : ℕ → ℕ → ℕ → UInt8) :
    s.Returned ∨ Advances config key file uninit start m ordered s server := by
  have hcall : ∀ server', server.exec config key .ok = some server' →
      (∀ ret, server.ctl ≠ .returned ret) → (∀ site num, server.ctl ≠ .recvAck site num) →
      Advances config key file uninit start m ordered s server := by
    intro server' hexec hreturned hwait
    have hstep := Server.step_of_exec hexec
    exact h.advances_call (h.client_ret hreturned hwait) (.inl rfl) hexec hstep.ok_ctl
      (hstep.recoveryRank_lt h.serverInv h.socket_le)
  cases hctl : server.ctl with
  | fopen | readPrev | readCurr | socket | sendto =>
    obtain ⟨server', hexec⟩ : ∃ server', server.exec config key .ok = some server' := by
      simp only [Server.exec, hctl]
      exact ⟨_, rfl⟩
    exact .inr (hcall server' hexec (by simp [hctl]) (by simp [hctl]))
  | recvAck site num =>
    by_cases hanswered : s.Answered config file m server
    · exact .inr (h.advances_ack hctl hanswered)
    have hret : s.client.ret = none := by
      rcases h.client with hret | ⟨-, hreturned | ⟨-, hyes⟩⟩
      · exact hret
      · rw [hctl] at hreturned
        cases hreturned
      · exact absurd hyes hanswered
    by_cases hold : server.socket = start.socket
    · have hexec : server.exec config key .timeout = some { server with ctl := .socket site } := by
        simp only [Server.exec, hctl]
      exact .inr (h.advances_call hret (.inr rfl) hexec (by simp)
        (Server.recoveryRank_timeout hctl hold))
    obtain ⟨server', hchild, hwindow⟩ := h.inv.agreement
    obtain rfl : server = server' := by simpa [h.child] using hchild
    rcases hwindow with hsame | hlag
    · exact .inr (h.advances_next hfile hctl hold hret hanswered hsame)
    · exact .inr (h.advances_lagging hfile hctl hold hret hanswered hlag)
  | returned ret =>
    obtain rfl := h.ctl ret hctl
    refine .inl ⟨?_, server, h.child, hctl⟩
    rcases h.client with hnone | ⟨hzero, -⟩
    · have hat := h.serverInv.atCall
      rw [hctl] at hat
      have hwindow := hat rfl
      have hle := h.inv.inv.window_le server (by simp [h.child])
      have hge := (h.inv.inv.client.receiving hnone).window_le
      omega
    · exact hzero

end Steps

/-- **Recovery.** Whatever has been lost, delayed or delivered twice in a transfer, as long as
neither side has returned there is a run to the return of both with 0 in which nothing is delivered
that was sent before. When the blocks of the final window that the client has are the first ones,
it then has the file. -/
theorem recovers (config : Config) (key : Option UInt32) (file : List UInt8)
    (uninit : ℕ → ℕ → ℕ → UInt8) (hfile : file ≠ []) (s : System) (server : Server)
    (h : (roadrunner config key file uninit 1 System.SingleTransfer).Reachable s)
    (hchild : s.children = [server]) (hserver : ∀ ret, server.ctl ≠ .returned ret)
    (hclient : s.client.ret = none) :
    ∃ t, ((LTS.ofExec s (System.exec config key file uninit)).restrict fun t a =>
        t.SingleTransfer a ∧ a.Fresh server.sent.length s.acks.length).Reachable t ∧
      t.Returned ∧
      ((s.client.windows = lastWindow config file → s.client.InOrder) → t.client.file = file) := by
  have hsingle := reachable_singleInv h
  have hreach := hsingle.inv.children server (by simp [hchild])
  have hserverInv := reachable_serverInv hreach.of_restrict
  have hinv : RecoveryInv config key file server s.acks.length
      (s.client.windows = lastWindow config file → s.client.InOrder) s server :=
    ⟨hsingle, hchild, fun d hd => (hserverInv.sent d hd).socket_le, List.prefix_refl _, le_rfl,
      le_rfl, fun ret hctl => absurd hctl (hserver ret), .inl hclient,
      fun hordered _ => hordered, fun _ hzero => by rw [hclient] at hzero; cases hzero⟩
  obtain ⟨t, ht, hend, hfile_eq⟩ := LTS.Reachable.exists_of_rank
    (M := (LTS.ofExec s (System.exec config key file uninit)).restrict fun t a =>
      t.SingleTransfer a ∧ a.Fresh server.sent.length s.acks.length)
    (P := fun t => t.Returned ∧
      ((s.client.windows = lastWindow config file → s.client.InOrder) → t.client.file = file))
    (I := fun t n => ∃ server', RecoveryInv config key file server s.acks.length
      (s.client.windows = lastWindow config file → s.client.InOrder) t server' ∧
      t.recoveryRank config file server.socket s.acks.length server' = n) (by
    rintro t _ ⟨server', hinv', rfl⟩
    rcases hinv'.progress hfile uninit with hend | ⟨a, u, hexec, hpolicy, server'', hu, hlt⟩
    · exact .inl ⟨hend, fun hordered => hinv'.file_eq hordered hend.1⟩
    · exact .inr ⟨a, u, ⟨hexec, hpolicy⟩, _, hlt, server'', hu, rfl⟩)
    (.init rfl) ⟨server, hinv, rfl⟩
  exact ⟨t, ht, hend, hfile_eq⟩

/-- The first window has arrived, and its ACK is lost. -/
theorem recovers_ackLost : ∃ s server,
    (s.children = [server] ∧ server.window = 0 ∧ s.client.windows = 1 ∧ s.acks.length = 1) ∧
    ∃ t, ((LTS.ofExec s (System.exec .one none [1, 2] fun _ _ _ => 0)).restrict fun t a =>
        t.SingleTransfer a ∧ a.Fresh 1 1).Reachable t ∧ t.Returned ∧ t.client.file = [1, 2] := by
  obtain ⟨s, server, hrun, hchild, hwindow, hsent, hctl, hret, hreceived, hacks⟩ : ∃ s server,
      LTS.run (System.exec .one none [1, 2] fun _ _ _ => 0)
        System.SingleTransfer (System.initial .one (fun _ _ _ => 0) [Server.initial [1, 2]])
        [.server 0 .ok, .server 0 .ok, .server 0 .ok, .server 0 .ok, .server 0 .ok,
          .deliver 0 0 .ok] = some s ∧ s.children = [server] ∧
      (server.window = 0 ∧ s.client.windows = 1) ∧ server.sent.length = 1 ∧
      server.ctl = .recvAck .lookAhead 0 ∧ s.client.ret = none ∧
      s.client.received = (fun _ => false) ∧ s.acks.length = 1 :=
    ⟨_, _, rfl, rfl, ⟨rfl, rfl⟩, rfl, rfl, rfl, rfl, rfl⟩
  have hs := LTS.reachable_of_run (LTS.Reachable.init rfl) hrun
  obtain ⟨t, ht, hend, hfile⟩ := recovers .one none [1, 2] (fun _ _ _ => 0) (by decide) s server hs
    hchild (by simp [hctl]) hret
  rw [hsent, hacks] at ht
  have horder : s.client.InOrder := by simp [Client.InOrder, hreceived]
  exact ⟨s, server, ⟨hchild, hwindow.1, hwindow.2, hacks⟩, t, ht, hend, hfile fun _ => horder⟩

end CS536Labs.Lab4
