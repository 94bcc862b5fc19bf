import CS536Labs.Lab4.EndOfFile

/-!
# The log of a lossless transfer

When a child sends every window once, block `j` of window `w` is entry `w * windowsize + j` of its
log (`LosslessServer`). A client to which the entries are delivered one after the other has received
the blocks in front of the next delivery and no others (`LosslessClient`): a window is completed by
its final block, so that the file of the client is right.
-/

namespace CS536Labs.Lab4

variable {config : Config} {key : Option UInt32} {file : List UInt8}
  {uninit : ℕ → ℕ → ℕ → UInt8}

/-! ## The log of the child -/

section Server

/-- The length of the log and the number of sockets when the server is about to make the call. -/
def LoggedAt (config : Config) (file : List UInt8) (s : Server) : Ctl → Prop
  | .fopen | .readPrev | .readCurr | .socket _ =>
    s.sent.length = s.window * config.windowsize ∧ s.socket = s.window
  | .sendto _ _ blockIndex =>
    s.sent.length = s.window * config.windowsize + blockIndex / config.blocksize ∧
      s.socket = s.window + 1
  | .recvAck _ _ =>
    s.sent.length = s.window * config.windowsize + blockCount config file s.window ∧
      s.socket = s.window + 1
  | .returned ret => ret = 0 ∧ s.sent.length = lastWindow config file * config.windowsize +
      blockCount config file (lastWindow config file)

/-- The log of a child that sends every window once. -/
structure LosslessServer (config : Config) (file : List UInt8) (s : Server) : Prop where
  place : ∀ i d, s.sent[i]? = some d → i = d.window * config.windowsize + d.block
  socket : ∀ d ∈ s.sent, d.socket = d.window + 1
  loggedAt : LoggedAt config file s s.ctl

variable {s t : Server} {site : Site}

/-- Two places of a log that are equal are the same block. -/
theorem place_unique (size : ℕ) {w w' j j' : ℕ} (hj : j < size) (hj' : j' < size)
    (h : w * size + j = w' * size + j') : w = w' ∧ j = j' := by
  have hpos : 0 < size := by omega
  have hw := congrArg (· / size) h
  have hmod := congrArg (· % size) h
  simp only [Nat.mul_comm _ size, Nat.mul_add_div hpos, Nat.mul_add_mod, Nat.div_eq_of_lt hj,
    Nat.div_eq_of_lt hj', Nat.mod_eq_of_lt hj, Nat.mod_eq_of_lt hj'] at hw hmod
  exact ⟨by omega, hmod⟩

theorem losslessServer_initial : LosslessServer config file (Server.initial file) :=
  ⟨by simp [Server.initial], by simp [Server.initial], by simp [LoggedAt, Server.initial]⟩

/-- The loop over the blocks, after `j` of them. -/
theorem losslessServer_loop {num : UInt8} {j : ℕ}
    (hplace : ∀ i d, s.sent[i]? = some d → i = d.window * config.windowsize + d.block)
    (hsocket : ∀ d ∈ s.sent, d.socket = d.window + 1)
    (hcount : s.sent.length = s.window * config.windowsize + j) (hopen : s.socket = s.window + 1)
    (hj : j ≤ blockCount config file s.window)
    (hlen : (s.data site).length = (fileWindow config file s.window).length) :
    LosslessServer config file (s.loop site num (j * config.blocksize)) := by
  rw [Server.loop_eq hlen]
  split_ifs with hlt
  · refine ⟨hplace, hsocket, ?_, hopen⟩
    rw [config.mul_blocksize_div]
    exact hcount
  · obtain rfl : j = blockCount config file s.window := by omega
    exact ⟨hplace, hsocket, hcount, hopen⟩

theorem LosslessServer.step_ok (h : LosslessServer config file s)
    (hinv : ServerInv config key file s) (hstep : s.Step config key .ok t) :
    LosslessServer config file t := by
  obtain ⟨hplace, hsocket, hlog⟩ := h
  have hat := hinv.atCall
  cases hstep with
  | fopen hctl | readPrev hctl =>
    rw [hctl] at hlog
    exact ⟨hplace, hsocket, hlog⟩
  | readCurr hctl =>
    rw [hctl] at hlog
    unfold Server.readCurr
    dsimp only
    split_ifs <;> exact ⟨hplace, hsocket, hlog⟩
  | socket hctl =>
    rw [hctl] at hlog hat
    have hloop : LosslessServer config file ({ s with socket := s.socket + 1 }.loop _
        s.initialSequenceNumber (0 * config.blocksize)) :=
      losslessServer_loop hplace hsocket hlog.1 (congrArg (· + 1) hlog.2) (Nat.zero_le _)
        (Buffers.length_data hat)
    rwa [Nat.zero_mul] at hloop
  | sendto hctl =>
    rw [hctl] at hlog hat
    obtain ⟨hbuf, -, j, hj, rfl⟩ := hat
    obtain ⟨hcount, hopen⟩ := hlog
    rw [config.mul_blocksize_div] at hcount
    unfold Server.transmit
    rw [config.mul_blocksize_div, ← Nat.succ_mul]
    refine losslessServer_loop ?_ ?_ ?_ hopen hj hbuf.length_data
    · intro i d hd
      have hlt := (List.getElem?_eq_some_iff.mp hd).1
      rw [List.length_append, List.length_singleton] at hlt
      rcases Nat.lt_succ_iff_lt_or_eq.mp hlt with hlt | rfl
      · exact hplace i d (by rwa [List.getElem?_append_left hlt] at hd)
      · rw [List.getElem?_concat_length, Option.some.injEq] at hd
        subst hd
        exact hcount
    · intro d hd
      rcases List.mem_append.mp hd with hold | hnew
      · exact hsocket d hold
      · rw [List.mem_singleton.mp hnew]
        exact hopen
    · show (s.sent ++ [_]).length = s.window * config.windowsize + (j + 1)
      rw [List.length_append, List.length_singleton, hcount, Nat.add_assoc]

/-- The expected ACK arrives. -/
theorem LosslessServer.acknowledged (h : LosslessServer config file s)
    (hinv : ServerInv config key file s) {num : UInt8} (hctl : s.ctl = .recvAck site num) :
    LosslessServer config file (s.acknowledged config key site) := by
  obtain ⟨hplace, hsocket, hlog⟩ := h
  have hat := hinv.atCall
  rw [hctl] at hlog hat
  obtain ⟨hcount, hopen⟩ := hlog
  have hnext : s.window < lastWindow config file →
      s.sent.length = (s.window + 1) * config.windowsize := by
    intro hlt
    rw [hcount, blockCount_of_lt hlt, Nat.succ_mul]
  unfold Server.acknowledged
  cases site with
  | lookAhead => exact ⟨hplace, hsocket, hnext hat.1.2.2.2, hopen⟩
  | prevThenCurr =>
    have hlast := hat.1.2.2
    exact ⟨hplace, hsocket, hnext (by omega), hopen⟩
  | onlyPrev | lastCurr =>
    refine ⟨hplace, hsocket, rfl, ?_⟩
    have hlast : s.window = lastWindow config file := hat.1.2
    rw [← hlast]
    exact hcount

theorem Server.acknowledged_window (config : Config) (key : Option UInt32) (s : Server)
    (site : Site) : (s.acknowledged config key site).window = s.window + 1 := by
  cases site <;> rfl

/-- The datagrams of a child that has sent the whole file. -/
theorem LosslessServer.sent_eq (hfile : file ≠ []) (h : LosslessServer config file s)
    (hwire : ∀ d ∈ s.sent, OnWire config key file d) {ret : ℤ}
    (hctl : s.ctl = .returned ret) :
    ∃ sent d, s.sent = sent ++ [d] ∧
      (∀ d' ∈ sent, d'.bytes.length = config.blocksize + 1) ∧
      d.bytes.length ≠ config.blocksize + 1 ∧ d.window = lastWindow config file := by
  have hlog := h.loggedAt
  rw [hctl] at hlog
  have hlen := hlog.2
  have hpos : 0 < blockCount config file (lastWindow config file) := blockCount_pos hfile le_rfl
  have hcount := blockCount_le config file (lastWindow config file)
  rcases List.eq_nil_or_concat s.sent with hnil | ⟨sent, d, hsent⟩
  · rw [hnil, List.length_nil] at hlen
    omega
  · rw [List.concat_eq_append] at hsent
    rw [hsent, List.length_append, List.length_singleton] at hlen
    have hplace : sent.length = d.window * config.windowsize + d.block :=
      h.place _ d (by rw [hsent, List.getElem?_concat_length])
    have hd := hwire d (by simp [hsent])
    have hblock := blockCount_le config file d.window
    have hlt := hd.block_lt
    obtain ⟨hw, hj⟩ : lastWindow config file = d.window ∧
        blockCount config file (lastWindow config file) - 1 = d.block :=
      place_unique config.windowsize (by omega) (by omega) (by omega)
    refine ⟨sent, d, hsent, ?_, hd.length_ne_iff.mpr ⟨hw.symm, by rw [← hw]; omega⟩, hw.symm⟩
    intro d' hd'
    by_contra hne
    obtain ⟨hw', hj'⟩ := (hwire d' (by simp [hsent, hd'])).length_ne_iff.mp hne
    obtain ⟨i, hi⟩ := List.mem_iff_getElem?.mp hd'
    have hilt := (List.getElem?_eq_some_iff.mp hi).1
    have hplace' : i = d'.window * config.windowsize + d'.block :=
      h.place i d' (by rw [hsent, List.getElem?_append_left hilt, hi])
    rw [hw'] at hplace' hj'
    omega

end Server

/-! ## The client -/

/-- The client after `m` deliveries, with `n` ACKs sent. -/
structure LosslessClient (config : Config) (file : List UInt8) (c : Client) (m n : ℕ) : Prop where
  running : c.ret = none → n = c.windows ∧ ∃ i < blockCount config file c.windows,
    m = c.windows * config.windowsize + i ∧ ∀ j, c.received j = true ↔ j < i
  finished : c.ret ≠ none → c.ret = some 0 ∧ c.file = file

/-- A window is complete when all its blocks have been received. -/
theorem Receiving.completed_of_all {c : Client} (h : Receiving config file c)
    (hpos : 0 < blockCount config file c.windows)
    (hall : ∀ j < blockCount config file c.windows, c.received j = true) : c.completed = true := by
  have htarget : c.target config file = blockCount config file c.windows := by
    unfold Client.target
    split_ifs with heof
    · rfl
    · rcases Nat.lt_or_ge c.windows (lastWindow config file) with hlt | hge
      · exact (blockCount_of_lt hlt).symm
      · exact absurd (h.isEof_iff.mpr ⟨le_antisymm h.window_le hge, hall _ (by omega)⟩) heof
  apply h.completed_iff.mpr
  rw [htarget]
  exact hall

/-- The final window is complete, and no call fails. -/
theorem Client.complete_last (config : Config) (uninit : ℕ → ℕ → ℕ → UInt8) {c : Client}
    (heof : c.isEof = true) (blocksize : ℕ) :
    (c.complete config uninit blocksize .ok).1.ret = some 0 ∧
      (c.complete config uninit blocksize .ok).2 = List.replicate numEofAcks c.lastNum := by
  simp [Client.complete, Client.finish, Outcomes.ok, heof]

/-- Another window is complete, and no call fails. -/
theorem Client.complete_next (config : Config) (uninit : ℕ → ℕ → ℕ → UInt8) {c : Client}
    (heof : c.isEof = false) (blocksize : ℕ) :
    (c.complete config uninit blocksize .ok).1.ret = c.ret ∧
      (c.complete config uninit blocksize .ok).1.received = (fun _ => false) ∧
      (c.complete config uninit blocksize .ok).2 = [c.lastNum] := by
  simp [Client.complete, Client.finish, Client.enter, Outcomes.ok, heof, numEofAcks]

/-- What the delivery of entry `m` does: nothing is acknowledged, or the window is complete. -/
structure LosslessReceive (config : Config) (file : List UInt8) (c : Client) (m n : ℕ)
    (r : Client × List UInt8) : Prop where
  client : LosslessClient config file r.1 (m + 1) (n + r.2.length)
  acks : r.1.windows = c.windows ∧ r.2 = [] ∨ r.1.windows = c.windows + 1 ∧
    ∃ k, r.2 = List.replicate (k + 1) (lastSequenceNumber config file c.windows)

/-- The final block of a window completes it: the client returns, or goes on to the next window. -/
theorem Stored.complete_ok (hfile : file ≠ []) {c c' : Client} {d : Datagram}
    (h : Stored config file d c c') (hd : OnWire config key file d)
    (hwindow : d.window = c.windows) (hc : c'.completed = true)
    (hlast : d.block + 1 = blockCount config file d.window) :
    LosslessReceive config file c (d.window * config.windowsize + d.block) c.windows
      (c'.complete config uninit (fileBlock config file c.windows d.block).length .ok) := by
  have heof := (h.receiving.completed_spec hc).2.2
  have hnum := h.receiving.lastNum_eq hc
  have hle := h.receiving.window_le
  have hok := Outcomes.appendOk_ok
  rw [h.windows] at heof hnum hle
  by_cases hfinal : c.windows = lastWindow config file
  · obtain ⟨hret, hacks⟩ := Client.complete_last config uninit (heof.mpr hfinal)
      (fileBlock config file c.windows d.block).length
    have hfile : (c'.complete config uninit
        (fileBlock config file c.windows d.block).length .ok).1.file = file :=
      (h.file_iff hd hwindow hfinal hc hok).mpr (.inl hlast)
    refine ⟨⟨fun hnone => ?_, fun _ => ⟨hret, hfile⟩⟩, .inr ⟨?_, 7, ?_⟩⟩
    · rw [hret] at hnone
      cases hnone
    · rw [Client.complete_windows hok, h.windows]
    · rw [hacks, hnum]
      rfl
  · have heof : c'.isEof = false := by simpa using mt heof.mp hfinal
    obtain ⟨hret, hreceived, hacks⟩ := Client.complete_next config uninit heof
      (fileBlock config file c.windows d.block).length
    have hwindows : (c'.complete config uninit
        (fileBlock config file c.windows d.block).length .ok).1.windows = c.windows + 1 := by
      rw [Client.complete_windows hok, h.windows]
    have hlt : c.windows < lastWindow config file := lt_of_le_of_ne hle hfinal
    have hfull := blockCount_of_lt hlt
    refine ⟨⟨fun _ => ⟨?_, 0, ?_, ?_, ?_⟩, fun hsome => absurd (hret.trans h.ret) hsome⟩,
      .inr ⟨hwindows, 0, ?_⟩⟩
    · rw [hacks, hwindows]
      rfl
    · rw [hwindows]
      exact blockCount_pos hfile hlt
    · rw [hwindows, Nat.add_assoc, hlast, hwindow, hfull, Nat.succ_mul, Nat.add_zero]
    · intro j
      simp [hreceived]
    · rw [hacks, hnum]
      rfl

/-- **A delivery in order**, of a datagram at its place in the log. -/
theorem LosslessClient.receive (hfile : file ≠ []) {c : Client} {n : ℕ} {d : Datagram}
    (h : LosslessClient config file c (d.window * config.windowsize + d.block) n)
    (hinv : ClientInv config file c) (hret : c.ret = none) (hd : OnWire config key file d) :
    d.window = c.windows ∧ LosslessReceive config file c (d.window * config.windowsize + d.block) n
      (c.receive config key uninit d.bytes .ok) := by
  obtain ⟨rfl, i, hi, hplace, hreceived⟩ := h.running hret
  have hj := hd.block_lt
  have hcount := blockCount_le config file d.window
  have hcount' := blockCount_le config file c.windows
  obtain ⟨hwindow, rfl⟩ := place_unique config.windowsize (by omega) (by omega) hplace
  obtain ⟨c', hstored, heq⟩ := hinv.receive_current hret hd hwindow uninit .ok
  have hreceived' : ∀ j, c'.received j = true ↔ j < d.block + 1 := by
    intro j
    rw [hstored.received, hreceived]
    omega
  refine ⟨hwindow, ?_⟩
  rw [heq]
  split_ifs with hc
  · have hall := (hstored.receiving.completed_spec hc).1 (d.block + 1)
    rw [hreceived', hstored.windows] at hall
    exact hstored.complete_ok hfile hd hwindow hc (by rw [hwindow]; omega)
  · have hlt : d.block + 1 < blockCount config file c.windows := by
      by_contra hge
      refine hc (hstored.receiving.completed_of_all ?_ ?_)
      · rw [hstored.windows]
        omega
      · intro j hj
        rw [hstored.windows] at hj
        exact (hreceived' j).mpr (by omega)
    refine ⟨⟨fun _ => ⟨hstored.windows.symm, d.block + 1, ?_, ?_, hreceived'⟩,
      fun hsome => absurd hstored.ret hsome⟩, .inl ⟨hstored.windows, rfl⟩⟩
    · rw [hstored.windows]
      exact hlt
    · show d.window * config.windowsize + d.block + 1 =
        c'.windows * config.windowsize + (d.block + 1)
      rw [hstored.windows, hwindow, Nat.add_assoc]

end CS536Labs.Lab4
