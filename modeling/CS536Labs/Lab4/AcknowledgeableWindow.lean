import CS536Labs.Lab4.PacketBlocks

/-!
# What `send_window` waits for

An attempt of `send_window` waits for the number before the one that its loop is at. When the loop
has sent a block, this is the number of the last datagram of the attempt (`LastSent`), whatever
failed before and whatever the numbers stand for.

The empty file has a window without blocks, so that nothing is sent, and the server waits for the
number before 0 (`emptyFile_waits`). `acknowledgeable_iff`: this is the only such file.
-/

namespace CS536Labs.Lab4

section

variable (config : Config) (file : List UInt8)

/-- A datagram that tells the client the end of the file. -/
def Datagram.IsEof (d : Datagram) : Prop := d.bytes.length ≠ config.blocksize + 1

/-- The server waits for the number of the datagram that it has just sent, on the socket of the
current attempt. With the final window, and before the transfer ends, a datagram that tells the end
of the file is sent. -/
structure Acknowledgeable (s : Server) : Prop where
  waits : ∀ site expected, s.ctl = .recvAck site expected →
    ∃ d, s.sent.getLast? = some d ∧ d.socket = s.socket ∧ d.bytes.head? = some expected ∧
      (site.isEof = true → d.IsEof config)
  completed : s.ctl = .returned 0 → ∃ d ∈ s.sent, d.IsEof config

/-- The attempt has sent `count` blocks of the window, the last one with this number. -/
def LastSent (s : Server) (num : UInt8) (count : ℕ) : Prop :=
  ∃ d, s.sent.getLast? = some d ∧ d.socket = s.socket ∧ d.window = s.window ∧
    d.block + 1 = count ∧ d.bytes.head? = some num

/-- What an attempt has sent when the server is about to make the call. -/
def LastSentAt (s : Server) : Ctl → Prop
  | .sendto _ num blockIndex =>
    0 < blockIndex / config.blocksize → LastSent s (num - 1) (blockIndex / config.blocksize)
  | .recvAck _ expected => LastSent s expected (blockCount config file s.window)
  | .returned ret => ret = 0 → ∃ d ∈ s.sent,
    d.window = lastWindow config file ∧ d.block + 1 = blockCount config file d.window
  | _ => True

end

variable {config : Config} {key : Option UInt32} {file : List UInt8} {s t : Server} {site : Site}

/-- The loop over the blocks of a window that has some. -/
theorem lastSentAt_loop {num : UInt8} {j : ℕ} (hbuf : Buffers config key file s site)
    (hpos : 0 < blockCount config file s.window) (hj : j ≤ blockCount config file s.window)
    (hlast : 0 < j → LastSent s (num - 1) j) :
    LastSentAt config file (s.loop site num (j * config.blocksize))
      (s.loop site num (j * config.blocksize)).ctl := by
  rw [Server.loop_eq hbuf.length_data]
  split_ifs with hlt
  · show 0 < j * config.blocksize / config.blocksize → _
    rw [config.mul_blocksize_div]
    exact hlast
  · obtain rfl : j = blockCount config file s.window := by omega
    exact hlast hpos

/-- The datagram that ends the final window tells the end of the file. -/
theorem Sent.isEof_iff {window socket : ℕ} {d : Datagram}
    (h : Sent config key file window socket d) :
    d.IsEof config ↔
      d.window = lastWindow config file ∧ d.block + 1 = blockCount config file d.window := by
  obtain ⟨num, hbytes⟩ := h.carries.bytes_eq
  rw [Datagram.IsEof, hbytes, List.length_cons, Ne, Nat.add_right_cancel_iff]
  exact length_payload_ne_iff key h.carries.window_le h.carries.block_lt

theorem LastSentAt.step {e : ServerEvent} (h : LastSentAt config file s s.ctl)
    (hfile : file ≠ []) (hinv : ServerInv config key file s) (hstep : s.Step config key e t) :
    LastSentAt config file t t.ctl := by
  have hat := hinv.atCall
  cases hstep with
  | fopen | readPrev | timeout => trivial
  | fileFail => exact fun hret => absurd hret (by decide)
  | ignored => exact h
  | readCurr =>
    unfold Server.readCurr
    dsimp only
    split_ifs <;> trivial
  | socket hctl =>
    rw [hctl] at hat
    have hnothing : 0 < 0 →
        LastSent { s with socket := s.socket + 1 } (s.initialSequenceNumber - 1) 0 :=
      fun hpos => absurd hpos (Nat.lt_irrefl 0)
    have hbuf : Buffers config key file { s with socket := s.socket + 1 } _ := hat
    have hloop := lastSentAt_loop hbuf (blockCount_pos hfile hbuf.window_le) (Nat.zero_le _)
      hnothing
    rwa [Nat.zero_mul] at hloop
  | sendto hctl =>
    rw [hctl] at hat
    obtain ⟨hbuf, -, j, hj, rfl⟩ := hat
    unfold Server.transmit
    rw [hbuf.packet_eq, config.mul_blocksize_div, ← Nat.succ_mul]
    refine lastSentAt_loop hbuf (blockCount_pos hfile hbuf.window_le) hj fun _ => ?_
    refine ⟨_, List.getLast?_concat, rfl, rfl, rfl, ?_⟩
    rw [UInt8.add_sub_cancel]
    rfl
  | @callFail site =>
    cases site with
    | lookAhead => trivial
    | onlyPrev | prevThenCurr | lastCurr => exact fun hret => absurd hret (by decide)
  | @acknowledged site _ hctl =>
    rw [hctl] at h hat
    obtain ⟨d, hlast, -, hwindow, hblock, -⟩ := h
    have hmem := List.mem_of_getLast? hlast
    cases site with
    | lookAhead | prevThenCurr => trivial
    | onlyPrev | lastCurr =>
      intro _
      have hw := (Buffers.isEof_iff hat.1).mp rfl
      exact ⟨d, hmem, hwindow.trans hw, by rw [hblock, hwindow]⟩

theorem reachable_lastSentAt (hfile : file ≠ []) (h : (serverSystem config key file).Reachable s) :
    LastSentAt config file s s.ctl := by
  refine h.invariant (I := fun s => LastSentAt config file s s.ctl) ?_ ?_
  · rintro _ rfl
    trivial
  · intro s e t hreach hlast hstep
    exact hlast.step hfile (reachable_serverInv hreach) (Server.step_of_exec hstep)

/-- The server of an empty file, waiting for the number before 0. -/
theorem emptyFile_waits (config : Config) (key : Option UInt32) :
    ∃ s, (serverSystem config key []).Reachable s ∧ s.ctl = .recvAck .onlyPrev 255 ∧
      s.sent = [] := by
  have hfopen : (serverSystem config key []).Reachable (Server.initial []) := .init rfl
  have hreadPrev : (serverSystem config key []).Reachable ⟨.readPrev, [], [], [], 0, 0, 0, []⟩ :=
    hfopen.step (a := .ok) rfl
  have hreadCurr : (serverSystem config key []).Reachable ⟨.readCurr, [], [], [], 0, 0, 0, []⟩ := by
    refine hreadPrev.step (a := .ok) ?_
    simp [serverSystem, LTS.ofExec, Server.exec]
  have hsocket : (serverSystem config key []).Reachable
      ⟨.socket .onlyPrev, [], encodeWith key [], [], 0, 0, 0, []⟩ := by
    refine hreadCurr.step (a := .ok) ?_
    simp [serverSystem, LTS.ofExec, Server.exec, Server.readCurr, Server.call,
      config.windowBytes_pos]
  have hrecvAck : (serverSystem config key []).Reachable
      ⟨.recvAck .onlyPrev 255, [], encodeWith key [], [], 0, 1, 0, []⟩ := by
    refine hsocket.step (a := .ok) ?_
    simp [serverSystem, LTS.ofExec, Server.exec, Server.loop, Server.data]
    rfl
  exact ⟨_, hrecvAck, rfl, rfl⟩

/-- The server of an empty file with blocks of one byte. -/
theorem not_acknowledgeable_emptyFile :
    ¬ ∀ s, (serverSystem Config.one none []).Reachable s → Acknowledgeable Config.one s := by
  intro h
  obtain ⟨s, hreach, hctl, hsent⟩ := emptyFile_waits Config.one none
  obtain ⟨d, hlast, -⟩ := (h s hreach).waits _ _ hctl
  rw [hsent] at hlast
  cases hlast

/-- **When every attempt can be acknowledged.** -/
theorem acknowledgeable_iff (config : Config) (key : Option UInt32) (file : List UInt8) :
    (∀ s, (serverSystem config key file).Reachable s → Acknowledgeable config s) ↔ file ≠ [] := by
  constructor
  · rintro h rfl
    obtain ⟨s, hreach, hctl, hsent⟩ := emptyFile_waits config key
    obtain ⟨d, hlast, -⟩ := (h s hreach).waits _ _ hctl
    rw [hsent] at hlast
    cases hlast
  · intro hfile s hreach
    have hinv := reachable_serverInv hreach
    have hlast := reachable_lastSentAt hfile hreach
    refine ⟨fun site expected hctl => ?_, fun hctl => ?_⟩
    · have hat := hinv.atCall
      rw [hctl] at hlast hat
      obtain ⟨d, hd, hsocket, hwindow, hblock, hnum⟩ := hlast
      refine ⟨d, hd, hsocket, hnum, fun heof => ?_⟩
      refine (hinv.sent d (List.mem_of_getLast? hd)).isEof_iff.mpr ⟨?_, by rw [hblock, hwindow]⟩
      exact hwindow.trans ((Buffers.isEof_iff hat.1).mp heof)
    · rw [hctl] at hlast
      obtain ⟨d, hd, heof⟩ := hlast rfl
      exact ⟨d, hd, (hinv.sent d hd).isEof_iff.mpr heof⟩

end CS536Labs.Lab4
