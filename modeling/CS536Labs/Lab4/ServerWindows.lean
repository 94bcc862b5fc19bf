import CS536Labs.Foundations.Segments
import CS536Labs.Lab4.RoadrunnerServer

/-!
# The windows a server child sends

The file is cut into windows of `blocksize * windowsize` bytes and a window into blocks.
`ServerInv` says what the two buffers of `send_file` hold at every library call, whatever fails
and however often a window is sent again: the window that is being sent, encoded once, and the
window read ahead, not yet encoded. With it every datagram that was ever sent carries the block of
its place in the file (`Carries`).

`NumberInv` adds the sequence numbers. They are right in the runs in which no call of
`send_window` fails in the loop of `send_file`, where its return value is ignored.
-/

namespace CS536Labs.Lab4

section Windows

variable (config : Config) (pubkey : Option UInt32) (file : List UInt8)

/-- The bytes of window `w`. -/
def fileWindow (w : ℕ) : List UInt8 := segment file config.windowBytes w

/-- The index of the final window. The empty file has one window, without blocks. -/
def lastWindow : ℕ := (file.length - 1) / config.windowBytes

def blockCount (w : ℕ) : ℕ := segmentCount config.blocksize (fileWindow config file w).length

/-- The bytes of block `j` of window `w`. -/
def fileBlock (w j : ℕ) : List UInt8 := segment (fileWindow config file w) config.blocksize j

/-- What follows the sequence number in the packet with block `j` of window `w`: a final block
that is full is followed by a dummy byte. -/
def payload (w j : ℕ) : List UInt8 :=
  encodeWith pubkey (fileBlock config file w j) ++
    if w = lastWindow config file ∧
        j * config.blocksize + config.blocksize = (fileWindow config file w).length
      then [dummyEndOfPacket] else []

/-- The first sequence number of window `w`. -/
def sequenceBase (w : ℕ) : ℕ := if w % 2 = 0 then 0 else config.windowsize

/-- The sequence number of block `j` of window `w`. -/
def sequenceNumber (w j : ℕ) : UInt8 := UInt8.ofNat (sequenceBase config w + j)

/-- The datagram carries the block of its place in the file. -/
structure Carries (d : Datagram) : Prop where
  window_le : d.window ≤ lastWindow config file
  block_lt : d.block < blockCount config file d.window
  bytes_eq : ∃ num, d.bytes = num :: payload config pubkey file d.window d.block

end Windows

/-! ## Windows and blocks -/

section Geometry

variable {config : Config} {file : List UInt8} {w : ℕ}

theorem Config.blocksize_pos (config : Config) : 0 < config.blocksize := config.checkBlocksize.1

theorem Config.windowsize_pos (config : Config) : 0 < config.windowsize := config.checkWindowsize.1

theorem Config.windowBytes_pos (config : Config) : 0 < config.windowBytes :=
  Nat.mul_pos config.blocksize_pos config.windowsize_pos

theorem lt_lastWindow_iff :
    w < lastWindow config file ↔ (w + 1) * config.windowBytes < file.length := by
  have hpos : 0 < (w + 1) * config.windowBytes := Nat.mul_pos w.succ_pos config.windowBytes_pos
  rw [lastWindow, Nat.lt_iff_add_one_le, Nat.le_div_iff_mul_le config.windowBytes_pos]
  omega

theorem length_le_lastWindow (config : Config) (file : List UInt8) :
    file.length ≤ (lastWindow config file + 1) * config.windowBytes := by
  by_contra hlt
  have := lt_lastWindow_iff.mpr (Nat.lt_of_not_ge hlt)
  omega

theorem length_fileWindow_of_lt (h : w < lastWindow config file) :
    (fileWindow config file w).length = config.windowBytes := by
  have hlt := lt_lastWindow_iff.mp h
  rw [Nat.succ_mul] at hlt
  rw [fileWindow, length_segment]
  omega

theorem length_fileWindow_last (config : Config) (file : List UInt8) :
    (fileWindow config file (lastWindow config file)).length =
      file.length - lastWindow config file * config.windowBytes := by
  have hle := length_le_lastWindow config file
  rw [Nat.succ_mul] at hle
  rw [fileWindow, length_segment]
  omega

theorem lastWindow_mul_le (config : Config) (file : List UInt8) :
    lastWindow config file * config.windowBytes ≤ file.length := by
  have h := Nat.div_mul_le_self (file.length - 1) config.windowBytes
  rw [lastWindow]
  omega

theorem length_fileWindow_le : (fileWindow config file w).length ≤ config.windowBytes := by
  rw [fileWindow, length_segment]
  omega

theorem blockCount_le (config : Config) (file : List UInt8) (w : ℕ) :
    blockCount config file w ≤ config.windowsize := by
  apply segmentCount_le config.blocksize_pos
  rw [Nat.mul_comm]
  exact length_fileWindow_le

theorem blockCount_of_lt (h : w < lastWindow config file) :
    blockCount config file w = config.windowsize := by
  rw [blockCount, length_fileWindow_of_lt h, Config.windowBytes, Nat.mul_comm,
    segmentCount_of_dvd config.blocksize_pos]

theorem blockCount_pos (hfile : file ≠ []) (hw : w ≤ lastWindow config file) :
    0 < blockCount config file w := by
  apply (lt_segmentCount_iff config.blocksize_pos).mpr
  rw [Nat.zero_mul]
  rcases Nat.lt_or_ge w (lastWindow config file) with hlt | hge
  · rw [length_fileWindow_of_lt hlt]
    exact config.windowBytes_pos
  · obtain rfl : w = lastWindow config file := le_antisymm hw hge
    have hlen := List.length_pos_iff.mpr hfile
    have hle := Nat.div_mul_le_self (file.length - 1) config.windowBytes
    rw [length_fileWindow_last]
    unfold lastWindow
    omega

theorem sequenceBase_le (config : Config) (w : ℕ) :
    sequenceBase config w ≤ config.windowsize := by
  unfold sequenceBase
  split_ifs <;> omega

theorem sequenceBase_succ :
    sequenceBase config (w + 1) = (sequenceBase config w + config.windowsize) %
      (sequenceNumberSpaceToWindowsizeRatio * config.windowsize) := by
  have hpos := config.windowsize_pos
  unfold sequenceBase sequenceNumberSpaceToWindowsizeRatio
  rcases Nat.mod_two_eq_zero_or_one w with h | h
  · have hsucc : ¬ (w + 1) % 2 = 0 := by omega
    rw [if_pos h, if_neg hsucc, Nat.zero_add, Nat.mod_eq_of_lt (by omega)]
  · have hsucc : (w + 1) % 2 = 0 := by omega
    have hodd : ¬ w % 2 = 0 := by omega
    rw [if_pos hsucc, if_neg hodd, ← Nat.two_mul, Nat.mod_self]

end Geometry

/-! ## The buffers of `send_file` -/

theorem encodeWith_eq_map (pubkey : Option UInt32) :
    ∃ f : UInt8 → UInt8, ∀ data, encodeWith pubkey data = data.map f := by
  rcases pubkey with _ | pubkey
  · exact ⟨id, fun data => (List.map_id data).symm⟩
  · exact ⟨_, fun data => rfl⟩

@[simp] theorem length_encodeWith (pubkey : Option UInt32) (data : List UInt8) :
    (encodeWith pubkey data).length = data.length := by
  obtain ⟨f, hf⟩ := encodeWith_eq_map pubkey
  rw [hf, List.length_map]

theorem segment_encodeWith (pubkey : Option UInt32) (data : List UInt8) (size i : ℕ) :
    segment (encodeWith pubkey data) size i = encodeWith pubkey (segment data size i) := by
  obtain ⟨f, hf⟩ := encodeWith_eq_map pubkey
  rw [hf, hf, segment_map]

section Server

variable (config : Config) (pubkey : Option UInt32) (file : List UInt8)

/-- The buffers while `send_window` runs, called from `site`. -/
def Buffers (s : Server) : Site → Prop
  | .onlyPrev =>
    s.prevBuf = encodeWith pubkey (fileWindow config file s.window) ∧
      s.window = lastWindow config file
  | .prevThenCurr =>
    s.prevBuf = encodeWith pubkey (fileWindow config file s.window) ∧
      s.currBuf = fileWindow config file (s.window + 1) ∧ s.window + 1 = lastWindow config file
  | .lastCurr =>
    s.currBuf = encodeWith pubkey (fileWindow config file s.window) ∧
      s.window = lastWindow config file
  | .lookAhead =>
    s.prevBuf = encodeWith pubkey (fileWindow config file s.window) ∧
      s.currBuf = fileWindow config file (s.window + 1) ∧
      s.rest = file.drop ((s.window + 2) * config.windowBytes) ∧
      s.window < lastWindow config file

/-- The socket of the attempt is used for the current window only. -/
def SocketFresh (s : Server) : Prop := ∀ d ∈ s.sent, d.socket = s.socket → d.window = s.window

/-- What holds when the server is about to make the call. -/
def AtCall (s : Server) : Ctl → Prop
  | .fopen | .readPrev => s.rest = file ∧ s.window = 0
  | .readCurr =>
    s.prevBuf = fileWindow config file s.window ∧
      s.rest = file.drop ((s.window + 1) * config.windowBytes) ∧
      s.window ≤ lastWindow config file
  | .socket site => Buffers config pubkey file s site
  | .sendto site _ blockIndex =>
    Buffers config pubkey file s site ∧ SocketFresh s ∧
      ∃ j < blockCount config file s.window, blockIndex = j * config.blocksize
  | .recvAck site _ => Buffers config pubkey file s site ∧ SocketFresh s
  | .returned ret => ret = 0 → s.window = lastWindow config file + 1

/-- A datagram in the log of a server that is at `window` and has opened `socket` sockets. -/
structure Sent (window socket : ℕ) (d : Datagram) : Prop where
  carries : Carries config pubkey file d
  window_le : d.window ≤ window
  socket_le : d.socket ≤ socket

/-- The invariant of all runs of a server child. -/
structure ServerInv (s : Server) : Prop where
  sent : ∀ d ∈ s.sent, Sent config pubkey file s.window s.socket d
  atCall : AtCall config pubkey file s s.ctl

variable {config pubkey file} {s : Server} {site : Site}

theorem Buffers.data_eq (h : Buffers config pubkey file s site) :
    s.data site = encodeWith pubkey (fileWindow config file s.window) := by
  cases site <;> exact h.1

theorem Buffers.window_le (h : Buffers config pubkey file s site) :
    s.window ≤ lastWindow config file := by
  cases site with
  | onlyPrev | lastCurr => exact h.2.le
  | prevThenCurr =>
    have := h.2.2
    omega
  | lookAhead => exact h.2.2.2.le

theorem Buffers.isEof_iff (h : Buffers config pubkey file s site) :
    site.isEof = true ↔ s.window = lastWindow config file := by
  cases site with
  | onlyPrev | lastCurr => simpa [Site.isEof] using h.2
  | prevThenCurr =>
    have := h.2.2
    simp only [Site.isEof, Bool.false_eq_true, false_iff]
    omega
  | lookAhead =>
    have := h.2.2.2
    simp only [Site.isEof, Bool.false_eq_true, false_iff]
    omega

theorem Buffers.length_data (h : Buffers config pubkey file s site) :
    (s.data site).length = (fileWindow config file s.window).length := by
  rw [h.data_eq, length_encodeWith]

/-- **A packet carries its block**, encoded once. -/
theorem Buffers.packet_eq (h : Buffers config pubkey file s site) (num : UInt8) (j : ℕ) :
    s.packet config site num (j * config.blocksize) =
      num :: payload config pubkey file s.window j := by
  have hblock : ((s.data site).drop (j * config.blocksize)).take
      (if (s.data site).length - j * config.blocksize < config.blocksize then
        (s.data site).length - j * config.blocksize else config.blocksize) =
      encodeWith pubkey (fileBlock config file s.window j) := by
    rw [fileBlock, ← segment_encodeWith, ← h.data_eq, segment]
    split_ifs with hlt
    · rw [List.take_of_length_le (by simp), List.take_of_length_le (by simpa using hlt.le)]
    · rfl
  have hdummy : (site.isEof && j * config.blocksize + config.blocksize == (s.data site).length) =
      true ↔ s.window = lastWindow config file ∧
        j * config.blocksize + config.blocksize = (fileWindow config file s.window).length := by
    rw [Bool.and_eq_true, beq_iff_eq, h.isEof_iff, h.length_data]
  simp only [Server.packet, encodePacket, payload, hblock, hdummy, List.cons_append]

/-! ## Steps -/

theorem Sent.mono {w w' n n' : ℕ} {d : Datagram} (h : Sent config pubkey file w n d)
    (hwindow : w ≤ w') (hsocket : n ≤ n') : Sent config pubkey file w' n' d :=
  ⟨h.carries, h.window_le.trans hwindow, h.socket_le.trans hsocket⟩

theorem serverInv_initial : ServerInv config pubkey file (Server.initial file) where
  sent := by simp [Server.initial]
  atCall := ⟨rfl, rfl⟩

theorem Config.mul_blocksize_div (config : Config) (j : ℕ) :
    j * config.blocksize / config.blocksize = j :=
  Nat.mul_div_cancel j config.blocksize_pos

/-- The loop over the blocks of the window, by their index. -/
theorem Server.loop_eq {num : UInt8} {j : ℕ}
    (hlen : (s.data site).length = (fileWindow config file s.window).length) :
    s.loop site num (j * config.blocksize) =
      if j < blockCount config file s.window then
        { s with ctl := .sendto site num (j * config.blocksize) }
      else { s with ctl := .recvAck site (num - 1) } := by
  unfold Server.loop
  rw [hlen]
  exact if_congr (lt_segmentCount_iff config.blocksize_pos).symm rfl rfl

/-- The loop over the blocks, at the start of block `j`. -/
theorem serverInv_loop {num : UInt8} {j : ℕ}
    (hsent : ∀ d ∈ s.sent, Sent config pubkey file s.window s.socket d)
    (hbuf : Buffers config pubkey file s site)
    (hfresh : SocketFresh s) :
    ServerInv config pubkey file (s.loop site num (j * config.blocksize)) := by
  rw [Server.loop_eq hbuf.length_data]
  split_ifs with hj
  · exact ⟨hsent, hbuf, hfresh, j, hj, rfl⟩
  · exact ⟨hsent, hbuf, hfresh⟩

theorem serverInv_transmit {num : UInt8} {j : ℕ}
    (hsent : ∀ d ∈ s.sent, Sent config pubkey file s.window s.socket d)
    (hbuf : Buffers config pubkey file s site)
    (hfresh : SocketFresh s) (hj : j < blockCount config file s.window) :
    ServerInv config pubkey file (s.transmit config site num (j * config.blocksize)) := by
  unfold Server.transmit
  rw [hbuf.packet_eq, config.mul_blocksize_div, ← Nat.succ_mul]
  refine serverInv_loop ?_ hbuf ?_
  · intro d hd
    rcases List.mem_append.mp hd with hold | hnew
    · exact hsent d hold
    · rw [List.mem_singleton.mp hnew]
      exact ⟨⟨hbuf.window_le, hj, num, rfl⟩, le_rfl, le_rfl⟩
  · intro d hd hsocket
    rcases List.mem_append.mp hd with hold | hnew
    · exact hfresh d hold hsocket
    · rw [List.mem_singleton.mp hnew]

/-- `send_window` returned, with either value. -/
theorem serverInv_afterCall (success : Bool)
    (hsent : ∀ d ∈ s.sent, Sent config pubkey file s.window s.socket d)
    (hbuf : Buffers config pubkey file s site) :
    ServerInv config pubkey file (s.afterCall pubkey site success) := by
  have hnext : ∀ d ∈ s.sent, Sent config pubkey file (s.window + 1) s.socket d :=
    fun d hd => (hsent d hd).mono (Nat.le_succ _) le_rfl
  cases site with
  | lookAhead =>
    have hlt := hbuf.2.2.2
    refine ⟨hnext, hbuf.2.1, hbuf.2.2.1, hlt⟩
  | onlyPrev | lastCurr =>
    cases success with
    | false => exact ⟨hsent, by simp [Server.afterCall, AtCall]⟩
    | true => exact ⟨hnext, fun _ => congrArg (· + 1) hbuf.2⟩
  | prevThenCurr =>
    cases success with
    | false => exact ⟨hsent, by simp [Server.afterCall, AtCall]⟩
    | true => exact ⟨hnext, congrArg (encodeWith pubkey) hbuf.2.1, hbuf.2.2⟩

/-- The second `fread`, with window `s.window` in `prev_buf`. -/
theorem serverInv_readCurr (hsent : ∀ d ∈ s.sent, Sent config pubkey file s.window s.socket d)
    (hprev : s.prevBuf = fileWindow config file s.window)
    (hrest : s.rest = file.drop ((s.window + 1) * config.windowBytes))
    (hwindow : s.window ≤ lastWindow config file) :
    ServerInv config pubkey file (s.readCurr config pubkey) := by
  have hcurr : s.rest.take config.windowBytes = fileWindow config file (s.window + 1) := by
    rw [hrest, fileWindow, segment]
  have hrest' : s.rest.drop config.windowBytes =
      file.drop ((s.window + 2) * config.windowBytes) := by
    rw [hrest, List.drop_drop, ← Nat.succ_mul]
  have hlast := length_le_lastWindow config file
  have hprev' := congrArg (encodeWith pubkey) hprev
  unfold Server.readCurr
  rw [hcurr, hrest']
  dsimp only
  split_ifs with hshort hempty
  · refine ⟨hsent, hprev', ?_⟩
    -- nothing is left behind `prev_buf`
    by_contra hne
    have hlt : s.window < lastWindow config file := lt_of_le_of_ne hwindow hne
    have := lt_lastWindow_iff.mp hlt
    rw [fileWindow, length_segment] at hempty
    have := config.windowBytes_pos
    omega
  · refine ⟨hsent, hprev', rfl, ?_⟩
    show s.window + 1 = lastWindow config file
    rw [fileWindow, length_segment] at hshort hempty
    have hlt : s.window < lastWindow config file := lt_lastWindow_iff.mpr (by omega)
    have hge : ¬ s.window + 1 < lastWindow config file := by
      intro h
      have := lt_lastWindow_iff.mp h
      rw [Nat.succ_mul] at this
      omega
    omega
  · refine ⟨hsent, hprev', rfl, rfl, lt_lastWindow_iff.mpr ?_⟩
    show (s.window + 1) * config.windowBytes < file.length
    rw [fileWindow, length_segment] at hshort
    have := config.windowBytes_pos
    omega

theorem ServerInv.step {t : Server} {e : ServerEvent} (h : ServerInv config pubkey file s)
    (hstep : s.Step config pubkey e t) : ServerInv config pubkey file t := by
  obtain ⟨hsent, hat⟩ := h
  cases hstep with
  | fopen hctl =>
    rw [hctl] at hat
    exact ⟨hsent, hat⟩
  | fileFail => exact ⟨hsent, by simp [AtCall]⟩
  | readPrev hctl =>
    rw [hctl] at hat
    obtain ⟨hrest, hwindow⟩ := hat
    refine ⟨hsent, ?_, ?_, ?_⟩
    · show s.rest.take _ = fileWindow config file s.window
      simp [hrest, hwindow, fileWindow, segment]
    · show s.rest.drop _ = file.drop ((s.window + 1) * config.windowBytes)
      simp [hrest, hwindow]
    · show s.window ≤ lastWindow config file
      omega
  | readCurr hctl =>
    rw [hctl] at hat
    exact serverInv_readCurr hsent hat.1 hat.2.1 hat.2.2
  | @socket site hctl =>
    rw [hctl] at hat
    have hfresh : SocketFresh { s with socket := s.socket + 1 } := by
      intro d hd hsocket
      have hle := (hsent d hd).socket_le
      have hsocket : d.socket = s.socket + 1 := hsocket
      omega
    have hloop : ServerInv config pubkey file ({ s with socket := s.socket + 1 }.loop site
        s.initialSequenceNumber (0 * config.blocksize)) :=
      serverInv_loop (fun d hd => (hsent d hd).mono le_rfl (Nat.le_succ _)) hat hfresh
    rwa [Nat.zero_mul] at hloop
  | sendto hctl =>
    rw [hctl] at hat
    obtain ⟨hbuf, hfresh, j, hj, rfl⟩ := hat
    exact serverInv_transmit hsent hbuf hfresh hj
  | callFail hctl =>
    apply serverInv_afterCall false hsent
    rcases hctl with hctl | ⟨num, i, hctl⟩ | ⟨num, hctl⟩ <;> rw [hctl] at hat
    · exact hat
    · exact hat.1
    · exact hat.1
  | acknowledged hctl =>
    rw [hctl] at hat
    exact serverInv_afterCall true hsent hat.1
  | ignored hctl => exact ⟨hsent, hat⟩
  | timeout hctl =>
    rw [hctl] at hat
    exact ⟨hsent, hat.1⟩

/-- **Every run of a server child**, whatever fails and however often a window is sent again. -/
theorem reachable_serverInv (h : (serverSystem config pubkey file).Reachable s) :
    ServerInv config pubkey file s := by
  apply h.invariant
  · rintro _ rfl
    exact serverInv_initial
  · intro s e t _ hinv hstep
    exact hinv.step (Server.step_of_exec hstep)

/-! ## Sequence numbers -/

/-- The number a client acknowledges window `w` with. -/
def lastSequenceNumber (config : Config) (file : List UInt8) (w : ℕ) : UInt8 :=
  sequenceNumber config w (blockCount config file w) - 1

/-- The sequence number that `send_window` is at. -/
def NumberAt (config : Config) (file : List UInt8) (w : ℕ) : Ctl → Prop
  | .sendto _ num blockIndex => num = sequenceNumber config w (blockIndex / config.blocksize)
  | .recvAck _ expected => expected = lastSequenceNumber config file w
  | _ => True

structure NumberInv (config : Config) (file : List UInt8) (s : Server) : Prop where
  base : s.initialSequenceNumber = sequenceNumber config s.window 0
  sent : ∀ d ∈ s.sent, d.bytes.head? = some (sequenceNumber config d.window d.block)
  numberAt : NumberAt config file s.window s.ctl

theorem sequenceNumber_succ (w j : ℕ) :
    sequenceNumber config w j + 1 = sequenceNumber config w (j + 1) := by
  rw [sequenceNumber, sequenceNumber, ← Nat.add_assoc]
  exact (UInt8.ofNat_add _ 1).symm

theorem toNat_sequenceNumber {w j : ℕ} (hj : j ≤ config.windowsize) :
    (sequenceNumber config w j).toNat = sequenceBase config w + j := by
  have hbase := sequenceBase_le config w
  have hmax := config.checkWindowsize.2
  rw [sequenceNumber, UInt8.toNat_ofNat']
  omega

/-- The base of the next window, as `send_window` computes it. -/
theorem sequenceNumber_base_succ (config : Config) (w : ℕ) :
    UInt8.ofNat (((sequenceNumber config w 0).toNat + config.windowsize) %
      (sequenceNumberSpaceToWindowsizeRatio * config.windowsize)) =
      sequenceNumber config (w + 1) 0 := by
  rw [toNat_sequenceNumber (Nat.zero_le _), sequenceNumber, sequenceBase_succ, Nat.add_zero,
    Nat.add_zero]

theorem numberInv_loop {j : ℕ} (hbase : s.initialSequenceNumber = sequenceNumber config s.window 0)
    (hsent : ∀ d ∈ s.sent, d.bytes.head? = some (sequenceNumber config d.window d.block))
    (hj : j ≤ blockCount config file s.window)
    (hlen : (s.data site).length = (fileWindow config file s.window).length) :
    NumberInv config file
      (s.loop site (sequenceNumber config s.window j) (j * config.blocksize)) := by
  rw [Server.loop_eq hlen]
  split_ifs with hlt
  · exact ⟨hbase, hsent, congrArg _ (config.mul_blocksize_div j).symm⟩
  · obtain rfl : j = blockCount config file s.window := by omega
    exact ⟨hbase, hsent, rfl⟩

theorem NumberInv.step {t : Server} {e : ServerEvent} (h : NumberInv config file s)
    (hinv : ServerInv config pubkey file s) (hclean : s.Clean e)
    (hstep : s.Step config pubkey e t) : NumberInv config file t := by
  obtain ⟨hbase, hsent, hnum⟩ := h
  have hat := hinv.atCall
  cases hstep with
  | fopen | fileFail | readPrev | timeout => exact ⟨hbase, hsent, trivial⟩
  | ignored => exact ⟨hbase, hsent, hnum⟩
  | readCurr =>
    unfold Server.readCurr
    dsimp only
    split_ifs <;> exact ⟨hbase, hsent, trivial⟩
  | socket hctl =>
    rw [hctl] at hat
    have hloop : NumberInv config file ({ s with socket := s.socket + 1 }.loop _
        (sequenceNumber config s.window 0) (0 * config.blocksize)) :=
      numberInv_loop hbase hsent (Nat.zero_le _) (Buffers.length_data hat)
    rwa [Nat.zero_mul, ← hbase] at hloop
  | sendto hctl =>
    rw [hctl] at hat hnum
    obtain ⟨hbuf, -, j, hj, rfl⟩ := hat
    obtain rfl : _ = sequenceNumber config s.window (j * config.blocksize / config.blocksize) :=
      hnum
    unfold Server.transmit
    rw [hbuf.packet_eq, config.mul_blocksize_div, sequenceNumber_succ, ← Nat.succ_mul]
    refine numberInv_loop hbase ?_ hj hbuf.length_data
    intro d hd
    rcases List.mem_append.mp hd with hold | hnew
    · exact hsent d hold
    · rw [List.mem_singleton.mp hnew]
      rfl
  | @callFail site hctl =>
    have hne := hclean.site_ne hctl
    cases site with
    | lookAhead => exact absurd rfl hne
    | onlyPrev | prevThenCurr | lastCurr => exact ⟨hbase, hsent, trivial⟩
  | @acknowledged site num hctl =>
    have hnext := sequenceNumber_base_succ config s.window
    rw [← hbase] at hnext
    unfold Server.acknowledged
    cases site <;> exact ⟨hnext, hsent, trivial⟩

/-- **The sequence numbers**, in the runs in which no failure is ignored. -/
theorem reachable_numberInv
    (h : ((serverSystem config pubkey file).restrict Server.Clean).Reachable s) :
    NumberInv config file s := by
  apply h.invariant
  · rintro _ rfl
    exact ⟨rfl, by simp [Server.initial], trivial⟩
  · intro s e t hreach hinv hstep
    exact hinv.step (reachable_serverInv hreach.of_restrict) hstep.2
      (Server.step_of_exec hstep.1)

end Server

end CS536Labs.Lab4
