import CS536Labs.Lab4.PacketBlocks

/-!
# The window the client is receiving

`Receiving c` says what the locals of `receive_window_and_cancel_timeout` stand for: a number is
marked when its block is in its row, and the end of the file is known when the final block of the
file has been received. `ClientInv` is the invariant of the client between datagrams, and
`ClientInv.receive` the step on a datagram of the current window or of one of the other parity;
such a datagram of an earlier window is answered with the ACK that its sender is waiting for.
-/

namespace CS536Labs.Lab4

variable {config : Config} {key : Option UInt32} {file : List UInt8}
  {uninit : ℕ → ℕ → ℕ → UInt8} {c : Client}

/-- The number of blocks the client waits for: all of a full window, unless it has seen the end of
the file. -/
def Client.target (config : Config) (file : List UInt8) (c : Client) : ℕ :=
  if c.isEof then blockCount config file c.windows else config.windowsize

/-- What the client knows of window `c.windows`. -/
structure Receiving (config : Config) (file : List UInt8) (c : Client) : Prop where
  window_le : c.windows ≤ lastWindow config file
  base : c.initialSequenceNumber = sequenceBase config c.windows
  rows : ∀ j, c.received j = true → j < blockCount config file c.windows ∧
    fileBlock config file c.windows j <+: c.windowData j
  length_row : ∀ j, (c.windowData j).length = config.blocksize
  isEof_iff : c.isEof = true ↔ c.windows = lastWindow config file ∧
    c.received (blockCount config file c.windows - 1) = true
  lastNum : c.lastNum.toNat + 1 = sequenceBase config c.windows + c.target config file

theorem Receiving.target_pos (h : Receiving config file c) : 0 < c.target config file := by
  unfold Client.target
  split_ifs with heof
  · have := (h.rows _ (h.isEof_iff.mp heof).2).1
    omega
  · exact config.windowsize_pos

theorem Receiving.base_toNat (h : Receiving config file c) :
    c.base.toNat = sequenceBase config c.windows := by
  have hbase := sequenceBase_le config c.windows
  have hmax := config.checkWindowsize.2
  rw [Client.base, h.base, UInt8.toNat_ofNat']
  omega

theorem Receiving.completed_iff (h : Receiving config file c) :
    c.completed = true ↔ ∀ j < c.target config file, c.received j = true := by
  have hbase := h.base_toNat
  have hlast := h.lastNum
  have hcount : c.lastNum.toNat + 1 - c.base.toNat = c.target config file := by omega
  simp [Client.completed, hcount]

/-- The next window, before its first datagram. -/
theorem receiving_enter (hw : c.windows ≤ lastWindow config file)
    (hbase : c.initialSequenceNumber = sequenceBase config c.windows) :
    Receiving config file (c.enter config uninit) where
  window_le := hw
  base := hbase
  rows := by simp [Client.enter]
  length_row := by simp [Client.enter]
  isEof_iff := by simp [Client.enter]
  lastNum := by
    have hle := sequenceBase_le config c.windows
    have hmax := config.checkWindowsize
    have htarget : (c.enter config uninit).target config file = config.windowsize := rfl
    have hbase' : c.base.toNat = sequenceBase config c.windows := by
      rw [Client.base, hbase, UInt8.toNat_ofNat']
      omega
    show (UInt8.ofNat (c.base.toNat + config.windowsize - 1)).toNat + 1 =
      sequenceBase config c.windows + (c.enter config uninit).target config file
    rw [htarget, hbase', UInt8.toNat_ofNat']
    omega

/-- The datagram whose length tells the end of the file. -/
theorem OnWire.length_ne_iff {d : Datagram} (hd : OnWire config key file d) :
    d.bytes.length ≠ config.blocksize + 1 ↔
      d.window = lastWindow config file ∧ d.block + 1 = blockCount config file d.window := by
  rw [← length_payload_ne_iff key hd.window_le hd.block_lt, hd.length_bytes]
  omega

theorem OnWire.toNat_sequenceNumber {d : Datagram} (hd : OnWire config key file d) :
    (sequenceNumber config d.window d.block).toNat = sequenceBase config d.window + d.block := by
  have hcount := blockCount_le config file d.window
  have hj := hd.block_lt
  exact Lab4.toNat_sequenceNumber (by omega)

theorem Receiving.index_eq (h : Receiving config file c) {d : Datagram}
    (hd : OnWire config key file d) (hw : d.window = c.windows) :
    (sequenceNumber config d.window d.block).toNat - c.base.toNat = d.block := by
  rw [hd.toNat_sequenceNumber, h.base_toNat, hw]
  omega

theorem Receiving.store_received (h : Receiving config file c) {d : Datagram}
    (hd : OnWire config key file d) (hw : d.window = c.windows) (i : ℕ) :
    (c.store config (sequenceNumber config d.window d.block)
      (fileBlock config file d.window d.block) d.bytes.length).received i = true ↔
      i = d.block ∨ c.received i = true := by
  unfold Client.store
  rw [h.index_eq hd hw]
  rcases eq_or_ne i d.block with rfl | hne
  · simp
  · simp [hne]

/-- **A block of the current window is stored.** -/
theorem Receiving.store (h : Receiving config file c) {d : Datagram}
    (hd : OnWire config key file d) (hw : d.window = c.windows) :
    Receiving config file (c.store config (sequenceNumber config d.window d.block)
      (fileBlock config file d.window d.block) d.bytes.length) := by
  have hnum := hd.toNat_sequenceNumber
  have hlen := hd.length_ne_iff
  have hj := hd.block_lt
  have hreceived := h.store_received hd hw
  unfold Client.store at hreceived ⊢
  rw [h.index_eq hd hw] at hreceived ⊢
  rw [hw] at hnum hlen hj
  have heof : (c.isEof || decide (d.bytes.length ≠ config.blocksize + 1)) = true ↔
      c.isEof = true ∨
        c.windows = lastWindow config file ∧ d.block + 1 = blockCount config file c.windows := by
    rw [Bool.or_eq_true, decide_eq_true_iff, hlen]
  refine ⟨h.window_le, h.base, ?_, ?_, ?_, ?_⟩
  · intro i hi
    rcases (hreceived i).mp hi with rfl | hold
    · refine ⟨hj, ?_⟩
      simp only [Function.update_self, hw]
      exact List.prefix_append _ _
    · obtain ⟨hlt, hprefix⟩ := h.rows i hold
      refine ⟨hlt, ?_⟩
      rcases eq_or_ne i d.block with rfl | hne
      · simp only [Function.update_self, hw]
        exact List.prefix_append _ _
      · simpa only [Function.update_of_ne hne] using hprefix
  · intro i
    have hle := length_fileBlock_le config file d.window d.block
    rcases eq_or_ne i d.block with rfl | hne
    · simp only [Function.update_self, List.length_append, List.length_drop, h.length_row]
      omega
    · simpa only [Function.update_of_ne hne] using h.length_row i
  · show (c.isEof || decide (d.bytes.length ≠ config.blocksize + 1)) = true ↔
      c.windows = lastWindow config file ∧ Function.update c.received d.block true
        (blockCount config file c.windows - 1) = true
    rw [heof, hreceived, h.isEof_iff]
    constructor
    · rintro (⟨hlast, hold⟩ | ⟨hlast, hcount⟩)
      · exact ⟨hlast, .inr hold⟩
      · exact ⟨hlast, .inl (by omega)⟩
    · rintro ⟨hlast, hcount | hold⟩
      · exact .inr ⟨hlast, by omega⟩
      · exact .inl ⟨hlast, hold⟩
  · show (if d.bytes.length ≠ config.blocksize + 1 then sequenceNumber config d.window d.block
        else c.lastNum).toNat + 1 = sequenceBase config c.windows +
      if (c.isEof || decide (d.bytes.length ≠ config.blocksize + 1)) = true then
        blockCount config file c.windows else config.windowsize
    by_cases hne : d.bytes.length ≠ config.blocksize + 1
    · have hcount := (hlen.mp hne).2
      rw [if_pos hne, if_pos (by simp [hne]), hw, hnum]
      omega
    · have hlast := h.lastNum
      rw [Client.target] at hlast
      simpa [hne] using hlast

/-- The window is complete exactly when all its blocks are there, and then the client knows whether
it is the final one. -/
theorem Receiving.completed_spec (h : Receiving config file c) (hc : c.completed = true) :
    (∀ j < blockCount config file c.windows, c.received j = true) ∧
      c.target config file = blockCount config file c.windows ∧
      (c.isEof = true ↔ c.windows = lastWindow config file) := by
  have hall := h.completed_iff.mp hc
  have hpos := h.target_pos
  have htarget : c.target config file = blockCount config file c.windows := by
    unfold Client.target at hall ⊢
    split_ifs at hall ⊢ with heof
    · rfl
    · have hlast := (h.rows _ (hall (config.windowsize - 1) (by
        have := config.windowsize_pos
        omega))).1
      have hle := blockCount_le config file c.windows
      omega
  rw [htarget] at hall hpos
  refine ⟨hall, htarget, fun heof => (h.isEof_iff.mp heof).1, fun hw => ?_⟩
  exact h.isEof_iff.mpr ⟨hw, hall _ (by omega)⟩

/-- The size that `append_window_to_file` is called with. -/
theorem Receiving.windowsize_eq (h : Receiving config file c) :
    (c.lastNum - c.base + 1).toNat = c.target config file := by
  have hlast := h.lastNum
  have hbase := h.base_toNat
  have hpos := h.target_pos
  have hmax := config.checkWindowsize.2
  have hle : c.target config file ≤ config.windowsize := by
    unfold Client.target
    split_ifs
    · exact blockCount_le config file c.windows
    · exact le_rfl
  have hsub : (c.lastNum - c.base).toNat = c.lastNum.toNat - c.base.toNat :=
    UInt8.toNat_sub_of_le _ _ (UInt8.le_iff_toNat_le.mpr (by omega))
  rw [UInt8.toNat_add, hsub, UInt8.toNat_one]
  omega

/-- **The window that is appended**, when the size given for the last row is right. -/
theorem Receiving.append_eq (h : Receiving config file c)
    (hall : ∀ j < blockCount config file c.windows, c.received j = true) {lastBlocksize : ℕ}
    (hlast : ∀ j, j + 1 = blockCount config file c.windows →
      (fileBlock config file c.windows j).length = lastBlocksize) :
    appendWindowToFile config c.windowData (blockCount config file c.windows) lastBlocksize =
      fileWindow config file c.windows := by
  have hrow : ∀ j ∈ List.range (blockCount config file c.windows),
      (c.windowData j).take
        (if j = blockCount config file c.windows - 1 then lastBlocksize else config.blocksize) =
      fileBlock config file c.windows j := by
    intro j hj
    have hj := List.mem_range.mp hj
    have hprefix := (h.rows j (hall j hj)).2
    have hlen : (fileBlock config file c.windows j).length =
        if j = blockCount config file c.windows - 1 then lastBlocksize else config.blocksize := by
      split_ifs with heq
      · exact hlast j (by omega)
      · exact length_fileBlock_of_not_last h.window_le hj (by omega)
    rw [← hlen]
    exact (List.prefix_iff_eq_take.mp hprefix).symm
  unfold appendWindowToFile
  rw [List.flatMap_congr hrow]
  show (List.range _).flatMap (segment (fileWindow config file c.windows) config.blocksize) = _
  rw [flatMap_segment]
  exact List.take_of_length_le (le_segmentCount_mul config.blocksize_pos)

/-- The ACK of a complete window carries the number of its last block. -/
theorem Receiving.lastNum_eq (h : Receiving config file c) (hc : c.completed = true) :
    c.lastNum = lastSequenceNumber config file c.windows := by
  obtain ⟨-, htarget, -⟩ := h.completed_spec hc
  have hlast := h.lastNum
  have hbase := sequenceBase_le config c.windows
  have hcount := blockCount_le config file c.windows
  have hmax := config.checkWindowsize.2
  have hnext : sequenceNumber config c.windows (blockCount config file c.windows) =
      c.lastNum + 1 := by
    apply UInt8.toNat_inj.mp
    rw [toNat_sequenceNumber hcount, UInt8.toNat_add, UInt8.toNat_one]
    omega
  rw [lastSequenceNumber, hnext, UInt8.add_sub_cancel]

/-! ## The client between datagrams -/

/-- The invariant of the client. -/
structure ClientInv (config : Config) (file : List UInt8) (c : Client) : Prop where
  windows_le : c.windows ≤ lastWindow config file + 1
  /-- Until the final window is appended, the file is what precedes the current window. -/
  file_eq : c.windows ≤ lastWindow config file → c.file = file.take (c.windows * config.windowBytes)
  receiving : c.ret = none → Receiving config file c
  done : c.ret = some 0 → c.windows = lastWindow config file + 1
  /-- The request timer runs only before the first datagram. -/
  timer : c.requestTimer = true → c.windows = 0

/-- What one iteration of a client in window `k` does with a datagram of window `w`. -/
structure ReceiveSpec (config : Config) (file : List UInt8) (w k : ℕ) (r : Client × List UInt8) :
    Prop where
  inv : ClientInv config file r.1
  windows : r.1.windows = k ∨ r.1.windows = k + 1 ∧ w = k
  acks : ∀ num ∈ r.2, num = lastSequenceNumber config file w ∧ w < r.1.windows

theorem ClientInv.fail (h : ClientInv config file c) :
    ClientInv config file { c with ret := some (-1) } :=
  ⟨h.windows_le, h.file_eq, by simp, by simp, h.timer⟩

/-- An ACK for an earlier window changes nothing else. -/
theorem ClientInv.reply (h : ClientInv config file c) {w : ℕ} (hw : w < c.windows) (o : Outcomes) :
    ReceiveSpec config file w c.windows (c.reply (lastSequenceNumber config file w) o) := by
  unfold Client.reply
  split_ifs
  · exact ⟨h.fail, .inl rfl, by simp⟩
  · exact ⟨h, .inl rfl, by simpa using hw⟩

/-- **The window is complete**: its bytes are appended and it is acknowledged. -/
theorem ClientInv.complete (h : ClientInv config file c) (hrecv : Receiving config file c)
    (hret : c.ret = none) (htimer : c.requestTimer = false) (hc : c.completed = true) {j : ℕ}
    (hj : j < blockCount config file c.windows) {o : Outcomes} (ho : o.AppendOk) :
    ReceiveSpec config file c.windows c.windows
      (c.complete config uninit (fileBlock config file c.windows j).length o) := by
  obtain ⟨hall, htarget, heof⟩ := hrecv.completed_spec hc
  have hle := hrecv.window_le
  have hnum := hrecv.lastNum_eq hc
  have hfile : c.windows + 1 ≤ lastWindow config file → c.file ++
      appendWindowToFile config c.windowData (c.lastNum - c.base + 1).toNat
        (fileBlock config file c.windows j).length =
      file.take ((c.windows + 1) * config.windowBytes) := by
    intro hlt
    have hfull : ∀ i, i < blockCount config file c.windows →
        (fileBlock config file c.windows i).length = config.blocksize := fun i hi =>
      length_fileBlock_of_not_last hle hi (by omega)
    rw [hrecv.windowsize_eq, htarget, hfull j hj, hrecv.append_eq hall fun i hi =>
      hfull i (by omega), h.file_eq hle, fileWindow, take_append_segment]
  have hacks : ∀ n, ∀ num ∈ List.replicate n c.lastNum,
      num = lastSequenceNumber config file c.windows ∧ c.windows < c.windows + 1 := by
    intro n num hmem
    rw [List.eq_of_mem_replicate hmem]
    exact ⟨hnum, Nat.lt_succ_self _⟩
  rw [Client.complete_eq ho]
  unfold Client.finish
  dsimp only
  have htimer' : c.requestTimer = true → c.windows + 1 = 0 := by simp [htimer]
  generalize hcount : (if c.isEof = true then numEofAcks else 1) = count
  split_ifs with hfail hlast
  · exact ⟨⟨Nat.succ_le_succ hle, hfile, by simp, by simp, htimer'⟩, .inr ⟨rfl, rfl⟩, hacks _⟩
  · have hwindow := heof.mp hlast
    exact ⟨⟨Nat.succ_le_succ hle, hfile, by simp, fun _ => congrArg (· + 1) hwindow, htimer'⟩,
      .inr ⟨rfl, rfl⟩, hacks _⟩
  · have hlt : c.windows < lastWindow config file := lt_of_le_of_ne hle (mt heof.mpr hlast)
    refine ⟨⟨Nat.succ_le_succ hle, hfile, fun _ => receiving_enter hlt ?_, fun hdone => ?_,
      htimer'⟩, .inr ⟨rfl, rfl⟩, hacks _⟩
    · show (c.initialSequenceNumber + config.windowsize) %
        (sequenceNumberSpaceToWindowsizeRatio * config.windowsize) =
          sequenceBase config (c.windows + 1)
      rw [hrecv.base, sequenceBase_succ]
    · have hdone : c.ret = some 0 := hdone
      rw [hret] at hdone
      cases hdone

theorem ofNat_sub_one {n : ℕ} (hn : 0 < n) : UInt8.ofNat n - 1 = UInt8.ofNat (n - 1) := by
  obtain ⟨m, rfl⟩ := Nat.exists_eq_succ_of_ne_zero hn.ne'
  rw [Nat.succ_eq_add_one, UInt8.ofNat_add, Nat.add_sub_cancel]
  exact UInt8.add_sub_cancel _ _

theorem lastSequenceNumber_of_lt {w : ℕ} (hw : w < lastWindow config file) :
    lastSequenceNumber config file w =
      UInt8.ofNat (sequenceBase config w + config.windowsize - 1) := by
  have hpos := config.windowsize_pos
  rw [lastSequenceNumber, blockCount_of_lt hw, sequenceNumber, ofNat_sub_one (by omega)]

/-- **The ACK for a lagging sender**, one window or any odd number of windows behind, is the one it
waits for, for either parity of the base. -/
theorem Receiving.lagging (h : Receiving config file c) {d : Datagram}
    (hd : OnWire config key file d) (hlt : d.window < c.windows)
    (hparity : d.window % 2 ≠ c.windows % 2) :
    (sequenceNumber config d.window d.block < c.base ∧
      c.base - 1 = lastSequenceNumber config file d.window) ∨
    (¬ sequenceNumber config d.window d.block < c.base ∧
      (sequenceNumber config d.window d.block).toNat ≥ c.base.toNat + config.windowsize ∧
      UInt8.ofNat (c.base.toNat + config.windowsize * sequenceNumberSpaceToWindowsizeRatio - 1) =
        lastSequenceNumber config file d.window) := by
  have hnum := hd.toNat_sequenceNumber
  have hbase := h.base_toNat
  have hw : d.window < lastWindow config file := lt_of_lt_of_le hlt h.window_le
  have hcount := blockCount_of_lt hw
  have hj := hd.block_lt
  have hpos := config.windowsize_pos
  rw [lastSequenceNumber_of_lt hw, UInt8.lt_iff_toNat_lt]
  rcases Nat.mod_two_eq_zero_or_one c.windows with hk | hk
  · have hb : sequenceBase config c.windows = 0 := if_pos hk
    have hb' : sequenceBase config d.window = config.windowsize := if_neg (by omega)
    refine .inr ⟨by omega, by omega, ?_⟩
    rw [hb', hbase, hb, sequenceNumberSpaceToWindowsizeRatio]
    congr 1
    omega
  · have hb : sequenceBase config c.windows = config.windowsize := if_neg (by omega)
    have hb' : sequenceBase config d.window = 0 := if_pos (by omega)
    refine .inl ⟨by omega, ?_⟩
    rw [hb', Client.base, h.base, hb, ofNat_sub_one hpos, Nat.zero_add]

/-- Stopping the request timer. -/
theorem ClientInv.stopTimer (h : ClientInv config file c) :
    ClientInv config file { c with requestTimer := false } where
  windows_le := h.windows_le
  file_eq := h.file_eq
  receiving hret := by
    obtain ⟨hw, hbase, hrows, hlen, heof, hlast⟩ := h.receiving hret
    exact ⟨hw, hbase, hrows, hlen, heof, hlast⟩
  done := h.done
  timer := by simp

/-- `c'` is the client after it has stored the block of a datagram of its window, before it looks
whether the window is complete. -/
structure Stored (config : Config) (file : List UInt8) (d : Datagram) (c c' : Client) : Prop where
  inv : ClientInv config file c'
  receiving : Receiving config file c'
  received : ∀ i, c'.received i = true ↔ i = d.block ∨ c.received i = true
  windows : c'.windows = c.windows
  file : c'.file = c.file
  ret : c'.ret = none
  timer : c'.requestTimer = false

/-- A datagram of the current window. -/
theorem ClientInv.receive_current (h : ClientInv config file c) (hret : c.ret = none)
    {d : Datagram} (hd : OnWire config key file d) (hw : d.window = c.windows)
    (uninit : ℕ → ℕ → ℕ → UInt8) (o : Outcomes) :
    ∃ c', Stored config file d c c' ∧ c.receive config key uninit d.bytes o =
      if c'.completed then
        c'.complete config uninit (fileBlock config file c.windows d.block).length o
      else (c', []) := by
  have h' := h.stopTimer
  have hrecv := h'.receiving hret
  have hstore := hrecv.store hd hw
  have hbase : (Client.base { c with requestTimer := false }).toNat =
      sequenceBase config c.windows := hrecv.base_toNat
  have hnum := hd.toNat_sequenceNumber
  have hcount := blockCount_le config file d.window
  have hj := hd.block_lt
  have hlow : ¬ sequenceNumber config d.window d.block <
      Client.base { c with requestTimer := false } := by
    rw [UInt8.lt_iff_toNat_lt, hnum, hbase, hw]
    omega
  have hhigh : ¬ (sequenceNumber config d.window d.block).toNat ≥
      (Client.base { c with requestTimer := false }).toNat + config.windowsize := by
    rw [hnum, hbase, hw]
    omega
  have hinv : ClientInv config file (Client.store config { c with requestTimer := false }
      (sequenceNumber config d.window d.block) (fileBlock config file d.window d.block)
      d.bytes.length) :=
    ⟨h'.windows_le, h'.file_eq, fun _ => hstore, h'.done, h'.timer⟩
  refine ⟨_, ⟨hinv, hstore, hrecv.store_received hd hw, rfl, rfl, hret, rfl⟩, ?_⟩
  rw [receive_onWire hd]
  dsimp only
  rw [if_neg hlow, if_neg hhigh, hw]

/-- **One iteration of the client**, on a datagram of the current window or of an earlier window of
the other parity. -/
theorem ClientInv.receive (h : ClientInv config file c) (hret : c.ret = none) {d : Datagram}
    (hd : OnWire config key file d)
    (hw : d.window = c.windows ∨ d.window < c.windows ∧ d.window % 2 ≠ c.windows % 2)
    {o : Outcomes} (ho : o.AppendOk) :
    ReceiveSpec config file d.window c.windows (c.receive config key uninit d.bytes o) := by
  rcases hw with hw | ⟨hlt, hparity⟩
  · obtain ⟨c', hstored, heq⟩ := h.receive_current hret hd hw uninit o
    have hj := hd.block_lt
    rw [heq, hw, ← hstored.windows]
    rw [hw, ← hstored.windows] at hj
    split_ifs with hc
    · exact hstored.inv.complete hstored.receiving hstored.ret hstored.timer hc hj ho
    · exact ⟨hstored.inv, .inl rfl, by simp⟩
  · have h' := h.stopTimer
    rw [receive_onWire hd]
    dsimp only
    rcases (h'.receiving hret).lagging hd hlt hparity with ⟨hlow, hack⟩ | ⟨hlow, hhigh, hack⟩
    · rw [if_pos hlow, hack]
      exact h'.reply hlt o
    · rw [if_neg hlow, if_pos hhigh, hack]
      exact h'.reply hlt o

/-- What one iteration does with the marks of the client in window `c.windows`: a datagram of that
window adds its own, and the window is left when all its blocks have theirs. -/
structure MarksSpec (config : Config) (file : List UInt8) (c : Client) (d : Datagram)
    (c' : Client) :
    Prop where
  marked : c'.ret = none → ∀ j, c'.received j = true → c'.windows = c.windows ∧
    (c.received j = true ∨ d.window = c.windows ∧ d.block = j)
  left : c'.windows ≠ c.windows → c'.windows = c.windows + 1 ∧
    ∀ j < blockCount config file c.windows,
      c.received j = true ∨ d.window = c.windows ∧ d.block = j

/-- The array of the marks is cleared for the next window. -/
theorem Client.finish_received {c : Client} {o : Outcomes}
    (h : (c.finish config uninit o).1.ret = none) (j : ℕ) :
    (c.finish config uninit o).1.received j = false := by
  unfold Client.finish at h ⊢
  dsimp only at h ⊢
  split_ifs at h ⊢
  rfl

/-- **The marks**, for the datagrams that `ClientInv.receive` is about. -/
theorem ClientInv.receive_marks (h : ClientInv config file c) (hret : c.ret = none) {d : Datagram}
    (hd : OnWire config key file d)
    (hw : d.window = c.windows ∨ d.window < c.windows ∧ d.window % 2 ≠ c.windows % 2)
    {o : Outcomes} (ho : o.AppendOk) :
    MarksSpec config file c d (c.receive config key uninit d.bytes o).1 := by
  rcases hw with hw | ⟨hlt, hparity⟩
  · obtain ⟨c', hstored, heq⟩ := h.receive_current hret hd hw uninit o
    have hmark : ∀ j, c'.received j = true →
        c.received j = true ∨ d.window = c.windows ∧ d.block = j := by
      intro j hj
      rcases (hstored.received j).mp hj with rfl | hold
      · exact .inr ⟨hw, rfl⟩
      · exact .inl hold
    rw [heq]
    split_ifs with hc
    · have hall := (hstored.receiving.completed_spec hc).1
      rw [hstored.windows] at hall
      refine ⟨fun hnone j hj => ?_, fun _ => ⟨?_, fun j hj => hmark j (hall j hj)⟩⟩
      · rw [Client.complete_eq ho] at hnone hj
        cases (Client.finish_received hnone j).symm.trans hj
      · rw [Client.complete_windows ho, hstored.windows]
    · exact ⟨fun _ j hj => ⟨hstored.windows, hmark j hj⟩, fun hne => absurd hstored.windows hne⟩
  · have hreply : ∀ num, MarksSpec config file c d
        (({ c with requestTimer := false } : Client).reply num o).1 := by
      intro num
      unfold Client.reply
      split_ifs
      · exact ⟨fun _ j hj => ⟨rfl, .inl hj⟩, fun hne => absurd rfl hne⟩
      · exact ⟨fun _ j hj => ⟨rfl, .inl hj⟩, fun hne => absurd rfl hne⟩
    rw [receive_onWire hd]
    dsimp only
    rcases (h.stopTimer.receiving hret).lagging hd hlt hparity with ⟨hlow, -⟩ | ⟨hlow, hhigh, -⟩
    · rw [if_pos hlow]
      exact hreply _
    · rw [if_neg hlow, if_pos hhigh]
      exact hreply _

end CS536Labs.Lab4
