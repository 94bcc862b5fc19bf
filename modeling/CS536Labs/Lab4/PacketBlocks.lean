import CS536Labs.Lab4.RoadrunnerClient
import CS536Labs.Lab4.ServerWindows

/-!
# What the client reads off a packet

The client knows the end of the file from the length of a datagram: every packet is of
`blocksize + 1` bytes except that of the final block, which is shorter or, when the block is full,
padded by a dummy byte. `length_payload_ne_iff` is that equivalence, at every boundary of the block
and window sizes; `blocksizeOf_payload` and `decode_payload` say that the client finds the block.

`OnWire` is what the invariants of the server say about a datagram, and `receive_onWire` is the
iteration of the client on such a datagram.
-/

namespace CS536Labs.Lab4

variable {config : Config} {key : Option UInt32} {file : List UInt8} {w j : ℕ}

/-! ## Lengths -/

theorem length_fileBlock_le (config : Config) (file : List UInt8) (w j : ℕ) :
    (fileBlock config file w j).length ≤ config.blocksize := by
  rw [fileBlock, length_segment]
  omega

/-- Before the final block of the file all are full. -/
theorem length_fileBlock_of_not_last (hw : w ≤ lastWindow config file)
    (hj : j < blockCount config file w)
    (hlast : ¬ (w = lastWindow config file ∧ j + 1 = blockCount config file w)) :
    (fileBlock config file w j).length = config.blocksize := by
  rcases Nat.lt_or_ge (j + 1) (blockCount config file w) with hlt | hge
  · exact length_segment_of_succ_lt config.blocksize_pos hlt
  · have hlt : w < lastWindow config file := by omega
    have hcount := blockCount_of_lt hlt
    refine (segment_last_full_iff config.blocksize_pos (by unfold blockCount at *; omega)).mpr ?_
    have hj' : j + 1 = config.windowsize := by omega
    rw [length_fileWindow_of_lt hlt, ← Nat.succ_mul, Nat.succ_eq_add_one, hj', Config.windowBytes,
      Nat.mul_comm]

/-- A packet is padded when its block is the final one of the file and full. -/
theorem padded_iff :
    (w = lastWindow config file ∧
      j * config.blocksize + config.blocksize = (fileWindow config file w).length) ↔
    (w = lastWindow config file ∧ j + 1 = blockCount config file w) ∧
      (fileBlock config file w j).length = config.blocksize := by
  constructor
  · rintro ⟨hw, hend⟩
    have hcount : j + 1 = blockCount config file w := by
      rw [blockCount, ← hend, ← Nat.succ_mul, segmentCount_of_dvd config.blocksize_pos]
    exact ⟨⟨hw, hcount⟩, (segment_last_full_iff config.blocksize_pos hcount).mpr hend⟩
  · rintro ⟨⟨hw, hcount⟩, hfull⟩
    exact ⟨hw, (segment_last_full_iff config.blocksize_pos hcount).mp hfull⟩

theorem length_payload :
    (payload config key file w j).length = (fileBlock config file w j).length +
      if (w = lastWindow config file ∧ j + 1 = blockCount config file w) ∧
        (fileBlock config file w j).length = config.blocksize then 1 else 0 := by
  simp only [payload, padded_iff, List.length_append, length_encodeWith]
  split_ifs <;> rfl

/-- **The end of the file shows in the length** of the final packet and of no other. -/
theorem length_payload_ne_iff (key : Option UInt32) (hw : w ≤ lastWindow config file)
    (hj : j < blockCount config file w) :
    (payload config key file w j).length ≠ config.blocksize ↔
      w = lastWindow config file ∧ j + 1 = blockCount config file w := by
  rw [length_payload]
  by_cases hlast : w = lastWindow config file ∧ j + 1 = blockCount config file w
  · simp only [hlast, and_self, true_and, iff_true]
    split_ifs with hfull
    · omega
    · exact hfull
  · have hlen := length_fileBlock_of_not_last hw hj hlast
    simp [hlast, hlen]

theorem length_payload_le (config : Config) (key : Option UInt32) (file : List UInt8) (w j : ℕ) :
    (payload config key file w j).length ≤ config.blocksize + 1 := by
  have hle := length_fileBlock_le config file w j
  rw [length_payload]
  split_ifs <;> omega

/-- The client computes the size of the block from the length of the datagram. -/
theorem blocksizeOf_payload (config : Config) (key : Option UInt32) (file : List UInt8)
    (w j : ℕ) : blocksizeOf config ((payload config key file w j).length + 1) =
      (fileBlock config file w j).length := by
  have hle := length_fileBlock_le config file w j
  rw [length_payload, blocksizeOf]
  split_ifs <;> omega

/-- **The client decodes the block.** -/
theorem decode_payload (w j : ℕ) :
    decodeWith key ((payload config key file w j).take (fileBlock config file w j).length) =
      fileBlock config file w j := by
  have htake : (payload config key file w j).take (fileBlock config file w j).length =
      encodeWith key (fileBlock config file w j) := by
    rw [payload]
    exact List.take_left' (length_encodeWith _ _)
  rw [htake]
  rcases key with _ | key
  · rfl
  · exact bbdecodeData_bbencodeData _ key

/-! ## Datagrams of the server -/

/-- What the invariants of the server say about a datagram. -/
structure OnWire (config : Config) (key : Option UInt32) (file : List UInt8) (d : Datagram) :
    Prop where
  window_le : d.window ≤ lastWindow config file
  block_lt : d.block < blockCount config file d.window
  bytes_eq : d.bytes =
    sequenceNumber config d.window d.block :: payload config key file d.window d.block

theorem onWire_of_reachable {s : Server}
    (h : ((serverSystem config key file).restrict Server.Clean).Reachable s) {d : Datagram}
    (hd : d ∈ s.sent) : OnWire config key file d := by
  obtain ⟨hw, hj, num, hbytes⟩ := ((reachable_serverInv h.of_restrict).sent d hd).carries
  have hnum := (reachable_numberInv h).sent d hd
  rw [hbytes, List.head?_cons, Option.some.injEq] at hnum
  exact ⟨hw, hj, by rw [hbytes, hnum]⟩

theorem OnWire.length_bytes {d : Datagram} (h : OnWire config key file d) :
    d.bytes.length = (payload config key file d.window d.block).length + 1 := by
  rw [h.bytes_eq, List.length_cons]

/-- The client's iteration on a datagram of the server. -/
theorem receive_onWire {d : Datagram} (h : OnWire config key file d)
    (uninit : ℕ → ℕ → ℕ → UInt8) (c : Client) (o : Outcomes) :
    c.receive config key uninit d.bytes o =
      let c : Client := { c with requestTimer := false }
      let num := sequenceNumber config d.window d.block
      if num < c.base then c.reply (c.base - 1) o
      else if num.toNat ≥ c.base.toNat + config.windowsize then
        c.reply (UInt8.ofNat (c.base.toNat +
          config.windowsize * sequenceNumberSpaceToWindowsizeRatio - 1)) o
      else
        let c := c.store config num (fileBlock config file d.window d.block) d.bytes.length
        if c.completed then
          c.complete config uninit (fileBlock config file d.window d.block).length o
        else (c, []) := by
  have hle := length_payload_le config key file d.window d.block
  have htake : d.bytes.take (config.blocksize + 2) = d.bytes :=
    List.take_of_length_le (by rw [h.length_bytes]; omega)
  have hsize := blocksizeOf_payload config key file d.window d.block
  have hdecode : decodePacket d.bytes (fileBlock config file d.window d.block).length =
      (sequenceNumber config d.window d.block, (payload config key file d.window d.block).take
        (fileBlock config file d.window d.block).length) := by
    rw [h.bytes_eq]
    rfl
  have hpos : ¬ d.bytes.length = 0 := by rw [h.length_bytes]; omega
  rw [← h.length_bytes] at hsize
  simp only [Client.receive, htake, if_neg hpos, hsize, hdecode, decode_payload]

end CS536Labs.Lab4
