import CS536Labs.Foundations.Access
import CS536Labs.Lab4.WrittenOnce

/-!
# The arrays of the RoadRunner receiver

`Client.accesses` are the accesses of one iteration of `receive_window_and_cancel_timeout` to its
arrays, with those of `decode_packet`, `bbdecode_data` and `append_window_to_file`.
`receive_indexSafe` says that they are in bounds whatever the datagrams are: the two filters bound
the number of a block by the window, and `last_num` is the last number of the window or the number
of a block that has passed them.
-/

namespace CS536Labs.Lab4

open Access

/-- The arrays. The matrix `window_data` is indexed by its rows, and read as one array of bytes. -/
inductive ReceiverArray
  | receivedSequenceNumbers
  | rows
  | row
  | windowData
  | buffer
  | block
  deriving DecidableEq

section

variable (config : Config) (prikey : Option UInt32) (uninit : ℕ → ℕ → ℕ → UInt8)

/-- The declared sizes, where `blocksize` is that of the block in the datagram. -/
def arraySize (blocksize : ℕ) : ReceiverArray → ℕ
  | .receivedSequenceNumbers => config.windowsize
  | .rows => config.windowsize
  | .row => config.blocksize
  | .windowData => config.windowsize * config.blocksize
  | .buffer => config.blocksize + 2
  | .block => blocksize

/-- `memset(received_sequence_numbers, 0, sizeof(received_sequence_numbers))`. -/
def enterAccesses : List (Access ReceiverArray) :=
  [.front .receivedSequenceNumbers config.windowsize]

/-- `decode_packet(buffer, &num, sizeof(block), block)`. -/
def decodePacketAccesses (blocksize : ℕ) : List (Access ReceiverArray) :=
  [.cell .buffer 0, ⟨.buffer, 1, blocksize⟩, .front .block blocksize]

/-- The loop that looks for a missing number: `n` numbers to go, from index `i` on. -/
def searchMissing (received : ℕ → Bool) : ℕ → ℕ → List ℕ
  | _, 0 => []
  | i, n + 1 => i :: if received i then searchMissing received (i + 1) n else []

/-- What the calls of `fwrite` in `append_window_to_file` read, when none of them fails. -/
def appendAccesses (windowsize lastBlocksize : ℕ) : List (Access ReceiverArray) :=
  (List.range windowsize).map fun i =>
    ⟨.windowData, (i * config.blocksize : ℕ),
      if i = windowsize - 1 then lastBlocksize else config.blocksize⟩

/-- The client behind the store of the block, if the datagram has one of the window. -/
def Client.stored (c : Client) (datagram : List UInt8) : Client :=
  let buffer := datagram.take (config.blocksize + 2)
  let (num, block) := decodePacket buffer (blocksizeOf config buffer.length)
  if buffer.length = 0 ∨ num < c.base ∨ num.toNat ≥ c.base.toNat + config.windowsize then c
  else
    ({ c with requestTimer := false } : Client).store config num (decodeWith prikey block)
      buffer.length

/-- The accesses behind the filters: the block is decrypted and stored, the loop looks for a missing
number, and a complete window is appended. `c` has stored the block already. -/
def Client.storeAccesses (c : Client) (num : UInt8) (blocksize : ℕ) : List (Access ReceiverArray) :=
  let index : ℤ := num.toNat - c.base.toNat
  (if prikey.isSome then [.front .block blocksize] else []) ++
    [⟨.receivedSequenceNumbers, index, 1⟩, ⟨.rows, index, 1⟩, .front .row blocksize,
      .front .block blocksize] ++
    (searchMissing c.received 0 (c.lastNum.toNat + 1 - c.base.toNat)).map
      (.cell .receivedSequenceNumbers) ++
    if c.completed then appendAccesses config (c.lastNum - c.base + 1).toNat blocksize else []

/-- The accesses of one iteration. -/
def Client.accesses (c : Client) (datagram : List UInt8) : List (Access ReceiverArray) :=
  let buffer := datagram.take (config.blocksize + 2)
  let blocksize := blocksizeOf config buffer.length
  let num := (decodePacket buffer blocksize).1
  .front .buffer buffer.length ::
    if buffer.length = 0 then []
    else
      decodePacketAccesses blocksize ++
        if num < c.base ∨ num.toNat ≥ c.base.toNat + config.windowsize then []
        else (c.stored config prikey datagram).storeAccesses config prikey num blocksize

/-- The iteration on the datagram stays inside the arrays, no block is longer than a row, and the
`uint8_t` arithmetic does not wrap. -/
structure IndexSafe (c : Client) (datagram : List UInt8) : Prop where
  inBounds : AllInBounds
    (arraySize config (blocksizeOf config (datagram.take (config.blocksize + 2)).length))
    (c.accesses config prikey datagram)
  blocksize_le :
    blocksizeOf config (datagram.take (config.blocksize + 2)).length ≤ config.blocksize
  lastNum : c.base.toNat ≤ (c.stored config prikey datagram).lastNum.toNat ∧
    (c.stored config prikey datagram).lastNum.toNat < c.base.toNat + config.windowsize
  windowsize : ((c.stored config prikey datagram).lastNum - c.base + 1).toNat =
    (c.stored config prikey datagram).lastNum.toNat - c.base.toNat + 1

/-- The call that `c₀` makes is safe, whatever datagrams it receives. -/
structure CallIndexSafe (c₀ : Client) : Prop where
  enter : AllInBounds (arraySize config 0) (enterAccesses config)
  lastNum : (c₀.enter config uninit).lastNum.toNat = c₀.base.toNat + config.windowsize - 1
  receive : ∀ datagrams c, InCall config prikey uninit c₀ datagrams c →
    ∀ datagram, IndexSafe config prikey c datagram

end

variable {config : Config} {prikey : Option UInt32} {uninit : ℕ → ℕ → ℕ → UInt8}
  {c₀ c : Client} {arrivals : List Arrival} {blocksize : ℕ}

theorem lt_of_mem_searchMissing {received : ℕ → Bool} {i n j : ℕ}
    (h : j ∈ searchMissing received i n) : j < i + n := by
  induction n generalizing i with
  | zero => cases h
  | succ n ih =>
    rcases List.mem_cons.mp h with rfl | h
    · omega
    · split_ifs at h
      · have := ih h
        omega
      · cases h

theorem decodePacket_inBounds (h : blocksize + 1 ≤ config.blocksize + 2) :
    AllInBounds (arraySize config blocksize) (decodePacketAccesses blocksize) := by
  have htail : (⟨.buffer, 1, blocksize⟩ : Access ReceiverArray).InBounds
      (arraySize config blocksize) := by
    simp only [InBounds, arraySize]
    omega
  simp only [decodePacketAccesses, allInBounds_cons, allInBounds_nil, inBounds_cell,
    inBounds_front]
  exact ⟨Nat.succ_pos _, htail, Nat.le_refl _, trivial⟩

/-- The rows that are written to the file. -/
theorem append_inBounds {windowsize lastBlocksize : ℕ} (hw : windowsize ≤ config.windowsize)
    (hlast : lastBlocksize ≤ config.blocksize) :
    AllInBounds (arraySize config blocksize) (appendAccesses config windowsize lastBlocksize) := by
  intro a ha
  obtain ⟨i, hi, rfl⟩ := List.mem_map.mp ha
  have hi := List.mem_range.mp hi
  have hrow : (i + 1) * config.blocksize ≤ config.windowsize * config.blocksize :=
    Nat.mul_le_mul_right _ (by omega)
  rw [Nat.succ_mul] at hrow
  simp only [InBounds, arraySize]
  split_ifs <;> omega

/-- **The accesses behind the filters.** -/
theorem Arrived.store_inBounds (h : Arrived config c₀ arrivals c)
    (hbase : c₀.base.toNat + config.windowsize ≤ 255) {num : UInt8}
    (hge : c.base.toNat ≤ num.toNat) (hlt : num.toNat < c.base.toNat + config.windowsize)
    (hle : blocksize ≤ config.blocksize) :
    AllInBounds (arraySize config blocksize) (c.storeAccesses config prikey num blocksize) := by
  have hlast := h.lastNum
  have hindex := h.lastIndex_lt
  rw [← h.base_eq] at hlast
  have hrow : (⟨.receivedSequenceNumbers, num.toNat - c.base.toNat, 1⟩ :
      Access ReceiverArray).InBounds (arraySize config blocksize) := by
    simp only [InBounds, arraySize]
    omega
  have hrow' : (⟨.rows, num.toNat - c.base.toNat, 1⟩ :
      Access ReceiverArray).InBounds (arraySize config blocksize) := hrow
  have hblock : AllInBounds (arraySize config blocksize)
      (if prikey.isSome then [.front .block blocksize] else []) := by
    split_ifs
    · simp only [allInBounds_cons, allInBounds_nil, inBounds_front, arraySize, Nat.le_refl,
        and_self]
    · exact allInBounds_nil
  have hsearch : AllInBounds (arraySize config blocksize)
      ((searchMissing c.received 0 (c.lastNum.toNat + 1 - c.base.toNat)).map
        (.cell .receivedSequenceNumbers)) := by
    rw [allInBounds_map_cell]
    intro i hi
    have hi := lt_of_mem_searchMissing hi
    show i < config.windowsize
    omega
  have happend : AllInBounds (arraySize config blocksize) (if c.completed then
      appendAccesses config (c.lastNum - c.base + 1).toNat blocksize else []) := by
    split_ifs
    · rw [h.windowsize_eq hbase]
      exact append_inBounds (by omega) hle
    · exact allInBounds_nil
  simp only [Client.storeAccesses, allInBounds_append, allInBounds_cons, allInBounds_nil,
    inBounds_front]
  exact ⟨⟨⟨hblock, hrow, hrow', hle, Nat.le_refl _, trivial⟩, hsearch⟩, happend⟩

/-- The locals behind the store, with the arrivals so far. -/
theorem Arrived.stored (h : Arrived config c₀ arrivals c) (prikey : Option UInt32)
    (datagram : List UInt8) :
    ∃ arrivals', Arrived config c₀ arrivals' (c.stored config prikey datagram) := by
  have hlen : (datagram.take (config.blocksize + 2)).length ≤ config.blocksize + 2 :=
    List.length_take_le _ _
  unfold Client.stored
  dsimp only [decodePacket]
  split_ifs with hfilter
  · exact ⟨arrivals, h⟩
  · obtain ⟨-, hge, hlt⟩ := not_or.mp hfilter |>.imp_right not_or.mp
    rw [UInt8.not_lt, UInt8.le_iff_toNat_le] at hge
    refine ⟨_, h.store _ hge (Nat.lt_of_not_le hlt) ?_⟩
    rw [length_decodeWith]
    exact Nat.le_trans (List.length_take_le _ _) (blocksizeOf_le config hlen).2

/-- One iteration of the call. -/
theorem InCall.indexSafe (hbase : c₀.base.toNat + config.windowsize ≤ 255)
    {datagrams : List (List UInt8)} (hcall : InCall config prikey uninit c₀ datagrams c)
    (datagram : List UInt8) : IndexSafe config prikey c datagram := by
  have harrived := hcall.arrived hbase
  obtain ⟨arrivals, hstored⟩ := harrived.stored prikey datagram
  have hlen : (datagram.take (config.blocksize + 2)).length ≤ config.blocksize + 2 :=
    List.length_take_le _ _
  have hsize := blocksizeOf_le config hlen
  have hbase_eq : (c.stored config prikey datagram).base = c.base :=
    hstored.base_eq.trans harrived.base_eq.symm
  have hlast := hstored.lastNum
  have hindex := hstored.lastIndex_lt
  have hwindowsize := hstored.windowsize_eq hbase
  rw [← hstored.base_eq, hbase_eq] at hlast
  rw [hbase_eq] at hwindowsize
  refine ⟨?_, hsize.2, by omega, by omega⟩
  unfold Client.accesses
  dsimp only
  rw [allInBounds_cons, inBounds_front]
  refine ⟨hlen, ?_⟩
  split_ifs with hempty hfilter
  · exact allInBounds_nil
  · rw [allInBounds_append]
    exact ⟨decodePacket_inBounds (by omega), allInBounds_nil⟩
  · rw [not_or, UInt8.not_lt, UInt8.le_iff_toNat_le, Nat.not_le, ← hbase_eq] at hfilter
    rw [allInBounds_append]
    exact ⟨decodePacket_inBounds (by omega),
      hstored.store_inBounds hbase hfilter.1 hfilter.2 hsize.2⟩

/-- **Index safety of the receiver**, in the calls with base 0 and base `W`. -/
theorem receive_indexSafe (config : Config) (prikey : Option UInt32)
    (uninit : ℕ → ℕ → ℕ → UInt8) (c₀ : Client) (hbase : c₀.initialSequenceNumber = 0 ∨
      c₀.initialSequenceNumber = config.windowsize) :
    CallIndexSafe config prikey uninit c₀ := by
  have hpos := config.checkWindowsize.1
  have hmax := config.checkWindowsize.2
  have hbase' : c₀.base.toNat + config.windowsize ≤ 255 := by
    rw [Client.base, UInt8.toNat_ofNat']
    rcases hbase with h | h <;> omega
  refine ⟨?_, ?_, fun datagrams c hcall datagram => hcall.indexSafe hbase' datagram⟩
  · rw [enterAccesses, allInBounds_cons, inBounds_front]
    exact ⟨Nat.le_refl _, allInBounds_nil⟩
  · show (UInt8.ofNat (c₀.base.toNat + config.windowsize - 1)).toNat =
      c₀.base.toNat + config.windowsize - 1
    rw [UInt8.toNat_ofNat']
    omega

/-- The largest window, in the upper half of the sequence numbers. -/
theorem receive_indexSafe_max :
    CallIndexSafe ⟨1471, 64, by decide, by decide⟩ none (fun _ _ _ => 0)
      { newClient with initialSequenceNumber := 64 } :=
  receive_indexSafe _ none _ _ (.inr rfl)

end CS536Labs.Lab4
