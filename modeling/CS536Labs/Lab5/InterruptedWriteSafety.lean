import CS536Labs.Lab5.InterruptedWrite
import CS536Labs.Lab5.QueueFifo

/-!
# First-in first-out safety of the interrupted queue

`InvAt L s buf` is what holds between two memory accesses when the queue holds the bytes `buf`.
The handler only removes bytes from the front, so at every point the main thread knows a bound on
the load that stays true:

* in the capacity test the load it computes is the number of bytes held, or the length of the
  array more, when `tail` moved past the wrap after it was compared with `head`; such a load fails
  the test, so a test that passes leaves room for all the bytes;
* in the loop the room for the bytes still to be written only grows;
* a byte that is stored but not yet published lies in the free cell at `head`, which the handler
  neither reads nor moves.

`interrupted_writes_safe` concludes for every run.
-/

namespace CS536Labs.Lab5

open RingBuffer

/-- The bytes that a returned call has accepted. -/
def Call.accepted (call : Call) : List UInt8 := if call.ret = -1 then [] else call.data

/-- The call enqueued all its bytes, or failed the capacity test and enqueued nothing. -/
def Call.Atomic (call : Call) : Prop :=
  call.passed = true ∧ call.written = call.data.length ∧ call.ret = call.data.length ∨
    call.passed = false ∧ call.written = 0 ∧ call.ret = -1

/-- The data of the accepted writes in call order, with the bytes that the call in progress has
stored. -/
def Writer.stream (s : Writer) : List UInt8 :=
  s.calls.flatMap Call.accepted ++ s.data.take s.pc.written

/-- The bytes of the call that are not yet written fit beside the bytes held. -/
def Room (L : ℕ) (data buf : List UInt8) (written : ℕ) : Prop :=
  written < data.length ∧ buf.length + (data.length - written) < L

/-- What the main thread relies on at its next access. -/
def AtPc (L : ℕ) (queue : Queue) (data buf : List UInt8) : Pc → Prop
  | .idle | .geHead | .wrapHead => True
  | .geTail head => head = queue.head
  | .diffHead => queue.tail ≤ queue.head
  | .diffTail head => head = queue.head ∧ queue.tail ≤ queue.head
  | .wrapTail sum => sum = sizeAdd L queue.head
  | .fullHead written | .storeHead written => Room L data buf written
  | .fullTail written next => Room L data buf written ∧ next = (queue.head + 1) % L
  | .storeData written head => Room L data buf written ∧ head = queue.head
  | .nextHead written => Room L data buf written ∧ queue.data queue.head = data.getD written 0
  | .storeNext written next => Room L data buf written ∧
      queue.data queue.head = data.getD written 0 ∧ next = (queue.head + 1) % L

/-- The invariant, when the queue holds the bytes `buf`. -/
structure InvAt (L : ℕ) (s : Writer) (buf : List UInt8) : Prop where
  represents : Represents L s.queue buf
  conserves : s.read ++ buf = s.stream
  data_le : s.data.length ≤ 65535
  atPc : AtPc L s.queue s.data buf s.pc
  calls : ∀ call ∈ s.calls, call.Atomic

theorem invAt_initial {L : ℕ} (hL : 0 < L) (data : ℕ → UInt8) :
    InvAt L (Writer.initial L data) [] where
  represents := represents_emptyQueue hL data
  conserves := rfl
  data_le := Nat.zero_le _
  atPc := trivial
  calls := by simp [Writer.initial]

section Steps

variable {L : ℕ} {s : Writer} {buf : List UInt8}

/-! ## The handler -/

/-- What the main thread relies on stays true when the handler takes bytes from the front. -/
theorem AtPc.moveTail {queue : Queue} {data : List UInt8} {pc : Pc} {n : ℕ}
    (h : AtPc L queue data buf pc) (hrep : Represents L queue buf) (hn : n ≤ buf.length) :
    AtPc L (queue.moveTail n) data (buf.drop n) pc := by
  have hroom : ∀ written, Room L data buf written → Room L data (buf.drop n) written := by
    rintro written ⟨hw, hfit⟩
    refine ⟨hw, ?_⟩
    rw [List.length_drop]
    omega
  have htail : queue.tail ≤ queue.head → (queue.moveTail n).tail ≤ queue.head := by
    intro hle
    have hlen := hrep.holds.sub_eq_length hle
    have hlt := hrep.head_lt
    rw [Queue.moveTail_tail, hrep.length_eq, Nat.mod_eq_of_lt (by omega)]
    omega
  cases pc with
  | idle | geHead | wrapHead => trivial
  | geTail head | wrapTail sum => exact h
  | diffHead => exact htail h
  | diffTail head => exact ⟨h.1, htail h.2⟩
  | fullHead written | storeHead written => exact hroom _ h
  | fullTail written next | storeData written head | nextHead written | storeNext written next =>
    exact ⟨hroom _ h.1, h.2⟩

theorem InvAt.handler (h : InvAt L s buf) (hL : L ≤ sizeMax) : ∃ buf', InvAt L s.handler buf' := by
  rcases Nat.lt_or_ge buf.length audioFrameSize with hlt | hge
  · have hread := readQueue_refused h.represents hL hlt
    refine ⟨buf, ?_⟩
    simpa [Writer.handler, hread] using h
  · obtain ⟨hread, hrep⟩ := readQueue_done h.represents hL hge
    have hcons : s.read ++ buf.take audioFrameSize ++ buf.drop audioFrameSize = s.stream := by
      rw [List.append_assoc, List.take_append_drop, h.conserves]
    have hat := h.atPc.moveTail h.represents hge
    refine ⟨buf.drop audioFrameSize, ?_⟩
    rw [Writer.handler, hread]
    exact ⟨hrep, hcons, h.data_le, hat, h.calls⟩

/-! ## The main thread -/

/-- A call returns as it should. -/
theorem invAt_return {passed : Bool} {written : ℕ} {ret : ℤ} (hrep : Represents L s.queue buf)
    (hcalls : ∀ call ∈ s.calls, call.Atomic)
    (hcons : s.read ++ buf =
      s.calls.flatMap Call.accepted ++ Call.accepted ⟨s.data, passed, written, ret⟩)
    (hatomic : Call.Atomic ⟨s.data, passed, written, ret⟩) :
    InvAt L (s.return passed written ret) buf where
  represents := hrep
  conserves := by simpa [Writer.return, Writer.stream] using hcons
  data_le := Nat.zero_le _
  atPc := trivial
  calls := by
    intro call hcall
    rcases List.mem_append.mp hcall with hold | hnew
    · exact hcalls call hold
    · rw [List.mem_singleton.mp hnew]
      exact hatomic

/-- The head of the loop, with `written` bytes stored and room for the others. -/
theorem invAt_loop {written : ℕ} (hrep : Represents L s.queue buf)
    (hcalls : ∀ call ∈ s.calls, call.Atomic) (hdata : s.data.length ≤ 65535)
    (hcons : s.read ++ buf = s.calls.flatMap Call.accepted ++ s.data.take written)
    (hw : written ≤ s.data.length) (hroom : buf.length + (s.data.length - written) < L) :
    InvAt L (s.loop written) buf := by
  unfold Writer.loop
  split_ifs with hlt
  · exact ⟨hrep, hcons, hdata, ⟨hlt, hroom⟩, hcalls⟩
  · obtain rfl : written = s.data.length := by omega
    have hret := toSsize_of_lt (n := s.data.length) (by omega)
    have hne : (s.data.length : ℤ) ≠ -1 := by omega
    rw [hret]
    refine invAt_return hrep hcalls ?_ (.inl ⟨rfl, rfl, rfl⟩)
    simpa [Call.accepted, hne] using hcons

/-- The capacity test is passed only with room for all the bytes, as the computed load is not
smaller than the number of bytes held. -/
theorem invAt_test {load : ℕ} (hL : 0 < L) (hmax : 2 * L + 65535 ≤ sizeMax)
    (hrep : Represents L s.queue buf) (hcalls : ∀ call ∈ s.calls, call.Atomic)
    (hdata : s.data.length ≤ 65535) (hcons : s.read ++ buf = s.calls.flatMap Call.accepted)
    (hload : buf.length ≤ load) (hle : load < 2 * L) : InvAt L (s.test load) buf := by
  unfold Writer.test
  rw [hrep.length_eq, sizeAdd_of_le (by omega), sizeSub_of_le (by omega) (by omega)]
  split_ifs with htest
  · refine invAt_return hrep hcalls ?_ (.inr ⟨rfl, rfl, rfl⟩)
    simpa [Call.accepted] using hcons
  · exact invAt_loop hrep hcalls hdata (by simpa using hcons) (Nat.zero_le _) (by omega)

/-- The load that is computed with the wrap is not smaller than the number of bytes held, as the
handler can have moved `tail` past the wrap since it was compared with `head`. -/
theorem wrapLoad_bounds {queue : Queue} (hrep : Represents L queue buf)
    (hmax : 2 * L + 65535 ≤ sizeMax) :
    buf.length ≤ sizeSub (sizeAdd L queue.head) queue.tail ∧
      sizeSub (sizeAdd L queue.head) queue.tail < 2 * L := by
  have hhead := hrep.head_lt
  have htail := hrep.tail_lt
  have hload : sizeSub (sizeAdd L queue.head) queue.tail = L + queue.head - queue.tail :=
    sizeSub_sizeAdd (by omega) (by omega) (by omega)
  rcases Nat.lt_or_ge queue.head queue.tail with hlt | hge
  · have := hrep.holds.add_sub_eq_length hlt
    omega
  · have := hrep.holds.sub_eq_length hge
    omega

/-- Storing the new `head` adds the byte in front of it to the stream. -/
theorem invAt_storeNext {queue : Queue} {pc : Pc} {data read : List UInt8} {calls : List Call}
    {written : ℕ} (hrep : Represents L queue buf) (hcalls : ∀ call ∈ calls, call.Atomic)
    (hdata : data.length ≤ 65535)
    (hcons : read ++ buf = calls.flatMap Call.accepted ++ data.take written)
    (hroom : Room L data buf written)
    (hbyte : queue.data queue.head = data.getD written 0) :
    InvAt L (Writer.loop ⟨{ queue with head := (queue.head + 1) % L }, pc, data, read, calls⟩
      (written + 1)) (buf ++ [queue.data queue.head]) := by
  obtain ⟨hw, hfit⟩ := hroom
  have hbyte' : queue.data queue.head = data[written] := by rw [hbyte]; simp [hw]
  have hpub : Represents L { queue with head := (queue.head + 1) % L }
      (buf ++ [queue.data queue.head]) := ⟨hrep.length_eq, hrep.holds.advance (by omega)⟩
  have hstream : read ++ (buf ++ [queue.data queue.head]) =
      calls.flatMap Call.accepted ++ data.take (written + 1) := by
    rw [← List.append_assoc, hcons, List.append_assoc, hbyte', List.take_append_getElem hw]
  refine invAt_loop hpub hcalls hdata hstream hw ?_
  simp only [List.length_append, List.length_singleton]
  omega

theorem InvAt.access (h : InvAt L s buf) (hL : 0 < L) (hmax : 2 * L + 65535 ≤ sizeMax) :
    ∃ buf', InvAt L s.access buf' := by
  obtain ⟨queue, pc, data, read, calls⟩ := s
  obtain ⟨hrep, hcons, hdata, hat, hcalls⟩ := h
  dsimp only at hrep hdata hat hcalls
  have hhead := hrep.head_lt
  have htail := hrep.tail_lt
  have hlen := hrep.holds.length_lt
  have hnext : sizeAdd queue.head 1 % queue.length = (queue.head + 1) % L := by
    rw [hrep.length_eq, sizeAdd_of_le (by omega)]
  cases pc with
  | idle => exact ⟨buf, hrep, hcons, hdata, hat, hcalls⟩
  | geHead => exact ⟨buf, hrep, hcons, hdata, rfl, hcalls⟩
  | geTail head =>
    obtain rfl : head = queue.head := hat
    refine ⟨buf, ?_⟩
    simp only [Writer.access]
    split_ifs with hge
    · exact ⟨hrep, hcons, hdata, hge, hcalls⟩
    · exact ⟨hrep, hcons, hdata, trivial, hcalls⟩
  | diffHead => exact ⟨buf, hrep, hcons, hdata, ⟨rfl, hat⟩, hcalls⟩
  | diffTail head =>
    obtain ⟨rfl, hle⟩ := hat
    have hload : sizeSub queue.head queue.tail = buf.length := by
      rw [sizeSub_of_le hle (by omega), hrep.holds.sub_eq_length hle]
    refine ⟨buf, invAt_test hL hmax hrep hcalls hdata ?_ (by simp only; omega) ?_⟩
    · simpa [Writer.stream, Pc.written] using hcons
    · simp only
      omega
  | wrapHead => exact ⟨buf, hrep, hcons, hdata, by rw [← hrep.length_eq]; rfl, hcalls⟩
  | wrapTail sum =>
    obtain rfl : sum = sizeAdd L queue.head := hat
    obtain ⟨hload, hlt⟩ := wrapLoad_bounds hrep hmax
    refine ⟨buf, invAt_test hL hmax hrep hcalls hdata ?_ hload hlt⟩
    simpa [Writer.stream, Pc.written] using hcons
  | fullHead written => exact ⟨buf, hrep, hcons, hdata, ⟨hat, hnext⟩, hcalls⟩
  | fullTail written next =>
    obtain ⟨⟨hw, hroom⟩, rfl⟩ := hat
    have hfull : (queue.head + 1) % L ≠ queue.tail := by
      intro heq
      have := hrep.holds.next_head_eq_tail_iff.mp heq
      omega
    refine ⟨buf, ?_⟩
    simp only [Writer.access]
    rw [if_neg hfull]
    exact ⟨hrep, hcons, hdata, ⟨hw, hroom⟩, hcalls⟩
  | storeHead written => exact ⟨buf, hrep, hcons, hdata, ⟨hat, rfl⟩, hcalls⟩
  | storeData written head =>
    obtain ⟨hroom, rfl⟩ := hat
    have hstore : Represents L { queue with
        data := Function.update queue.data queue.head (data.getD written 0) } buf :=
      ⟨hrep.length_eq, hrep.holds.store _⟩
    exact ⟨buf, hstore, hcons, hdata, ⟨hroom, Function.update_self _ _ _⟩, hcalls⟩
  | nextHead written => exact ⟨buf, hrep, hcons, hdata, ⟨hat.1, hat.2, hnext⟩, hcalls⟩
  | storeNext written next =>
    obtain ⟨hroom, hbyte, rfl⟩ := hat
    exact ⟨_, invAt_storeNext hrep hcalls hdata hcons hroom hbyte⟩

end Steps

/-! ## Runs -/

theorem reachable_invAt {L : ℕ} (hL : 0 < L) (hmax : 2 * L + 65535 ≤ sizeMax) {data : ℕ → UInt8}
    {s : Writer} (h : (writerSystem L data).Reachable s) : ∃ buf, InvAt L s buf := by
  refine h.invariant (I := fun s => ∃ buf, InvAt L s buf) ?_ ?_
  · rintro _ rfl
    exact ⟨[], invAt_initial hL data⟩
  · rintro s a t - ⟨buf, hinv⟩ ⟨hexec, hfits⟩
    have hexec : s.exec a = some t := hexec
    cases a with
    | handler =>
      obtain rfl := Option.some.inj hexec
      exact hinv.handler (by omega)
    | access =>
      rw [Writer.exec] at hexec
      split at hexec
      · cases hexec
      · obtain rfl := Option.some.inj hexec
        exact hinv.access hL hmax
    | call data' =>
      rw [Writer.exec] at hexec
      split at hexec
      · rename_i hpc
        obtain rfl := Option.some.inj hexec
        have hcons := hinv.conserves
        rw [Writer.stream, hpc] at hcons
        exact ⟨buf, hinv.represents, by simpa [Writer.stream, Pc.written] using hcons, hfits,
          trivial, hinv.calls⟩
      · cases hexec

/-- **Signal-interleaved safety of the audio queue.** In every reachable state the handler has
read a prefix of the accepted bytes, and every call that returned either passed the capacity test
and stored all its bytes or returned `-1` having stored nothing. -/
theorem interrupted_writes_safe {L : ℕ} (hL : 0 < L) (hmax : 2 * L + 65535 ≤ sizeMax)
    (data : ℕ → UInt8) (s : Writer) (h : (writerSystem L data).Reachable s) :
    s.read <+: s.stream ∧ ∀ call ∈ s.calls, call.Atomic := by
  obtain ⟨buf, hinv⟩ := reachable_invAt hL hmax h
  exact ⟨⟨buf, hinv.conserves⟩, hinv.calls⟩

/-- A frame is written; then the handler reads it in the middle of the next write. -/
theorem interrupted_writes_safe_frame :
    ∃ s, (writerSystem 8193 fun _ => 0).Reachable s ∧ s.data = [7] ∧
      s.read = List.replicate 4096 0 ∧ s.read <+: s.stream ∧ ∀ call ∈ s.calls, call.Atomic := by
  have hlen : (List.replicate 4096 (0 : UInt8)).length ≤ 65535 := by
    rw [List.length_replicate]
    decide
  obtain ⟨passed, n, hreach⟩ := Writer.reachable_call
    (LTS.Reachable.init rfl : (writerSystem 8193 fun _ => 0).Reachable _) rfl hlen
  obtain ⟨queue, hwrite, hrep⟩ := writeQueue_done
    (represents_emptyQueue (by decide : 1 ≤ 8193) fun _ => 0) (List.replicate 4096 0)
    (by rw [List.length_replicate]; decide) (by rw [List.length_replicate]; decide)
  have hread := (readQueue_done hrep (by decide) (n := audioFrameSize)
    (by rw [List.nil_append, List.length_replicate]; decide)).1
  have hqueue : (Writer.initial 8193 fun _ => 0).queue = emptyQueue 8193 fun _ => 0 := rfl
  rw [hqueue, hwrite] at hreach
  have hfits : (WriterLabel.call [7]).Fits := by decide
  have hcall := hreach.next (a := WriterLabel.call [7]) rfl hfits
  have haccess := hcall.next (a := WriterLabel.access) rfl trivial
  have hnext := haccess.next (a := WriterLabel.handler) rfl trivial
  refine ⟨_, hnext, rfl, ?_, interrupted_writes_safe (by decide) (by decide) _ _ hnext⟩
  show [] ++ (readQueue queue audioFrameSize).2.1 = List.replicate 4096 0
  rw [hread, List.nil_append, List.nil_append, List.take_of_length_le]
  rw [List.length_replicate]
  decide

end CS536Labs.Lab5
