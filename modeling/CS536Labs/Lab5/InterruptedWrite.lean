import CS536Labs.Foundations.Transition
import CS536Labs.Lab5.Queue
import Mathlib.Logic.Relation

/-!
# `write_queue` interrupted by the playback signal handler

The main thread of the audio client calls `write_queue`; the `SIGALRM` handler calls
`read_queue(queue, buffer, AUDIO_FRAME_SIZE)` and can do so between any two memory accesses of
the main thread. `Writer.exec` is the system of the two: a step of the main thread is one load or
store of `head`, `tail` or a byte of `data`, with the computation that follows it up to the next
access, and a step of the handler is a whole call of `read_queue`. Every use of a field loads it
again, in the order of the source.

`length` and the pointer `data` are never stored to, so that their loads are not steps.
-/

namespace CS536Labs.Lab5

/-- The access the main thread makes next, with the values it has loaded for it. -/
inductive Pc
  /-- Between two calls of `write_queue`. -/
  | idle
  /-- `queue->head >= queue->tail` in `get_queue_load`. -/
  | geHead
  | geTail (head : ℕ)
  /-- `queue->head - queue->tail`. -/
  | diffHead
  | diffTail (head : ℕ)
  /-- `queue->length + queue->head - queue->tail`. -/
  | wrapHead
  | wrapTail (sum : ℕ)
  /-- `(queue->head + 1) % queue->length == queue->tail` in `is_queue_full`. -/
  | fullHead (written : ℕ)
  | fullTail (written next : ℕ)
  /-- `queue->data[queue->head] = value` in `enqueue`. -/
  | storeHead (written : ℕ)
  | storeData (written head : ℕ)
  /-- `queue->head = (queue->head + 1) % queue->length`. -/
  | nextHead (written : ℕ)
  | storeNext (written next : ℕ)

/-- The local variable `written` of the call in progress. -/
def Pc.written : Pc → ℕ
  | .fullHead written | .fullTail written _ | .storeHead written | .storeData written _
  | .nextHead written | .storeNext written _ => written
  | _ => 0

/-- A call of `write_queue` that has returned. -/
structure Call where
  data : List UInt8
  /-- Whether it passed the capacity test. -/
  passed : Bool
  /-- The number of bytes it enqueued. -/
  written : ℕ
  ret : ℤ

/-- The queue and its two users. `read` collects what the handler has read, `calls` the calls that
have returned, in call order. -/
structure Writer where
  queue : Queue
  pc : Pc
  /-- The argument of the call in progress. -/
  data : List UInt8
  read : List UInt8
  calls : List Call

/-- The call in progress returns. -/
def Writer.return (s : Writer) (passed : Bool) (written : ℕ) (ret : ℤ) : Writer :=
  { s with pc := .idle, data := [], calls := s.calls ++ [⟨s.data, passed, written, ret⟩] }

/-- `while (written < length)`. -/
def Writer.loop (s : Writer) (written : ℕ) : Writer :=
  if written < s.data.length then { s with pc := .fullHead written }
  else s.return true written (toSsize written)

/-- The capacity test, with the load that `get_queue_load` returned. -/
def Writer.test (s : Writer) (load : ℕ) : Writer :=
  if sizeAdd load s.data.length > sizeSub s.queue.length 1 then s.return false 0 (-1)
  else s.loop 0

/-- One memory access of the main thread inside `write_queue`. -/
def Writer.access (s : Writer) : Writer :=
  match s.pc with
  | .idle => s
  | .geHead => { s with pc := .geTail s.queue.head }
  | .geTail head => { s with pc := if head ≥ s.queue.tail then .diffHead else .wrapHead }
  | .diffHead => { s with pc := .diffTail s.queue.head }
  | .diffTail head => s.test (sizeSub head s.queue.tail)
  | .wrapHead => { s with pc := .wrapTail (sizeAdd s.queue.length s.queue.head) }
  | .wrapTail sum => s.test (sizeSub sum s.queue.tail)
  | .fullHead written =>
    { s with pc := .fullTail written (sizeAdd s.queue.head 1 % s.queue.length) }
  | .fullTail written next =>
    if next = s.queue.tail then s.return true written (-1)
    else { s with pc := .storeHead written }
  | .storeHead written => { s with pc := .storeData written s.queue.head }
  | .storeData written head =>
    { s with
      queue := { s.queue with
        data := Function.update s.queue.data head (s.data.getD written 0) }
      pc := .nextHead written }
  | .nextHead written =>
    { s with pc := .storeNext written (sizeAdd s.queue.head 1 % s.queue.length) }
  | .storeNext written next =>
    { s with queue := { s.queue with head := next } }.loop (written + 1)

/-- The signal handler: one whole call of `read_queue`. -/
def Writer.handler (s : Writer) : Writer :=
  let r := readQueue s.queue audioFrameSize
  { s with queue := r.1, read := s.read ++ r.2.1 }

inductive WriterLabel
  /-- The main thread calls `write_queue`. -/
  | call (data : List UInt8)
  /-- The main thread makes its next memory access. -/
  | access
  /-- The handler runs. -/
  | handler

/-- The receive buffer bounds the length of a write. -/
def WriterLabel.Fits : WriterLabel → Prop
  | .call data => data.length ≤ 65535
  | _ => True

instance (a : WriterLabel) : Decidable a.Fits :=
  match a with
  | .call data => inferInstanceAs (Decidable (data.length ≤ 65535))
  | .access | .handler => inferInstanceAs (Decidable True)

def Writer.exec (s : Writer) : WriterLabel → Option Writer
  | .call data =>
    match s.pc with
    | .idle => some { s with pc := .geHead, data := data }
    | _ => none
  | .access =>
    match s.pc with
    | .idle => none
    | _ => some s.access
  | .handler => some s.handler

def Writer.initial (length : ℕ) (data : ℕ → UInt8) : Writer :=
  ⟨emptyQueue length data, .idle, [], [], []⟩

/-- The runs in which every write is of at most 65535 bytes. -/
def writerSystem (length : ℕ) (data : ℕ → UInt8) : LTS Writer WriterLabel :=
  (LTS.ofExec (Writer.initial length data) Writer.exec).restrict fun _ a => a.Fits

/-! ## A call without interruption -/

/-- The main thread gets from `s` to `t` by memory accesses alone. -/
def Writer.Uninterrupted : Writer → Writer → Prop :=
  Relation.ReflTransGen fun s t => s.exec .access = some t

theorem Writer.Uninterrupted.head {s t u : Writer} (h : s.exec .access = some t)
    (htu : t.Uninterrupted u) : s.Uninterrupted u := Relation.ReflTransGen.head h htu

theorem Writer.Uninterrupted.trans {s t u : Writer} (hst : s.Uninterrupted t)
    (htu : t.Uninterrupted u) : s.Uninterrupted u := Relation.ReflTransGen.trans hst htu

theorem Writer.loop_withPc (s : Writer) (pc : Pc) (written : ℕ) :
    { s with pc := pc }.loop written = s.loop written := by
  unfold Writer.loop Writer.return
  split_ifs <;> rfl

theorem Writer.test_withPc (s : Writer) (pc : Pc) (load : ℕ) :
    { s with pc := pc }.test load = s.test load := by
  unfold Writer.test
  rw [Writer.loop_withPc]
  rfl

/-- An iteration of the loop that finds the queue full. -/
theorem Writer.iteration_full {s : Writer} {written : ℕ} (hw : written < s.data.length)
    (hfull : isQueueFull s.queue = true) :
    (s.loop written).Uninterrupted (s.return true written (-1)) := by
  have htail : sizeAdd s.queue.head 1 % s.queue.length = s.queue.tail := by
    simpa [isQueueFull] using hfull
  rw [Writer.loop, if_pos hw]
  refine .head (t := { s with
    pc := .fullTail written (sizeAdd s.queue.head 1 % s.queue.length) }) rfl ?_
  refine .single ?_
  simp [Writer.exec, Writer.access, htail, Writer.return]

/-- An iteration of the loop that enqueues the next byte. -/
theorem Writer.iteration_enqueue {s : Writer} {written : ℕ} {queue : Queue}
    (hw : written < s.data.length) (henq : enqueue s.queue s.data[written] = some queue) :
    (s.loop written).Uninterrupted ({ s with queue := queue }.loop (written + 1)) := by
  have hfull : ¬ isQueueFull s.queue = true := by
    intro h
    simp [enqueue, h] at henq
  have htail : ¬ sizeAdd s.queue.head 1 % s.queue.length = s.queue.tail := by
    simpa [isQueueFull] using hfull
  rw [enqueue, if_neg hfull] at henq
  have hdata : s.data.getD written 0 = s.data[written] := by simp [hw]
  rw [Writer.loop, if_pos hw, ← Option.some.inj henq, ← hdata]
  refine .head (t := { s with
    pc := .fullTail written (sizeAdd s.queue.head 1 % s.queue.length) }) rfl ?_
  refine .head (t := { s with pc := .storeHead written }) ?_ ?_
  · simp [Writer.exec, Writer.access, htail]
  refine .head rfl (.head rfl (.head rfl (.single ?_)))
  exact congrArg some (Writer.loop_withPc { s with queue := _ } _ _)

/-- From the loop of `write_queue`, the accesses alone compute `writeLoop`. -/
theorem Writer.loop_uninterrupted (s : Writer) (written : ℕ) (hw : written ≤ s.data.length) :
    ∃ n, (s.loop written).Uninterrupted
      ({ s with queue := (writeLoop (s.data.drop written) s.queue).1 }.return true n
        (if (writeLoop (s.data.drop written) s.queue).2 then toSsize s.data.length else -1)) := by
  induction hk : s.data.length - written generalizing s written with
  | zero =>
    obtain rfl : written = s.data.length := by omega
    refine ⟨s.data.length, ?_⟩
    rw [Writer.loop, if_neg (by omega), List.drop_length]
    exact .refl
  | succ k ih =>
    have hlt : written < s.data.length := by omega
    rw [List.drop_eq_getElem_cons hlt]
    rcases henq : enqueue s.queue s.data[written] with _ | queue
    · refine ⟨written, ?_⟩
      have hfull : isQueueFull s.queue = true := by
        by_contra h
        simp [enqueue, h] at henq
      simpa [writeLoop, henq] using iteration_full hlt hfull
    · obtain ⟨n, hn⟩ := ih { s with queue := queue } (written + 1) hlt (by
        simp only
        omega)
      refine ⟨n, Uninterrupted.trans (iteration_enqueue hlt henq) ?_⟩
      simpa [writeLoop, henq] using hn

theorem Writer.test_uninterrupted (s : Writer) :
    ∃ passed n, (s.test (getQueueLoad s.queue)).Uninterrupted
      ({ s with queue := (writeQueue s.queue s.data).1 }.return passed n
        (writeQueue s.queue s.data).2) := by
  unfold Writer.test writeQueue
  split_ifs with htest
  · exact ⟨false, 0, .refl⟩
  · obtain ⟨n, hn⟩ := s.loop_uninterrupted 0 (Nat.zero_le _)
    exact ⟨true, n, hn⟩

/-- **A call that is not interrupted is `writeQueue`**: the machine goes from the call to its
return with the queue and the return value that `writeQueue` computes. -/
theorem Writer.call_uninterrupted (s : Writer) (data : List UInt8) :
    ∃ passed n, Writer.Uninterrupted { s with pc := .geHead, data := data }
      ({ s with queue := (writeQueue s.queue data).1, data := data }.return passed n
        (writeQueue s.queue data).2) := by
  obtain ⟨passed, n, h⟩ := Writer.test_uninterrupted { s with data := data }
  have hload : ∀ pc, (({ s with pc := pc, data := data } : Writer).test
      (getQueueLoad s.queue)).Uninterrupted
      ({ s with queue := (writeQueue s.queue data).1, data := data }.return passed n
        (writeQueue s.queue data).2) := by
    intro pc
    rw [Writer.test_withPc { s with data := data }]
    exact h
  refine ⟨passed, n, .head (t := { s with pc := .geTail s.queue.head, data := data }) rfl ?_⟩
  rcases Nat.lt_or_ge s.queue.head s.queue.tail with hlt | hge
  · have hgt : ¬ s.queue.head ≥ s.queue.tail := by omega
    rw [getQueueLoad, if_neg hgt] at hload
    refine .head (t := { s with pc := .wrapHead, data := data }) ?_
      (.head rfl (.head rfl (hload _)))
    simp [Writer.exec, Writer.access, hgt]
  · rw [getQueueLoad, if_pos hge] at hload
    refine .head (t := { s with pc := .diffHead, data := data }) ?_
      (.head rfl (.head rfl (hload _)))
    simp [Writer.exec, Writer.access, hge]

theorem Writer.Uninterrupted.reachable {length : ℕ} {cells : ℕ → UInt8} {s t : Writer}
    (hst : s.Uninterrupted t) (h : (writerSystem length cells).Reachable s) :
    (writerSystem length cells).Reachable t := by
  induction hst with
  | refl => exact h
  | tail _ hstep ih => exact ih.next hstep trivial

/-- A run goes on behind a call that is not interrupted. -/
theorem Writer.reachable_call {length : ℕ} {cells : ℕ → UInt8} {s : Writer}
    (h : (writerSystem length cells).Reachable s) (hpc : s.pc = .idle) {data : List UInt8}
    (hdata : data.length ≤ 65535) :
    ∃ passed n, (writerSystem length cells).Reachable
      ({ s with queue := (writeQueue s.queue data).1, data := data }.return passed n
        (writeQueue s.queue data).2) := by
  obtain ⟨passed, n, hrun⟩ := s.call_uninterrupted data
  have hcall : s.exec (.call data) = some { s with pc := .geHead, data := data } := by
    rw [Writer.exec, hpc]
  exact ⟨passed, n, hrun.reachable (h.next hcall hdata)⟩

end CS536Labs.Lab5
