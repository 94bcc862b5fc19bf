import CS536Labs.Foundations.Fifo
import CS536Labs.Foundations.RingBuffer
import CS536Labs.Lab5.Queue

/-!
# The ring buffer refines a bounded first-in first-out queue

`Represents L q buf` relates a `Queue` over an array of `L` bytes to the list of bytes it holds.
Every function of `queue.c` has one lemma about it, and `exec_refines` puts them together:
an operation on the ring buffer does what the abstract queue of capacity `L - 1` does, and
reports it with its return value. `queue_refines_fifo` is the statement over whole histories.
-/

namespace CS536Labs.Lab5

open RingBuffer Fifo

/-- The queue lies over an array of `L` bytes and holds the bytes `buf`. -/
structure Represents (L : ℕ) (queue : Queue) (buf : List UInt8) : Prop where
  length_eq : queue.length = L
  holds : Holds L queue.tail queue.head queue.data buf

theorem represents_emptyQueue {L : ℕ} (hL : 1 ≤ L) (data : ℕ → UInt8) :
    Represents L (emptyQueue L data) [] :=
  ⟨rfl, Holds.empty data hL⟩

theorem represents_zeroQueue {L tail n : ℕ} (htail : tail < L) (hn : n < L) :
    Represents L (zeroQueue tail n L) (List.replicate n 0) where
  length_eq := rfl
  holds :=
    { tail_lt := htail
      length_lt := by rwa [List.length_replicate]
      head_eq := by rw [List.length_replicate]; rfl
      cell := fun i hi => (List.getElem_replicate hi).symm }

/-- The queue with its read index moved over `n` bytes. -/
def Queue.moveTail (queue : Queue) (n : ℕ) : Queue :=
  { queue with tail := (queue.tail + n) % queue.length }

section Functions

variable {L : ℕ} {queue : Queue} {buf : List UInt8}

@[simp] theorem Queue.moveTail_tail (n : ℕ) :
    (queue.moveTail n).tail = (queue.tail + n) % queue.length := rfl

theorem Queue.moveTail_moveTail (m n : ℕ) :
    (queue.moveTail m).moveTail n = queue.moveTail (m + n) := by
  simp [Queue.moveTail, Nat.add_assoc]

theorem Represents.head_lt (h : Represents L queue buf) : queue.head < L := h.holds.head_lt

theorem Represents.tail_lt (h : Represents L queue buf) : queue.tail < L := h.holds.tail_lt

theorem getQueueLoad_eq (h : Represents L queue buf) (hL : L ≤ sizeMax) :
    getQueueLoad queue = buf.length := by
  have hh := h.head_lt
  have ht := h.tail_lt
  have hlen := h.holds.length_lt
  unfold getQueueLoad
  split_ifs with hge
  · rw [sizeSub_of_le hge (by omega), h.holds.sub_eq_length hge]
  · have hload := h.holds.add_sub_eq_length (by omega)
    rw [h.length_eq, sizeSub_sizeAdd (by omega) (by omega) (by omega), hload]

theorem isQueueEmpty_iff (h : Represents L queue buf) : isQueueEmpty queue = true ↔ buf = [] := by
  rw [isQueueEmpty, beq_iff_eq, h.holds.head_eq_tail_iff]

theorem isQueueFull_iff (h : Represents L queue buf) (hL : L ≤ sizeMax) :
    isQueueFull queue = true ↔ buf.length + 1 = L := by
  have hh := h.head_lt
  rw [isQueueFull, beq_iff_eq, sizeAdd_of_le (by omega), h.length_eq,
    h.holds.next_head_eq_tail_iff]

theorem Represents.moveTail_zero (h : Represents L queue buf) : queue.moveTail 0 = queue := by
  rw [Queue.moveTail, h.length_eq, Nat.add_zero, Nat.mod_eq_of_lt h.tail_lt, ← h.length_eq]

/-- `dequeue` takes the oldest byte. -/
theorem dequeue_cons {value : UInt8} (h : Represents L queue (value :: buf)) (hL : L ≤ sizeMax) :
    dequeue queue = some (value, queue.moveTail 1) ∧ Represents L (queue.moveTail 1) buf := by
  obtain ⟨hvalue, hpop⟩ := h.holds.pop
  have ht := h.tail_lt
  have hne : ¬ isQueueEmpty queue = true := by rw [isQueueEmpty_iff h]; simp
  refine ⟨by rw [dequeue, if_neg hne, hvalue, sizeAdd_of_le (by omega), Queue.moveTail],
    h.length_eq, ?_⟩
  rw [Queue.moveTail_tail, h.length_eq]
  exact hpop

/-- `enqueue` appends a byte while a cell besides the spare one is free. -/
theorem enqueue_of_lt (h : Represents L queue buf) (hL : L ≤ sizeMax) (value : UInt8)
    (hfree : buf.length + 1 < L) :
    ∃ queue', enqueue queue value = some queue' ∧ Represents L queue' (buf ++ [value]) := by
  have hh := h.head_lt
  have hne : ¬ isQueueFull queue = true := by rw [isQueueFull_iff h hL]; omega
  refine ⟨{ queue with
      data := Function.update queue.data queue.head value
      head := sizeAdd queue.head 1 % queue.length },
    by rw [enqueue, if_neg hne], h.length_eq, ?_⟩
  rw [h.length_eq, sizeAdd_of_le (by omega)]
  exact h.holds.push hfree value

theorem readLoop_eq (n : ℕ) (h : Represents L queue buf) (hL : L ≤ sizeMax)
    (hn : n ≤ buf.length) :
    readLoop n queue = (queue.moveTail n, buf.take n, true) ∧
      Represents L (queue.moveTail n) (buf.drop n) := by
  induction n generalizing queue buf with
  | zero => simpa [readLoop, h.moveTail_zero] using h
  | succ n ih =>
    rcases buf with _ | ⟨value, buf⟩
    · simp at hn
    obtain ⟨hdeq, h₁⟩ := dequeue_cons h hL
    obtain ⟨hloop, h₂⟩ := ih h₁ (by simpa using hn)
    rw [Queue.moveTail_moveTail, Nat.add_comm] at hloop h₂
    exact ⟨by simp [readLoop, hdeq, hloop], h₂⟩

theorem writeLoop_eq (data : List UInt8) (h : Represents L queue buf) (hL : L ≤ sizeMax)
    (hfit : buf.length + data.length < L) :
    ∃ queue', writeLoop data queue = (queue', true) ∧ Represents L queue' (buf ++ data) := by
  induction data generalizing queue buf with
  | nil => exact ⟨queue, rfl, by simpa using h⟩
  | cons value data ih =>
    simp only [List.length_cons] at hfit
    obtain ⟨queue₁, henq, h₁⟩ := enqueue_of_lt h hL value (by omega)
    obtain ⟨queue₂, hloop, h₂⟩ := ih h₁ (by
      simp only [List.length_append, List.length_singleton]
      omega)
    exact ⟨queue₂, by simp [writeLoop, henq, hloop], by simpa using h₂⟩

/-- A read of at most what is held delivers the oldest bytes. -/
theorem readQueue_done (h : Represents L queue buf) (hL : L ≤ sizeMax) {n : ℕ}
    (hn : n ≤ buf.length) :
    readQueue queue n = (queue.moveTail n, buf.take n, toSsize n) ∧
      Represents L (queue.moveTail n) (buf.drop n) := by
  obtain ⟨hloop, h'⟩ := readLoop_eq n h hL hn
  have hload : ¬ getQueueLoad queue < n := by rw [getQueueLoad_eq h hL]; omega
  exact ⟨by simp [readQueue, hload, hloop], h'⟩

theorem readQueue_refused (h : Represents L queue buf) (hL : L ≤ sizeMax) {n : ℕ}
    (hn : buf.length < n) : readQueue queue n = (queue, [], -1) := by
  rw [readQueue, if_pos (by rwa [getQueueLoad_eq h hL])]

/-- The capacity test of `write_queue`. -/
theorem capacity_test_iff (h : Represents L queue buf) {n : ℕ} (hL : L + n ≤ sizeMax) :
    sizeAdd (getQueueLoad queue) n > sizeSub queue.length 1 ↔ L ≤ buf.length + n := by
  have hlen := h.holds.length_lt
  rw [getQueueLoad_eq h (by omega), h.length_eq, sizeAdd_of_le (by omega),
    sizeSub_of_le (by omega) (by omega)]
  omega

/-- A write that fits appends all its bytes. -/
theorem writeQueue_done (h : Represents L queue buf) (data : List UInt8)
    (hL : L + data.length ≤ sizeMax) (hfit : buf.length + data.length < L) :
    ∃ queue', writeQueue queue data = (queue', toSsize data.length) ∧
      Represents L queue' (buf ++ data) := by
  obtain ⟨queue', hloop, h'⟩ := writeLoop_eq data h (by omega) hfit
  have htest := mt (capacity_test_iff h hL).mp (by omega)
  exact ⟨queue', by rw [writeQueue, if_neg htest]; simp [hloop], h'⟩

theorem writeQueue_refused (h : Represents L queue buf) (data : List UInt8)
    (hL : L + data.length ≤ sizeMax) (hfit : L ≤ buf.length + data.length) :
    writeQueue queue data = (queue, -1) := by
  rw [writeQueue, if_pos ((capacity_test_iff h hL).mpr hfit)]

end Functions

/-! ## Histories -/

/-- One call of `write_queue` or `read_queue`: the queue after it, the bytes stored into the
caller's buffer and the return value. -/
def Queue.exec (queue : Queue) : Op UInt8 → Queue × List UInt8 × ℤ
  | .write data => ((writeQueue queue data).1, [], (writeQueue queue data).2)
  | .read length => readQueue queue length

/-- A history of calls, with what every call reported. -/
def Queue.run : Queue → List (Op UInt8) → Queue × List (Op UInt8 × List UInt8 × ℤ)
  | queue, [] => (queue, [])
  | queue, op :: ops =>
    let s := queue.exec op
    let r := Queue.run s.1 ops
    (r.1, (op, s.2) :: r.2)

/-- The bytes stored and the value returned for an outcome of the abstract queue. -/
def reported : Op UInt8 → Outcome UInt8 → List UInt8 × ℤ
  | _, .refused => ([], -1)
  | .write data, .done _ => ([], data.length)
  | .read n, .done bytes => (bytes, toSsize n)

theorem reported_read {n : ℕ} (hn : n < 2 ^ 63) (outcome : Outcome UInt8) :
    (reported (.read n) outcome).2 = n ∨ reported (.read n) outcome = ([], -1) := by
  cases outcome with
  | refused => exact .inr rfl
  | done bytes => exact .inl (toSsize_of_lt hn)

/-- The writes are of at most 65535 bytes, as the receive buffer bounds them. -/
def WritesFit (ops : List (Op UInt8)) : Prop := ∀ data, .write data ∈ ops → data.length ≤ 65535

/-- **One operation**: the ring buffer does what the abstract queue does, and a refused operation
leaves it untouched. -/
theorem exec_refines {L : ℕ} {queue : Queue} {buf : List UInt8} (h : Represents L queue buf)
    (hL : L + 65535 ≤ sizeMax) (op : Op UInt8)
    (hop : ∀ data, op = .write data → data.length ≤ 65535) :
    Represents L (queue.exec op).1 (step (L - 1) buf op).1 ∧
      (queue.exec op).2 = reported op (step (L - 1) buf op).2 ∧
      ((step (L - 1) buf op).2 = .refused → (queue.exec op).1 = queue) := by
  have hlen := h.holds.length_lt
  cases op with
  | write data =>
    have hd := hop data rfl
    by_cases hfit : buf.length + data.length ≤ L - 1
    · obtain ⟨queue', hw, h'⟩ := writeQueue_done h data (by omega) (by omega)
      have hexec : queue.exec (.write data) = (queue', [], (data.length : ℤ)) := by
        rw [Queue.exec, hw, toSsize_of_lt (by omega)]
      rw [hexec, step, if_pos hfit]
      exact ⟨h', rfl, by simp⟩
    · have hexec : queue.exec (.write data) = (queue, [], -1) := by
        rw [Queue.exec, writeQueue_refused h data (by omega) (by omega)]
      rw [hexec, step, if_neg hfit]
      exact ⟨h, rfl, fun _ => rfl⟩
  | read n =>
    by_cases hn : n ≤ buf.length
    · obtain ⟨hr, h'⟩ := readQueue_done h (by omega) hn
      rw [Queue.exec, hr, step, if_pos hn]
      exact ⟨h', rfl, by simp⟩
    · rw [Queue.exec, readQueue_refused h (by omega) (by omega), step, if_neg hn]
      exact ⟨h, rfl, fun _ => rfl⟩

theorem run_refines {L : ℕ} {queue : Queue} {buf : List UInt8} (h : Represents L queue buf)
    (hL : L + 65535 ≤ sizeMax) (ops : List (Op UInt8)) (hops : WritesFit ops) :
    Represents L (queue.run ops).1 (run (L - 1) buf ops).1 ∧
      (queue.run ops).2 = (run (L - 1) buf ops).2.map fun e => (e.1, reported e.1 e.2) := by
  induction ops generalizing queue buf with
  | nil => exact ⟨h, rfl⟩
  | cons op ops ih =>
    obtain ⟨h₁, hrep, -⟩ := exec_refines h hL op fun data hd => hops data (by simp [hd])
    obtain ⟨h₂, hlog⟩ := ih h₁ fun data hd => hops data (by simp [hd])
    exact ⟨h₂, by simp [Queue.run, run, hrep, hlog]⟩

/-- What holds after a history of calls on the queue over `L` bytes, beside the abstract queue of
capacity `L - 1` with the same history. -/
structure HistoryRefines (L : ℕ) (data : ℕ → UInt8) (ops : List (Op UInt8)) : Prop where
  head_lt : ((emptyQueue L data).run ops).1.head < L
  tail_lt : ((emptyQueue L data).run ops).1.tail < L
  /-- The queue holds the bytes of the abstract queue, in order. -/
  represents : Represents L ((emptyQueue L data).run ops).1 (run (L - 1) [] ops).1
  load_eq : getQueueLoad ((emptyQueue L data).run ops).1 = (run (L - 1) [] ops).1.length
  load_le : (run (L - 1) [] ops).1.length ≤ L - 1
  /-- Every call reported what the abstract queue did. -/
  reports : ((emptyQueue L data).run ops).2 =
    (run (L - 1) [] ops).2.map fun e => (e.1, reported e.1 e.2)
  /-- A read of fewer than `2 ^ 63` bytes returned its length, or was refused. -/
  reads : ∀ e ∈ ((emptyQueue L data).run ops).2, ∀ n < 2 ^ 63, e.1 = .read n →
    e.2.2 = n ∨ e.2 = ([], -1)
  /-- A call that the abstract queue refuses next returns -1 and changes nothing. -/
  refused : ∀ op, WritesFit [op] → (step (L - 1) (run (L - 1) [] ops).1 op).2 = .refused →
    ((emptyQueue L data).run ops).1.exec op = (((emptyQueue L data).run ops).1, [], -1)
  /-- The accepted bytes are the bytes read followed by the bytes held. -/
  conserves : (run (L - 1) [] ops).2.flatMap accepted =
    (run (L - 1) [] ops).2.flatMap taken ++ (run (L - 1) [] ops).1

/-- **The ring buffer refines a bounded queue of capacity `L - 1`**, over every history. -/
theorem queue_refines_fifo {L : ℕ} (hL : 1 ≤ L) (hmax : L + 65535 ≤ sizeMax) (data : ℕ → UInt8)
    (ops : List (Op UInt8)) (hops : WritesFit ops) : HistoryRefines L data ops := by
  obtain ⟨h, hlog⟩ := run_refines (represents_emptyQueue hL data) hmax ops hops
  refine ⟨h.head_lt, h.tail_lt, h, getQueueLoad_eq h (by omega), run_length_le (by simp) ops,
    hlog, fun e he n hn hread => ?_, fun op hop href => ?_,
    by simpa using run_conserves (L - 1) ([] : List UInt8) ops⟩
  · rw [hlog] at he
    obtain ⟨⟨op, outcome⟩, -, rfl⟩ := List.mem_map.mp he
    obtain rfl : op = .read n := hread
    exact reported_read hn outcome
  obtain ⟨-, hrep, hsame⟩ := exec_refines h hmax op (by simpa [WritesFit, eq_comm] using hop)
  rw [href] at hrep
  exact Prod.ext (hsame href) hrep

theorem queue_refines_fifo_three :
    HistoryRefines 3 (fun _ => 0) [.write [7, 8], .write [9], .read 1] :=
  queue_refines_fifo (by decide) (by decide) (fun _ => 0) _ (by
    intro data hd
    rcases List.mem_cons.mp hd with h | hd
    · cases h; simp
    · simp at hd; simp [hd])

end CS536Labs.Lab5
