import CS536Labs.Foundations.Word
import Mathlib.Logic.Function.Basic

/-!
# `lab5/lib/queue.c`

The ring buffer between the receive loop and the playback signal handler of the audio client.
`data` is the memory behind the pointer `data`, addressed by offset. `dequeue` and `enqueue`
return `none` for the return value `-1`; `readQueue` returns the queue after the call, the bytes
stored into `buffer` and the return value, and `writeQueue` the queue and the return value.
-/

namespace CS536Labs.Lab5

/-- `AUDIO_FRAME_SIZE` of `audio.h`, the unit of the sizes of the queue. -/
def audioFrameSize : ℕ := 4096

structure Queue where
  head : ℕ
  tail : ℕ
  length : ℕ
  data : ℕ → UInt8

def isQueueEmpty (queue : Queue) : Bool := queue.head == queue.tail

def isQueueFull (queue : Queue) : Bool := sizeAdd queue.head 1 % queue.length == queue.tail

def dequeue (queue : Queue) : Option (UInt8 × Queue) :=
  if isQueueEmpty queue then none
  else some (queue.data queue.tail, { queue with tail := sizeAdd queue.tail 1 % queue.length })

def enqueue (queue : Queue) (value : UInt8) : Option Queue :=
  if isQueueFull queue then none
  else some { queue with
    data := Function.update queue.data queue.head value
    head := sizeAdd queue.head 1 % queue.length }

def getQueueLoad (queue : Queue) : ℕ :=
  if queue.head ≥ queue.tail then sizeSub queue.head queue.tail
  else sizeSub (sizeAdd queue.length queue.head) queue.tail

/-- The loop of `read_queue` with `length - read` bytes to go: the queue, the bytes stored, and
whether every `dequeue` succeeded. -/
def readLoop : ℕ → Queue → Queue × List UInt8 × Bool
  | 0, queue => (queue, [], true)
  | n + 1, queue =>
    match dequeue queue with
    | none => (queue, [], false)
    | some (value, queue) =>
      let r := readLoop n queue
      (r.1, value :: r.2.1, r.2.2)

def readQueue (queue : Queue) (length : ℕ) : Queue × List UInt8 × ℤ :=
  if getQueueLoad queue < length then (queue, [], -1)
  else
    let r := readLoop length queue
    (r.1, r.2.1, if r.2.2 then toSsize length else -1)

/-- The loop of `write_queue` over the bytes not yet written. -/
def writeLoop : List UInt8 → Queue → Queue × Bool
  | [], queue => (queue, true)
  | value :: rest, queue =>
    match enqueue queue value with
    | none => (queue, false)
    | some queue => writeLoop rest queue

def writeQueue (queue : Queue) (data : List UInt8) : Queue × ℤ :=
  if sizeAdd (getQueueLoad queue) data.length > sizeSub queue.length 1 then (queue, -1)
  else
    let r := writeLoop data queue
    (r.1, if r.2 then toSsize data.length else -1)

/-- The queue `main` builds over an array of `length` bytes with any contents. -/
def emptyQueue (length : ℕ) (data : ℕ → UInt8) : Queue := ⟨0, 0, length, data⟩

/-- A queue that holds `n` zeros from `tail` on. -/
def zeroQueue (tail n length : ℕ) : Queue := ⟨(tail + n) % length, tail, length, fun _ => 0⟩

end CS536Labs.Lab5
