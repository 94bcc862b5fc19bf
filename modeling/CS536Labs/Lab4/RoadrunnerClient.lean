import CS536Labs.Lab4.Codec
import Mathlib.Data.Int.Notation
import Mathlib.Data.List.TakeDrop
import Mathlib.Logic.Function.Basic

/-!
# `lab4/lib/roadrunner_client.c`

The client in `receive_file_and_cancel_timeout`, between two calls of `recvfrom`.
`Client.receive` is one iteration of the loop of `receive_window_and_cancel_timeout` on a datagram:
the client after it and the ACKs it sent back to the source. When the iteration ends the call, it
runs on to the next `recvfrom`, that of the next window.

The array `window_data` of every call is on the stack and not initialised: `uninit n` is what the
array of the `n`-th call holds.
-/

namespace CS536Labs.Lab4

/-- `NUM_EOF_ACKS`. -/
def numEofAcks : ℕ := 8

/-- The locals of the two functions, the file written so far, whether the request timer runs, the
number of calls of `receive_window_and_cancel_timeout` and of windows appended, and the return
value of `receive_file_and_cancel_timeout`. -/
structure Client where
  initialSequenceNumber : ℕ
  lastNum : UInt8
  received : ℕ → Bool
  /-- The rows of `window_data`. -/
  windowData : ℕ → List UInt8
  isEof : Bool
  file : List UInt8
  requestTimer : Bool
  calls : ℕ
  windows : ℕ
  ret : Option ℤ

/-- How the calls of the file and socket library go in one iteration. -/
structure Outcomes where
  /-- `append_window_to_file` returns 0. It does so when `fwrite` has buffered the bytes and only
  `fclose` fails to write them, since nobody looks at the result of `fclose`. -/
  appended : Bool
  /-- The number of bytes at the end of the window that do not reach the file. -/
  lost : ℕ
  /-- The number of calls of `send_ack` that succeed. -/
  acks : ℕ

/-- Nothing fails. -/
def Outcomes.ok : Outcomes := ⟨true, 0, numEofAcks⟩

def Outcomes.AppendOk (o : Outcomes) : Prop := o.appended = true ∧ o.lost = 0

instance (o : Outcomes) : Decidable o.AppendOk := instDecidableAnd

/-- The bytes that reach the file. -/
def Outcomes.kept (o : Outcomes) (data : List UInt8) : List UInt8 :=
  data.take (data.length - o.lost)

theorem Outcomes.kept_eq_self_iff (o : Outcomes) (data : List UInt8) :
    o.kept data = data ↔ (0 < data.length → o.lost = 0) := by
  rw [kept, List.take_eq_self_iff]
  omega

theorem Outcomes.appendOk_ok : Outcomes.ok.AppendOk := ⟨rfl, rfl⟩

/-- `if (prikey != NULL) bbdecode_data(...)`. -/
def decodeWith (prikey : Option UInt32) (data : List UInt8) : List UInt8 :=
  match prikey with
  | none => data
  | some prikey => bbdecodeData data prikey

/-- The size of the block in a datagram of this length. -/
def blocksizeOf (config : Config) (bytesRead : ℕ) : ℕ :=
  if bytesRead > config.blocksize + 1 then config.blocksize else bytesRead - 1

/-- The bytes that `append_window_to_file` writes. -/
def appendWindowToFile (config : Config) (windowData : ℕ → List UInt8)
    (windowsize lastBlocksize : ℕ) : List UInt8 :=
  (List.range windowsize).flatMap fun i =>
    (windowData i).take (if i = windowsize - 1 then lastBlocksize else config.blocksize)

section

variable (config : Config) (prikey : Option UInt32) (uninit : ℕ → ℕ → ℕ → UInt8)

/-- The parameter `initial_sequence_number` of the call. -/
def Client.base (c : Client) : UInt8 := UInt8.ofNat c.initialSequenceNumber

/-- `receive_window_and_cancel_timeout` is called. -/
def Client.enter (c : Client) : Client :=
  { c with
    lastNum := UInt8.ofNat (c.base.toNat + config.windowsize - 1)
    received := fun _ => false
    windowData := fun i => (List.range config.blocksize).map (uninit c.calls i)
    isEof := false
    calls := c.calls + 1 }

/-- `receive_file_and_cancel_timeout` is called, with the request timer running. -/
def Client.start (c : Client) : Client :=
  { c with initialSequenceNumber := 0, requestTimer := true }.enter config uninit

/-- A client with an empty file. -/
def Client.initial : Client :=
  (⟨0, 0, fun _ => false, fun _ => [], false, [], true, 0, 0, none⟩ : Client).start config uninit

/-- An ACK for another window, and `continue`. -/
def Client.reply (c : Client) (num : UInt8) (o : Outcomes) : Client × List UInt8 :=
  if o.acks = 0 then ({ c with ret := some (-1) }, []) else (c, [num])

/-- The ACKs of the window, and the step of `receive_file_and_cancel_timeout`. -/
def Client.finish (c : Client) (o : Outcomes) : Client × List UInt8 :=
  let count := if c.isEof then numEofAcks else 1
  if o.acks < count then ({ c with ret := some (-1) }, List.replicate o.acks c.lastNum)
  else
    let next := { c with
      initialSequenceNumber := (c.initialSequenceNumber + config.windowsize) %
        (sequenceNumberSpaceToWindowsizeRatio * config.windowsize) }
    (if c.isEof then { next with ret := some 0 } else next.enter config uninit,
      List.replicate count c.lastNum)

/-- The window is complete; `blocksize` is the size of the block received last. -/
def Client.complete (c : Client) (blocksize : ℕ) (o : Outcomes) : Client × List UInt8 :=
  let windowsize := (c.lastNum - c.base + 1).toNat
  let data := appendWindowToFile config c.windowData windowsize blocksize
  let c := { c with file := c.file ++ o.kept data }
  if o.appended then { c with windows := c.windows + 1 }.finish config uninit o
  else ({ c with ret := some (-1) }, [])

/-- The block is stored in row `index` of `window_data`. -/
def Client.store (c : Client) (num : UInt8) (block : List UInt8) (bytesRead : ℕ) : Client :=
  let index := num.toNat - c.base.toNat
  { c with
    received := Function.update c.received index true
    windowData :=
      Function.update c.windowData index (block ++ (c.windowData index).drop block.length)
    lastNum := if bytesRead ≠ config.blocksize + 1 then num else c.lastNum
    isEof := c.isEof || bytesRead ≠ config.blocksize + 1 }

/-- Every number up to `last_num` has been received. -/
def Client.completed (c : Client) : Bool :=
  (List.range (c.lastNum.toNat + 1 - c.base.toNat)).all c.received

/-- One iteration, on the datagram that `recvfrom` cuts to the size of `buffer`. -/
def Client.receive (c : Client) (datagram : List UInt8) (o : Outcomes) : Client × List UInt8 :=
  let buffer := datagram.take (config.blocksize + 2)
  if buffer.length = 0 then c.finish config uninit o
  else
    let c := { c with requestTimer := false }
    let blocksize := blocksizeOf config buffer.length
    let (num, block) := decodePacket buffer blocksize
    if num < c.base then c.reply (c.base - 1) o
    else if num.toNat ≥ c.base.toNat + config.windowsize then
      c.reply (UInt8.ofNat (c.base.toNat +
        config.windowsize * sequenceNumberSpaceToWindowsizeRatio - 1)) o
    else
      let c := c.store config num (decodeWith prikey block) buffer.length
      if c.completed then c.complete config uninit blocksize o else (c, [])

end

/-! ## The end of a window -/

section Complete

variable {config : Config} {uninit : ℕ → ℕ → ℕ → UInt8}

@[simp] theorem Client.finish_file (c : Client) (o : Outcomes) :
    (c.finish config uninit o).1.file = c.file := by
  unfold Client.finish Client.enter
  dsimp only
  split_ifs <;> rfl

@[simp] theorem Client.finish_windows (c : Client) (o : Outcomes) :
    (c.finish config uninit o).1.windows = c.windows := by
  unfold Client.finish Client.enter
  dsimp only
  split_ifs <;> rfl

theorem Client.complete_eq {o : Outcomes} (ho : o.AppendOk) (c : Client) (blocksize : ℕ) :
    c.complete config uninit blocksize o =
      Client.finish config uninit { c with
        file := c.file ++
          appendWindowToFile config c.windowData (c.lastNum - c.base + 1).toNat blocksize
        windows := c.windows + 1 } o := by
  obtain ⟨happended, hlost⟩ := ho
  unfold Client.complete
  dsimp only
  rw [if_pos happended, (o.kept_eq_self_iff _).mpr fun _ => hlost]

theorem Client.complete_file {o : Outcomes} (ho : o.AppendOk) (c : Client) (blocksize : ℕ) :
    (c.complete config uninit blocksize o).1.file = c.file ++
      appendWindowToFile config c.windowData (c.lastNum - c.base + 1).toNat blocksize := by
  rw [Client.complete_eq ho, Client.finish_file]

theorem Client.complete_windows {o : Outcomes} (ho : o.AppendOk) (c : Client) (blocksize : ℕ) :
    (c.complete config uninit blocksize o).1.windows = c.windows + 1 := by
  rw [Client.complete_eq ho, Client.finish_windows]

end Complete

end CS536Labs.Lab4
