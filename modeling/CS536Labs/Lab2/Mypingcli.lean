import CS536Labs.Foundations.Buffer
import CS536Labs.Foundations.Transition
import CS536Labs.Lab2.ReadConfig

/-!
# `lab2/v1/mypingcli.c` and `lab2/v1/message_codec.c`

The ping client in `run`. The labels are the arrival of a datagram at the socket, the outcomes of
`sendto` and `recvfrom`, and the steps between the calls; a label also brings what a local variable
holds that is not initialized. `SIGALRM` shows in the outcome of `recvfrom` only: elsewhere its
handler returns to what was interrupted.

`log` has the datagrams that arrived, the requests that were sent, and the round-trip times that
were printed.
-/

namespace CS536Labs.Lab2

/-- `MESSAGE_SIZE`. -/
def messageSize : ℕ := 5

/-- The bytes that an `int32_t` has in a message. -/
def idBytes (id : Int32) : List UInt8 := storeLE 4 id.toUInt32.toNat

/-- The array `message` of `receive_feedback`. -/
abbrev MessageBuffer := { message : List UInt8 // message.length = messageSize }

/-- `encode_message`. -/
def encodeMessage (id : Int32) (delay : UInt8) : List UInt8 := idBytes id ++ [delay]

/-- `decode_message`. -/
def decodeMessage (message : List UInt8) : Int32 × UInt8 :=
  ((UInt32.ofNat (loadLE (bytesAt message 0 4))).toInt32, message.getD 4 0)

/-- `receive_feedback`, where `recvfrom` took a datagram or returned -1: the return value, and
`*id` behind the call. -/
def receiveFeedback (message : MessageBuffer) (received : Option (List UInt8)) (id : Int32) :
    ℤ × Int32 :=
  match received with
  | none => (-1, id)
  | some data =>
    if min data.length messageSize = 0 then (-2, id)
    else (0, (decodeMessage (recvInto message data)).1)

/-- The identifier of a request. -/
def Config.requestId (config : Config) (i : ℕ) : Int32 :=
  config.firstSequenceNum + Int32.ofNat i

namespace Mypingcli

inductive Event
  | arrived (data : List UInt8)
  | sent (i : ℕ) (message : List UInt8)
  | printed (i : ℕ)
  deriving DecidableEq

/-- The place in the loops of `run` and `ping`. -/
inductive Ctl
  /-- The loop of `run`. -/
  | next (i : ℕ)
  /-- The loop of `ping`, with `feedback_id`. -/
  | receive (i : ℕ) (feedbackId : Int32)
  | compare (i : ℕ) (feedbackId : Int32)
  | sleep (i : ℕ)
  | returned (status : ℤ)
  deriving DecidableEq

inductive Label
  /-- A datagram arrives at the socket. -/
  | arrive (data : List UInt8)
  /-- `sendto` succeeds or not, and `feedback_id` is declared. -/
  | sendto (ok : Bool) (feedbackId : Int32)
  /-- `recvfrom` takes a datagram, with the array `message` in front of the call. -/
  | recvfrom (message : MessageBuffer)
  /-- `recvfrom` returns -1, for the alarm or another reason. -/
  | recvError (interrupted : Bool)
  /-- A step without a call that can fail. -/
  | step

end Mypingcli

open Mypingcli

structure Mypingcli where
  ctl : Ctl
  queue : List (List UInt8)
  log : List Event
  deriving DecidableEq

namespace Mypingcli

def start : Mypingcli := ⟨.next 0, [], []⟩

/-- The request with its message, from `send_pinging`. -/
def request (config : Config) (i : ℕ) : Event :=
  .sent i (encodeMessage (config.requestId i) config.serverDelay)

/-- A step of the client or of the network. -/
def exec (config : Config) (s : Mypingcli) : Label → Option Mypingcli
  | .arrive data => some { s with queue := s.queue ++ [data], log := s.log ++ [.arrived data] }
  | .sendto ok feedbackId =>
    match s.ctl with
    | .next i =>
      if i < config.numPackages.toNat then
        some (if ok then { s with ctl := .receive i feedbackId, log := s.log ++ [request config i] }
          else { s with ctl := .returned (-1) })
      else none
    | _ => none
  | .recvfrom message =>
    match s.ctl, s.queue with
    | .receive i feedbackId, data :: queue =>
      some { s with
        ctl := .compare i (receiveFeedback message (some data) feedbackId).2
        queue := queue }
    | _, _ => none
  | .recvError interrupted =>
    match s.ctl with
    | .receive i _ => some { s with ctl := if interrupted then .next (i + 1) else .returned (-1) }
    | _ => none
  | .step =>
    match s.ctl with
    | .next i =>
      if i < config.numPackages.toNat then none else some { s with ctl := .returned 0 }
    | .compare i feedbackId =>
      some (if feedbackId = config.requestId i then
          { s with
            ctl := if i + 1 = config.numPackages.toNat then .next (i + 1) else .sleep i
            log := s.log ++ [.printed i] }
        else { s with ctl := .receive i feedbackId })
    | .sleep i => some { s with ctl := .next (i + 1) }
    | _ => none

end Mypingcli

/-- The runs of the client. -/
def mypingcli (config : Config) : LTS Mypingcli Label := LTS.ofExec start (exec config)

/-! ## The codec -/

@[simp] theorem length_idBytes (id : Int32) : (idBytes id).length = 4 := length_storeLE 4 _

theorem bytesAt_zero (message : List UInt8) (n : ℕ) : bytesAt message 0 n = message.take n := by
  rw [bytesAt, List.drop_zero]

/-- **The identifiers in messages.** -/
theorem decodeMessage_eq_iff {message : List UInt8} (h : 4 ≤ message.length) (id : Int32) :
    (decodeMessage message).1 = id ↔ message.take 4 = idBytes id := by
  have hlen : (message.take 4).length = 4 := by
    rw [List.length_take, Nat.min_eq_left h]
  have hlt : loadLE (message.take 4) < 2 ^ 32 := by
    have hlt := loadLE_lt (message.take 4)
    rw [hlen] at hlt
    exact hlt
  rw [decodeMessage, bytesAt_zero, idBytes]
  constructor
  · rintro rfl
    have hstore := storeLE_loadLE (message.take 4)
    rw [hlen] at hstore
    rw [UInt32.toUInt32_toInt32, UInt32.toNat_ofNat_of_lt' hlt, hstore]
  · intro hbytes
    rw [hbytes, loadLE_storeLE id.toUInt32.toNat_lt, UInt32.ofNat_toNat, Int32.toInt32_toUInt32]

/-- **What is encoded is decoded.** -/
theorem decodeMessage_encodeMessage (id : Int32) (delay : UInt8) :
    decodeMessage (encodeMessage id delay) = (id, delay) := by
  have hlen := length_idBytes id
  have hid : (decodeMessage (encodeMessage id delay)).1 = id := by
    rw [decodeMessage_eq_iff (by simp [encodeMessage]), encodeMessage, List.take_left' hlen]
  have hdelay : (encodeMessage id delay).getD 4 0 = delay := by
    rw [encodeMessage, List.getD_eq_getElem?_getD, List.getElem?_append_right hlen.le, hlen]
    rfl
  exact Prod.ext hid hdelay

end CS536Labs.Lab2
