import CS536Labs.Lab5.AudioServer
import CS536Labs.Lab5.InterruptedWriteSafety
import CS536Labs.Lab5.RequestCodec

/-!
# Streaming: `audio_client.c` with `audio_server.c`

The client requests a file, writes the datagrams it receives into its queue and reports an interval
behind each of them, while the handler of `SIGALRM` plays frames from the queue; at the first empty
datagram it cancels the timer and plays what is left. The server forks a child for each request that
arrives, and a request is repeated when nothing has come back for 500 ms. The network loses, repeats
and reorders datagrams.

The main thread is `Writer` inside of `write_queue`. Other clients of the server have children of
their own, which do not appear.

`Streaming.exec` has the steps of both programs.
-/

namespace CS536Labs.Lab5

/-- What the client asks for, checked by `get_config`, and the length of its array `buffer`. -/
structure StreamConfig where
  filename : CString
  blocksize : ℕ
  length : ℕ
  checkFilename : Lab5.checkFilename filename.bytes = 0
  blocksize_pos : 0 < blocksize
  blocksize_lt : blocksize < 2 ^ 16
  length_pos : 0 < length
  length_le : 2 * length + 65535 ≤ sizeMax

/-- The array `request`. -/
abbrev RequestArray := { request : List UInt8 // request.length = requestSize }

/-- The array `filename` of the server. -/
abbrev FilenameArray := { filename : List UInt8 // filename.length = maxFilenameLen + 1 }

namespace Streaming

/-- The place in `start_client`. -/
inductive Phase
  /-- In front of `request_file`. -/
  | request
  /-- At `recvfrom`, with `is_request_successful`. -/
  | receive (successful : Bool)
  /-- In `write_queue` or behind it, with the child that sent the datagram. -/
  | write (child : ℕ)
  /-- In the loop behind the streaming. -/
  | drain
  | returned (status : ℤ)
  /-- The handler has called `_exit`. -/
  | exited
  deriving DecidableEq

inductive Label
  /-- `request_file`, whose result is ignored, and `setitimer`. -/
  | request (memory : RequestArray) (sent timer : Bool)
  /-- The server receives one of the requests, into these arrays, and may call `fork`. -/
  | serve (i : ℕ) (request : RequestArray) (filename : FilenameArray) (forks : Bool)
  /-- A step of a child, other than the receipt of a feedback. -/
  | child (i : ℕ) (a : AudioServer.Label)
  /-- A child receives one of the feedbacks. -/
  | childFeedback (i j : ℕ) (feedback : UInt16)
  /-- `recvfrom` takes one of the datagrams of a child, and the call of `setitimer` behind it
  succeeds or not, if there is one. -/
  | recvfrom (child index : ℕ) (timer : Bool)
  /-- `recvfrom` returns -1, for a signal or another reason. -/
  | recvError (interrupted : Bool)
  /-- A memory access of `write_queue`. -/
  | access
  /-- `send_feedback`, with the rate that the method computes. -/
  | feedback (packetsPerSecond : ℚ) (sent interrupted : Bool)
  /-- The handler runs, and succeeds or not. -/
  | handler (ok : Bool)
  /-- The next call in the loop behind the streaming, or behind it. -/
  | drain (ok : Bool)

/-- A datagram that was received, with its place in the log of the child that sent it. -/
structure Arrival where
  child : ℕ
  index : ℕ
  data : List UInt8
  deriving DecidableEq

end Streaming

open Streaming

/-- The client with its queue, the requests and feedbacks that it sent, the children of the server
with their block sizes, and the datagrams that went into the queue or ended the streaming. -/
structure Streaming where
  phase : Phase
  writer : Writer
  requests : List (List UInt8)
  feedbacks : List (ℕ × UInt16)
  children : List (ℕ × AudioServer)
  received : List Arrival

namespace Streaming

/-- The server receives a request, when its directory has these files. -/
def serve (files : List UInt8 → Option (List UInt8)) (interval : UInt16) (s : Streaming)
    (request : RequestArray) (filename : FilenameArray) (data : List UInt8) (forks : Bool) :
    Streaming :=
  let (filename, blocksize) := requestCodec.readRequest request.val filename.val data
  if checkFilename filename ≠ 0 then s
  else
    match files (cString filename) with
    | none => s
    | some file =>
      if forks then { s with
        children := s.children ++ [(blocksize, AudioServer.start file interval)] }
      else s

/-- `recvfrom` has returned the datagram, cut to the size of `buffer`. -/
def receive (s : Streaming) (successful : Bool) (arrival : Arrival) (timer : Bool) : Streaming :=
  if arrival.data = [] then
    { s with
      phase := if timer then .drain else .returned (-1)
      received := s.received ++ [arrival] }
  else if !successful && !timer then { s with phase := .returned (-1) }
  else
    { s with
      phase := .write arrival.child
      writer := { s.writer with pc := .geHead, data := arrival.data }
      received := s.received ++ [arrival] }

/-- `send_feedback`. -/
def sendFeedback (s : Streaming) (child : ℕ) (packetsPerSecond : ℚ) (sent interrupted : Bool) :
    Option Streaming :=
  (toPspacingMs packetsPerSecond).map fun interval =>
    if sent then { s with
      phase := .receive true, feedbacks := s.feedbacks ++ [(child, interval)] }
    else { s with phase := if interrupted then .receive true else .returned (-1) }

/-- One step of the client or the server. -/
def exec (config : StreamConfig) (files : List UInt8 → Option (List UInt8)) (interval : UInt16)
    (s : Streaming) : Label → Option Streaming
  | .request memory sent timer =>
    if s.phase = .request then
      some { s with
        phase := if timer then .receive false else .returned (-1)
        requests := if sent then
            s.requests ++ [encodeRequest config.filename config.blocksize memory.val]
          else s.requests }
    else none
  | .serve i request filename forks =>
    s.requests[i]?.map fun data => s.serve files interval request filename data forks
  | .child _ (.feedback _ _) => none
  | .child i a =>
    s.children[i]?.bind fun c => (c.2.exec c.1 a).map fun child =>
      { s with children := s.children.set i (c.1, child) }
  | .childFeedback i j feedback =>
    s.feedbacks[j]?.bind fun f =>
      if f.1 = i then
        s.children[i]?.bind fun c =>
          (c.2.exec c.1 (.feedback feedback (storeLE 2 f.2.toNat))).map fun child =>
            { s with children := s.children.set i (c.1, child) }
      else none
  | .recvfrom child index timer =>
    match s.phase with
    | .receive successful =>
      (s.children[child]?.bind fun c => c.2.sent[index]?).map fun datagram =>
        s.receive successful ⟨child, index, datagram.take config.blocksize⟩ timer
    | _ => none
  | .recvError interrupted =>
    match s.phase with
    | .receive successful =>
      some { s with
        phase := if interrupted then (if successful then .receive true else .request)
          else .returned (-1) }
    | _ => none
  | .access =>
    match s.phase with
    | .write _ => (s.writer.exec .access).map fun writer => { s with writer := writer }
    | _ => none
  | .feedback packetsPerSecond sent interrupted =>
    match s.phase, s.writer.pc with
    | .write child, .idle => s.sendFeedback child packetsPerSecond sent interrupted
    | _, _ => none
  | .handler ok =>
    match s.phase with
    | .drain | .returned _ | .exited => none
    | _ => some { s with writer := s.writer.handler, phase := if ok then s.phase else .exited }
  | .drain ok =>
    match s.phase with
    | .drain =>
      if getQueueLoad s.writer.queue > 0 then
        some { s with
          writer := s.writer.handler
          phase := if ok then .drain else .returned (-1) }
      else some { s with phase := .returned (if ok then 0 else -1) }
    | _ => none

/-- The client in front of its first request. -/
def start (config : StreamConfig) (buffer : ℕ → UInt8) : Streaming :=
  ⟨.request, Writer.initial config.length buffer, [], [], [], []⟩

/-- All runs of a client with its server. -/
def system (config : StreamConfig) (files : List UInt8 → Option (List UInt8)) (interval : UInt16)
    (buffer : ℕ → UInt8) : LTS Streaming Label :=
  LTS.ofExec (start config buffer) (exec config files interval)

end Streaming

end CS536Labs.Lab5
