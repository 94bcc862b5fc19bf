import CS536Labs.Foundations.Transition
import CS536Labs.Lab4.Codec
import Mathlib.Data.Int.Notation

/-!
# `lab4/lib/roadrunner_server.c`

A server child running `send_file`, as an automaton whose steps are the library calls it makes.
`Ctl` is the call it makes next; an event is the outcome of that call. `sent` logs the datagrams
handed to `sendto`, and `window` counts the windows `send_file` has left behind.

The return value of the call of `send_window` in the loop is ignored, so that a window that failed
there is left behind like one that was acknowledged.
-/

namespace CS536Labs.Lab4

/-- The size of `prev_buf` and `curr_buf`. -/
def Config.windowBytes (config : Config) : ℕ := config.blocksize * config.windowsize

/-- The calls of `send_window` in `send_file`. -/
inductive Site
  /-- At the end of the file, with nothing in `curr_buf`. -/
  | onlyPrev
  /-- At the end of the file: first `prev_buf`, then `curr_buf`. -/
  | prevThenCurr
  | lastCurr
  /-- In the loop, the end of the file not yet seen. -/
  | lookAhead
  deriving DecidableEq

/-- The argument `is_eof`. -/
def Site.isEof : Site → Bool
  | .onlyPrev | .lastCurr => true
  | .prevThenCurr | .lookAhead => false

/-- The library call the server makes next. -/
inductive Ctl
  | fopen
  | readPrev
  | readCurr
  /-- `socket`, at the start of an attempt of `send_window`. -/
  | socket (site : Site)
  /-- `sendto`, with the locals `sequence_number` and `block_index`. -/
  | sendto (site : Site) (sequenceNumber : UInt8) (blockIndex : ℕ)
  /-- `recvfrom` in `receive_ack_and_cancel_timeout`. -/
  | recvAck (site : Site) (expected : UInt8)
  | returned (ret : ℤ)
  deriving DecidableEq

/-- A datagram on its way to the client: its bytes, the socket it was sent from, and the place of
its block in the file. -/
structure Datagram where
  bytes : List UInt8
  socket : ℕ
  window : ℕ
  block : ℕ
  deriving DecidableEq

/-- The locals of `send_file` and the sockets and datagrams of the child. `prevBuf` and `currBuf`
are the bytes read into the buffers; `socket` numbers the sockets opened. -/
structure Server where
  ctl : Ctl
  /-- The part of the file not yet read. -/
  rest : List UInt8
  prevBuf : List UInt8
  currBuf : List UInt8
  initialSequenceNumber : UInt8
  socket : ℕ
  window : ℕ
  sent : List Datagram

def Server.initial (file : List UInt8) : Server := ⟨.fopen, file, [], [], 0, 0, 0, []⟩

inductive ServerEvent
  /-- The call at the control point succeeds. -/
  | ok
  /-- The call at the control point fails. -/
  | fail
  /-- `recvfrom` returns an ACK. -/
  | ack (num : UInt8)
  /-- `recvfrom` is interrupted by the ACK timer. -/
  | timeout
  deriving DecidableEq

/-- The argument `data` of `send_window`. -/
def Server.data (s : Server) : Site → List UInt8
  | .onlyPrev | .prevThenCurr | .lookAhead => s.prevBuf
  | .lastCurr => s.currBuf

/-- `if (pubkey != NULL) bbencode_data(...)`. -/
def encodeWith (pubkey : Option UInt32) (data : List UInt8) : List UInt8 :=
  match pubkey with
  | none => data
  | some pubkey => bbencodeData data pubkey

/-- `send_window` is called: it encodes its argument in place, once, before the attempts. -/
def Server.call (pubkey : Option UInt32) (s : Server) (site : Site) : Server :=
  match site with
  | .lastCurr => { s with currBuf := encodeWith pubkey s.currBuf, ctl := .socket site }
  | _ => { s with prevBuf := encodeWith pubkey s.prevBuf, ctl := .socket site }

/-- What `send_file` does after `send_window` returned. -/
def Server.afterCall (pubkey : Option UInt32) (s : Server) (site : Site) (success : Bool) :
    Server :=
  match site, success with
  | .lookAhead, _ => { s with window := s.window + 1, prevBuf := s.currBuf, ctl := .readCurr }
  | _, false => { s with ctl := .returned (-1) }
  | .prevThenCurr, true => { s with window := s.window + 1 }.call pubkey .lastCurr
  | _, true => { s with window := s.window + 1, ctl := .returned 0 }

/-- `while (block_index < data_size)`, and the start of the ACK timer behind it. -/
def Server.loop (s : Server) (site : Site) (sequenceNumber : UInt8) (blockIndex : ℕ) : Server :=
  if blockIndex < (s.data site).length then
    { s with ctl := .sendto site sequenceNumber blockIndex }
  else { s with ctl := .recvAck site (sequenceNumber - 1) }

/-- The packet that carries the block at `block_index`. -/
def Server.packet (config : Config) (s : Server) (site : Site) (sequenceNumber : UInt8)
    (blockIndex : ℕ) : List UInt8 :=
  let data := s.data site
  let blocksize :=
    if data.length - blockIndex < config.blocksize then data.length - blockIndex
    else config.blocksize
  let blockData := (data.drop blockIndex).take blocksize
  let needToAppendDummy := site.isEof && blockIndex + config.blocksize == data.length
  encodePacket sequenceNumber blockData ++ if needToAppendDummy then [dummyEndOfPacket] else []

/-- `sendto` succeeded. -/
def Server.transmit (config : Config) (s : Server) (site : Site) (sequenceNumber : UInt8)
    (blockIndex : ℕ) : Server :=
  let datagram : Datagram :=
    ⟨s.packet config site sequenceNumber blockIndex, s.socket, s.window,
      blockIndex / config.blocksize⟩
  { s with sent := s.sent ++ [datagram] }.loop site (sequenceNumber + 1)
    (blockIndex + config.blocksize)

/-- The second `fread` and the call of `send_window` that follows it. At the end of the file with
an empty `curr_buf` both branches on `prev_bytes_read` make the same call. -/
def Server.readCurr (config : Config) (pubkey : Option UInt32) (s : Server) : Server :=
  let currBuf := s.rest.take config.windowBytes
  let s := { s with currBuf := currBuf, rest := s.rest.drop config.windowBytes }
  if currBuf.length < config.windowBytes then
    if currBuf.length = 0 then s.call pubkey .onlyPrev else s.call pubkey .prevThenCurr
  else s.call pubkey .lookAhead

/-- The expected ACK arrived: the end of `send_window`. -/
def Server.acknowledged (config : Config) (pubkey : Option UInt32) (s : Server) (site : Site) :
    Server :=
  { s with
    initialSequenceNumber := UInt8.ofNat
      ((s.initialSequenceNumber.toNat + config.windowsize) %
        (sequenceNumberSpaceToWindowsizeRatio * config.windowsize)) }.afterCall pubkey site true

/-- One library call and the code up to the next one. -/
def Server.exec (config : Config) (pubkey : Option UInt32) (s : Server) (e : ServerEvent) :
    Option Server :=
  match s.ctl, e with
  | .fopen, .ok => some { s with ctl := .readPrev }
  | .fopen, .fail => some { s with ctl := .returned (-1) }
  | .readPrev, .ok =>
    some { s with
      prevBuf := s.rest.take config.windowBytes
      rest := s.rest.drop config.windowBytes
      ctl := .readCurr }
  | .readPrev, .fail => some { s with ctl := .returned (-1) }
  | .readCurr, .ok => some (s.readCurr config pubkey)
  | .readCurr, .fail => some { s with ctl := .returned (-1) }
  | .socket site, .ok =>
    some ({ s with socket := s.socket + 1 }.loop site s.initialSequenceNumber 0)
  | .socket site, .fail => some (s.afterCall pubkey site false)
  | .sendto site sequenceNumber blockIndex, .ok =>
    some (s.transmit config site sequenceNumber blockIndex)
  | .sendto site _ _, .fail => some (s.afterCall pubkey site false)
  | .recvAck site expected, .ack num =>
    if num = expected then some (s.acknowledged config pubkey site) else some s
  | .recvAck site _, .timeout => some { s with ctl := .socket site }
  | .recvAck site _, .fail => some (s.afterCall pubkey site false)
  | _, _ => none

/-- The call of `send_window` that the server is in. -/
def Ctl.site : Ctl → Option Site
  | .socket site | .sendto site _ _ | .recvAck site _ => some site
  | _ => none

/-- `send_window` does not fail in the loop of `send_file`. -/
def Server.Clean (s : Server) (e : ServerEvent) : Prop :=
  e = .fail → s.ctl.site ≠ some .lookAhead

/-- What one step can do. -/
inductive Server.Step (config : Config) (pubkey : Option UInt32) (s : Server) :
    ServerEvent → Server → Prop
  | fopen (h : s.ctl = .fopen) : Step config pubkey s .ok { s with ctl := .readPrev }
  | fileFail (h : s.ctl = .fopen ∨ s.ctl = .readPrev ∨ s.ctl = .readCurr) :
    Step config pubkey s .fail { s with ctl := .returned (-1) }
  | readPrev (h : s.ctl = .readPrev) : Step config pubkey s .ok
    { s with
      prevBuf := s.rest.take config.windowBytes
      rest := s.rest.drop config.windowBytes
      ctl := .readCurr }
  | readCurr (h : s.ctl = .readCurr) : Step config pubkey s .ok (s.readCurr config pubkey)
  | socket {site : Site} (h : s.ctl = .socket site) : Step config pubkey s .ok
    ({ s with socket := s.socket + 1 }.loop site s.initialSequenceNumber 0)
  | sendto {site : Site} {num : UInt8} {blockIndex : ℕ} (h : s.ctl = .sendto site num blockIndex) :
    Step config pubkey s .ok (s.transmit config site num blockIndex)
  | callFail {site : Site} (h : s.ctl = .socket site ∨
      (∃ num blockIndex, s.ctl = .sendto site num blockIndex) ∨ ∃ num, s.ctl = .recvAck site num) :
    Step config pubkey s .fail (s.afterCall pubkey site false)
  | acknowledged {site : Site} {num : UInt8} (h : s.ctl = .recvAck site num) :
    Step config pubkey s (.ack num) (s.acknowledged config pubkey site)
  | ignored {site : Site} {expected num : UInt8} (h : s.ctl = .recvAck site expected)
    (hne : num ≠ expected) : Step config pubkey s (.ack num) s
  | timeout {site : Site} {num : UInt8} (h : s.ctl = .recvAck site num) :
    Step config pubkey s .timeout { s with ctl := .socket site }

theorem Server.step_of_exec {config : Config} {pubkey : Option UInt32} {s t : Server}
    {e : ServerEvent} (h : s.exec config pubkey e = some t) : s.Step config pubkey e t := by
  unfold Server.exec at h
  split at h
  case h_1 hctl => cases h; exact .fopen hctl
  case h_2 hctl => cases h; exact .fileFail (.inl hctl)
  case h_3 hctl => cases h; exact .readPrev hctl
  case h_4 hctl => cases h; exact .fileFail (.inr (.inl hctl))
  case h_5 hctl => cases h; exact .readCurr hctl
  case h_6 hctl => cases h; exact .fileFail (.inr (.inr hctl))
  case h_7 hctl => cases h; exact .socket hctl
  case h_8 hctl => cases h; exact .callFail (.inl hctl)
  case h_9 hctl => cases h; exact .sendto hctl
  case h_10 hctl => cases h; exact .callFail (.inr (.inl ⟨_, _, hctl⟩))
  case h_11 num hctl =>
    split_ifs at h with hnum
    · cases h
      exact .acknowledged (hnum ▸ hctl)
    · cases h
      exact .ignored hctl hnum
  case h_12 hctl => cases h; exact .timeout hctl
  case h_13 hctl => cases h; exact .callFail (.inr (.inr ⟨_, hctl⟩))
  case h_14 => cases h

/-- All runs of a child that serves the file. -/
def serverSystem (config : Config) (pubkey : Option UInt32) (file : List UInt8) :
    LTS Server ServerEvent :=
  .ofExec (Server.initial file) (Server.exec config pubkey)

/-! ## The log and the window of a child -/

section Log

variable {config : Config} {key : Option UInt32} {s t : Server} {e : ServerEvent}

@[simp] theorem Server.loop_sent (site : Site) (num : UInt8) (blockIndex : ℕ) :
    (s.loop site num blockIndex).sent = s.sent := by
  unfold Server.loop
  split_ifs <;> rfl

@[simp] theorem Server.loop_window (site : Site) (num : UInt8) (blockIndex : ℕ) :
    (s.loop site num blockIndex).window = s.window := by
  unfold Server.loop
  split_ifs <;> rfl

@[simp] theorem Server.call_sent (site : Site) : (s.call key site).sent = s.sent := by
  cases site <;> rfl

@[simp] theorem Server.call_window (site : Site) : (s.call key site).window = s.window := by
  cases site <;> rfl

@[simp] theorem Server.afterCall_sent (site : Site) (success : Bool) :
    (s.afterCall key site success).sent = s.sent := by
  cases site <;> cases success <;> rfl

@[simp] theorem Server.acknowledged_sent (site : Site) :
    (s.acknowledged config key site).sent = s.sent :=
  Server.afterCall_sent _ _

theorem Server.afterCall_window_le (site : Site) (success : Bool) :
    (s.afterCall key site success).window ≤ s.window + 1 := by
  cases site <;> cases success <;> simp [Server.afterCall]

@[simp] theorem Server.readCurr_sent : (s.readCurr config key).sent = s.sent := by
  unfold Server.readCurr
  dsimp only
  split_ifs <;> simp

@[simp] theorem Server.readCurr_window : (s.readCurr config key).window = s.window := by
  unfold Server.readCurr
  dsimp only
  split_ifs <;> simp

/-- The log only grows. -/
theorem Server.Step.log_grows (h : s.Step config key e t) : s.sent <+: t.sent := by
  cases h with
  | sendto =>
    unfold Server.transmit
    rw [Server.loop_sent]
    exact List.prefix_append _ _
  | fopen | fileFail | readPrev | readCurr | socket | callFail | acknowledged | ignored | timeout =>
    simp

theorem Server.Clean.site_ne (h : s.Clean .fail) {site : Site} (hctl : s.ctl = .socket site ∨
    (∃ num blockIndex, s.ctl = .sendto site num blockIndex) ∨ ∃ num, s.ctl = .recvAck site num) :
    site ≠ .lookAhead := by
  have hsite : s.ctl.site = some site := by
    rcases hctl with hctl | ⟨_, _, hctl⟩ | ⟨_, hctl⟩ <;> rw [hctl] <;> rfl
  intro heq
  exact h rfl (heq ▸ hsite)

/-- Only an ACK moves a child to its next window. -/
theorem Server.Step.window_eq (h : s.Step config key e t) (hclean : s.Clean e)
    (he : ∀ num, e ≠ .ack num) : t.window = s.window := by
  cases h with
  | acknowledged | ignored => exact absurd rfl (he _)
  | @callFail site hctl =>
    have hne := hclean.site_ne hctl
    cases site with
    | lookAhead => exact absurd rfl hne
    | onlyPrev | prevThenCurr | lastCurr => rfl
  | sendto =>
    unfold Server.transmit
    rw [Server.loop_window]
  | fopen | fileFail | readPrev | readCurr | socket | timeout => simp

/-- An ACK is received while an attempt waits for it, and completes at most that window. -/
theorem Server.Step.ack_window {num : UInt8} (h : s.Step config key (.ack num) t) :
    (∃ site expected, s.ctl = .recvAck site expected) ∧ t.window ≤ s.window + 1 := by
  cases h with
  | acknowledged hctl => exact ⟨⟨_, _, hctl⟩, Server.afterCall_window_le _ _⟩
  | ignored hctl => exact ⟨⟨_, _, hctl⟩, Nat.le_succ _⟩

end Log

end CS536Labs.Lab4
