import CS536Labs.Lab2.Rcommandserver
import CS536Labs.Lab6.ReadOverlay

/-!
# `lab2/v2/rcommandclient.c`

The remote command client in `run` and `attempt_write_and_read`, between two system calls. A label
is the outcome of the call it makes next, or the arrival of `SIGALRM`. The handler does nothing, so
that the signal shows only where it interrupts a call: `read` then fails with `EINTR`, and `fgets`
returns `NULL`. An alarm that is not canceled is still set in the next turn of the loop.
-/

namespace CS536Labs.Lab2

open Lab6 (takeLine)

/-- `MAX_ATTEMPTS`. -/
def maxAttempts : ℕ := 3

/-- `ERR_GIVE_UP`. -/
def errGiveUp : ℤ := -2

/-- `> ` -/
def prompt : List UInt8 := [0x3e, 0x20]

/-- What `write` is given: the string that `fgets` stored, and its terminator. -/
def commandMessage (line : List UInt8) : List UInt8 := cString line ++ [0]

/-! ## The lines of the input -/

theorem takeLine_ne_nil {n : ℕ} (hn : n ≠ 0) {file : List UInt8} (h : file ≠ []) :
    takeLine n file ≠ [] := by
  induction n, file using Lab6.takeLine.induct with
  | case1 => exact absurd rfl hn
  | case2 => exact absurd rfl h
  | case3 n file => exact List.cons_ne_nil _ _
  | case4 n c file hc =>
    rw [takeLine, if_neg hc]
    exact List.cons_ne_nil _ _

/-- What the calls of `fgets` read, one after the other. -/
def inputLines (stdin : List UInt8) : List (List UInt8) :=
  if h : stdin = [] then []
  else
    let line := takeLine (bufferSize - 1) stdin
    line :: inputLines (stdin.drop line.length)
termination_by stdin.length
decreasing_by
  have hline := List.length_pos_iff.mpr (takeLine_ne_nil (n := bufferSize - 1) (by decide) h)
  have hstdin := List.length_pos_iff.mpr h
  rw [List.length_drop]
  omega

theorem inputLines_nil : inputLines [] = [] := by
  rw [inputLines, dif_pos rfl]

theorem inputLines_of_ne_nil {stdin : List UInt8} (h : stdin ≠ []) :
    inputLines stdin = takeLine (bufferSize - 1) stdin ::
      inputLines (stdin.drop (takeLine (bufferSize - 1) stdin).length) := by
  rw [inputLines, dif_neg h]

namespace Rcommandclient

/-- The call that the client makes next. -/
inductive Ctl
  | fgets
  /-- `socket` and `connect`, with what `fgets` has read. -/
  | connect (line : List UInt8)
  | write (sockfd : ℕ) (line : List UInt8) (attempt : ℕ)
  | read (sockfd : ℕ) (line : List UInt8) (attempt : ℕ)
  /-- `close`, with the status from `attempt_write_and_read`. -/
  | close (sockfd : ℕ) (status : ℤ)
  | returned (ret : ℤ)
  deriving DecidableEq

inductive Label
  | fgets
  /-- `socket` and `connect` succeed, with this descriptor, or one of them fails. -/
  | connect (sockfd : Option ℕ)
  /-- `write` returns a count or -1. -/
  | write (count : Option ℕ)
  /-- `read` returns some bytes. -/
  | read (data : List UInt8)
  /-- `read` returns 0. -/
  | endOfStream
  /-- `read` fails for another reason than the alarm. -/
  | readError
  | close (ok : Bool)
  /-- The alarm expires, and interrupts the call or not. -/
  | sigalrm (interrupts : Bool)

end Rcommandclient

structure Rcommandclient where
  ctl : Rcommandclient.Ctl
  /-- What is left of the input. -/
  stdin : List UInt8
  /-- Whether an alarm is set. -/
  alarm : Bool
  stdout : List UInt8
  deriving DecidableEq

namespace Rcommandclient

def start (stdin : List UInt8) : Rcommandclient := ⟨.fgets, stdin, false, prompt⟩

/-- Behind a call of `read` that was interrupted. -/
def retry (sockfd : ℕ) (line : List UInt8) (attempt : ℕ) : Rcommandclient.Ctl :=
  if attempt + 1 < maxAttempts then .write sockfd line (attempt + 1) else .close sockfd errGiveUp

def exec (c : Rcommandclient) (a : Rcommandclient.Label) : Option Rcommandclient :=
  match c.ctl, a with
  | .fgets, .fgets =>
    if c.stdin = [] then some { c with ctl := .returned 0 }
    else
      let line := takeLine (bufferSize - 1) c.stdin
      some { c with ctl := .connect line, stdin := c.stdin.drop line.length }
  | .connect line, .connect (some sockfd) => some { c with ctl := .write sockfd line 0 }
  | .connect _, .connect none => some { c with ctl := .returned (-1) }
  | .write sockfd line attempt, .write (some count) =>
    if 0 < count ∧ count ≤ (commandMessage line).length then
      some { c with ctl := .read sockfd line attempt, alarm := true }
    else none
  | .write sockfd _ _, .write none => some { c with ctl := .close sockfd (-1) }
  | .read _ _ _, .read data =>
    if data ≠ [] ∧ data.length ≤ bufferSize - 1 then
      some { c with alarm := false, stdout := c.stdout ++ cString data }
    else none
  | .read sockfd _ _, .endOfStream => some { c with ctl := .close sockfd 0 }
  | .read sockfd _ _, .readError => some { c with ctl := .close sockfd (-1) }
  | .close _ status, .close true =>
    if status = -1 then some { c with ctl := .returned (-1) }
    else some { c with ctl := .fgets, stdout := c.stdout ++ prompt }
  | .close _ _, .close false => some { c with ctl := .returned (-1) }
  | .fgets, .sigalrm true =>
    if c.alarm then some { c with ctl := .returned 0, alarm := false } else none
  | .read sockfd line attempt, .sigalrm true =>
    if c.alarm then some { c with ctl := retry sockfd line attempt, alarm := false } else none
  | _, .sigalrm false => if c.alarm then some { c with alarm := false } else none
  | _, _ => none

/-- The socket of the call that is going on. -/
def Ctl.sockfd : Rcommandclient.Ctl → Option ℕ
  | .write sockfd _ _ | .read sockfd _ _ | .close sockfd _ => some sockfd
  | _ => none

/-- What one step of the client does. -/
inductive Step (c : Rcommandclient) : Rcommandclient.Label → Rcommandclient → Prop
  | endOfInput : c.ctl = .fgets → c.stdin = [] → Step c .fgets { c with ctl := .returned 0 }
  | readLine {line stdin : List UInt8} : c.ctl = .fgets →
    inputLines c.stdin = line :: inputLines stdin →
    Step c .fgets { c with ctl := .connect line, stdin := stdin }
  | connected {line : List UInt8} (sockfd : ℕ) : c.ctl = .connect line →
    Step c (.connect (some sockfd)) { c with ctl := .write sockfd line 0 }
  | notConnected {line : List UInt8} : c.ctl = .connect line →
    Step c (.connect none) { c with ctl := .returned (-1) }
  | wrote {sockfd attempt count : ℕ} {line : List UInt8} : c.ctl = .write sockfd line attempt →
    0 < count → count ≤ (commandMessage line).length →
    Step c (.write (some count)) { c with ctl := .read sockfd line attempt, alarm := true }
  | notWritten {sockfd attempt : ℕ} {line : List UInt8} : c.ctl = .write sockfd line attempt →
    Step c (.write none) { c with ctl := .close sockfd (-1) }
  | received {sockfd attempt : ℕ} {line data : List UInt8} : c.ctl = .read sockfd line attempt →
    data ≠ [] → Step c (.read data) { c with alarm := false, stdout := c.stdout ++ cString data }
  | ended {sockfd attempt : ℕ} {line : List UInt8} : c.ctl = .read sockfd line attempt →
    Step c .endOfStream { c with ctl := .close sockfd 0 }
  | notRead {sockfd attempt : ℕ} {line : List UInt8} : c.ctl = .read sockfd line attempt →
    Step c .readError { c with ctl := .close sockfd (-1) }
  | closed {sockfd : ℕ} {status : ℤ} : c.ctl = .close sockfd status → status ≠ -1 →
    Step c (.close true) { c with ctl := .fgets, stdout := c.stdout ++ prompt }
  | stopped {sockfd : ℕ} {status : ℤ} (ok : Bool) : c.ctl = .close sockfd status →
    Step c (.close ok) { c with ctl := .returned (-1) }
  | inputInterrupted : c.ctl = .fgets → c.alarm = true →
    Step c (.sigalrm true) { c with ctl := .returned 0, alarm := false }
  | retried {sockfd attempt : ℕ} {line : List UInt8} : c.ctl = .read sockfd line attempt →
    c.alarm = true → attempt + 1 < maxAttempts →
    Step c (.sigalrm true) { c with ctl := .write sockfd line (attempt + 1), alarm := false }
  | gaveUp {sockfd attempt : ℕ} {line : List UInt8} : c.ctl = .read sockfd line attempt →
    c.alarm = true → ¬ attempt + 1 < maxAttempts →
    Step c (.sigalrm true) { c with ctl := .close sockfd errGiveUp, alarm := false }
  | ignored : Step c (.sigalrm false) { c with alarm := false }

theorem step_of_exec {c c' : Rcommandclient} {a : Rcommandclient.Label} (h : c.exec a = some c') :
    c.Step a c' := by
  unfold exec at h
  split at h
  · rename_i hctl
    split at h
    · rename_i hstdin
      obtain rfl := Option.some.inj h
      exact .endOfInput hctl hstdin
    · rename_i hstdin
      obtain rfl := Option.some.inj h
      exact .readLine hctl (inputLines_of_ne_nil hstdin)
  · rename_i line sockfd hctl
    obtain rfl := Option.some.inj h
    exact .connected sockfd hctl
  · rename_i line hctl
    obtain rfl := Option.some.inj h
    exact .notConnected hctl
  · rename_i sockfd line attempt count hctl
    split at h
    · rename_i hcount
      obtain rfl := Option.some.inj h
      exact .wrote hctl hcount.1 hcount.2
    · cases h
  · rename_i sockfd line attempt hctl
    obtain rfl := Option.some.inj h
    exact .notWritten hctl
  · rename_i sockfd line attempt data hctl
    split at h
    · rename_i hdata
      obtain rfl := Option.some.inj h
      exact .received hctl hdata.1
    · cases h
  · rename_i sockfd line attempt hctl
    obtain rfl := Option.some.inj h
    exact .ended hctl
  · rename_i sockfd line attempt hctl
    obtain rfl := Option.some.inj h
    exact .notRead hctl
  · rename_i sockfd status hctl
    split at h
    · obtain rfl := Option.some.inj h
      exact .stopped true hctl
    · rename_i hstatus
      obtain rfl := Option.some.inj h
      exact .closed hctl hstatus
  · rename_i sockfd status hctl
    obtain rfl := Option.some.inj h
    exact .stopped false hctl
  · rename_i hctl
    split at h
    · rename_i halarm
      obtain rfl := Option.some.inj h
      exact .inputInterrupted hctl halarm
    · cases h
  · rename_i sockfd line attempt hctl
    split at h
    · rename_i halarm
      obtain rfl := Option.some.inj h
      rw [retry]
      split
      · rename_i hattempt
        exact .retried hctl halarm hattempt
      · rename_i hattempt
        exact .gaveUp hctl halarm hattempt
    · cases h
  · split at h
    · obtain rfl := Option.some.inj h
      exact .ignored
    · cases h
  · cases h

/-- The socket of a call stays the same. -/
theorem Step.sockfd_eq {c c' : Rcommandclient} {a : Rcommandclient.Label} {k k' : ℕ}
    (h : c.Step a c') (hk : c.ctl.sockfd = some k) (hk' : c'.ctl.sockfd = some k') : k' = k := by
  cases h with
  | endOfInput | readLine | notConnected | closed | stopped | inputInterrupted => cases hk'
  | connected sockfd hctl =>
    rw [hctl] at hk
    cases hk
  | wrote hctl | notWritten hctl | ended hctl | notRead hctl | retried hctl | gaveUp hctl =>
    rw [hctl] at hk
    exact Option.some.inj (hk'.symm.trans hk)
  | received | ignored => exact Option.some.inj (hk'.symm.trans hk)

end Rcommandclient

end CS536Labs.Lab2
