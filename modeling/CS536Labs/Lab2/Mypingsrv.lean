import CS536Labs.Lab2.Mypingcli
import Mathlib.Data.List.Perm.Basic

/-!
# `lab2/v1/mypingsrv.c`

The ping server. `run` keeps the array `message` from one iteration to the next, and decodes all of
it behind any datagram that is not empty: what a short datagram does not store is left from the
datagrams before it, of whichever client they are. A child replies to each request that is accepted,
when its delay has passed; the children outlive `run`.

* `Mypingsrv.exec`: the parent, its children and the arrival of datagrams.
* `Answers`: what the children and their replies have to do with the datagrams received.
* `answers_of_reachable`: every run of the server answers so.
-/

namespace CS536Labs.Lab2

namespace Mypingsrv

/-- A child, with its copies of `originating_addr`, `id` and `delay`. -/
structure Child (α : Type*) where
  addr : α
  id : Int32
  delay : UInt8
  deriving DecidableEq

inductive Event (α : Type*)
  | received (addr : α) (data : List UInt8)
  | forked (child : Child α)
  | replied (child : Child α)
  deriving DecidableEq

inductive Label (α : Type*)
  /-- A datagram arrives at the socket. -/
  | arrive (addr : α) (data : List UInt8)
  /-- `recvfrom` takes a datagram; `fork` succeeds or not where it is called. -/
  | recvfrom (forks : Bool)
  /-- `recvfrom` returns -1. -/
  | recvError
  /-- A child has slept, and its `sendto` succeeds or not. -/
  | sendto (i : ℕ) (ok : Bool)

end Mypingsrv

open Mypingsrv

/-- The return value of `run`, the array `message`, the datagrams in the socket, the children that
have not called `sendto` yet, and what has happened. -/
structure Mypingsrv (α : Type*) where
  status : Option ℤ
  message : List UInt8
  queue : List (α × List UInt8)
  children : List (Child α)
  log : List (Event α)

namespace Mypingsrv

variable {α : Type*}

def start (memory : MessageBuffer) : Mypingsrv α := ⟨none, memory.val, [], [], []⟩

/-- The message of `feedback`. -/
def Child.message (child : Child α) : List UInt8 := encodeMessage child.id child.delay

/-- The child of a request. -/
def child (addr : α) (message : List UInt8) : Child α :=
  ⟨addr, (decodeMessage message).1, (decodeMessage message).2⟩

/-- An iteration of the loop in `run`, behind a call of `recvfrom` that took a datagram. -/
def handle (s : Mypingsrv α) (addr : α) (data : List UInt8) (forks : Bool) : Mypingsrv α :=
  let s := { s with message := recvInto s.message data, log := s.log ++ [.received addr data] }
  if min data.length messageSize = 0 then s
  else
    let delay := (decodeMessage s.message).2
    if sanitizeParameter delay.toNat = -1 then s
    else if delay = 99 then { s with status := some 0 }
    else if forks then
      { s with
        children := s.children ++ [child addr s.message]
        log := s.log ++ [.forked (child addr s.message)] }
    else s

/-- A step of the server or of the network. -/
def exec (s : Mypingsrv α) : Label α → Option (Mypingsrv α)
  | .arrive addr data => some { s with queue := s.queue ++ [(addr, data)] }
  | .recvfrom forks =>
    match s.status, s.queue with
    | none, (addr, data) :: queue => some ({ s with queue := queue }.handle addr data forks)
    | _, _ => none
  | .recvError => if s.status = none then some { s with status := some (-1) } else none
  | .sendto i ok =>
    match s.children[i]? with
    | some child =>
      some { s with
        children := s.children.eraseIdx i
        log := if ok then s.log ++ [.replied child] else s.log }
    | none => none

/-- The runs of the server, with anything in the memory of the array. -/
def system (memory : MessageBuffer) : LTS (Mypingsrv α) (Label α) := LTS.ofExec (start memory) exec

/-- The datagrams that were received. -/
def received (log : List (Event α)) : List (List UInt8) :=
  log.filterMap fun
    | .received _ data => some data
    | _ => none

end Mypingsrv

open Mypingsrv

variable {α : Type*}

/-! ## The steps -/

/-- **What is decoded is encoded.** -/
theorem encodeMessage_decodeMessage {message : List UInt8} (h : message.length = messageSize) :
    encodeMessage (decodeMessage message).1 (decodeMessage message).2 = message := by
  have h4 : 4 < message.length := by
    rw [h]
    decide
  have hid := (decodeMessage_eq_iff h4.le (decodeMessage message).1).mp rfl
  have hdelay : (decodeMessage message).2 = message[4] := by
    rw [decodeMessage, List.getD_eq_getElem?_getD, List.getElem?_eq_getElem h4]
    rfl
  have hlast : message.take (4 + 1) = message := List.take_of_length_le h.le
  rw [encodeMessage, ← hid, hdelay, List.take_append_getElem h4, hlast]

theorem message_child {addr : α} {message : List UInt8} (h : message.length = messageSize) :
    (child addr message).message = message := encodeMessage_decodeMessage h

/-- A delay that is accepted, and does not end the server. -/
theorem toNat_le_five {delay : UInt8} (hvalid : sanitizeParameter delay.toNat ≠ -1)
    (hgoes : delay ≠ 99) : delay.toNat ≤ 5 := by
  have hne : delay.toNat ≠ 99 := fun h => hgoes (UInt8.toNat_inj.mp h)
  by_contra hlt
  rw [sanitizeParameter, if_pos (by omega)] at hvalid
  exact hvalid rfl

/-- What an iteration does with a datagram. -/
structure Handled (s : Mypingsrv α) (addr : α) (data : List UInt8) (t : Mypingsrv α) : Prop where
  message : t.message = recvInto s.message data
  queue : t.queue = s.queue
  answer : (t.children = s.children ∧ t.log = s.log ++ [.received addr data]) ∨
    (data ≠ [] ∧ (decodeMessage t.message).2.toNat ≤ 5 ∧
      t.children = s.children ++ [child addr t.message] ∧
      t.log = s.log ++ [.received addr data] ++ [.forked (child addr t.message)])

theorem handled_handle (s : Mypingsrv α) (addr : α) (data : List UInt8) (forks : Bool) :
    Handled s addr data (s.handle addr data forks) := by
  simp only [handle]
  split_ifs with hempty hvalid hend
  · exact ⟨rfl, rfl, .inl ⟨rfl, rfl⟩⟩
  · exact ⟨rfl, rfl, .inl ⟨rfl, rfl⟩⟩
  · exact ⟨rfl, rfl, .inl ⟨rfl, rfl⟩⟩
  · have hne : data ≠ [] := by
      rintro rfl
      exact hempty (Nat.zero_min _)
    exact ⟨rfl, rfl, .inr ⟨hne, toNat_le_five hvalid hend, rfl, rfl⟩⟩
  · exact ⟨rfl, rfl, .inl ⟨rfl, rfl⟩⟩

/-- What one step can do. -/
inductive Mypingsrv.Step (s : Mypingsrv α) : Label α → Mypingsrv α → Prop
  | arrive (addr : α) (data : List UInt8) :
    Step s (.arrive addr data) { s with queue := s.queue ++ [(addr, data)] }
  | recvfrom {addr : α} {data : List UInt8} {queue : List (α × List UInt8)} {t : Mypingsrv α}
    {forks : Bool} : s.queue = (addr, data) :: queue →
    Handled { s with queue := queue } addr data t →
    Step s (.recvfrom forks) t
  | recvError : Step s .recvError { s with status := some (-1) }
  | sendto {i : ℕ} {ok : Bool} {child : Child α} : s.children[i]? = some child →
    Step s (.sendto i ok) { s with
      children := s.children.eraseIdx i
      log := if ok then s.log ++ [.replied child] else s.log }

theorem Mypingsrv.step_of_exec {s t : Mypingsrv α} {a : Label α} (h : s.exec a = some t) :
    s.Step a t := by
  cases a with
  | arrive addr data =>
    obtain rfl := Option.some.inj h
    exact .arrive addr data
  | recvfrom forks =>
    simp only [exec] at h
    split at h
    · rename_i addr data queue _ hqueue
      obtain rfl := Option.some.inj h
      exact .recvfrom hqueue (handled_handle _ addr data forks)
    · cases h
  | recvError =>
    simp only [exec] at h
    split_ifs at h
    obtain rfl := Option.some.inj h
    exact .recvError
  | sendto i ok =>
    simp only [exec] at h
    split at h
    · rename_i child hchild
      obtain rfl := Option.some.inj h
      exact .sendto hchild
    · cases h

/-! ## Replies -/

@[simp] theorem received_append (log log' : List (Event α)) :
    received (log ++ log') = received log ++ received log' := List.filterMap_append

section Answers

variable [DecidableEq α]

/-- A child is forked right behind a datagram of its client that is not empty. Each byte of its
message is from the last datagram received so far that is long enough, and its delay is one of 0 to
5. A child replies once at most. -/
structure Answers (memory : MessageBuffer) (log : List (Event α)) : Prop where
  forked : ∀ before after child, log = before ++ .forked child :: after → ∃ earlier data,
    before = earlier ++ [.received child.addr data] ∧ data ≠ [] ∧ child.delay.toNat ≤ 5 ∧
      ∀ p < messageSize, child.message[p]? =
        (((received before).filter fun data => p < data.length).getLast?.getD memory.val)[p]?
  replied : ∀ before after child, log = before ++ .replied child :: after →
    before.count (.replied child) < before.count (.forked child)

/-- What holds in all runs. -/
structure AnswersInv (memory : MessageBuffer) (s : Mypingsrv α) : Prop where
  answers : Answers memory s.log
  message : s.message = (received s.log).foldl recvInto memory.val
  waiting : ∀ child, s.log.count (.replied child) + s.children.count child ≤
    s.log.count (.forked child)

variable {memory : MessageBuffer} {s t : Mypingsrv α}

/-- One more event, with what a child and a reply have to satisfy. -/
theorem Answers.concat {log : List (Event α)} (h : Answers memory log) {e : Event α}
    (hforked : ∀ child, e = .forked child → ∃ earlier data,
      log = earlier ++ [.received child.addr data] ∧ data ≠ [] ∧ child.delay.toNat ≤ 5 ∧
        ∀ p < messageSize, child.message[p]? =
          (((received log).filter fun data => p < data.length).getLast?.getD memory.val)[p]?)
    (hreplied : ∀ child, e = .replied child →
      log.count (.replied child) < log.count (.forked child)) :
    Answers memory (log ++ [e]) where
  forked := by
    intro before after child hlog
    rcases List.eq_nil_or_concat' after with rfl | ⟨after, e', rfl⟩
    · obtain ⟨rfl, he⟩ := List.append_inj' hlog rfl
      exact hforked child (List.cons.inj he).1
    · rw [← List.cons_append, ← List.append_assoc] at hlog
      exact h.forked before after child (List.append_inj' hlog rfl).1
  replied := by
    intro before after child hlog
    rcases List.eq_nil_or_concat' after with rfl | ⟨after, e', rfl⟩
    · obtain ⟨rfl, he⟩ := List.append_inj' hlog rfl
      exact hreplied child (List.cons.inj he).1
    · rw [← List.cons_append, ← List.append_assoc] at hlog
      exact h.replied before after child (List.append_inj' hlog rfl).1

theorem answersInv_start : AnswersInv memory (start memory : Mypingsrv α) where
  answers := {
    forked := fun before after _ hlog => (List.append_ne_nil_of_right_ne_nil before
      (List.cons_ne_nil _ after) hlog.symm).elim
    replied := fun before after _ hlog => (List.append_ne_nil_of_right_ne_nil before
      (List.cons_ne_nil _ after) hlog.symm).elim }
  message := rfl
  waiting _ := Nat.le_refl 0

/-- A datagram is received, and no child is forked. -/
theorem AnswersInv.receive (h : AnswersInv memory s) {addr : α} {data : List UInt8}
    (hmessage : t.message = recvInto s.message data) (hchildren : t.children = s.children)
    (hlog : t.log = s.log ++ [.received addr data]) : AnswersInv memory t where
  answers := by
    rw [hlog]
    exact h.answers.concat nofun nofun
  message := by
    rw [hmessage, hlog, h.message, received_append, List.foldl_append]
    rfl
  waiting child := by
    have hwaiting := h.waiting child
    simp only [hlog, hchildren, List.count_append]
    simpa using hwaiting

/-- The child of the datagram is forked. -/
theorem AnswersInv.fork (h : AnswersInv memory s) {addr : α} {data : List UInt8}
    {earlier : List (Event α)} (hearlier : s.log = earlier ++ [.received addr data])
    (hne : data ≠ []) (hdelay : (decodeMessage s.message).2.toNat ≤ 5)
    (hchildren : t.children = s.children ++ [child addr s.message])
    (hmessage : t.message = s.message)
    (hlog : t.log = s.log ++ [.forked (child addr s.message)]) : AnswersInv memory t where
  answers := by
    rw [hlog]
    refine h.answers.concat ?_ nofun
    rintro _ ⟨⟩
    refine ⟨earlier, data, hearlier, hne, hdelay, fun p hp => ?_⟩
    have hlen : s.message.length = messageSize := by
      rw [h.message, length_foldl_recvInto, memory.property]
    rw [message_child hlen, h.message]
    exact getElem?_foldl_recvInto _ (by rwa [memory.property])
  message := by
    rw [hmessage, hlog, received_append, h.message]
    exact congrArg _ (List.append_nil _).symm
  waiting child' := by
    have hwaiting := h.waiting child'
    simp only [hlog, hchildren, List.count_append]
    by_cases hchild : child addr s.message = child'
    · simp [hchild]
      omega
    · simp [hchild]
      omega

theorem AnswersInv.reply (h : AnswersInv memory s) {i : ℕ} {child : Child α}
    (hchild : s.children[i]? = some child) (ok : Bool) :
    AnswersInv memory { s with
      children := s.children.eraseIdx i
      log := if ok then s.log ++ [.replied child] else s.log } := by
  obtain ⟨hi, rfl⟩ := List.getElem?_eq_some_iff.mp hchild
  have hperm := List.getElem_cons_eraseIdx_perm hi
  have hcount : ∀ child, (s.children.eraseIdx i).count child ≤ s.children.count child :=
    fun child => (List.eraseIdx_sublist _ i).count_le child
  cases ok with
  | false =>
    exact {
      answers := h.answers
      message := h.message
      waiting := fun child =>
        (Nat.add_le_add_left (hcount child) _).trans (h.waiting child) }
  | true =>
    have hwaiting := h.waiting s.children[i]
    have hsplit := hperm.count_eq s.children[i]
    rw [List.count_cons_self] at hsplit
    exact {
      answers := by
        refine h.answers.concat nofun ?_
        rintro _ ⟨⟩
        omega
      message := by
        simpa [received] using h.message
      waiting := fun child => by
        have hwaiting := h.waiting child
        have hsplit := hperm.count_eq child
        by_cases hchild : s.children[i] = child
        · simp [hchild] at hsplit ⊢
          omega
        · simp [hchild] at hsplit ⊢
          omega }

/-- **One step.** -/
theorem AnswersInv.step (h : AnswersInv memory s) {a : Label α} (hstep : s.Step a t) :
    AnswersInv memory t := by
  cases hstep with
  | arrive => exact ⟨h.answers, h.message, h.waiting⟩
  | @recvfrom addr data queue _ _ _ hhandled =>
    have hqueue : AnswersInv memory { s with queue := queue } :=
      ⟨h.answers, h.message, h.waiting⟩
    rcases hhandled.answer with ⟨hchildren, hlog⟩ | ⟨hne, hdelay, hchildren, hlog⟩
    · exact hqueue.receive hhandled.message hchildren hlog
    · have hreceived : AnswersInv memory { s with
          message := t.message, log := s.log ++ [.received addr data] } :=
        hqueue.receive hhandled.message rfl rfl
      exact hreceived.fork rfl hne hdelay hchildren rfl hlog
  | recvError => exact ⟨h.answers, h.message, h.waiting⟩
  | sendto hchild => exact h.reply hchild _

/-- **The replies of the server.** Each of them is made of the last bytes received, and is sent once
at most. -/
theorem answers_of_reachable {memory : MessageBuffer} {s : Mypingsrv α}
    (h : (system memory).Reachable s) : Answers memory s.log := by
  have hinv : AnswersInv memory s := by
    apply h.invariant
    · rintro s rfl
      exact answersInv_start
    · intro s a t _ hs hstep
      exact hs.step (step_of_exec hstep)
  exact hinv.answers

/-- A request with the identifier 1027 of one client, and a datagram of one byte of another: the
second reply has three bytes of the first identifier. -/
theorem answers_leftover : ∃ s : Mypingsrv Bool,
    (system ⟨[0, 0, 0, 0, 0], rfl⟩).Reachable s ∧
      .replied (child true [9, 4, 0, 0, 2]) ∈ s.log ∧
        Answers ⟨[0, 0, 0, 0, 0], rfl⟩ s.log := by
  have hrun : LTS.run exec (fun _ _ => True) (start ⟨[0, 0, 0, 0, 0], rfl⟩ : Mypingsrv Bool)
      [.arrive false [3, 4, 0, 0, 2], .recvfrom true, .arrive true [9], .recvfrom true,
        .sendto 1 true] = some _ := rfl
  have hreach := (LTS.reachable_of_run (LTS.Reachable.init rfl) hrun).of_restrict
  exact ⟨_, hreach, by decide, answers_of_reachable hreach⟩

end Answers

end CS536Labs.Lab2
