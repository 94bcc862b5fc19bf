import CS536Labs.Lab2.Mypingcli

/-!
# Replies of the ping client

`receive_feedback` returns -2 for an empty datagram and leaves `feedback_id` alone; for one of up to
four bytes it decodes bytes of `message` that were never stored. `ping` tests for -1 only and
compares `feedback_id` in all other cases. Nor does it look whether a datagram was in the socket
when the request was sent.

* `Matched`: each time that is printed for a request belongs to a reply that arrived behind it.
* `PingInv`: what holds at each place of the loops.
* `matched_of_sound`: the times are right in every run in which no short or early datagram is taken
  for a reply.
* `not_matched_of_not_sound`: where one is, and no reply has arrived, the time that is printed next
  is wrong.
-/

namespace CS536Labs.Lab2

open Mypingcli

/-- A datagram that answers the request with the identifier. -/
structure IsReply (id : Int32) (data : List UInt8) : Prop where
  length : messageSize ≤ data.length
  id : data.take 4 = idBytes id

/-- A time is printed for a request only if a reply has arrived since the request was sent, and at
most once. -/
structure Matched (config : Config) (log : List Event) : Prop where
  reply : ∀ before after i, log = before ++ .printed i :: after → ∃ earlier later data,
    before = earlier ++ request config i :: later ∧ .arrived data ∈ later ∧
      IsReply (config.requestId i) data
  once : ∀ i, log.count (.printed i) ≤ 1

/-- The datagrams that arrived. -/
def arrivals (log : List Event) : List (List UInt8) :=
  log.filterMap fun
    | .arrived data => some data
    | _ => none

/-- The datagrams that arrived since the last request. -/
def arrivedSince (log : List Event) : List (List UInt8) :=
  log.foldl (fun since e =>
    match e with
    | .arrived data => since ++ [data]
    | .sent _ _ => []
    | .printed _ => since) []

/-- A datagram that has fewer than five bytes, or was in the socket when the last request was sent,
is not taken for a reply: `feedback_id` is another value when it is empty, and else `message` begins
with another value. -/
def Sound (config : Config) (s : Mypingcli) : Label → Prop
  | .recvfrom message => ∀ i feedbackId data queue, s.ctl = .receive i feedbackId →
      s.queue = data :: queue →
      data.length < messageSize ∨ (arrivedSince s.log).length < s.queue.length →
        if data = [] then feedbackId ≠ config.requestId i
        else (recvInto message data).take 4 ≠ idBytes (config.requestId i)
  | _ => True

/-! ## Logs -/

variable {config : Config} {log : List Event}

@[simp] theorem arrivals_append (log log' : List Event) :
    arrivals (log ++ log') = arrivals log ++ arrivals log' := List.filterMap_append

@[simp] theorem arrivedSince_arrived (log : List Event) (data : List UInt8) :
    arrivedSince (log ++ [.arrived data]) = arrivedSince log ++ [data] := by
  rw [arrivedSince, List.foldl_append]
  rfl

@[simp] theorem arrivedSince_request (log : List Event) (i : ℕ) :
    arrivedSince (log ++ [request config i]) = [] := by
  rw [arrivedSince, List.foldl_append]
  rfl

theorem mem_of_mem_arrivals {data : List UInt8} (h : data ∈ arrivals log) :
    .arrived data ∈ log := by
  obtain ⟨e, he, hdata⟩ := List.mem_filterMap.mp h
  cases e with
  | arrived data' =>
    obtain rfl := Option.some.inj hdata
    exact he
  | sent | printed => cases hdata

/-- One more event, with what a printed time has to satisfy. -/
theorem Matched.concat (h : Matched config log) {e : Event}
    (he : ∀ i, e = .printed i → .printed i ∉ log ∧ ∃ earlier later data,
      log = earlier ++ request config i :: later ∧ .arrived data ∈ later ∧
        IsReply (config.requestId i) data) : Matched config (log ++ [e]) where
  reply := by
    intro before after i hlog
    rcases List.eq_nil_or_concat' after with rfl | ⟨after, e', rfl⟩
    · obtain ⟨rfl, hprinted⟩ := List.append_inj' hlog rfl
      exact (he i (List.cons.inj hprinted).1).2
    · rw [← List.cons_append, ← List.append_assoc] at hlog
      exact h.reply before after i (List.append_inj' hlog rfl).1
  once := by
    intro i
    rw [List.count_append]
    by_cases hprinted : e = .printed i
    · rw [List.count_eq_zero.mpr (he i hprinted).1, hprinted, Nat.zero_add]
      exact Nat.le_of_eq List.count_singleton_self
    · have hsingle : List.count (.printed i) [e] = 0 :=
        List.count_eq_zero.mpr fun hmem => hprinted (List.mem_singleton.mp hmem).symm
      rw [hsingle, Nat.add_zero]
      exact h.once i

/-! ## The invariant -/

/-- The last request that was sent. -/
def Waiting (config : Config) (log : List Event) (i : ℕ) : Prop :=
  ∃ earlier later, log = earlier ++ request config i :: later ∧ arrivedSince log = arrivals later

/-- The number of requests for which a time can have been printed, while `run` has not returned. -/
def Mypingcli.Ctl.reached : Ctl → Option ℕ
  | .next i | .receive i _ | .compare i _ => some i
  | .sleep i => some (i + 1)
  | .returned _ => none

/-- What holds at each place of the loops. -/
structure PingInv (config : Config) (s : Mypingcli) : Prop where
  matched : Matched config s.log
  queue : s.queue <:+ arrivals s.log
  printed : ∀ n, s.ctl.reached = some n → ∀ j, .printed j ∈ s.log → j < n
  waiting : ∀ i feedbackId, s.ctl = .receive i feedbackId ∨ s.ctl = .compare i feedbackId →
    Waiting config s.log i
  answered : ∀ i feedbackId, s.ctl = .compare i feedbackId → feedbackId = config.requestId i →
    ∃ data ∈ arrivedSince s.log, IsReply (config.requestId i) data

variable {s s' : Mypingcli}

/-- **The identifier that `receive_feedback` leaves.** -/
theorem receiveFeedback_eq_iff (message : MessageBuffer) (data : List UInt8)
    (feedbackId id : Int32) :
    (receiveFeedback message (some data) feedbackId).2 = id ↔
      if data = [] then feedbackId = id else (recvInto message data).take 4 = idBytes id := by
  have hmessage : message.val.length = messageSize := message.property
  by_cases hdata : data = []
  · subst hdata
    rw [if_pos rfl]
    exact Iff.rfl
  · have hne : min data.length messageSize ≠ 0 := by
      have hpos := List.length_pos_iff.mpr hdata
      have hsize : messageSize = 5 := rfl
      omega
    simp only [receiveFeedback, if_neg hne, if_neg hdata]
    exact decodeMessage_eq_iff (by rw [length_recvInto, hmessage]; decide) id

/-- A datagram of five bytes or more leaves the identifier that it carries. -/
theorem isReply_of_receiveFeedback {message : MessageBuffer} {data : List UInt8}
    {feedbackId id : Int32} (hlen : messageSize ≤ data.length)
    (h : (receiveFeedback message (some data) feedbackId).2 = id) : IsReply id data := by
  have hne : data ≠ [] := by
    rintro rfl
    cases hlen
  have hmessage : message.val.length = messageSize := message.property
  rw [receiveFeedback_eq_iff, if_neg hne, recvInto, hmessage,
    List.take_append_of_le_length (by rw [List.length_take, Nat.min_eq_left hlen]; decide),
    List.take_take] at h
  exact ⟨hlen, h⟩

/-- The first datagram of the socket, if there are no more than arrived since the request. -/
theorem PingInv.mem_arrivedSince (h : PingInv config s) {i : ℕ} (hwaiting : Waiting config s.log i)
    {data : List UInt8} {queue : List (List UInt8)} (hqueue : s.queue = data :: queue)
    (hlen : s.queue.length ≤ (arrivedSince s.log).length) : data ∈ arrivedSince s.log := by
  obtain ⟨earlier, later, hlog, hsince⟩ := hwaiting
  have hlater : arrivals later <:+ arrivals s.log := by
    rw [hlog, arrivals_append]
    exact (List.suffix_cons _ _).filterMap _ |>.trans (List.suffix_append _ _)
  rw [hsince] at hlen ⊢
  have hsuffix := List.suffix_of_suffix_length_le h.queue hlater hlen
  rw [hqueue] at hsuffix
  exact hsuffix.subset List.mem_cons_self

/-! ## The steps -/

theorem PingInv.arrive (h : PingInv config s) (data : List UInt8) :
    PingInv config { s with queue := s.queue ++ [data], log := s.log ++ [.arrived data] } where
  matched := h.matched.concat nofun
  queue := by
    rw [arrivals_append]
    obtain ⟨before, hbefore⟩ := h.queue
    exact ⟨before, by rw [← hbefore, List.append_assoc]; rfl⟩
  printed n hn j hj := by
    rw [List.mem_append, List.mem_singleton] at hj
    exact h.printed n hn j (hj.resolve_right nofun)
  waiting i feedbackId hctl := by
    obtain ⟨earlier, later, hlog, hsince⟩ := h.waiting i feedbackId hctl
    refine ⟨earlier, later ++ [.arrived data], ?_, ?_⟩
    · rw [hlog, List.append_assoc, List.cons_append]
    · rw [arrivedSince_arrived, arrivals_append, hsince]
      rfl
  answered i feedbackId hctl hid := by
    obtain ⟨reply, hmem, hreply⟩ := h.answered i feedbackId hctl hid
    refine ⟨reply, ?_, hreply⟩
    rw [arrivedSince_arrived]
    exact List.mem_append_left _ hmem

/-- A step to a place where no request waits, without an event. -/
theorem PingInv.move (h : PingInv config s) {ctl : Ctl}
    (hreached : ∀ n, ctl.reached = some n → ∃ m ≤ n, s.ctl.reached = some m)
    (hctl : ∀ i feedbackId, ctl ≠ .receive i feedbackId ∧ ctl ≠ .compare i feedbackId) :
    PingInv config { s with ctl := ctl } where
  matched := h.matched
  queue := h.queue
  printed n hn j hj := by
    obtain ⟨m, hle, hm⟩ := hreached n hn
    exact Nat.lt_of_lt_of_le (h.printed m hm j hj) hle
  waiting i feedbackId hplace :=
    (hplace.elim (hctl i feedbackId).1 (hctl i feedbackId).2).elim
  answered i feedbackId hplace := absurd hplace (hctl i feedbackId).2

theorem PingInv.request (h : PingInv config s) {i : ℕ} (hctl : s.ctl = .next i)
    (feedbackId : Int32) :
    PingInv config { s with
      ctl := .receive i feedbackId, log := s.log ++ [Mypingcli.request config i] } where
  matched := h.matched.concat nofun
  queue := by
    rw [arrivals_append]
    exact (List.append_nil (arrivals s.log)).symm ▸ h.queue
  printed n hn j hj := by
    rw [List.mem_append, List.mem_singleton] at hj
    refine h.printed n ?_ j (hj.resolve_right nofun)
    rw [hctl]
    exact hn
  waiting j f hplace := by
    rcases hplace with h | h
    · obtain ⟨rfl, rfl⟩ := Ctl.receive.inj h
      exact ⟨s.log, [], rfl, arrivedSince_request s.log i⟩
    · cases h
  answered := nofun

/-- **A datagram is received.** -/
theorem PingInv.recvfrom (h : PingInv config s) {message : MessageBuffer}
    (hsound : Sound config s (.recvfrom message)) {i : ℕ} {feedbackId : Int32}
    (hctl : s.ctl = .receive i feedbackId) {data : List UInt8} {queue : List (List UInt8)}
    (hqueue : s.queue = data :: queue) :
    PingInv config { s with
      ctl := .compare i (receiveFeedback message (some data) feedbackId).2, queue := queue } where
  matched := h.matched
  queue := by
    have hsuffix := h.queue
    rw [hqueue] at hsuffix
    exact (List.suffix_cons _ _).trans hsuffix
  printed n hn := h.printed n (by rw [hctl]; exact hn)
  waiting j f hplace := by
    rcases hplace with hplace | hplace
    · cases hplace
    · obtain ⟨rfl, rfl⟩ := Ctl.compare.inj hplace
      exact h.waiting i feedbackId (.inl hctl)
  answered j f hplace hid := by
    obtain ⟨rfl, rfl⟩ := Ctl.compare.inj hplace
    have hwhole : ¬ (data.length < messageSize ∨
        (arrivedSince s.log).length < s.queue.length) := by
      intro hshort
      have hother := hsound i feedbackId data queue hctl hqueue hshort
      rw [receiveFeedback_eq_iff] at hid
      split_ifs at hother hid <;> exact hother hid
    rw [not_or, Nat.not_lt, Nat.not_lt] at hwhole
    exact ⟨data, h.mem_arrivedSince (h.waiting i feedbackId (.inl hctl)) hqueue hwhole.2,
      isReply_of_receiveFeedback hwhole.1 hid⟩

/-- The reply that a printed time belongs to. -/
theorem PingInv.exists_reply (h : PingInv config s) {i : ℕ}
    (hctl : s.ctl = .compare i (config.requestId i)) : ∃ earlier later data,
      s.log = earlier ++ Mypingcli.request config i :: later ∧ .arrived data ∈ later ∧
        IsReply (config.requestId i) data := by
  obtain ⟨data, hmem, hreply⟩ := h.answered i _ hctl rfl
  obtain ⟨earlier, later, hlog, hsince⟩ := h.waiting i _ (.inr hctl)
  rw [hsince] at hmem
  exact ⟨earlier, later, data, hlog, mem_of_mem_arrivals hmem, hreply⟩

/-- **A time is printed.** -/
theorem PingInv.print (h : PingInv config s) {i : ℕ}
    (hctl : s.ctl = .compare i (config.requestId i)) {ctl : Ctl}
    (hnext : ctl = .next (i + 1) ∨ ctl = .sleep i) :
    PingInv config { s with ctl := ctl, log := s.log ++ [.printed i] } where
  matched := by
    apply h.matched.concat
    rintro j ⟨⟩
    refine ⟨fun hmem => ?_, h.exists_reply hctl⟩
    exact Nat.lt_irrefl i (h.printed i (by rw [hctl]; rfl) i hmem)
  queue := by
    rw [arrivals_append]
    exact (List.append_nil (arrivals s.log)).symm ▸ h.queue
  printed n hn j hj := by
    obtain rfl : i + 1 = n := by
      rcases hnext with rfl | rfl <;> exact Option.some.inj hn
    rw [List.mem_append, List.mem_singleton] at hj
    rcases hj with hj | hj
    · exact Nat.lt_succ_of_lt (h.printed i (by rw [hctl]; rfl) j hj)
    · cases hj
      exact Nat.lt_succ_self i
  waiting j f hplace := by
    rcases hnext with rfl | rfl <;> rcases hplace with hplace | hplace <;> cases hplace
  answered j f hplace := by
    rcases hnext with rfl | rfl <;> cases hplace

/-- **The comparison.** -/
theorem PingInv.compare (h : PingInv config s) {i : ℕ} {feedbackId : Int32}
    (hctl : s.ctl = .compare i feedbackId) :
    PingInv config (if feedbackId = config.requestId i then
        { s with
          ctl := if i + 1 = config.numPackages.toNat then .next (i + 1) else .sleep i
          log := s.log ++ [.printed i] }
      else { s with ctl := .receive i feedbackId }) := by
  by_cases hid : feedbackId = config.requestId i
  · rw [if_pos hid]
    rw [hid] at hctl
    refine h.print hctl ?_
    split_ifs
    · exact .inl rfl
    · exact .inr rfl
  · rw [if_neg hid]
    exact {
      matched := h.matched
      queue := h.queue
      printed := fun n hn => h.printed n (by rw [hctl]; exact hn)
      waiting := fun j f hplace => by
        rcases hplace with hplace | hplace
        · obtain ⟨rfl, rfl⟩ := Ctl.receive.inj hplace
          exact h.waiting i feedbackId (.inr hctl)
        · cases hplace
      answered := nofun }

/-- **One step.** -/
theorem PingInv.step (h : PingInv config s) {a : Label} (hsound : Sound config s a)
    (hstep : exec config s a = some s') : PingInv config s' := by
  cases a with
  | arrive data =>
    obtain rfl := Option.some.inj hstep
    exact h.arrive data
  | sendto ok feedbackId =>
    simp only [exec] at hstep
    split at hstep
    · rename_i i hctl
      split at hstep
      · obtain rfl := Option.some.inj hstep
        cases ok with
        | false => exact h.move nofun fun _ _ => ⟨nofun, nofun⟩
        | true => exact h.request hctl feedbackId
      · cases hstep
    · cases hstep
  | recvfrom message =>
    simp only [exec] at hstep
    split at hstep
    · rename_i i feedbackId data queue hctl hqueue
      obtain rfl := Option.some.inj hstep
      exact h.recvfrom hsound hctl hqueue
    · cases hstep
  | recvError interrupted =>
    simp only [exec] at hstep
    split at hstep
    · rename_i i feedbackId hctl
      obtain rfl := Option.some.inj hstep
      cases interrupted with
      | false => exact h.move nofun fun _ _ => ⟨nofun, nofun⟩
      | true =>
        refine h.move ?_ fun _ _ => ⟨nofun, nofun⟩
        rintro n ⟨⟩
        exact ⟨i, Nat.le_succ i, by rw [hctl]; rfl⟩
    · cases hstep
  | step =>
    simp only [exec] at hstep
    split at hstep
    · split_ifs at hstep
      obtain rfl := Option.some.inj hstep
      exact h.move nofun fun _ _ => ⟨nofun, nofun⟩
    · rename_i i feedbackId hctl
      obtain rfl := Option.some.inj hstep
      exact h.compare hctl
    · rename_i i hctl
      obtain rfl := Option.some.inj hstep
      refine h.move ?_ fun _ _ => ⟨nofun, nofun⟩
      rintro n ⟨⟩
      exact ⟨i + 1, Nat.le_refl _, by rw [hctl]; rfl⟩
    · cases hstep

theorem pingInv_start : PingInv config start where
  matched := {
    reply := fun before after _ hlog => (List.append_ne_nil_of_right_ne_nil before
      (List.cons_ne_nil _ after) hlog.symm).elim
    once := fun _ => Nat.zero_le 1 }
  queue := List.suffix_rfl
  printed _ _ _ := nofun
  waiting _ _ := nofun
  answered _ _ := nofun

/-- **Round-trip times.** In every run in which the datagrams that are short or early are not taken
for replies, a time is printed for a request only behind a reply to it, and at most once. -/
theorem matched_of_sound {config : Config} {s : Mypingcli}
    (h : ((mypingcli config).restrict (Sound config)).Reachable s) : Matched config s.log := by
  have hinv : PingInv config s := by
    apply h.invariant
    · rintro s rfl
      exact pingInv_start
    · intro s a t _ hs hstep
      exact hs.step hstep.2 hstep.1
  exact hinv.matched

/-- **The condition is needed.** From a datagram that is taken for a reply when none has arrived,
the client goes on to print a time that belongs to no reply. -/
theorem not_matched_of_not_sound {message : MessageBuffer} {i : ℕ} {feedbackId : Int32}
    (hctl : s.ctl = .receive i feedbackId) (hsound : ¬ Sound config s (.recvfrom message))
    (hnone : ∀ earlier later data, s.log = earlier ++ Mypingcli.request config i :: later →
      .arrived data ∈ later → ¬ IsReply (config.requestId i) data) :
    ∃ t u, exec config s (.recvfrom message) = some t ∧ exec config t .step = some u ∧
      ¬ Matched config u.log := by
  simp only [Sound, not_forall] at hsound
  obtain ⟨j, f, data, queue, hctl', hqueue, -, hid⟩ := hsound
  rw [hctl] at hctl'
  obtain ⟨rfl, rfl⟩ := Ctl.receive.inj hctl'
  have hlast : (receiveFeedback message (some data) feedbackId).2 = config.requestId i := by
    rw [receiveFeedback_eq_iff]
    split_ifs at hid ⊢ <;> exact not_not.mp hid
  have hrecv : exec config s (.recvfrom message) = some { s with
      ctl := .compare i (config.requestId i), queue := queue } := by
    simp only [exec, hctl, hqueue, hlast]
  refine ⟨_, { s with
    ctl := if i + 1 = config.numPackages.toNat then .next (i + 1) else .sleep i
    queue := queue
    log := s.log ++ [.printed i] }, hrecv, by simp only [exec, if_true], fun hmatched => ?_⟩
  obtain ⟨earlier, later, reply, hlog, hmem, hreply⟩ := hmatched.reply s.log [] i rfl
  exact hnone earlier later reply hlog hmem hreply

/-! ## Two runs -/

/-- One request, with identifier 1. -/
def oneRequest : Config := ⟨1, 1, 0, 1⟩

/-- The array `message` before anything is stored. -/
def blankMessage : MessageBuffer := ⟨[0, 0, 0, 0, 0], rfl⟩

/-- The reply to the request is in the socket. -/
def replied : Mypingcli where
  ctl := .receive 0 0
  queue := [encodeMessage 1 0]
  log := [Mypingcli.request oneRequest 0, .arrived (encodeMessage 1 0)]

/-- The server sends the request back. -/
theorem matched_of_sound_echo :
    ∃ s, ((mypingcli oneRequest).restrict (Sound oneRequest)).Reachable s ∧
      .printed 0 ∈ s.log ∧ Matched oneRequest s.log := by
  have hstart : ((mypingcli oneRequest).restrict (Sound oneRequest)).Reachable start := .init rfl
  have hsent := hstart.next (a := Label.sendto true 0) rfl trivial
  have hreplied : ((mypingcli oneRequest).restrict (Sound oneRequest)).Reachable replied :=
    hsent.next (a := Label.arrive (encodeMessage 1 0)) rfl trivial
  have hsound : Sound oneRequest replied (.recvfrom blankMessage) := by
    rintro i feedbackId data queue - hqueue hshort
    obtain ⟨rfl, rfl⟩ := List.cons.inj hqueue
    exact absurd hshort (by decide)
  have hreach := (hreplied.next rfl hsound).next (a := Label.step) rfl trivial
  exact ⟨_, hreach, by decide, matched_of_sound hreach⟩

/-- The identifier happens to be in `feedback_id`, and an empty datagram arrives. -/
theorem not_matched_emptyDatagram : ∃ s, (mypingcli oneRequest).Reachable s ∧
    s.log = [Mypingcli.request oneRequest 0, .arrived [], .printed 0] ∧
      ¬ Matched oneRequest s.log := by
  have hrun : LTS.run (exec oneRequest) (fun _ _ => True) start
      [.sendto true 1, .arrive [], .recvfrom blankMessage, .step] = some _ := rfl
  refine ⟨_, (LTS.reachable_of_run (LTS.Reachable.init rfl) hrun).of_restrict, rfl, fun h => ?_⟩
  obtain ⟨earlier, later, data, hlog, hmem, hreply⟩ :=
    h.reply [Mypingcli.request oneRequest 0, .arrived []] [] 0 rfl
  have hdata : .arrived data ∈ [Mypingcli.request oneRequest 0, .arrived []] := by
    rw [hlog]
    exact List.mem_append_right _ (List.mem_cons_of_mem _ hmem)
  have hempty : data = [] := by simpa [Mypingcli.request] using hdata
  have hlen := hreply.length
  rw [hempty] at hlen
  cases hlen

end CS536Labs.Lab2
