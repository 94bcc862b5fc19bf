import CS536Labs.Lab2.Mypingsrv
import CS536Labs.Lab2.PingReplies

/-!
# The ping client with its server

`mypingcli` and `mypingsrv` over a network that loses, repeats and reorders datagrams. Other clients
send the server what they like, but only the server answers at the port of the client.

The replies that the client takes are then as long as it expects, and one that is late has the
identifier of an earlier request: with its server, the client needs no assumption about datagrams.

* `Echoed`: each datagram that the client gets is one of its requests, sent back.
* `sound_of_echoed`: none of them is taken for the reply to a later request.
* `roundTrips_of_reachable`: what the datagrams and the times are in all runs of the system.
-/

namespace CS536Labs.Lab2

open Mypingcli

/-! ## The client -/

/-- A bound on the requests that were sent, while `run` has not returned. -/
def Mypingcli.Ctl.requested : Ctl → Option ℕ
  | .next i => some i
  | .receive i _ | .compare i _ | .sleep i => some (i + 1)
  | .returned _ => none

/-- What one step of the client can do. -/
inductive Mypingcli.Step (config : Config) (c : Mypingcli) : Mypingcli.Label → Mypingcli → Prop
  | arrive (data : List UInt8) : Step config c (.arrive data)
    { c with queue := c.queue ++ [data], log := c.log ++ [.arrived data] }
  | sendto {i : ℕ} (feedbackId : Int32) : c.ctl = .next i → i < config.numPackages.toNat →
    Step config c (.sendto true feedbackId)
      { c with ctl := .receive i feedbackId, log := c.log ++ [request config i] }
  | print {i : ℕ} {ctl : Ctl} : c.ctl = .compare i (config.requestId i) →
    ctl = .next (i + 1) ∨ ctl = .sleep i →
    Step config c .step { c with ctl := ctl, log := c.log ++ [.printed i] }
  | move {a : Mypingcli.Label} {ctl : Ctl} {queue : List (List UInt8)} :
    (∀ n, ctl.requested = some n → c.ctl.requested = some n) → Step config c a
      { c with ctl := ctl, queue := queue }

variable {config : Config}

theorem Mypingcli.step_of_exec {c c' : Mypingcli} {a : Mypingcli.Label}
    (h : exec config c a = some c') : c.Step config a c' := by
  cases a with
  | arrive data =>
    obtain rfl := Option.some.inj h
    exact .arrive data
  | sendto ok feedbackId =>
    simp only [exec] at h
    split at h
    · rename_i i hctl
      split at h
      · rename_i hi
        obtain rfl := Option.some.inj h
        cases ok with
        | true => exact .sendto feedbackId hctl hi
        | false => exact .move (by rintro n ⟨⟩)
      · cases h
    · cases h
  | recvfrom message =>
    simp only [exec] at h
    split at h
    · rename_i i feedbackId data queue hctl _
      obtain rfl := Option.some.inj h
      exact .move fun n hn => by rw [hctl]; exact hn
    · cases h
  | recvError interrupted =>
    simp only [exec] at h
    split at h
    · rename_i i feedbackId hctl
      obtain rfl := Option.some.inj h
      cases interrupted with
      | true => exact .move fun n hn => by rw [hctl]; exact hn
      | false => exact .move (by rintro n ⟨⟩)
    · cases h
  | step =>
    simp only [exec] at h
    split at h
    · split_ifs at h
      obtain rfl := Option.some.inj h
      exact .move (by rintro n ⟨⟩)
    · rename_i i feedbackId hctl
      obtain rfl := Option.some.inj h
      split_ifs with hid hlast
      · exact .print (hid ▸ hctl) (.inl rfl)
      · exact .print (hid ▸ hctl) (.inr rfl)
      · exact .move fun n hn => by rw [hctl]; exact hn
    · rename_i i hctl
      obtain rfl := Option.some.inj h
      exact .move fun n hn => by rw [hctl]; exact hn
    · cases h

/-- The requests that were sent, with their messages. -/
def requests (log : List Mypingcli.Event) : List (ℕ × List UInt8) :=
  log.filterMap fun
    | .sent i message => some (i, message)
    | _ => none

@[simp] theorem requests_append (log log' : List Mypingcli.Event) :
    requests (log ++ log') = requests log ++ requests log' := List.filterMap_append

theorem mem_requests {log : List Mypingcli.Event} {i : ℕ} {message : List UInt8} :
    (i, message) ∈ requests log ↔ .sent i message ∈ log := by
  constructor
  · intro h
    obtain ⟨e, he, hsent⟩ := List.mem_filterMap.mp h
    cases e with
    | sent j message' =>
      cases hsent
      exact he
    | arrived | printed => cases hsent
  · intro h
    exact List.mem_filterMap.mpr ⟨_, h, rfl⟩

/-- The identifiers of the requests are different. -/
theorem requestId_inj {i j : ℕ} (hi : i < config.numPackages.toNat)
    (hj : j < config.numPackages.toNat) (h : config.requestId i = config.requestId j) : i = j := by
  have hlt := config.numPackages.toNat_lt
  rw [Config.requestId, Config.requestId, Int32.add_right_inj] at h
  have hint := congrArg Int32.toInt h
  rw [Int32.toInt_ofNat_of_lt (by omega), Int32.toInt_ofNat_of_lt (by omega)] at hint
  exact Int.ofNat_inj.mp hint

/-- The message of a request. -/
def Config.requestMessage (config : Config) (i : ℕ) : List UInt8 :=
  encodeMessage (config.requestId i) config.serverDelay

/-- The requests are sent one behind the other, each with its message. -/
structure Requests (config : Config) (c : Mypingcli) : Prop where
  ordered : (requests c.log).Pairwise (·.1 < ·.1)
  request : ∀ p ∈ requests c.log,
    p.1 < config.numPackages.toNat ∧ p.2 = config.requestMessage p.1
  reached : ∀ n, c.ctl.requested = some n → ∀ p ∈ requests c.log, p.1 < n

theorem requests_start : Requests config start := ⟨.nil, nofun, nofun⟩

/-- A step that sends no request. -/
theorem Requests.move {c c' : Mypingcli} (h : Requests config c)
    (hlog : requests c'.log = requests c.log)
    (hctl : ∀ n, c'.ctl.requested = some n → ∃ m ≤ n, c.ctl.requested = some m) :
    Requests config c' where
  ordered := hlog.symm ▸ h.ordered
  request := hlog.symm ▸ h.request
  reached n hn p hp := by
    obtain ⟨m, hle, hm⟩ := hctl n hn
    exact (h.reached m hm p (hlog ▸ hp)).trans_le hle

theorem Requests.step {c c' : Mypingcli} {a : Mypingcli.Label} (h : Requests config c)
    (hstep : c.Step config a c') : Requests config c' := by
  cases hstep with
  | arrive data =>
    refine h.move ?_ fun n hn => ⟨n, Nat.le_refl n, hn⟩
    exact (requests_append _ _).trans (List.append_nil _)
  | @sendto i feedbackId hctl hi =>
    have hreached := h.reached i (by rw [hctl]; rfl)
    have hlog : requests (c.log ++ [Mypingcli.request config i]) =
        requests c.log ++ [(i, config.requestMessage i)] := requests_append _ _
    refine ⟨?_, ?_, ?_⟩
    · rw [hlog, List.pairwise_append]
      refine ⟨h.ordered, List.pairwise_singleton _ _, fun p hp q hq => ?_⟩
      rw [List.mem_singleton.mp hq]
      exact hreached p hp
    · simp only [hlog, List.mem_append, List.mem_singleton]
      rintro p (hp | rfl)
      · exact h.request p hp
      · exact ⟨hi, rfl⟩
    · simp only [hlog, List.mem_append, List.mem_singleton]
      rintro n hn p (hp | rfl)
      · cases hn
        exact Nat.lt_succ_of_lt (hreached p hp)
      · cases hn
        exact Nat.lt_succ_self i
  | @print i ctl hctl hnext =>
    refine h.move ((requests_append _ _).trans (List.append_nil _)) fun n hn => ?_
    refine ⟨i + 1, ?_, by rw [hctl]; rfl⟩
    rcases hnext with rfl | rfl <;> exact (Option.some.inj hn).le
  | move hctl => exact h.move rfl fun n hn => ⟨n, Nat.le_refl n, hctl n hn⟩

/-- The number of a request that was sent before another one. -/
theorem Requests.lt {c : Mypingcli} (h : Requests config c) {earlier later : List Mypingcli.Event}
    {i j : ℕ} (hlog : c.log = earlier ++ Mypingcli.request config i :: later)
    (hj : Mypingcli.request config j ∈ earlier) : j < i ∧ i < config.numPackages.toNat := by
  have hi : (i, config.requestMessage i) ∈ requests c.log := by
    rw [mem_requests, hlog]
    exact List.mem_append_right _ List.mem_cons_self
  have hordered := h.ordered
  rw [hlog, requests_append, List.pairwise_append] at hordered
  exact ⟨hordered.2.2 _ (mem_requests.mpr hj) _ List.mem_cons_self, (h.request _ hi).1⟩

/-- Each datagram that arrived is a request that was sent before, as it was sent, and has been
answered. -/
def Echoed (config : Config) (answered : ℕ → Prop) (log : List Mypingcli.Event) : Prop :=
  ∀ before after data, log = before ++ .arrived data :: after →
    ∃ i, request config i ∈ before ∧ data = config.requestMessage i ∧ answered i

section Echoed

variable {answered : ℕ → Prop} {log log' : List Mypingcli.Event}

theorem Echoed.mono {answered' : ℕ → Prop} (h : Echoed config answered log)
    (hmono : ∀ i, answered i → answered' i) : Echoed config answered' log := by
  intro before after data hlog
  obtain ⟨i, hi, hdata, hanswered⟩ := h before after data hlog
  exact ⟨i, hi, hdata, hmono i hanswered⟩

theorem Echoed.of_append (h : Echoed config answered (log ++ log')) :
    Echoed config answered log := by
  intro before after data hlog
  exact h before (after ++ log') data (by rw [hlog, List.append_assoc, List.cons_append])

theorem Echoed.concat (h : Echoed config answered log) {e : Mypingcli.Event}
    (he : ∀ data, e = .arrived data →
      ∃ i, request config i ∈ log ∧ data = config.requestMessage i ∧ answered i) :
    Echoed config answered (log ++ [e]) := by
  intro before after data hlog
  rcases List.eq_nil_or_concat' after with rfl | ⟨after, e', rfl⟩
  · obtain ⟨rfl, harrived⟩ := List.append_inj' hlog rfl
    exact he data (List.cons.inj harrived).1
  · rw [← List.cons_append, ← List.append_assoc] at hlog
    exact h before after data (List.append_inj' hlog rfl).1

theorem Echoed.arrived (h : Echoed config answered log) {data : List UInt8}
    (hdata : .arrived data ∈ log) :
    ∃ i, request config i ∈ log ∧ data = config.requestMessage i ∧ answered i := by
  obtain ⟨before, after, hlog⟩ := List.append_of_mem hdata
  obtain ⟨i, hi, hmessage, hanswered⟩ := h before after data hlog
  exact ⟨i, hlog ▸ List.mem_append_left _ hi, hmessage, hanswered⟩

end Echoed

theorem length_requestMessage (config : Config) (i : ℕ) :
    (config.requestMessage i).length = messageSize := by
  rw [Config.requestMessage, encodeMessage, List.length_append, length_idBytes]
  rfl

/-- The identifier of a message that is received whole. -/
theorem take_recvInto_requestMessage (message : MessageBuffer) (i : ℕ) :
    (recvInto message (config.requestMessage i)).take 4 = idBytes (config.requestId i) := by
  have hlen : (config.requestMessage i).length ≤ message.val.length := by
    rw [length_requestMessage, message.property]
  rw [recvInto_of_le hlen, Config.requestMessage, encodeMessage, List.append_assoc,
    List.take_left' (length_idBytes _)]

theorem idBytes_inj {id id' : Int32} (h : idBytes id = idBytes id') : id = id' := by
  have hid := decodeMessage_encodeMessage id 0
  rw [encodeMessage, h, ← encodeMessage, decodeMessage_encodeMessage] at hid
  exact (congrArg Prod.fst hid).symm

/-- A suffix that is longer than the second list starts in the first. -/
theorem head_mem_of_suffix {α : Type*} {a : α} {l l₁ l₂ : List α} (h : a :: l <:+ l₁ ++ l₂)
    (hlen : l₂.length < (a :: l).length) : a ∈ l₁ := by
  obtain ⟨t, ht⟩ := h
  rcases List.append_eq_append_iff.mp ht with ⟨c, rfl, hc⟩ | ⟨c, rfl, hc⟩
  · cases c with
    | nil =>
      rw [hc] at hlen
      exact absurd hlen (Nat.lt_irrefl _)
    | cons b c =>
      obtain ⟨rfl, -⟩ := List.cons.inj hc
      exact List.mem_append_right _ List.mem_cons_self
  · rw [hc, List.length_append] at hlen
    omega

/-- **Late replies.** The datagrams that were in the socket when the request was sent carry the
identifiers of earlier requests. -/
theorem sound_of_echoed {c : Mypingcli} {answered : ℕ → Prop} (h : PingInv config c)
    (hrequests : Requests config c) (hechoed : Echoed config answered c.log)
    (a : Mypingcli.Label) : Sound config c a := by
  cases a with
  | recvfrom message =>
    intro i feedbackId data queue hctl hqueue hearly
    obtain ⟨earlier, later, hlog, hsince⟩ := h.waiting i feedbackId (.inl hctl)
    have hsuffix := h.queue
    rw [hqueue, hlog, arrivals_append] at hsuffix
    have hwhole : data.length = messageSize := by
      have hmem : data ∈ arrivals c.log := h.queue.subset (hqueue ▸ List.mem_cons_self)
      obtain ⟨j, -, rfl, -⟩ := hechoed.arrived (mem_of_mem_arrivals hmem)
      exact length_requestMessage config j
    have hold : data ∈ arrivals earlier := by
      apply head_mem_of_suffix hsuffix
      rw [hwhole, hsince, hqueue] at hearly
      exact hearly.resolve_left (Nat.lt_irrefl _)
    rw [hlog] at hechoed
    obtain ⟨j, hj, rfl, -⟩ := hechoed.of_append.arrived (mem_of_mem_arrivals hold)
    have hne : config.requestId j ≠ config.requestId i := by
      obtain ⟨hlt, hi⟩ := hrequests.lt hlog hj
      intro hid
      exact hlt.ne (requestId_inj (hlt.trans hi) hi hid)
    rw [if_neg (List.ne_nil_of_length_pos (by rw [hwhole]; decide)), take_recvInto_requestMessage]
    exact fun hid => hne (idBytes_inj hid)
  | arrive | sendto | recvError | step => trivial

/-! ## The system -/

/-- The two programs. -/
structure PingSystem (α : Type*) where
  client : Mypingcli
  server : Mypingsrv α

namespace PingSystem

inductive Label (α : Type*)
  /-- A step of the client, which is no arrival. -/
  | client (a : Mypingcli.Label)
  /-- A step of the server, which is no arrival. -/
  | server (a : Mypingsrv.Label α)
  /-- A request that was sent gets to the server. -/
  | request (i : ℕ)
  /-- Another client sends a datagram to the server. -/
  | other (addr : α) (data : List UInt8)
  /-- The reply of a child gets to the client. -/
  | reply (child : Mypingsrv.Child α)

variable {α : Type*} [DecidableEq α]

/-- A step of the system, where `home` is the address of the client. -/
def exec (config : Config) (home : α) (s : PingSystem α) : Label α → Option (PingSystem α)
  | .client (.arrive _) => none
  | .client a => (Mypingcli.exec config s.client a).map fun client => { s with client := client }
  | .server (.arrive _ _) => none
  | .server a => (s.server.exec a).map fun server => { s with server := server }
  | .request i =>
    if request config i ∈ s.client.log then
      (s.server.exec (.arrive home (config.requestMessage i))).map fun server =>
        { s with server := server }
    else none
  | .other addr data =>
    if addr = home then none
    else (s.server.exec (.arrive addr data)).map fun server => { s with server := server }
  | .reply child =>
    if child.addr = home ∧ .replied child ∈ s.server.log then
      (Mypingcli.exec config s.client (.arrive child.message)).map fun client =>
        { s with client := client }
    else none

/-- All runs of the client with its server, with anything in the memory of the array. -/
def system (config : Config) (home : α) (memory : MessageBuffer) :
    LTS (PingSystem α) (Label α) :=
  LTS.ofExec ⟨Mypingcli.start, Mypingsrv.start memory⟩ (exec config home)

end PingSystem

open PingSystem

variable {α : Type*}

/-- The child of a request. -/
def childOf (config : Config) (home : α) (i : ℕ) : Mypingsrv.Child α :=
  ⟨home, config.requestId i, config.serverDelay⟩

/-- The child of the request has replied. -/
def Replied (config : Config) (home : α) (server : Mypingsrv α) (i : ℕ) : Prop :=
  .replied (childOf config home i) ∈ server.log

/-- The datagrams that the client gets are its requests, sent back by their children. A time is
printed only behind the reply to its request, at most once, and when the delay is one of 0 to 5. -/
structure RoundTrips (config : Config) (home : α) (s : PingSystem α) : Prop where
  echoed : Echoed config (Replied config home s.server) s.client.log
  matched : Matched config s.client.log
  served : ∀ i, .printed i ∈ s.client.log →
    Replied config home s.server i ∧ config.serverDelay.toNat ≤ 5

/-- What holds in all runs. -/
structure PingSystemInv (config : Config) (home : α) (s : PingSystem α) : Prop where
  client : PingInv config s.client
  requests : Requests config s.client
  echoed : Echoed config (Replied config home s.server) s.client.log
  message : s.server.message.length = messageSize
  asked : ∀ data, (home, data) ∈ s.server.queue →
    ∃ i, request config i ∈ s.client.log ∧ data = config.requestMessage i
  children : ∀ child, child ∈ s.server.children ∨ .replied child ∈ s.server.log →
    child.addr = home → ∃ i, request config i ∈ s.client.log ∧ child = childOf config home i ∧
      config.serverDelay.toNat ≤ 5

variable {home : α} {s : PingSystem α}

/-- A step of the client, or an arrival. -/
theorem PingSystemInv.clientStep (h : PingSystemInv config home s) {a : Mypingcli.Label}
    {c : Mypingcli} (hexec : Mypingcli.exec config s.client a = some c)
    (harrive : ∀ data, a = .arrive data → ∃ i, request config i ∈ s.client.log ∧
      data = config.requestMessage i ∧ Replied config home s.server i) :
    PingSystemInv config home { s with client := c } := by
  have hstep := Mypingcli.step_of_exec hexec
  have hgrows : s.client.log <+: c.log := by
    cases hstep with
    | arrive | sendto | print => exact List.prefix_append _ _
    | move => exact List.prefix_rfl
  exact {
    client := h.client.step (sound_of_echoed h.client h.requests h.echoed a) hexec
    requests := h.requests.step hstep
    echoed := by
      cases hstep with
      | arrive data =>
        refine h.echoed.concat ?_
        rintro _ ⟨⟩
        exact harrive data rfl
      | sendto | print => exact h.echoed.concat nofun
      | move => exact h.echoed
    message := h.message
    asked := fun data hdata => by
      obtain ⟨i, hi, hmessage⟩ := h.asked data hdata
      exact ⟨i, hgrows.subset hi, hmessage⟩
    children := fun child hchild haddr => by
      obtain ⟨i, hi, hchildOf⟩ := h.children child hchild haddr
      exact ⟨i, hgrows.subset hi, hchildOf⟩ }

/-- The child that is forked for a request. -/
theorem child_requestMessage {memory : List UInt8} (hlen : memory.length = messageSize) (i : ℕ) :
    Mypingsrv.child home (recvInto memory (config.requestMessage i)) = childOf config home i := by
  have hle : (config.requestMessage i).length ≤ memory.length := by
    rw [length_requestMessage, hlen]
  have hdrop : memory.drop (config.requestMessage i).length = [] :=
    List.drop_eq_nil_of_le (by rw [length_requestMessage, hlen])
  rw [recvInto_of_le hle, hdrop, List.append_nil, Config.requestMessage, Mypingsrv.child,
    decodeMessage_encodeMessage]
  rfl

/-- A server with a longer log, and children and datagrams that are accounted for. -/
theorem PingSystemInv.server (h : PingSystemInv config home s) {t : Mypingsrv α}
    (hmessage : t.message.length = messageSize)
    (hlog : ∀ child, .replied child ∈ s.server.log → .replied child ∈ t.log)
    (hasked : ∀ data, (home, data) ∈ t.queue → (home, data) ∈ s.server.queue ∨
      ∃ i, request config i ∈ s.client.log ∧ data = config.requestMessage i)
    (hchildren : ∀ child, child ∈ t.children ∨ .replied child ∈ t.log → child.addr = home →
      (child ∈ s.server.children ∨ .replied child ∈ s.server.log) ∨
        ∃ i, request config i ∈ s.client.log ∧ child = childOf config home i ∧
          config.serverDelay.toNat ≤ 5) :
    PingSystemInv config home { s with server := t } where
  client := h.client
  requests := h.requests
  echoed := h.echoed.mono fun _ hreplied => hlog _ hreplied
  message := hmessage
  asked data hdata := (hasked data hdata).elim (h.asked data) id
  children child hchild haddr :=
    (hchildren child hchild haddr).elim (fun hold => h.children child hold haddr) id

/-- A step of the server, or an arrival. -/
theorem PingSystemInv.serverStep (h : PingSystemInv config home s) {a : Mypingsrv.Label α}
    {t : Mypingsrv α} (hstep : s.server.Step a t)
    (harrive : ∀ data, a = .arrive home data → ∃ i, request config i ∈ s.client.log ∧
      data = config.requestMessage i) :
    PingSystemInv config home { s with server := t } := by
  cases hstep with
  | arrive addr data =>
    refine h.server h.message (fun _ => id) (fun data' hdata => ?_) fun _ hchild _ => .inl hchild
    rcases List.mem_append.mp hdata with hdata | hdata
    · exact .inl hdata
    · obtain ⟨rfl, rfl⟩ := Prod.mk.inj (List.mem_singleton.mp hdata)
      exact .inr (harrive _ rfl)
  | @recvfrom addr data queue _ _ hqueue hhandled =>
    have hmessage : t.message.length = messageSize := by
      rw [hhandled.message, length_recvInto]
      exact h.message
    have hasked : ∀ data', (home, data') ∈ t.queue → (home, data') ∈ s.server.queue := by
      intro data' hdata
      rw [hhandled.queue] at hdata
      rw [hqueue]
      exact List.mem_cons_of_mem _ hdata
    rcases hhandled.answer with ⟨hchildren, hlog⟩ | ⟨-, hdelay, hchildren, hlog⟩
    · refine h.server hmessage (fun child hmem => ?_) (fun data' hdata => .inl (hasked data' hdata))
        fun child hchild haddr => .inl ?_
      · rw [hlog]
        exact List.mem_append_left _ hmem
      · simpa [hchildren, hlog] using hchild
    · refine h.server hmessage (fun child hmem => ?_) (fun data' hdata => .inl (hasked data' hdata))
        fun child hchild haddr => ?_
      · rw [hlog]
        exact List.mem_append_left _ (List.mem_append_left _ hmem)
      · simp only [hchildren, hlog, List.mem_append, List.mem_singleton, reduceCtorEq, or_false]
          at hchild
        rcases hchild with (hchild | rfl) | hchild
        · exact .inl (.inl hchild)
        · obtain rfl : addr = home := haddr
          obtain ⟨i, hi, rfl⟩ := h.asked data (hqueue ▸ List.mem_cons_self)
          have hchildOf : Mypingsrv.child addr t.message = childOf config addr i := by
            rw [hhandled.message]
            exact child_requestMessage h.message i
          have hsame : (decodeMessage t.message).2 = config.serverDelay :=
            congrArg Mypingsrv.Child.delay hchildOf
          exact .inr ⟨i, hi, hchildOf, hsame ▸ hdelay⟩
        · exact .inl (.inr hchild)
  | recvError =>
    exact h.server h.message (fun _ => id) (fun _ => .inl) fun _ hchild _ => .inl hchild
  | @sendto i ok child hchild =>
    refine h.server h.message (fun child' hmem => ?_) (fun _ => .inl) fun child' hmem _ => .inl ?_
    · cases ok with
      | true => exact List.mem_append_left _ hmem
      | false => exact hmem
    · rcases hmem with hmem | hmem
      · exact .inl (List.mem_of_mem_eraseIdx hmem)
      · cases ok with
        | true =>
          rcases List.mem_append.mp hmem with hmem | hmem
          · exact .inr hmem
          · cases List.mem_singleton.mp hmem
            exact .inl (List.mem_of_getElem? hchild)
        | false => exact .inr hmem

theorem PingSystemInv.step [DecidableEq α] {t : PingSystem α} (h : PingSystemInv config home s)
    {a : PingSystem.Label α} (hstep : PingSystem.exec config home s a = some t) :
    PingSystemInv config home t := by
  cases a with
  | client a =>
    cases a with
    | arrive data => cases hstep
    | sendto | recvfrom | recvError | step =>
      obtain ⟨c, hc, rfl⟩ := Option.map_eq_some_iff.mp hstep
      exact h.clientStep hc nofun
  | server a =>
    cases a with
    | arrive addr data => cases hstep
    | recvfrom | recvError | sendto =>
      obtain ⟨t, ht, rfl⟩ := Option.map_eq_some_iff.mp hstep
      exact h.serverStep (Mypingsrv.step_of_exec ht) nofun
  | request i =>
    simp only [PingSystem.exec] at hstep
    split_ifs at hstep with hi
    obtain ⟨t, ht, rfl⟩ := Option.map_eq_some_iff.mp hstep
    refine h.serverStep (Mypingsrv.step_of_exec ht) ?_
    rintro _ ⟨⟩
    exact ⟨i, hi, rfl⟩
  | other addr data =>
    simp only [PingSystem.exec] at hstep
    split_ifs at hstep with haddr
    obtain ⟨t, ht, rfl⟩ := Option.map_eq_some_iff.mp hstep
    refine h.serverStep (Mypingsrv.step_of_exec ht) ?_
    rintro _ ⟨⟩
    exact (haddr rfl).elim
  | reply child =>
    simp only [PingSystem.exec] at hstep
    split_ifs at hstep with hreplied
    obtain ⟨c, hc, rfl⟩ := Option.map_eq_some_iff.mp hstep
    refine h.clientStep hc ?_
    rintro _ ⟨⟩
    obtain ⟨i, hi, rfl, -⟩ := h.children child (.inr hreplied.2) hreplied.1
    exact ⟨i, hi, rfl, hreplied.2⟩

/-- **The system.** -/
theorem PingSystemInv.roundTrips (h : PingSystemInv config home s) :
    RoundTrips config home s where
  echoed := h.echoed
  matched := h.client.matched
  served := by
    intro i hprinted
    obtain ⟨before, after, hlog⟩ := List.append_of_mem hprinted
    obtain ⟨earlier, later, data, hbefore, harrived, hreply⟩ :=
      h.client.matched.reply before after i hlog
    have hmem : ∀ e ∈ before, e ∈ s.client.log := fun e he => hlog ▸ List.mem_append_left _ he
    have hlater : .arrived data ∈ s.client.log :=
      hmem _ (hbefore ▸ List.mem_append_right _ (List.mem_cons_of_mem _ harrived))
    have hi : request config i ∈ s.client.log :=
      hmem _ (hbefore ▸ List.mem_append_right _ List.mem_cons_self)
    obtain ⟨j, hj, rfl, hreplied⟩ := h.echoed.arrived hlater
    obtain rfl : j = i := by
      have hid := hreply.id
      rw [Config.requestMessage, encodeMessage, List.take_left' (length_idBytes _)] at hid
      exact requestId_inj (h.requests.request _ (mem_requests.mpr hj)).1
        (h.requests.request _ (mem_requests.mpr hi)).1 (idBytes_inj hid)
    obtain ⟨-, -, -, hdelay⟩ := h.children _ (.inr hreplied) rfl
    exact ⟨hreplied, hdelay⟩

/-- **Round-trip times.** -/
theorem roundTrips_of_reachable [DecidableEq α] {memory : MessageBuffer}
    (h : (PingSystem.system config home memory).Reachable s) : RoundTrips config home s := by
  have hinv : PingSystemInv config home s := by
    apply h.invariant
    · rintro s rfl
      refine ⟨pingInv_start, requests_start, ?_, memory.property, nofun, ?_⟩
      · intro before after data hlog
        exact (List.append_ne_nil_of_right_ne_nil before (List.cons_ne_nil _ after) hlog.symm).elim
      · rintro child (hchild | hchild) <;> cases hchild
    · intro s a t _ hs hstep
      exact hs.step hstep
  exact hinv.roundTrips

/-- A reply to one request, while another client sends a byte. -/
theorem roundTrips_oneRequest :
    ∃ s, (PingSystem.system oneRequest false blankMessage).Reachable s ∧
      .printed 0 ∈ s.client.log ∧ RoundTrips oneRequest false s := by
  have hrun : LTS.run (PingSystem.exec oneRequest false) (fun _ _ => True)
      ⟨Mypingcli.start, Mypingsrv.start blankMessage⟩
      [.client (.sendto true 7), .other true [9], .request 0, .server (.recvfrom true),
        .server (.recvfrom true), .server (.sendto 1 true),
        .reply (childOf oneRequest false 0), .client (.recvfrom blankMessage),
        .client .step] = some _ := rfl
  have hreach := (LTS.reachable_of_run (LTS.Reachable.init rfl) hrun).of_restrict
  exact ⟨_, hreach, by decide, roundTrips_of_reachable hreach⟩

end CS536Labs.Lab2
