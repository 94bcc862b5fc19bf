import CS536Labs.Foundations.Transition
import CS536Labs.Lab4.RoadrunnerClient
import CS536Labs.Lab4.RoadrunnerServer

/-!
# RoadRunner as a distributed system

The server forks a child running `send_file` for every request it receives; the client accepts
datagrams from any of them. A state holds the children, the client and what has been sent: the
requests, the datagrams of every child (in its log `sent`) and the ACKs. Any of these may be lost,
duplicated, delayed and reordered: a delivery step picks any entry of a log at any time. What a
channel guarantees beyond that is a condition on the deliveries, for which the state keeps the
order in which they were made.

`send_window` opens a socket for every attempt and closes it, so that an ACK reaches only the
attempt it answers.
-/

namespace CS536Labs.Lab4

/-- An ACK on its way to a socket of a child. -/
structure Ack where
  child : ℕ
  socket : ℕ
  num : UInt8
  deriving DecidableEq

structure System where
  children : List Server
  client : Client
  /-- The number of requests that the client has sent. -/
  requests : ℕ
  acks : List Ack
  /-- The deliveries of datagrams so far: child and position in its log. -/
  delivered : List (ℕ × ℕ)
  /-- The deliveries of ACKs so far. -/
  acked : List ℕ

inductive Label
  /-- A child makes a library call, other than the receipt of an ACK. -/
  | server (child : ℕ) (e : ServerEvent)
  /-- The `i`-th ACK reaches its socket. -/
  | ack (i : ℕ)
  /-- The `i`-th datagram of a child reaches the client. -/
  | deliver (child i : ℕ) (o : Outcomes)
  /-- The request timer of the client fires: it sends the request again. -/
  | requestTimeout
  /-- `recvfrom` fails at the client. -/
  | recvError
  /-- The server receives a request and forks a child. -/
  | fork

section

variable (config : Config) (key : Option UInt32) (file : List UInt8)
  (uninit : ℕ → ℕ → ℕ → UInt8)

/-- One step of the system. The key is the same on both sides. -/
def System.exec (s : System) : Label → Option System
  | .server child e =>
    match e with
    | .ack _ => none
    | e => do
      let server ← s.children[child]?
      let server ← server.exec config key e
      some { s with children := s.children.set child server }
  | .ack i => do
    let ack ← s.acks[i]?
    let server ← s.children[ack.child]?
    if server.socket = ack.socket then
      let server ← server.exec config key (.ack ack.num)
      some { s with children := s.children.set ack.child server, acked := s.acked ++ [i] }
    else none
  | .deliver child i o => do
    let server ← s.children[child]?
    let datagram ← server.sent[i]?
    if s.client.ret.isSome then none
    else
      let r := s.client.receive config key uninit datagram.bytes o
      some { s with
        client := r.1
        acks := s.acks ++ r.2.map fun num => ⟨child, datagram.socket, num⟩
        delivered := s.delivered ++ [(child, i)] }
  | .requestTimeout =>
    if s.client.ret.isSome || !s.client.requestTimer then none
    else some { s with
      client := s.client.start config uninit
      requests := s.requests + 1 }
  | .recvError =>
    if s.client.ret.isSome then none
    else some { s with client := { s.client with ret := some (-1) } }
  | .fork =>
    if s.requests = 0 then none
    else some { s with children := s.children ++ [Server.initial file] }

/-- What one step can do. -/
inductive System.Step (s : System) : Label → System → Prop
  | server {child : ℕ} {e : ServerEvent} {server server' : Server}
    (hget : s.children[child]? = some server) (hexec : server.exec config key e = some server')
    (hne : ∀ num, e ≠ .ack num) :
    Step s (.server child e) { s with children := s.children.set child server' }
  | ack {i : ℕ} {ack : Ack} {server server' : Server} (hack : s.acks[i]? = some ack)
    (hget : s.children[ack.child]? = some server) (hsocket : server.socket = ack.socket)
    (hexec : server.exec config key (.ack ack.num) = some server') :
    Step s (.ack i)
      { s with children := s.children.set ack.child server', acked := s.acked ++ [i] }
  | deliver {child i : ℕ} {o : Outcomes} {server : Server} {d : Datagram}
    (hget : s.children[child]? = some server) (hd : server.sent[i]? = some d)
    (hret : s.client.ret = none) :
    Step s (.deliver child i o) { s with
      client := (s.client.receive config key uninit d.bytes o).1
      acks := s.acks ++
        (s.client.receive config key uninit d.bytes o).2.map fun num => ⟨child, d.socket, num⟩
      delivered := s.delivered ++ [(child, i)] }
  | requestTimeout (hret : s.client.ret = none) (htimer : s.client.requestTimer = true) :
    Step s .requestTimeout { s with
      client := s.client.start config uninit
      requests := s.requests + 1 }
  | recvError (hret : s.client.ret = none) :
    Step s .recvError { s with client := { s.client with ret := some (-1) } }
  | fork (hrequests : s.requests ≠ 0) :
    Step s .fork { s with children := s.children ++ [Server.initial file] }

variable {config key file uninit} in
theorem System.step_of_exec {s t : System} {a : Label}
    (h : s.exec config key file uninit a = some t) : s.Step config key file uninit a t := by
  cases a with
  | server child e =>
    have hne : ∀ num, e ≠ .ack num := by
      rintro num rfl
      cases h
    obtain ⟨server, hget, h⟩ : ∃ server, s.children[child]? = some server ∧
        (server.exec config key e).bind
          (fun server' => some { s with children := s.children.set child server' }) = some t := by
      cases e with
      | ack num => exact absurd rfl (hne num)
      | ok | fail | timeout => exact Option.bind_eq_some_iff.mp h
    obtain ⟨server', hexec, h⟩ := Option.bind_eq_some_iff.mp h
    cases h
    exact .server hget hexec hne
  | ack i =>
    obtain ⟨ack, hack, h⟩ := Option.bind_eq_some_iff.mp h
    obtain ⟨server, hget, h⟩ := Option.bind_eq_some_iff.mp h
    split_ifs at h with hsocket
    obtain ⟨server', hexec, h⟩ := Option.bind_eq_some_iff.mp h
    cases h
    exact .ack hack hget hsocket hexec
  | deliver child i o =>
    obtain ⟨server, hget, h⟩ := Option.bind_eq_some_iff.mp h
    obtain ⟨d, hd, h⟩ := Option.bind_eq_some_iff.mp h
    split_ifs at h with hret
    cases h
    exact .deliver hget hd (by simpa using hret)
  | requestTimeout =>
    simp only [System.exec] at h
    split_ifs at h with hrun
    cases h
    simp only [Bool.or_eq_true, Bool.not_eq_true', not_or, Bool.not_eq_true,
      Option.isSome_eq_false_iff, Option.isNone_iff_eq_none, Bool.not_eq_false] at hrun
    exact .requestTimeout hrun.1 hrun.2
  | recvError =>
    simp only [System.exec] at h
    split_ifs at h with hret
    cases h
    exact .recvError (by simpa using hret)
  | fork =>
    simp only [System.exec] at h
    split_ifs at h with hrequests
    cases h
    exact .fork hrequests

/-- The client has sent its first request; `children` are the children forked for it so far. -/
def System.initial (children : List Server) : System :=
  ⟨children, Client.initial config uninit, 1, [], [], []⟩

/-- The runs in which every step meets the condition, with `n` children at the start. -/
def roadrunner (n : ℕ) (policy : System → Label → Prop) : LTS System Label :=
  (LTS.ofExec (System.initial config uninit (List.replicate n (Server.initial file)))
    (System.exec config key file uninit)).restrict policy

end

/-! ## Conditions on the steps -/

/-- No failure of a library call is ignored: no call of `send_window` fails in the loop of
`send_file`, and the client can write its file. -/
def System.Clean (s : System) : Label → Prop
  | .server child e => ∀ server ∈ s.children[child]?, server.Clean e
  | .deliver _ _ o => o.AppendOk
  | _ => True

/-- The window of the `i`-th datagram of a child. -/
def System.windowOf (s : System) (child i : ℕ) : Option ℕ :=
  (s.children[child]?.bind fun server => server.sent[i]?).map Datagram.window

/-- No datagram of an earlier window is delivered after a datagram of a later window. -/
def System.InWindowOrder (s : System) : Label → Prop
  | .deliver child i _ => ∀ entry ∈ s.delivered, ∀ w ∈ s.windowOf entry.1 entry.2,
      ∀ w' ∈ s.windowOf child i, w ≤ w'
  | _ => True

/-- No request is received again. -/
def Label.NoFork : Label → Prop
  | .fork => False
  | _ => True

/-- The steps of one child and one client, over a channel that keeps the order of windows. -/
def System.SingleTransfer (s : System) (a : Label) : Prop :=
  s.Clean a ∧ s.InWindowOrder a ∧ a.NoFork

instance (s : Server) (e : ServerEvent) : Decidable (s.Clean e) :=
  inferInstanceAs (Decidable (e = .fail → s.ctl.site ≠ some .lookAhead))

instance (s : System) (a : Label) : Decidable (s.Clean a) :=
  match a with
  | .server child e => inferInstanceAs (Decidable (∀ server ∈ s.children[child]?, server.Clean e))
  | .deliver _ _ o => inferInstanceAs (Decidable o.AppendOk)
  | .ack _ | .requestTimeout | .recvError | .fork => inferInstanceAs (Decidable True)

instance (s : System) (a : Label) : Decidable (s.InWindowOrder a) :=
  match a with
  | .deliver child i _ => inferInstanceAs (Decidable (∀ entry ∈ s.delivered,
      ∀ w ∈ s.windowOf entry.1 entry.2, ∀ w' ∈ s.windowOf child i, w ≤ w'))
  | .server _ _ | .ack _ | .requestTimeout | .recvError | .fork => inferInstanceAs (Decidable True)

instance (a : Label) : Decidable a.NoFork :=
  match a with
  | .fork => inferInstanceAs (Decidable False)
  | .server _ _ | .ack _ | .deliver _ _ _ | .requestTimeout | .recvError =>
    inferInstanceAs (Decidable True)

instance (s : System) (a : Label) : Decidable (s.SingleTransfer a) :=
  inferInstanceAs (Decidable (_ ∧ _ ∧ _))

end CS536Labs.Lab4
