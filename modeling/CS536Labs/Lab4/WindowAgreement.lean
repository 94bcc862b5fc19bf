import CS536Labs.Lab4.ReceivedWindow
import CS536Labs.Lab4.Roadrunner

/-!
# Window agreement

`SystemInv` ties the client to any number of children: no child is ahead of the client, and an ACK
in flight answers an attempt at a window that the client has completed. It is kept as long as no
datagram is delivered at a later window of the same parity as its own (`NonAliasing`), since the
two windows would share their sequence numbers.

With one child and a channel that does not deliver a datagram of an earlier window after one of a
later window this is automatic: the client and the child are never more than one window apart
(`window_agreement`).
-/

namespace CS536Labs.Lab4

variable {config : Config} {key : Option UInt32} {file : List UInt8}
  {uninit : ℕ → ℕ → ℕ → UInt8}

/-! ## The children -/

/-- Every child is still there, and its log has only grown. -/
def Extends (l l' : List Server) : Prop :=
  ∀ (i : ℕ) (server : Server), l[i]? = some server →
    ∃ server' : Server, l'[i]? = some server' ∧ server.sent <+: server'.sent

theorem Extends.refl (l : List Server) : Extends l l :=
  fun _ server h => ⟨server, h, List.prefix_refl _⟩

theorem extends_set {l : List Server} {i : ℕ} {server server' : Server}
    (hget : l[i]? = some server) (hsent : server.sent <+: server'.sent) :
    Extends l (l.set i server') := by
  intro j other hother
  rcases eq_or_ne i j with rfl | hne
  · obtain rfl := Option.some.inj (hget.symm.trans hother)
    exact ⟨server', by simp [(List.getElem?_eq_some_iff.mp hget).1], hsent⟩
  · exact ⟨other, by rw [List.getElem?_set_ne hne, hother], List.prefix_refl _⟩

theorem extends_append (l l' : List Server) : Extends l (l ++ l') := by
  intro i server h
  have hlt := (List.getElem?_eq_some_iff.mp h).1
  exact ⟨server, by rw [List.getElem?_append_left hlt, h], List.prefix_refl _⟩

theorem System.Step.extends {s t : System} {a : Label} (h : s.Step config key file uninit a t) :
    Extends s.children t.children := by
  cases h with
  | server hget hexec | ack _ hget _ hexec =>
    exact extends_set hget (Server.step_of_exec hexec).log_grows
  | deliver | requestTimeout | recvError => exact Extends.refl _
  | fork => exact extends_append _ _

/-- A datagram keeps its place in the log of its child. -/
theorem Extends.windowOf {s t : System} (h : Extends s.children t.children) {child i w : ℕ}
    (hw : s.windowOf child i = some w) : t.windowOf child i = some w := by
  obtain ⟨d, hd, rfl⟩ := Option.map_eq_some_iff.mp hw
  obtain ⟨server, hget, hd⟩ := Option.bind_eq_some_iff.mp hd
  obtain ⟨server', hget', rest, hrest⟩ := h child server hget
  have hlt := (List.getElem?_eq_some_iff.mp hd).1
  have hd' : server'.sent[i]? = some d := by
    rw [← hrest, List.getElem?_append_left hlt, hd]
  simp [System.windowOf, hget', hd']

theorem windowOf_eq {s : System} {child i : ℕ} {server : Server} {d : Datagram}
    (hget : s.children[child]? = some server) (hd : server.sent[i]? = some d) :
    s.windowOf child i = some d.window := by
  simp [System.windowOf, hget, hd]

/-! ## The invariant -/

/-- The ACK answers a datagram of a window that the client, in window `k`, has completed, with the
number its sender waits for. -/
def AckInv (config : Config) (file : List UInt8) (children : List Server) (k : ℕ) (ack : Ack) :
    Prop :=
  ∃ server, children[ack.child]? = some server ∧ ∃ d ∈ server.sent,
    d.socket = ack.socket ∧ d.window < k ∧ ack.num = lastSequenceNumber config file d.window

/-- The invariant of the system, for any number of children. -/
structure SystemInv (config : Config) (key : Option UInt32) (file : List UInt8) (s : System) :
    Prop where
  children : ∀ server ∈ s.children,
    ((serverSystem config key file).restrict Server.Clean).Reachable server
  window_le : ∀ server ∈ s.children, server.window ≤ s.client.windows
  client : ClientInv config file s.client
  acks : ∀ ack ∈ s.acks, AckInv config file s.children s.client.windows ack

/-- A datagram is delivered at its own window, or at a window of the other parity. -/
def System.NonAliasing (s : System) : Label → Prop
  | .deliver child i _ => ∀ w ∈ s.windowOf child i,
      w = s.client.windows ∨ w % 2 ≠ s.client.windows % 2
  | _ => True

theorem AckInv.mono {children children' : List Server} {k k' : ℕ} {ack : Ack}
    (h : AckInv config file children k ack) (hext : Extends children children') (hk : k ≤ k') :
    AckInv config file children' k' ack := by
  obtain ⟨server, hget, d, hd, hsocket, hlt, hnum⟩ := h
  obtain ⟨server', hget', hprefix⟩ := hext _ _ hget
  exact ⟨server', hget', d, hprefix.subset hd, hsocket, by omega, hnum⟩

variable {s t : System} {a : Label}

theorem clientInv_initial : ClientInv config file (Client.initial config uninit) where
  windows_le := Nat.zero_le _
  file_eq _ := by simp [Client.initial, Client.start, Client.enter]
  receiving _ := receiving_enter (Nat.zero_le _) rfl
  done h := by cases h
  timer _ := rfl

/-- The client starts again when it has received nothing. -/
theorem ClientInv.start {c : Client} (h : ClientInv config file c)
    (htimer : c.requestTimer = true) : ClientInv config file (c.start config uninit) := by
  have hzero := h.timer htimer
  refine ⟨h.windows_le, h.file_eq, fun _ => receiving_enter ?_ ?_, h.done, fun _ => hzero⟩
  · show c.windows ≤ lastWindow config file
    omega
  · show 0 = sequenceBase config c.windows
    rw [hzero]
    rfl

theorem systemInv_initial (n : ℕ) : SystemInv config key file
    (System.initial config uninit (List.replicate n (Server.initial file))) where
  children server hmem := by
    rw [List.eq_of_mem_replicate hmem]
    exact .init rfl
  window_le server hmem := by
    rw [List.eq_of_mem_replicate hmem]
    exact Nat.zero_le _
  client := clientInv_initial
  acks := by simp [System.initial]

/-- A child makes a step that does not take it past the client. -/
theorem SystemInv.setChild (h : SystemInv config key file s) {i : ℕ} {server server' : Server}
    (hget : s.children[i]? = some server)
    (hreach : ((serverSystem config key file).restrict Server.Clean).Reachable server')
    (hwindow : server'.window ≤ s.client.windows) (hsent : server.sent <+: server'.sent)
    (acked : List ℕ) :
    SystemInv config key file { s with children := s.children.set i server', acked := acked } where
  children other hmem := by
    rcases List.mem_or_eq_of_mem_set hmem with hold | rfl
    · exact h.children other hold
    · exact hreach
  window_le other hmem := by
    rcases List.mem_or_eq_of_mem_set hmem with hold | rfl
    · exact h.window_le other hold
    · exact hwindow
  client := h.client
  acks ack hmem := (h.acks ack hmem).mono (extends_set hget hsent) le_rfl

/-- An ACK reaches the attempt it answers: the client has completed its window. -/
theorem SystemInv.ack_lt (h : SystemInv config key file s) {ack : Ack} (hmem : ack ∈ s.acks)
    {server : Server} (hget : s.children[ack.child]? = some server)
    (hsocket : server.socket = ack.socket) {site : Site} {expected : UInt8}
    (hctl : server.ctl = .recvAck site expected) : server.window < s.client.windows := by
  obtain ⟨server', hget', d, hd, hd_socket, hlt, -⟩ := h.acks ack hmem
  obtain rfl := Option.some.inj (hget.symm.trans hget')
  have hreach := h.children server (List.mem_of_getElem? hget)
  have hat := (reachable_serverInv hreach.of_restrict).atCall
  rw [hctl] at hat
  rw [← hat.2 d hd (by rw [hd_socket, hsocket])]
  exact hlt

/-- A delivery meets the assumptions of the client on the datagrams it receives. -/
theorem SystemInv.deliverable (h : SystemInv config key file s) {child i : ℕ} {o : Outcomes}
    {server : Server} {d : Datagram} (hget : s.children[child]? = some server)
    (hd : server.sent[i]? = some d) (halias : s.NonAliasing (.deliver child i o)) :
    OnWire config key file d ∧ (d.window = s.client.windows ∨
      d.window < s.client.windows ∧ d.window % 2 ≠ s.client.windows % 2) := by
  have hmem := List.mem_of_getElem? hget
  have hreach := h.children server hmem
  have hw := halias d.window (windowOf_eq hget hd)
  have hd := List.mem_of_getElem? hd
  have hsent := ((reachable_serverInv hreach.of_restrict).sent d hd).window_le
  have hle := h.window_le server hmem
  refine ⟨onWire_of_reachable hreach hd, ?_⟩
  rcases hw with hw | hparity
  · exact .inl hw
  · refine .inr ⟨?_, hparity⟩
    have hne : d.window ≠ s.client.windows := fun heq => hparity (heq ▸ rfl)
    omega

theorem SystemInv.deliver (h : SystemInv config key file s) {child i : ℕ} {o : Outcomes}
    {server : Server} {d : Datagram} (hget : s.children[child]? = some server)
    (hd : server.sent[i]? = some d) (hret : s.client.ret = none)
    (hclean : s.Clean (.deliver child i o)) (halias : s.NonAliasing (.deliver child i o))
    (uninit : ℕ → ℕ → ℕ → UInt8) :
    ReceiveSpec config file d.window s.client.windows
      (s.client.receive config key uninit d.bytes o) := by
  obtain ⟨hwire, hw⟩ := h.deliverable hget hd halias
  exact h.client.receive hret hwire hw hclean

theorem SystemInv.receive_marks (h : SystemInv config key file s) {child i : ℕ} {o : Outcomes}
    {server : Server} {d : Datagram} (hget : s.children[child]? = some server)
    (hd : server.sent[i]? = some d) (hret : s.client.ret = none)
    (hclean : s.Clean (.deliver child i o)) (halias : s.NonAliasing (.deliver child i o))
    (uninit : ℕ → ℕ → ℕ → UInt8) :
    MarksSpec config file s.client d (s.client.receive config key uninit d.bytes o).1 := by
  obtain ⟨hwire, hw⟩ := h.deliverable hget hd halias
  exact h.client.receive_marks hret hwire hw hclean

/-- **One step**: the invariant is kept, the windows only grow, and the client moves on only with a
datagram of its window. -/
theorem SystemInv.step (h : SystemInv config key file s)
    (hstep : s.Step config key file uninit a t) (hclean : s.Clean a) (halias : s.NonAliasing a) :
    SystemInv config key file t := by
  cases hstep with
  | @server child e server server' hget hexec hne =>
    have hmem := List.mem_of_getElem? hget
    have hstep := Server.step_of_exec hexec
    have hc := hclean server hget
    have hwindow := h.window_le server hmem
    refine h.setChild hget ((h.children server hmem).step ⟨hexec, hc⟩) ?_ hstep.log_grows s.acked
    rw [hstep.window_eq hc hne]
    exact hwindow
  | @ack i ack server server' hack hget hsocket hexec =>
    have hmem := List.mem_of_getElem? hget
    have hstep := Server.step_of_exec hexec
    obtain ⟨⟨site, expected, hctl⟩, hwindow⟩ := hstep.ack_window
    have hlt := h.ack_lt (List.mem_of_getElem? hack) hget hsocket hctl
    have hc : server.Clean (.ack ack.num) := by simp [Server.Clean]
    exact h.setChild hget ((h.children server hmem).step ⟨hexec, hc⟩) (by omega)
      hstep.log_grows _
  | @deliver child i o server d hget hd hret =>
    have hspec := h.deliver hget hd hret hclean halias uninit
    have hgrow : s.client.windows ≤
        (s.client.receive config key uninit d.bytes o).1.windows := by
      rcases hspec.windows with heq | ⟨heq, -⟩ <;> omega
    refine ⟨h.children, fun server hmem => (h.window_le server hmem).trans hgrow, hspec.inv, ?_⟩
    intro ack hmem
    rcases List.mem_append.mp hmem with hold | hnew
    · exact (h.acks ack hold).mono (Extends.refl _) hgrow
    · obtain ⟨num, hnum, rfl⟩ := List.mem_map.mp hnew
      obtain ⟨hnum, hlt⟩ := hspec.acks num hnum
      exact ⟨server, hget, d, List.mem_of_getElem? hd, rfl, hlt, hnum⟩
  | requestTimeout hret htimer =>
    exact ⟨h.children, h.window_le, h.client.start htimer, h.acks⟩
  | recvError =>
    exact ⟨h.children, h.window_le, h.client.fail, h.acks⟩
  | fork =>
    refine ⟨?_, ?_, h.client, fun ack hmem => (h.acks ack hmem).mono (extends_append _ _) le_rfl⟩
    · intro server hmem
      rcases List.mem_append.mp hmem with hold | hnew
      · exact h.children server hold
      · rw [List.mem_singleton.mp hnew]
        exact .init rfl
    · intro server hmem
      rcases List.mem_append.mp hmem with hold | hnew
      · exact h.window_le server hold
      · rw [List.mem_singleton.mp hnew]
        exact Nat.zero_le _

/-! ## One child -/

/-- The invariant of a single transfer: the client has completed a window only when a datagram of
that window was delivered. -/
structure SingleInv (config : Config) (key : Option UInt32) (file : List UInt8) (s : System) :
    Prop where
  inv : SystemInv config key file s
  single : s.children.length = 1
  progress : 0 < s.client.windows → ∃ entry ∈ s.delivered,
    s.windowOf entry.1 entry.2 = some (s.client.windows - 1)

/-- A datagram was sent at a window that its child has reached. -/
theorem SystemInv.windowOf_le (h : SystemInv config key file s) {child i w : ℕ}
    (hw : s.windowOf child i = some w) :
    ∃ server ∈ s.children, w ≤ server.window := by
  obtain ⟨d, hd, rfl⟩ := Option.map_eq_some_iff.mp hw
  obtain ⟨server, hget, hd⟩ := Option.bind_eq_some_iff.mp hd
  have hmem := List.mem_of_getElem? hget
  have hinv := reachable_serverInv (h.children server hmem).of_restrict
  exact ⟨server, hmem, (hinv.sent d (List.mem_of_getElem? hd)).window_le⟩

/-- **The channel keeps the sequence numbers apart.** -/
theorem SingleInv.nonAliasing (h : SingleInv config key file s) (ha : s.InWindowOrder a) :
    s.NonAliasing a := by
  cases a with
  | deliver child i o =>
    intro w hw
    obtain ⟨server, hmem, hle⟩ := h.inv.windowOf_le hw
    have hserver := h.inv.window_le server hmem
    rcases Nat.eq_zero_or_pos s.client.windows with hzero | hpos
    · exact .inl (by omega)
    · obtain ⟨entry, hentry, hw'⟩ := h.progress hpos
      have := ha entry hentry _ hw' w hw
      omega
  | server child e | ack i | requestTimeout | recvError | fork => trivial

/-- The client and the child are at most one window apart. -/
theorem SingleInv.agreement (h : SingleInv config key file s) :
    ∃ server, s.children = [server] ∧
      (server.window = s.client.windows ∨ server.window + 1 = s.client.windows) := by
  obtain ⟨server, hserver⟩ := List.length_eq_one_iff.mp h.single
  have hle := h.inv.window_le server (by simp [hserver])
  refine ⟨server, hserver, ?_⟩
  rcases Nat.eq_zero_or_pos s.client.windows with hzero | hpos
  · omega
  · obtain ⟨entry, -, hw⟩ := h.progress hpos
    obtain ⟨server', hmem, hge⟩ := h.inv.windowOf_le hw
    obtain rfl : server' = server := by simpa [hserver] using hmem
    omega

theorem SingleInv.step (h : SingleInv config key file s)
    (hstep : s.Step config key file uninit a t) (ha : s.SingleTransfer a) :
    SingleInv config key file t := by
  obtain ⟨hclean, horder, hfork⟩ := ha
  have halias := h.nonAliasing horder
  have hext := hstep.extends
  refine ⟨h.inv.step hstep hclean halias, ?_, ?_⟩
  · cases hstep with
    | server | ack => simpa using h.single
    | deliver | requestTimeout | recvError => exact h.single
    | fork => exact absurd hfork id
  · intro hpos
    cases hstep with
    | @deliver child i o server d hget hd hret =>
      have hw := windowOf_eq hget hd
      have hspec := h.inv.deliver hget hd hret hclean halias uninit
      rcases hspec.windows with heq | ⟨heq, hcurrent⟩
      · dsimp only at hpos ⊢
        rw [heq] at hpos ⊢
        obtain ⟨entry, hentry, hold⟩ := h.progress hpos
        exact ⟨entry, List.mem_append_left _ hentry, hext.windowOf hold⟩
      · refine ⟨(child, i), by simp, hext.windowOf ?_⟩
        dsimp only
        rw [heq, hw, hcurrent, Nat.add_sub_cancel]
    | server | ack | requestTimeout | recvError | fork =>
      obtain ⟨entry, hentry, hold⟩ := h.progress hpos
      exact ⟨entry, hentry, hext.windowOf hold⟩

theorem reachable_singleInv
    (h : (roadrunner config key file uninit 1 System.SingleTransfer).Reachable s) :
    SingleInv config key file s := by
  apply h.invariant
  · rintro _ rfl
    exact ⟨systemInv_initial 1, rfl, fun hpos => absurd hpos (Nat.lt_irrefl 0)⟩
  · intro s a t _ hinv hstep
    exact hinv.step (System.step_of_exec hstep.1) hstep.2

/-- **Window agreement.** In every run of one child and one client over a channel that loses,
duplicates and delays but keeps the order of windows, the two are at most one window apart, and
until the final window is appended the client's file is what precedes its current window. -/
theorem window_agreement (config : Config) (key : Option UInt32) (file : List UInt8)
    (uninit : ℕ → ℕ → ℕ → UInt8) (s : System)
    (h : (roadrunner config key file uninit 1 System.SingleTransfer).Reachable s) :
    (∃ server, s.children = [server] ∧
      (server.window = s.client.windows ∨ server.window + 1 = s.client.windows)) ∧
    (s.client.windows ≤ lastWindow config file →
      s.client.file = file.take (s.client.windows * (config.windowsize * config.blocksize))) := by
  have hinv := reachable_singleInv h
  refine ⟨hinv.agreement, fun hlast => ?_⟩
  rw [hinv.inv.client.file_eq hlast, Config.windowBytes, Nat.mul_comm config.windowsize]

/-- The first window is sent twice and both datagrams arrive; the second ACK reaches the child. -/
theorem window_agreement_retransmitted :
    ∃ s, (roadrunner .one none [1, 2] (fun _ _ _ => 0) 1 System.SingleTransfer).Reachable s ∧
      s.client.windows = 1 ∧
      (∃ server, s.children = [server] ∧
        (server.window = s.client.windows ∨ server.window + 1 = s.client.windows)) ∧
      (s.client.windows ≤ lastWindow .one [1, 2] →
        s.client.file = [1, 2].take (s.client.windows * (1 * 1))) := by
  obtain ⟨s, hrun, hwindows⟩ : ∃ s, LTS.run (System.exec .one none [1, 2] fun _ _ _ => 0)
      System.SingleTransfer (System.initial .one (fun _ _ _ => 0) [Server.initial [1, 2]])
      [.server 0 .ok, .server 0 .ok, .server 0 .ok, .server 0 .ok, .server 0 .ok,
        .server 0 .timeout, .server 0 .ok, .server 0 .ok, .deliver 0 0 .ok, .deliver 0 1 .ok,
        .ack 1] = some s ∧ s.client.windows = 1 := ⟨_, rfl, rfl⟩
  have hs := LTS.reachable_of_run (LTS.Reachable.init rfl) hrun
  exact ⟨s, hs, hwindows, window_agreement .one none [1, 2] _ s hs⟩

end CS536Labs.Lab4
