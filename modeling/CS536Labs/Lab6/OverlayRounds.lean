import CS536Labs.Lab6.Overlay

/-!
# The routers of the overlay are the router of the source

A hop of the overlay is a round of the loop of `run`. `Idle` relates the router to its part of the
overlay while it waits in `select`; the arrival of a datagram and five steps of the process handle
it the way `Overlay.receive` does, and lead back to `select`
(`Idle.forward_round`, `Idle.return_round`). `simulated_of_reachable` puts the routers of all hosts
together: every state of the overlay is one of the running routers.
-/

namespace CS536Labs.Lab6

open Udp

/-- The sockets of the router have its ports, and nothing is queued. -/
structure Quiet (k : Kernel) (r : Router) (h : Host) (c f t : ℕ) (controlPort : UInt16) :
    Prop where
  layout : Layout k r c f t
  control : k.desc c = some (.socket controlPort [])
  forward : k.desc f = some (.socket h.forwardPort [])
  returned : k.desc t = some (.socket h.returnPort [])
  control_ne : controlPort ≠ h.forwardPort ∧ controlPort ≠ h.returnPort
  ne : h.forwardPort ≠ h.returnPort

/-- The router waits in `select`, with nothing pending on its sockets. -/
structure Idle (s : System) (h : Host) (returnPath : ForwardingPath) (c f t : ℕ)
    (controlPort : UInt16) : Prop where
  ctl : s.ctl = .select
  quiet : Quiet s.kernel s.router h c f t controlPort
  forwardPath : s.router.forwardPath = h.forwardPath
  returnPath : s.router.returnPath = returnPath

/-- An arrival at the port, and a round of the loop. -/
def arriveAndHandle (port : UInt16) (d : Datagram) : List Label := .arrive port d :: round

/-- What `sendto` adds to the datagrams that were sent. -/
def packets (h : Host) (destination : Option Address) (data : List UInt8) : List Packet :=
  ((sendable destination).map fun destination => ⟨h.returnPort, destination, data⟩).toList

variable {resolve : List UInt8 → Option Ipv4} {s : System} {h : Host} {returnPath : ForwardingPath}
  {c f t : ℕ} {controlPort : UInt16}

theorem System.sendto_eq_packets {destination : Option Address} {data : List UInt8}
    (hfd : s.router.returnFd = some t) (hport : getPortNumber s.kernel (some t) = h.returnPort) :
    s.sendto destination data true =
      { s with sent := s.sent ++ packets h destination data } := by
  rw [packets, sendto]
  cases sendable destination with
  | none =>
    rw [Option.map_none, Option.toList_none, List.append_nil]
  | some destination =>
    simp only [hfd, hport, if_true]
    rfl

/-! ## A socket with one datagram -/

theorem desc_deliver_of_ne {k : Kernel} {fd : ℕ} {port port' : UInt16}
    (h : k.desc fd = some (.socket port' [])) (hne : port' ≠ port) (d : Datagram) :
    (k.deliver port d).desc fd = some (.socket port' []) := by
  rw [Kernel.desc_deliver, h, Option.map_some, Descriptor.enqueue, if_neg hne]

theorem desc_deliver_self {k : Kernel} {fd : ℕ} {port : UInt16}
    (h : k.desc fd = some (.socket port [])) (d : Datagram) :
    (k.deliver port d).desc fd = some (.socket port [d]) := by
  rw [Kernel.desc_deliver, h, Option.map_some, Descriptor.enqueue, if_pos rfl]
  rfl

theorem recvfrom_singleton {k : Kernel} {fd : ℕ} {port : UInt16} {d : Datagram}
    (h : k.desc fd = some (.socket port [d])) (size : ℕ) :
    k.recvfrom fd size =
      some (⟨d.source, d.data.take size⟩, k.put fd (some (.socket port []))) := by
  rw [Kernel.recvfrom, h]

theorem queueOf_eq {k : Kernel} {fd : ℕ} {port : UInt16} {queue : List Datagram}
    (h : k.desc fd = some (.socket port queue)) : k.queueOf fd = queue := by
  rw [Kernel.queueOf, h]

section Quiet

variable {k : Kernel} {r : Router}

theorem Quiet.getPortNumber (hk : Quiet k r h c f t controlPort) :
    Lab6.getPortNumber k (some t) = h.returnPort := by
  simp [Lab6.getPortNumber, Kernel.portOf, hk.returned]

/-- The sockets behind an arrival at the forward port. -/
theorem Quiet.deliver_forward (hk : Quiet k r h c f t controlPort) (d : Datagram) :
    let k' := k.deliver h.forwardPort d
    Layout k' r c f t ∧ k'.queueOf c = [] ∧ k'.queueOf f ≠ [] ∧ k'.queueOf t = [] ∧
      ∃ k'', k'.recvfrom f bufferSize = some (⟨d.source, d.data.take bufferSize⟩, k'') ∧
        Quiet k'' r h c f t controlPort := by
  have hlayout : Layout (k.deliver h.forwardPort d) r c f t :=
    hk.layout.congr (k.portOf_deliver h.forwardPort d) fun i => k.desc_deliver_ne_none
  have hc := desc_deliver_of_ne hk.control hk.control_ne.1 d
  have hf := desc_deliver_self hk.forward d
  have ht := desc_deliver_of_ne hk.returned hk.ne.symm d
  have hrecv := recvfrom_singleton hf bufferSize
  have hcf : c ≠ f := Nat.ne_of_lt hlayout.lt
  have htf : t ≠ f := Nat.ne_of_gt hlayout.lt'
  refine ⟨hlayout, queueOf_eq hc, ?_, queueOf_eq ht, _, hrecv, ?_⟩
  · rw [queueOf_eq hf]
    exact List.cons_ne_nil _ _
  · exact
      { layout := hlayout.recvfrom hrecv
        control := (Kernel.desc_put_of_ne _ hcf _).trans hc
        forward := Kernel.desc_put_self _ _ _
        returned := (Kernel.desc_put_of_ne _ htf _).trans ht
        control_ne := hk.control_ne
        ne := hk.ne }

/-- The sockets behind an arrival at the return port. -/
theorem Quiet.deliver_return (hk : Quiet k r h c f t controlPort) (d : Datagram) :
    let k' := k.deliver h.returnPort d
    Layout k' r c f t ∧ k'.queueOf c = [] ∧ k'.queueOf f = [] ∧ k'.queueOf t ≠ [] ∧
      ∃ k'', k'.recvfrom t bufferSize = some (⟨d.source, d.data.take bufferSize⟩, k'') ∧
        Quiet k'' r h c f t controlPort := by
  have hlayout : Layout (k.deliver h.returnPort d) r c f t :=
    hk.layout.congr (k.portOf_deliver h.returnPort d) fun i => k.desc_deliver_ne_none
  have hc := desc_deliver_of_ne hk.control hk.control_ne.2 d
  have hf := desc_deliver_of_ne hk.forward hk.ne d
  have ht := desc_deliver_self hk.returned d
  have hrecv := recvfrom_singleton ht bufferSize
  have hct : c ≠ t := Nat.ne_of_lt (Nat.lt_trans hlayout.lt hlayout.lt')
  have hft : f ≠ t := Nat.ne_of_lt hlayout.lt'
  refine ⟨hlayout, queueOf_eq hc, queueOf_eq hf, ?_, _, hrecv, ?_⟩
  · rw [queueOf_eq ht]
    exact List.cons_ne_nil _ _
  · exact
      { layout := hlayout.recvfrom hrecv
        control := (Kernel.desc_put_of_ne _ hct _).trans hc
        forward := (Kernel.desc_put_of_ne _ hft _).trans hf
        returned := Kernel.desc_put_self _ _ _
        control_ne := hk.control_ne
        ne := hk.ne }

/-- The descriptors do not depend on the tables. -/
theorem Quiet.learn (hk : Quiet k r h c f t controlPort) (returnPath : ForwardingPath) :
    Quiet k { r with returnPath := returnPath } h c f t controlPort where
  layout :=
    { controlFd := hk.layout.controlFd
      forwardFd := hk.layout.forwardFd
      returnFd := hk.layout.returnFd
      lt := hk.layout.lt
      lt' := hk.layout.lt'
      used := hk.layout.used
      control := hk.layout.control
      forward := hk.layout.forward
      returned := hk.layout.returned }
  control := hk.control
  forward := hk.forward
  returned := hk.returned
  control_ne := hk.control_ne
  ne := hk.ne

end Quiet

/-! ## A round of the loop -/

section Round

variable {k k' : Kernel} {r : Router} {d : Datagram} {sent : List Packet} {history : List Handled}

/-- A round in which only the forward socket is readable. -/
theorem run_round_forward (hlayout : Layout k r c f t) (hc : k.queueOf c = [])
    (hf : k.queueOf f ≠ []) (ht : k.queueOf t = [])
    (hrecv : k.recvfrom f bufferSize = some (d, k')) (hquiet : Quiet k' r h c f t controlPort) :
    LTS.run (System.exec resolve) (fun _ _ => True) ⟨k, r, .select, sent, history⟩ round =
      some ⟨k', { r with returnPath := learnReturnPath d.source r.returnPath }, .select,
        sent ++ packets h (sendAddress resolve r.forwardPath) d.data,
        history ++ [.forward d.source]⟩ := by
  have hlt := hlayout.lt
  have hlt' := hlayout.lt'
  have hreadable : readable k [c, f, t] = [f] := by
    simp [readable, hc, hf, ht]
  have hselect : System.exec resolve ⟨k, r, .select, sent, history⟩ (.process (0, 0) true) =
      some ⟨k, r, .testControl [f], sent, history⟩ := by
    simp [System.exec, System.process, hlayout.controlFd, hlayout.forwardFd, hlayout.returnFd,
      hreadable]
  have hcontrol : System.exec resolve ⟨k, r, .testControl [f], sent, history⟩
      (.process (0, 0) true) = some ⟨k, r, .testForward [f], sent, history⟩ := by
    simp [System.exec, System.process, hlayout.controlFd, Nat.ne_of_lt hlt]
  have hforward : System.exec resolve ⟨k, r, .testForward [f], sent, history⟩
      (.process (0, 0) true) = some ⟨k, r, .recvForward [f], sent, history⟩ := by
    simp [System.exec, System.process, hlayout.forwardFd]
  have hhandle : System.exec resolve ⟨k, r, .recvForward [f], sent, history⟩
      (.process (0, 0) true) =
      some ⟨k', { r with returnPath := learnReturnPath d.source r.returnPath }, .testReturn [f],
        sent ++ packets h (sendAddress resolve r.forwardPath) d.data,
        history ++ [.forward d.source]⟩ := by
    simp only [System.exec, System.process, hlayout.forwardFd, hrecv, Option.bind_some,
      Option.map_some, System.forwardData]
    rw [System.sendto_eq_packets hlayout.returnFd hquiet.getPortNumber]
  rw [round, List.replicate, LTS.run_cons trivial hselect, List.replicate,
    LTS.run_cons trivial hcontrol, List.replicate, LTS.run_cons trivial hforward, List.replicate,
    LTS.run_cons trivial hhandle, List.replicate]
  -- The return socket is not readable.
  apply LTS.run_cons trivial
  simp [System.exec, System.process, hlayout.returnFd, Nat.ne_of_gt hlt']

/-- A round in which only the return socket is readable. -/
theorem run_round_return (hlayout : Layout k r c f t) (hc : k.queueOf c = [])
    (hf : k.queueOf f = []) (ht : k.queueOf t ≠ [])
    (hrecv : k.recvfrom t bufferSize = some (d, k')) (hquiet : Quiet k' r h c f t controlPort) :
    LTS.run (System.exec resolve) (fun _ _ => True) ⟨k, r, .select, sent, history⟩ round =
      some ⟨k', r, .select, sent ++ packets h (sendAddress resolve r.returnPath) d.data,
        history ++ [.returned d.source]⟩ := by
  have hlt := hlayout.lt
  have hlt' := hlayout.lt'
  have hreadable : readable k [c, f, t] = [t] := by
    simp [readable, hc, hf, ht]
  have hselect : System.exec resolve ⟨k, r, .select, sent, history⟩ (.process (0, 0) true) =
      some ⟨k, r, .testControl [t], sent, history⟩ := by
    simp [System.exec, System.process, hlayout.controlFd, hlayout.forwardFd, hlayout.returnFd,
      hreadable]
  have hcontrol : System.exec resolve ⟨k, r, .testControl [t], sent, history⟩
      (.process (0, 0) true) = some ⟨k, r, .testForward [t], sent, history⟩ := by
    simp [System.exec, System.process, hlayout.controlFd, Nat.ne_of_lt (Nat.lt_trans hlt hlt')]
  have hforward : System.exec resolve ⟨k, r, .testForward [t], sent, history⟩
      (.process (0, 0) true) = some ⟨k, r, .testReturn [t], sent, history⟩ := by
    simp [System.exec, System.process, hlayout.forwardFd, Nat.ne_of_lt hlt']
  have hreturn : System.exec resolve ⟨k, r, .testReturn [t], sent, history⟩
      (.process (0, 0) true) = some ⟨k, r, .recvReturn, sent, history⟩ := by
    simp [System.exec, System.process, hlayout.returnFd]
  rw [round, List.replicate, LTS.run_cons trivial hselect, List.replicate,
    LTS.run_cons trivial hcontrol, List.replicate, LTS.run_cons trivial hforward, List.replicate,
    LTS.run_cons trivial hreturn, List.replicate]
  apply LTS.run_cons trivial
  simp only [System.exec, System.process, hlayout.returnFd, hrecv, Option.bind_some,
    Option.map_some, System.returnData]
  rw [System.sendto_eq_packets hlayout.returnFd hquiet.getPortNumber]

end Round

/-- **A datagram on the forward path.** The router learns the return address and sends the payload
on. -/
theorem Idle.forward_round (resolve : List UInt8 → Option Ipv4)
    (hs : Idle s h returnPath c f t controlPort) (d : Datagram) :
    ∃ s', LTS.run (System.exec resolve) (fun _ _ => True) s (arriveAndHandle h.forwardPort d) =
        some s' ∧
      s'.sent = s.sent ++ packets h (sendAddress resolve h.forwardPath) (d.data.take bufferSize) ∧
      Idle s' h (learnReturnPath d.source returnPath) c f t controlPort := by
  obtain ⟨k, r, ctl, sent, history⟩ := s
  obtain rfl : ctl = .select := hs.ctl
  obtain rfl : r.returnPath = returnPath := hs.returnPath
  have hpath : r.forwardPath = h.forwardPath := hs.forwardPath
  obtain ⟨hlayout, hc, hf, ht, k', hrecv, hquiet⟩ := hs.quiet.deliver_forward d
  rw [arriveAndHandle, LTS.run_cons trivial rfl, ← hpath]
  exact ⟨_, run_round_forward hlayout hc hf ht hrecv hquiet, rfl, rfl, hquiet.learn _, hpath, rfl⟩

/-- **A datagram on the return path.** The router sends the payload on. -/
theorem Idle.return_round (resolve : List UInt8 → Option Ipv4)
    (hs : Idle s h returnPath c f t controlPort) (d : Datagram) :
    ∃ s', LTS.run (System.exec resolve) (fun _ _ => True) s (arriveAndHandle h.returnPort d) =
        some s' ∧
      s'.sent = s.sent ++ packets h (sendAddress resolve returnPath) (d.data.take bufferSize) ∧
      Idle s' h returnPath c f t controlPort := by
  obtain ⟨k, r, ctl, sent, history⟩ := s
  obtain rfl : ctl = .select := hs.ctl
  obtain rfl : r.returnPath = returnPath := hs.returnPath
  obtain ⟨hlayout, hc, hf, ht, k', hrecv, hquiet⟩ := hs.quiet.deliver_return d
  rw [arriveAndHandle, LTS.run_cons trivial rfl]
  exact ⟨_, run_round_return hlayout hc hf ht hrecv hquiet, rfl, rfl, hquiet, hs.forwardPath, rfl⟩

/-! ## The network -/

namespace Overlay

/-- The packets that a host has sent, in flight. -/
def fly (net : Overlay) (i : ℕ) (sent : List Packet) : List Flying :=
  sent.map fun p => ⟨⟨(net.host i).ip, p.sourcePort⟩, p.destination, p.data⟩

/-- The routers of all hosts wait with the return tables of the state, and have sent what is in
flight. -/
structure Simulates (net : Overlay) (s : State) (systems : ℕ → System) : Prop where
  idle : ∀ i < net.n, ∃ c f t controlPort,
    Idle (systems i) (net.host i) (s.returnPath i) c f t controlPort
  flying : ∀ p ∈ s.flying, p.source = net.client ∨ p.source = net.server ∨
    ∃ i < net.n, p ∈ net.fly i (systems i).sent

variable {net : Overlay} {reply payload : List UInt8} {s s' : State} {systems : ℕ → System}

theorem flying_send (i : ℕ) (destination : Option Address) (data : List UInt8) :
    (net.send s i destination data).flying =
      s.flying ++ net.fly i (packets (net.host i) destination data) := by
  rw [send, packets]
  cases sendable destination with
  | none => exact (List.append_nil _).symm
  | some destination => rfl

theorem returnPath_send (i : ℕ) (destination : Option Address) (data : List UInt8) :
    (net.send s i destination data).returnPath = s.returnPath := by
  rw [send]
  cases sendable destination <;> rfl

theorem party_of_mem_sockets {address : Address} {party : Party}
    (h : (address, party) ∈ net.sockets) :
    party = .client ∨ party = .server ∨
      ∃ i < net.n, (address = (net.host i).forwardAddress ∧ party = .forward i) ∨
        (address = (net.host i).returnAddress ∧ party = .returned i) := by
  rcases List.mem_cons.mp h with h | h
  · exact .inl (congrArg Prod.snd h)
  rcases List.mem_cons.mp h with h | h
  · exact .inr (.inl (congrArg Prod.snd h))
  obtain ⟨i, hi, h⟩ := List.mem_flatMap.mp h
  refine .inr (.inr ⟨i, List.mem_range.mp hi, ?_⟩)
  simpa using h

theorem mem_of_lookup {α β : Type*} [DecidableEq α] {l : List (α × β)} {a : α} {b : β}
    (h : l.lookup a = some b) : (a, b) ∈ l := by
  obtain ⟨before, after, rfl, -⟩ := List.lookup_eq_some_iff.mp h
  exact List.mem_append_right _ List.mem_cons_self

/-- The router of one host has handled a datagram. -/
theorem Simulates.update {i : ℕ} {t : System} {new : List Packet} (h : net.Simulates s systems)
    (hsent : t.sent = (systems i).sent ++ new) (hi : i < net.n)
    (hpath : ∀ j, j ≠ i → s'.returnPath j = s.returnPath j)
    (hflying : s'.flying = s.flying ++ net.fly i new)
    (hidle : ∃ c f t' controlPort, Idle t (net.host i) (s'.returnPath i) c f t' controlPort) :
    net.Simulates s' (Function.update systems i t) where
  idle j hj := by
    rcases eq_or_ne j i with rfl | hne
    · rw [Function.update_self]
      exact hidle
    · rw [Function.update_of_ne hne, hpath j hne]
      exact h.idle j hj
  flying p hp := by
    rw [hflying] at hp
    rcases List.mem_append.mp hp with hp | hp
    · refine (h.flying p hp).imp_right (Or.imp_right ?_)
      rintro ⟨j, hj, hmem⟩
      refine ⟨j, hj, ?_⟩
      rcases eq_or_ne j i with rfl | hne
      · rw [Function.update_self, hsent, fly, List.map_append]
        exact List.mem_append_left _ hmem
      · rw [Function.update_of_ne hne]
        exact hmem
    · refine .inr (.inr ⟨i, hi, ?_⟩)
      rw [Function.update_self, hsent, fly, List.map_append]
      exact List.mem_append_right _ hp

/-- The other routers stay as they are while one of them runs. -/
theorem run_update {resolve : List UInt8 → Option Ipv4} {labels : List Label} {i : ℕ} {t : System}
    (hrun : LTS.run (System.exec resolve) (fun _ _ => True) (systems i) labels = some t) (j : ℕ) :
    Function.update systems i t j = systems j ∨
      LTS.run (System.exec resolve) (fun _ _ => True) (systems j) labels =
        some (Function.update systems i t j) := by
  rcases eq_or_ne j i with rfl | hne
  · rw [Function.update_self]
    exact .inr hrun
  · rw [Function.update_of_ne hne]
    exact .inl rfl

/-- **A hop is a round of a router.** -/
theorem Simulates.receive (resolve : List UInt8 → Option Ipv4) (reply : List UInt8)
    (h : net.Simulates s systems) {p : Flying} {party : Party}
    (hparty : (p.destination, party) ∈ net.sockets) :
    ∃ systems', net.Simulates (net.receive resolve reply s p party) systems' ∧
      ∀ i, systems' i = systems i ∨
        LTS.run (System.exec resolve) (fun _ _ => True) (systems i)
          (arriveAndHandle p.destination.port ⟨p.source, p.data⟩) = some (systems' i) := by
  rcases party_of_mem_sockets hparty with rfl | rfl |
    ⟨i, hi, ⟨haddress, rfl⟩ | ⟨haddress, rfl⟩⟩
  · exact ⟨systems, ⟨h.idle, h.flying⟩, fun i => .inl rfl⟩
  · refine ⟨systems, ⟨h.idle, ?_⟩, fun i => .inl rfl⟩
    intro q hq
    rcases List.mem_append.mp hq with hq | hq
    · exact h.flying q hq
    · exact .inr (.inl (congrArg Flying.source (List.mem_singleton.mp hq)))
  · obtain ⟨c, f, t, controlPort, hidle⟩ := h.idle i hi
    obtain ⟨t', hrun, hsent, hidle'⟩ :=
      hidle.forward_round resolve ⟨p.source, p.data⟩
    have hport : p.destination.port = (net.host i).forwardPort := by rw [haddress]; rfl
    rw [← hport] at hrun
    refine ⟨_, h.update hsent hi ?_ ?_ ⟨c, f, t, controlPort, ?_⟩, run_update hrun⟩
    · intro j hne
      rw [Overlay.receive, returnPath_send]
      exact Function.update_of_ne hne _ _
    · rw [Overlay.receive, flying_send]
    · rw [Overlay.receive, returnPath_send]
      simp only [Function.update_self]
      exact hidle'
  · obtain ⟨c, f, t, controlPort, hidle⟩ := h.idle i hi
    obtain ⟨t', hrun, hsent, hidle'⟩ :=
      hidle.return_round resolve ⟨p.source, p.data⟩
    have hport : p.destination.port = (net.host i).returnPort := by rw [haddress]; rfl
    rw [← hport] at hrun
    refine ⟨_, h.update hsent hi ?_ ?_ ⟨c, f, t, controlPort, ?_⟩, run_update hrun⟩
    · intro j _
      rw [Overlay.receive, returnPath_send]
    · rw [Overlay.receive, flying_send]
    · rw [Overlay.receive, returnPath_send]
      exact hidle'

/-- **The overlay is made of running routers.** When the routers of all hosts start idle, every
state of the overlay is one that they reach. -/
theorem simulated_of_reachable {systems₀ : ℕ → System}
    (h₀ : net.Simulates (net.initial payload) systems₀)
    (hs : (net.system resolve reply payload).Reachable s) :
    ∃ systems, net.Simulates s systems ∧
      ∀ i, ((zigzagrouter resolve (systems₀ i)).restrict fun _ _ => True).Reachable
        (systems i) := by
  refine hs.invariant (I := fun s => ∃ systems, net.Simulates s systems ∧
    ∀ i, ((zigzagrouter resolve (systems₀ i)).restrict fun _ _ => True).Reachable (systems i)) ?_ ?_
  · rintro s rfl
    exact ⟨systems₀, h₀, fun i => .init rfl⟩
  · rintro s j s' - ⟨systems, hsim, hreach⟩ hstep
    have hstep : net.exec resolve reply s j = some s' := hstep
    rw [exec] at hstep
    obtain ⟨p, -, hstep⟩ := Option.bind_eq_some_iff.mp hstep
    obtain ⟨party, hlookup, rfl⟩ := Option.map_eq_some_iff.mp hstep
    have herase : net.Simulates { s with flying := s.flying.eraseIdx j } systems :=
      ⟨hsim.idle, fun q hq => hsim.flying q (List.mem_of_mem_eraseIdx hq)⟩
    obtain ⟨systems', hsim', hrun⟩ :=
      herase.receive resolve reply (mem_of_lookup hlookup)
    refine ⟨systems', hsim', ?_⟩
    intro i
    rcases hrun i with heq | hrun
    · rw [heq]
      exact hreach i
    · exact LTS.reachable_of_run (hreach i) hrun

end Overlay

end CS536Labs.Lab6
