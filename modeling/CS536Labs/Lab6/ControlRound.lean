import CS536Labs.Lab6.OverlayRounds
import CS536Labs.Lab6.SatisfiableUpdate

/-!
# A control message is a round of the router

A router that waits in `select` with nothing pending handles a control message that can be carried
out in one round of the loop, and waits again, on the ports of the message and with its send
addresses (`Idle.control_round`). A router is in such a state behind `start` (`idle_of_start`).
-/

namespace CS536Labs.Lab6

open Udp

variable {resolve : List UInt8 → Option Ipv4} {s : System} {h : Host} {returnPath : ForwardingPath}
  {k : Kernel} {r : Router} {c f t : ℕ} {controlPort : UInt16} {buffer : List UInt8}
  {choices : UInt16 × UInt16}

/-! ## The sockets behind an update -/

theorem getPortNumber_of_desc {i : ℕ} {port : UInt16} {queue : List Datagram}
    (hi : k.desc i = some (.socket port queue)) : getPortNumber k (some i) = port := by
  rw [getPortNumber, Option.bind_some, Kernel.portOf, hi, Option.getD_some]

/-- The update of one port leaves nothing pending on the socket. -/
theorem updateReceivePort_desc {n : ℕ} (path : ForwardingPath) {new : ForwardingPath}
    {old port choice : UInt16} (hnew : cString new.receivePort = numeral port.toNat)
    (hne : port ≠ 0) (hused : ∀ i < n, k.desc i ≠ none)
    (hold : k.desc n = some (.socket old []))
    (hfree : getPortNumber k (some n) = port ∨ Free (k.close (some n)) (boundPort port choice)) :
    (updateReceivePort k (some n) path new choice).2.2.desc n = some (.socket port []) := by
  rcases updateReceivePort_cases k (some n) path choice hnew with
    ⟨hkeep, heq⟩ | ⟨hchange, result, hfailed | hbound, heq⟩
  · rw [getPortNumber_of_desc hold] at hkeep
    rw [heq, hold, hkeep]
  · exact absurd (hfree.resolve_left hchange) hfailed.not_free
  · have hlowest : (k.close (some n)).lowestFree = n := by
      apply Kernel.lowestFree_eq
      · rw [Kernel.desc_close, if_pos rfl]
      · intro i hi
        rw [Kernel.desc_close, if_neg (by simpa using Nat.ne_of_gt hi)]
        exact hused i hi
    rw [heq, hbound.desc, hlowest, if_pos rfl, boundPort_of_ne_zero hne]

theorem Quiet.onPorts (hk : Quiet k r h c f t controlPort) (hx : k.Exclusive) :
    r.OnPorts k h.forwardPort h.returnPort where
  isOpen := hk.layout.open
  exclusive := hx
  forward := by
    rw [hk.layout.forwardFd, Option.bind_some, Kernel.portOf, hk.forward]
  returned := by
    rw [hk.layout.returnFd, Option.bind_some, Kernel.portOf, hk.returned]

/-- The control port is not available. -/
theorem Quiet.control_ne_of_available (hk : Quiet k r h c f t controlPort) {port : UInt16}
    (hport : Available k h.forwardPort h.returnPort port) : controlPort ≠ port := by
  rintro rfl
  have hholds : k.holds controlPort = true :=
    (Kernel.holds_iff _ _).mpr (.inr ⟨c, [], hk.control⟩)
  rcases hport.held with hfree | hf | ht
  · rw [hholds] at hfree
    cases hfree
  · exact hk.control_ne.1 hf
  · exact hk.control_ne.2 ht

/-- The host behind `update_forwardings`. -/
def Host.configured (h : Host) (buffer : List UInt8) (r : Router)
    (hne : messagePort buffer 0 ≠ 0 ∧ messagePort buffer 8 ≠ 0) : Host :=
  ⟨h.ip, messagePort buffer 0, messagePort buffer 8, r.forwardPath, r.returnPath, hne.1, hne.2⟩

/-- **`update_forwardings`** moves the data sockets to the ports of the message. -/
theorem Quiet.updateForwardings (hk : Quiet k r h c f t controlPort)
    (hs : Satisfiable k h.forwardPort h.returnPort buffer) (hports : PortsFree k r buffer choices) :
    let result := updateForwardings k r buffer choices
    Quiet result.2 result.1
      (h.configured buffer result.1 ⟨hs.forward.ne_zero, hs.returned.ne_zero⟩) c f t
      controlPort := by
  have hlayout := hk.layout
  have hlt := hlayout.lt
  have hlt' := hlayout.lt'
  obtain ⟨-, hother, hopen, -⟩ := forwardHalf_layout hlayout hports
  obtain ⟨-, hother', -, -⟩ := returnHalf_layout hlayout hports
  obtain ⟨hport, hiff⟩ := forwardHalf_kernel hlayout.open hports.forward
    (boundReturn buffer choices)
  have hfree := hports.forward
  rw [hlayout.forwardFd] at hfree
  have hfree' := hports.returned.imp_right hiff.mpr
  rw [← hport, hlayout.returnFd] at hfree'
  have hforward : (forwardHalf k r buffer choices).2.2.desc f =
      some (.socket (messagePort buffer 0) []) := by
    rw [forwardHalf, hlayout.forwardFd]
    exact updateReceivePort_desc r.forwardPath (cString_receivePort_decodePath buffer 0 .zero)
      hs.forward.ne_zero (fun i hi => hlayout.used i (by omega)) hk.forward hfree
  have hreturned : (returnHalf k r buffer choices).2.2.desc t =
      some (.socket (messagePort buffer 8) []) := by
    rw [returnHalf, hlayout.returnFd]
    refine updateReceivePort_desc r.returnPath (cString_receivePort_decodePath buffer 8 .zero)
      hs.returned.ne_zero ?_ ((hother t (by omega)).trans hk.returned) hfree'
    intro i hi
    rcases eq_or_ne i f with rfl | hne
    · exact Kernel.desc_ne_none_of_portOf hopen
    · rw [hother i hne]
      exact hlayout.used i (by omega)
  exact
    { layout := (updateForwardings_layout hlayout hports).1
      control := ((hother' c (by omega)).trans (hother c (by omega))).trans hk.control
      forward := (hother' f (by omega)).trans hforward
      returned := hreturned
      control_ne := ⟨hk.control_ne_of_available hs.forward, hk.control_ne_of_available hs.returned⟩
      ne := hs.distinct }

/-! ## A round of the loop -/

/-- The ports that are held do not depend on what is queued. -/
theorem holds_congr {k k' : Kernel} (hport : ∀ i, k'.portOf i = k.portOf i)
    (hothers : k'.others = k.others) (port : UInt16) : k'.holds port = k.holds port := by
  rw [Bool.eq_iff_iff, Kernel.holds_iff_portOf, Kernel.holds_iff_portOf, hothers]
  simp only [hport]

/-- The sockets behind an arrival at the control port. -/
theorem Quiet.deliver_control (hk : Quiet k r h c f t controlPort) (d : Datagram) :
    let k' := k.deliver controlPort d
    Layout k' r c f t ∧ k'.queueOf c ≠ [] ∧ k'.queueOf f = [] ∧ k'.queueOf t = [] ∧
      ∃ k'', k'.recvfrom c zzconfigSize = some (⟨d.source, d.data.take zzconfigSize⟩, k'') ∧
        Quiet k'' r h c f t controlPort ∧ (∀ port, k''.holds port = k.holds port) ∧
        (k.Exclusive → k''.Exclusive) := by
  have hlayout : Layout (k.deliver controlPort d) r c f t :=
    hk.layout.congr (k.portOf_deliver controlPort d) fun i => k.desc_deliver_ne_none
  have hc := desc_deliver_self hk.control d
  have hf := desc_deliver_of_ne hk.forward hk.control_ne.1.symm d
  have ht := desc_deliver_of_ne hk.returned hk.control_ne.2.symm d
  have hrecv := recvfrom_singleton hc zzconfigSize
  have hfc : f ≠ c := Nat.ne_of_gt hlayout.lt
  have htc : t ≠ c := Nat.ne_of_gt (Nat.lt_trans hlayout.lt hlayout.lt')
  refine ⟨hlayout, ?_, queueOf_eq hf, queueOf_eq ht, _, hrecv, ?_, ?_, ?_⟩
  · rw [queueOf_eq hc]
    exact List.cons_ne_nil _ _
  · exact
      { layout := hlayout.recvfrom hrecv
        control := Kernel.desc_put_self _ _ _
        forward := (Kernel.desc_put_of_ne _ hfc _).trans hf
        returned := (Kernel.desc_put_of_ne _ htc _).trans ht
        control_ne := hk.control_ne
        ne := hk.ne }
  · exact holds_congr (fun i => (Kernel.portOf_recvfrom hrecv i).trans (k.portOf_deliver _ _ i))
      ((Kernel.others_recvfrom hrecv).trans rfl)
  · intro hx
    exact (hx.congr (k.portOf_deliver controlPort d) rfl).congr (Kernel.portOf_recvfrom hrecv)
      (Kernel.others_recvfrom hrecv)

/-- A round in which only the control socket is readable, with a message that can be bound. -/
theorem run_round_control {k' : Kernel} {d : Datagram} {sent : List Packet}
    {history : List Handled} (hlayout : Layout k r c f t) (hc : k.queueOf c ≠ [])
    (hf : k.queueOf f = []) (ht : k.queueOf t = [])
    (hrecv : k.recvfrom c zzconfigSize = some (d, k')) (hlength : d.data.length = zzconfigSize)
    (hlayout' : Layout k' r c f t) (hports : PortsFree k' r d.data (0, 0)) :
    let result := updateForwardings k' r d.data (0, 0)
    LTS.run (System.exec resolve) (fun _ _ => True) ⟨k, r, .select, sent, history⟩ round =
      some ⟨result.2, result.1, .select, sent, history ++ [.control d.data]⟩ := by
  have hlt := hlayout.lt
  have hlt' := hlayout.lt'
  obtain ⟨hafter, -, -⟩ := updateForwardings_layout hlayout' hports
  have hreadable : readable k [c, f, t] = [c] := by
    simp [readable, hc, hf, ht]
  have hselect : System.exec resolve ⟨k, r, .select, sent, history⟩ (.process (0, 0) true) =
      some ⟨k, r, .testControl [c], sent, history⟩ := by
    simp [System.exec, System.process, hlayout.controlFd, hlayout.forwardFd, hlayout.returnFd,
      hreadable]
  have htest : System.exec resolve ⟨k, r, .testControl [c], sent, history⟩
      (.process (0, 0) true) = some ⟨k, r, .recvControl [c], sent, history⟩ := by
    simp [System.exec, System.process, hlayout.controlFd]
  have hhandle : System.exec resolve ⟨k, r, .recvControl [c], sent, history⟩
      (.process (0, 0) true) = some ⟨(updateForwardings k' r d.data (0, 0)).2,
        (updateForwardings k' r d.data (0, 0)).1, .testForward [c], sent,
        history ++ [.control d.data]⟩ := by
    simp only [System.exec, System.process, hlayout.controlFd, hrecv, Option.bind_some,
      Option.map_some, System.control, hlength, ne_eq, not_true_eq_false, if_false]
  have hforward : System.exec resolve ⟨(updateForwardings k' r d.data (0, 0)).2,
        (updateForwardings k' r d.data (0, 0)).1, .testForward [c], sent,
        history ++ [.control d.data]⟩ (.process (0, 0) true) =
      some ⟨(updateForwardings k' r d.data (0, 0)).2, (updateForwardings k' r d.data (0, 0)).1,
        .testReturn [c], sent, history ++ [.control d.data]⟩ := by
    simp [System.exec, System.process, hafter.forwardFd, Nat.ne_of_gt hlt]
  rw [round, List.replicate, LTS.run_cons trivial hselect, List.replicate,
    LTS.run_cons trivial htest, List.replicate, LTS.run_cons trivial hhandle, List.replicate,
    LTS.run_cons trivial hforward, List.replicate]
  apply LTS.run_cons trivial
  simp [System.exec, System.process, hafter.returnFd, Nat.ne_of_gt (Nat.lt_trans hlt hlt')]

/-- The host is configured as the message says. -/
structure Host.ConfiguredBy (h : Host) (ip : Ipv4) (buffer : List UInt8) : Prop where
  ip : h.ip = ip
  forwardPort : h.forwardPort = messagePort buffer 0
  returnPort : h.returnPort = messagePort buffer 8
  forwardPath : h.forwardPath.SendsTo (messageAddress buffer 2)
  returnPath : h.returnPath.SendsTo (messageAddress buffer 10)

/-- **A control message.** The router moves to the ports of the message and takes over its send
addresses, and waits again. -/
theorem Idle.control_round (resolve : List UInt8 → Option Ipv4)
    (hs : Idle s h returnPath c f t controlPort) (hx : s.kernel.Exclusive) (d : Datagram)
    (hsat : Satisfiable s.kernel h.forwardPort h.returnPort d.data)
    (hne : messagePort d.data 0 ≠ h.returnPort) :
    ∃ s' h', LTS.run (System.exec resolve) (fun _ _ => True) s (arriveAndHandle controlPort d) =
        some s' ∧ Host.ConfiguredBy h' h.ip d.data ∧ Idle s' h' h'.returnPath c f t controlPort ∧
      s'.kernel.Exclusive := by
  obtain ⟨k, r, ctl, sent, history⟩ := s
  obtain rfl : ctl = .select := hs.ctl
  obtain ⟨hlayout, hc, hf, ht, k', hrecv, hquiet, hholds, hexclusive⟩ := hs.quiet.deliver_control d
  rw [List.take_of_length_le hsat.length.le] at hrecv
  have hx' := hexclusive hx
  have hsat' : Satisfiable k' h.forwardPort h.returnPort d.data := by
    obtain ⟨hlength, hdistinct, ⟨hzero, hheld⟩, hzero', hheld'⟩ := hsat
    rw [← hholds] at hheld hheld'
    exact ⟨hlength, hdistinct, ⟨hzero, hheld⟩, hzero', hheld'⟩
  have hports : PortsFree k' r d.data (0, 0) :=
    (portsFree_iff (0, 0) (hquiet.onPorts hx') hsat').mpr hne
  have heffect := takesEffect_of_portsFree (hquiet.onPorts hx') hsat' hports
  have hafter := hquiet.updateForwardings hsat' hports
  rw [arriveAndHandle, LTS.run_cons trivial rfl]
  refine ⟨_, h.configured d.data (Lab6.updateForwardings k' r d.data (0, 0)).1
    ⟨hsat'.forward.ne_zero, hsat'.returned.ne_zero⟩,
    run_round_control hlayout hc hf ht hrecv hsat.length hquiet.layout hports,
    ⟨rfl, rfl, rfl, heffect.forwardPath, heffect.returnPath⟩, ⟨rfl, hafter, rfl, rfl⟩, ?_⟩
  exact exclusive_updateReceivePort (exclusive_updateReceivePort hx' _ _ _ _) _ _ _ _

/-! ## The first state -/

/-- A port that is bound was not the one of another socket. -/
theorem Bound.ne_of_desc {port port' : UInt16} {result : Option ℕ × Kernel}
    (hbound : Bound k port result) {i : ℕ} {queue : List Datagram}
    (hi : k.desc i = some (.socket port' queue)) : port' ≠ port := by
  rintro rfl
  have hholds : k.holds port' = true := (Kernel.holds_iff _ _).mpr (.inr ⟨i, queue, hi⟩)
  rw [hbound.free.2] at hholds
  cases hholds

/-- **The router behind `start`** waits on the ports that it was given. -/
theorem idle_of_start {port : List UInt8} {choice choice' choice'' : UInt16} {s₀ : System}
    (hstart : start k port choice choice' choice'' = some s₀) (ip : Ipv4) :
    ∃ h c f t, h.ip = ip ∧ Idle s₀ h h.returnPath c f t
      (getPortNumber s₀.kernel s₀.router.controlFd) := by
  obtain ⟨c, f, t, hinv⟩ := loopInv_of_start hstart
  simp only [start] at hstart
  split at hstart
  · rename_i c' f' t' hc hf ht
    obtain rfl := Option.some.inj hstart
    obtain ⟨p, hp⟩ := bound_of_eq_some hc
    obtain ⟨p', hp'⟩ := bound_of_eq_some hf
    obtain ⟨p'', hp''⟩ := bound_of_eq_some ht
    obtain rfl : c = c' := (Option.some.inj hinv.layout.controlFd).symm
    obtain rfl : f = f' := (Option.some.inj hinv.layout.forwardFd).symm
    obtain rfl : t = t' := (Option.some.inj hinv.layout.returnFd).symm
    have hlt := hinv.layout.lt
    have hlt' := hinv.layout.lt'
    have hcfd := Option.some.inj (hc.symm.trans hp.fd)
    have hffd := Option.some.inj (hf.symm.trans hp'.fd)
    have htfd := Option.some.inj (ht.symm.trans hp''.fd)
    have hdescc := hp.desc c
    rw [if_pos hcfd] at hdescc
    have hdescc' := hp'.desc c
    rw [if_neg (by omega), hdescc] at hdescc'
    have hdescf := hp'.desc f
    rw [if_pos hffd] at hdescf
    have hdescc'' := hp''.desc c
    rw [if_neg (by omega), hdescc'] at hdescc''
    have hdescf' := hp''.desc f
    rw [if_neg (by omega), hdescf] at hdescf'
    have hdesct := hp''.desc t
    rw [if_pos htfd] at hdesct
    refine ⟨⟨ip, p', p'', _, _, hp'.free.1, hp''.free.1⟩, c, f, t, rfl, rfl, ?_, rfl, rfl⟩
    rw [getPortNumber_of_desc hdescc'']
    exact
      { layout := hinv.layout
        control := hdescc''
        forward := hdescf'
        returned := hdesct
        control_ne := ⟨hp'.ne_of_desc hdescc, hp''.ne_of_desc hdescc'⟩
        ne := hp''.ne_of_desc hdescf }
  · cases hstart

end CS536Labs.Lab6
