import CS536Labs.Lab6.ReturnPath

/-!
# Reconfigurations that can be carried out

A control message can be carried out when its two ports are different and each is free on the host
or held by a data socket of the router itself. `update_forwardings` closes and binds the forward
socket first: its new port cannot be the one that the return socket still holds.

* `onPorts_of_reachable`: no port has two holders in any state of the router.
* `takesEffect_iff`: a message that can be carried out takes effect exactly when its forward port is
  not the current return port. Exchanging the two ports leaves the forward descriptor -1.
-/

namespace CS536Labs.Lab6

open Udp

/-- The data sockets are bound to the two ports. -/
structure Router.OnPorts (r : Router) (k : Kernel) (f t : UInt16) : Prop where
  isOpen : r.Open k
  exclusive : k.Exclusive
  forward : r.forwardFd.bind k.portOf = some f
  returned : r.returnFd.bind k.portOf = some t

/-- A port that is free on the host, or held by one of the data sockets. -/
structure Available (k : Kernel) (f t port : UInt16) : Prop where
  ne_zero : port ≠ 0
  held : k.holds port = false ∨ port = f ∨ port = t

/-- A message that can be carried out. -/
structure Satisfiable (k : Kernel) (f t : UInt16) (buffer : List UInt8) : Prop where
  length : buffer.length = zzconfigSize
  distinct : messagePort buffer 0 ≠ messagePort buffer 8
  forward : Available k f t (messagePort buffer 0)
  returned : Available k f t (messagePort buffer 8)

/-- The sockets are bound to the ports of the message, and the tables hold its send addresses. -/
structure TakesEffect (buffer : List UInt8) (result : Router × Kernel) : Prop where
  forward : result.1.forwardFd.bind result.2.portOf = some (messagePort buffer 0)
  returned : result.1.returnFd.bind result.2.portOf = some (messagePort buffer 8)
  forwardPath : result.1.forwardPath.SendsTo (messageAddress buffer 2)
  returnPath : result.1.returnPath.SendsTo (messageAddress buffer 10)

/-! ## The update of one port -/

theorem getPortNumber_of_bind {k : Kernel} {fd : Option ℕ} {port : UInt16}
    (h : fd.bind k.portOf = some port) : getPortNumber k fd = port := by
  rw [getPortNumber, h, Option.getD_some]

theorem boundPort_of_ne_zero {port : UInt16} (h : port ≠ 0) (choice : UInt16) :
    boundPort port choice = port := if_neg h

/-- An open socket that is not updated stays on its port. -/
theorem updateReceivePort_keeps (k : Kernel) {fd : Option ℕ} (path : ForwardingPath)
    {new : ForwardingPath} {port : UInt16} (hnew : cString new.receivePort = numeral port.toNat)
    (choice : UInt16) {fd' : Option ℕ} (hne : fd' ≠ fd) {p : UInt16}
    (hp : fd'.bind k.portOf = some p) :
    fd'.bind (updateReceivePort k fd path new choice).2.2.portOf = some p := by
  obtain ⟨j, rfl, hj⟩ := Option.bind_eq_some_iff.mp hp
  have hclose : (k.close fd).portOf j = some p := by
    rw [Kernel.portOf_close, if_neg hne.symm, hj]
  rw [Option.bind_some]
  rcases updateReceivePort_cases k fd path choice hnew with
    ⟨-, heq⟩ | ⟨-, result, hfailed | hbound, heq⟩
  · rw [heq, hj]
  · rw [heq, Kernel.portOf_congr (hfailed.desc j), hclose]
  · -- the number of an open socket is not given out
    have hlowest : j ≠ (k.close fd).lowestFree := by
      rintro rfl
      refine Kernel.desc_ne_none_of_portOf ?_ (k.close fd).desc_lowestFree
      rw [hclose]
      exact Option.some_ne_none _
    rw [heq, hbound.portOf_of_ne hlowest, hclose]

/-- **The update of a port that is current or free** binds it, and leaves the other sockets on their
ports. -/
theorem updateReceivePort_bound {k : Kernel} {fd : Option ℕ} (path : ForwardingPath)
    {new : ForwardingPath} {choice port old : UInt16}
    (hnew : cString new.receivePort = numeral port.toNat) (hne : port ≠ 0)
    (hold : fd.bind k.portOf = some old)
    (hfree : getPortNumber k fd = port ∨ Free (k.close fd) (boundPort port choice)) :
    let result := updateReceivePort k fd path new choice
    result.1.bind result.2.2.portOf = some port ∧
      ∀ fd' p, fd' ≠ fd → fd'.bind k.portOf = some p → fd'.bind result.2.2.portOf = some p := by
  refine ⟨?_, fun fd' p hfd hp => updateReceivePort_keeps k path hnew choice hfd hp⟩
  rcases updateReceivePort_cases k fd path choice hnew with
    ⟨hkeep, heq⟩ | ⟨hchange, result, hfailed | hbound, heq⟩
  · rw [getPortNumber_of_bind hold] at hkeep
    simp only [heq, hold, hkeep]
  · exact absurd (hfree.resolve_left hchange) hfailed.not_free
  · rw [boundPort_of_ne_zero hne] at hbound
    simp only [heq, hbound.fd, Option.bind_some]
    exact (Kernel.portOf_eq_some_iff _).mpr ⟨[], by rw [hbound.desc, if_pos rfl]⟩

/-! ## The update of both ports -/

variable {k : Kernel} {r : Router} {f t : UInt16} {buffer : List UInt8} {choices : UInt16 × UInt16}

theorem Router.OnPorts.fd_ne (h : r.OnPorts k f t) : r.forwardFd ≠ r.returnFd := by
  obtain ⟨i, hi, -⟩ := Option.bind_eq_some_iff.mp h.returned
  rw [hi]
  exact (h.isOpen.returned i hi).2.2

theorem Router.OnPorts.port_ne (h : r.OnPorts k f t) : f ≠ t := by
  rintro rfl
  obtain ⟨i, hi, hport⟩ := Option.bind_eq_some_iff.mp h.forward
  obtain ⟨j, hj, hport'⟩ := Option.bind_eq_some_iff.mp h.returned
  apply h.fd_ne
  rw [hi, hj, h.exclusive.socket i j f hport hport']

/-- The return socket holds its port while the forward port is bound. -/
theorem Router.OnPorts.holds_return (h : r.OnPorts k f t) :
    (k.close r.forwardFd).holds t = true := by
  obtain ⟨j, hj, hport⟩ := Option.bind_eq_some_iff.mp h.returned
  have hne : r.forwardFd ≠ some j := by
    rw [← hj]
    exact h.fd_ne
  refine (Kernel.holds_iff_portOf _ t).mpr (.inr ⟨j, ?_⟩)
  rw [Kernel.portOf_close, if_neg hne, hport]

theorem Available.of_not_held {port : UInt16} (h : Available k f t port) (hf : port ≠ f)
    (ht : port ≠ t) : k.holds port = false :=
  h.held.resolve_right (not_or.mpr ⟨hf, ht⟩)

/-- **When the ports can be bound**, one after the other. -/
theorem portsFree_iff (choices : UInt16 × UInt16) (h : r.OnPorts k f t)
    (hs : Satisfiable k f t buffer) :
    PortsFree k r buffer choices ↔ messagePort buffer 0 ≠ t := by
  have hf := getPortNumber_of_bind h.forward
  have ht := getPortNumber_of_bind h.returned
  have hforward : boundForward buffer choices = messagePort buffer 0 :=
    boundPort_of_ne_zero hs.forward.ne_zero _
  have hreturn : boundReturn buffer choices = messagePort buffer 8 :=
    boundPort_of_ne_zero hs.returned.ne_zero _
  constructor
  · rintro hports heq
    rcases hports.forward with hcurrent | ⟨-, hfree⟩
    · exact h.port_ne (hf.symm.trans (hcurrent.trans heq))
    · rw [hforward, heq, h.holds_return] at hfree
      cases hfree
  · intro hne
    refine ⟨?_, ?_⟩
    · rw [hf, hforward]
      by_cases hcurrent : messagePort buffer 0 = f
      · exact .inl hcurrent.symm
      · exact .inr ⟨hs.forward.ne_zero,
          Kernel.not_holds_close (hs.forward.of_not_held hcurrent hne) _⟩
    · rw [hf, ht, hforward, hreturn]
      by_cases hcurrent : messagePort buffer 8 = t
      · exact .inl hcurrent.symm
      · refine .inr ⟨⟨hs.returned.ne_zero, ?_⟩, .inr hs.distinct.symm⟩
        apply Kernel.not_holds_close
        rw [withoutForward, hf]
        by_cases hold : messagePort buffer 8 = f
        · -- the forward socket has given its port up
          rw [hold, if_neg fun heq => hs.distinct (heq.symm.trans hold.symm)]
          exact h.exclusive.not_holds_close h.forward
        · have hfree := hs.returned.of_not_held hold hcurrent
          split_ifs
          · exact hfree
          · exact Kernel.not_holds_close hfree _

/-- A message that can be bound takes effect. -/
theorem takesEffect_of_portsFree (h : r.OnPorts k f t) (hs : Satisfiable k f t buffer)
    (hports : PortsFree k r buffer choices) :
    TakesEffect buffer (updateForwardings k r buffer choices) := by
  have hnew := cString_receivePort_decodePath buffer 0 .zero
  have hnew' := cString_receivePort_decodePath buffer 8 .zero
  obtain ⟨hforward, hkept⟩ := updateReceivePort_bound r.forwardPath hnew
    hs.forward.ne_zero h.forward hports.forward
  obtain ⟨hport, hiff⟩ := forwardHalf_kernel h.isOpen hports.forward (boundReturn buffer choices)
  have hfree : getPortNumber (forwardHalf k r buffer choices).2.2 r.returnFd =
        messagePort buffer 8 ∨
      Free ((forwardHalf k r buffer choices).2.2.close r.returnFd)
        (boundReturn buffer choices) := by
    rw [hport]
    exact hports.returned.imp_right hiff.mpr
  have hreturned := hkept r.returnFd t h.fd_ne.symm h.returned
  obtain ⟨hbound, hkept'⟩ := updateReceivePort_bound r.returnPath hnew'
    hs.returned.ne_zero hreturned hfree
  obtain ⟨hother, -⟩ := updateReceivePort_open k r.forwardFd r.forwardPath choices.1 hnew
    fun n hn => (h.isOpen.forward n hn).1
  refine ⟨hkept' _ _ ?_ hforward, hbound, sendsTo_updateSendAddress hs.length (by decide) _ _,
    sendsTo_updateSendAddress hs.length (by decide) _ _⟩
  -- the new forward socket is not the return socket
  obtain ⟨j, hj, -⟩ := Option.bind_eq_some_iff.mp h.returned
  rw [hj]
  exact (hother j (h.isOpen.returned j hj).1 (h.isOpen.returned j hj).2.2).2

/-- **Satisfiable reconfigurations.** A message that can be carried out takes effect if and only if
its forward port is not the port of the current return socket. -/
theorem takesEffect_iff (h : r.OnPorts k f t) (hs : Satisfiable k f t buffer)
    (choices : UInt16 × UInt16) :
    TakesEffect buffer (updateForwardings k r buffer choices) ↔ messagePort buffer 0 ≠ t := by
  rw [← portsFree_iff choices h hs]
  constructor
  · intro heffect
    by_contra hports
    rcases (cannotBind_iff h.isOpen).mpr hports with ⟨-, hnone⟩ | ⟨-, hnone⟩
    · have hforward := heffect.forward
      rw [show (updateForwardings k r buffer choices).1.forwardFd = none from hnone] at hforward
      cases hforward
    · have hreturned := heffect.returned
      rw [show (updateForwardings k r buffer choices).1.returnFd = none from hnone] at hreturned
      cases hreturned
  · exact takesEffect_of_portsFree h hs

/-! ## The routers that occur -/

theorem exclusive_updateReceivePort (h : k.Exclusive) (fd : Option ℕ) (path new : ForwardingPath)
    (choice : UInt16) : (updateReceivePort k fd path new choice).2.2.Exclusive := by
  rw [updateReceivePort]
  split_ifs
  · exact exclusive_createAndBindUdpSocket (h.close fd) _ _
  · exact h

theorem System.exclusive_control {s : System} (h : s.kernel.Exclusive) (d : Datagram)
    (choices : UInt16 × UInt16) : (s.control d choices).kernel.Exclusive := by
  rw [control]
  split
  · exact h
  · exact exclusive_updateReceivePort (exclusive_updateReceivePort h _ _ _ _) _ _ _ _

theorem exclusive_of_start {controlPort : List UInt8} {choice choice' choice'' : UInt16}
    {s : System} (hk : k.Exclusive)
    (h : start k controlPort choice choice' choice'' = some s) : s.kernel.Exclusive := by
  simp only [start] at h
  split at h
  · obtain rfl := Option.some.inj h
    exact exclusive_createAndBindUdpSocket (exclusive_createAndBindUdpSocket
      (exclusive_createAndBindUdpSocket hk _ _) _ _) _ _
  · cases h

/-- In every run, each port has at most one holder. -/
theorem exclusive_of_reachable {resolve : List UInt8 → Option Ipv4} {s₀ s : System}
    (h₀ : s₀.kernel.Exclusive) (h : (zigzagrouter resolve s₀).Reachable s) :
    s.kernel.Exclusive := by
  refine h.invariant (I := fun s => s.kernel.Exclusive) ?_ ?_
  · rintro s rfl
    exact h₀
  · rintro s a s' - hs hstep
    cases a with
    | arrive port d =>
      obtain rfl := Option.some.inj hstep
      exact hs.congr (s.kernel.portOf_deliver port d) rfl
    | process choices sendOk =>
      have hstep : s.process resolve choices sendOk = some s' := hstep
      cases System.processStep hstep with
      | move ctl => exact hs
      | control hfd hrecv =>
        apply System.exclusive_control
        exact hs.congr (Kernel.portOf_recvfrom hrecv) (Kernel.others_recvfrom hrecv)
      | forward hfd hrecv =>
        simp only [System.forwardData, System.kernel_sendto]
        exact hs.congr (Kernel.portOf_recvfrom hrecv) (Kernel.others_recvfrom hrecv)
      | returned hfd hrecv =>
        simp only [System.returnData, System.kernel_sendto]
        exact hs.congr (Kernel.portOf_recvfrom hrecv) (Kernel.others_recvfrom hrecv)

/-- **The states of the router.** As long as no descriptor is -1, the data sockets are on ports. -/
theorem onPorts_of_reachable {resolve : List UInt8 → Option Ipv4} {controlPort : List UInt8}
    {choice choice' choice'' : UInt16} {s₀ s : System} (hk : k.Exclusive)
    (h₀ : start k controlPort choice choice' choice'' = some s₀)
    (h : (zigzagrouter resolve s₀).Reachable s) (hf : s.router.forwardFd ≠ none)
    (ht : s.router.returnFd ≠ none) : ∃ f t, s.router.OnPorts s.kernel f t := by
  have hopen := open_of_reachable h₀ h
  obtain ⟨i, hi⟩ := Option.ne_none_iff_exists'.mp hf
  obtain ⟨j, hj⟩ := Option.ne_none_iff_exists'.mp ht
  obtain ⟨f, hport⟩ := Option.ne_none_iff_exists'.mp (hopen.forward i hi).1
  obtain ⟨t, hport'⟩ := Option.ne_none_iff_exists'.mp (hopen.returned j hj).1
  refine ⟨f, t, hopen, exclusive_of_reachable (exclusive_of_start hk h₀) h, ?_, ?_⟩
  · rw [hi, Option.bind_some, hport]
  · rw [hj, Option.bind_some, hport']

theorem onPorts_started : started.router.OnPorts started.kernel 30001 30002 where
  isOpen := by
    have hreach : (zigzagrouter (fun _ => none) started).Reachable started := .init rfl
    exact open_of_reachable start_eq_started hreach
  exclusive := by
    refine exclusive_of_start ?_ start_eq_started
    have hnone : ∀ i, stdio.portOf i = none
      | 0 | 1 | 2 => rfl
      | _ + 3 => rfl
    constructor
    · intro i j port hi
      rw [hnone] at hi
      cases hi
    · intro i port hi
      rw [hnone] at hi
      cases hi
  forward := rfl
  returned := rfl

/-- The ports 10001 and 10002 are free. -/
theorem takesEffect_fillInMessage :
    TakesEffect fillInMessage
      (updateForwardings started.kernel started.router fillInMessage (0, 0)) := by
  have hs : Satisfiable started.kernel 30001 30002 fillInMessage :=
    ⟨rfl, by decide, ⟨by decide, .inl (by decide)⟩, ⟨by decide, .inl (by decide)⟩⟩
  exact (takesEffect_iff onPorts_started hs (0, 0)).mpr (by decide)

/-- The two ports are to be exchanged. -/
def exchangeMessage : List UInt8 :=
  [0x32, 0x75, 33, 78, 127, 0, 0, 1, 0x31, 0x75, 0, 0, 0, 0, 0, 0]

/-- The message can be carried out, and the forward descriptor is -1 behind it. -/
theorem not_takesEffect_exchange :
    started.router.OnPorts started.kernel 30001 30002 ∧
      Satisfiable started.kernel 30001 30002 exchangeMessage ∧
      messagePort exchangeMessage 0 = 30002 ∧ messagePort exchangeMessage 8 = 30001 ∧
      ¬ TakesEffect exchangeMessage
        (updateForwardings started.kernel started.router exchangeMessage (0, 0)) := by
  refine ⟨onPorts_started, ?_, by decide, by decide, ?_⟩
  · exact ⟨rfl, by decide, ⟨by decide, .inr (.inr (by decide))⟩,
      ⟨by decide, .inr (.inl (by decide))⟩⟩
  · intro heffect
    have hnone : (updateForwardings started.kernel started.router exchangeMessage
        (0, 0)).1.forwardFd = none := by decide
    have hforward := heffect.forward
    rw [hnone] at hforward
    cases hforward

end CS536Labs.Lab6
