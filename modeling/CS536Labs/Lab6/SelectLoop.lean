import CS536Labs.Lab6.Reconfiguration

/-!
# The loop of `run` blocks in `select` only

`select` computes `read_fds` for the descriptors of the moment, and the branch of the control socket
runs first: it may close the descriptors that are tested next, and the new sockets get their
numbers. Then a descriptor in `read_fds` names a socket on which nothing has arrived.

* `Layout`: the descriptors of the router have the three numbers they got in `main`, and no lower
  number is free.
* `CtlInv`: what is pending at each place of the loop.
* `safe_of_calm`: in every run in which each reconfiguration can bind its ports and moves no socket
  that is readable in the same round, `recvfrom` finds a datagram and no descriptor is -1.
-/

namespace CS536Labs.Lab6

open Udp

/-- At its place in the loop, the process neither blocks outside `select` nor uses the descriptor
-1. -/
def Safe (s : System) : Prop :=
  match s.ctl with
  | .select => s.router.controlFd ≠ none ∧ s.router.forwardFd ≠ none ∧ s.router.returnFd ≠ none
  | .testControl _ => s.router.controlFd ≠ none
  | .recvControl _ => ∃ fd, s.router.controlFd = some fd ∧ s.kernel.queueOf fd ≠ []
  | .testForward _ => s.router.forwardFd ≠ none
  | .recvForward _ => ∃ fd, s.router.forwardFd = some fd ∧ s.kernel.queueOf fd ≠ []
  | .testReturn _ => s.router.returnFd ≠ none
  | .recvReturn => ∃ fd, s.router.returnFd = some fd ∧ s.kernel.queueOf fd ≠ []

/-- A control message that the step handles can bind its ports, and a socket that it moves to
another port is not readable in this round. -/
def Calm (s : System) : Label → Prop
  | .arrive _ _ => True
  | .process choices _ => ∀ readFds fd d k, s.ctl = .recvControl readFds →
      s.router.controlFd = some fd → s.kernel.recvfrom fd zzconfigSize = some (d, k) →
      d.data.length = zzconfigSize →
        PortsFree k s.router d.data choices ∧
        (∀ n, s.router.forwardFd = some n →
          getPortNumber k (some n) = messagePort d.data 0 ∨ n ∉ readFds) ∧
        ∀ n, s.router.returnFd = some n →
          getPortNumber k (some n) = messagePort d.data 8 ∨ n ∉ readFds

/-! ## The numbers of the descriptors -/

/-- The descriptors of the router are `c < f < t`, and everything up to `t` is in use. -/
structure Layout (k : Kernel) (r : Router) (c f t : ℕ) : Prop where
  controlFd : r.controlFd = some c
  forwardFd : r.forwardFd = some f
  returnFd : r.returnFd = some t
  lt : c < f
  lt' : f < t
  used : ∀ i ≤ t, k.desc i ≠ none
  control : k.portOf c ≠ none
  forward : k.portOf f ≠ none
  returned : k.portOf t ≠ none

section Layout

variable {k k' : Kernel} {r : Router} {c f t : ℕ}

theorem Layout.congr (h : Layout k r c f t) (hport : ∀ i, k'.portOf i = k.portOf i)
    (hused : ∀ i, k.desc i ≠ none → k'.desc i ≠ none) : Layout k' r c f t where
  controlFd := h.controlFd
  forwardFd := h.forwardFd
  returnFd := h.returnFd
  lt := h.lt
  lt' := h.lt'
  used i hi := hused i (h.used i hi)
  control := by rw [hport]; exact h.control
  forward := by rw [hport]; exact h.forward
  returned := by rw [hport]; exact h.returned

theorem Layout.open (h : Layout k r c f t) : r.Open k where
  control fd hfd := by
    obtain rfl : c = fd := Option.some.inj (h.controlFd.symm.trans hfd)
    exact h.control
  forward fd hfd := by
    obtain rfl : f = fd := Option.some.inj (h.forwardFd.symm.trans hfd)
    refine ⟨h.forward, ?_⟩
    rw [h.controlFd]
    simpa using Nat.ne_of_lt h.lt
  returned fd hfd := by
    obtain rfl : t = fd := Option.some.inj (h.returnFd.symm.trans hfd)
    refine ⟨h.returned, ?_, ?_⟩
    · rw [h.controlFd]
      simpa using Nat.ne_of_lt (Nat.lt_trans h.lt h.lt')
    · rw [h.forwardFd]
      simpa using Nat.ne_of_lt h.lt'

theorem forwardHalf_layout {buffer : List UInt8} {choices : UInt16 × UInt16}
    (h : Layout k r c f t) (hfree : PortsFree k r buffer choices) :
    let half := forwardHalf k r buffer choices
    half.1 = some f ∧ (∀ i, i ≠ f → half.2.2.desc i = k.desc i) ∧ half.2.2.portOf f ≠ none ∧
      (getPortNumber k (some f) = messagePort buffer 0 → half.2.2.desc f = k.desc f) := by
  have hforward := hfree.forward
  have hlt' := h.lt'
  rw [h.forwardFd] at hforward
  rw [forwardHalf, h.forwardFd]
  exact updateReceivePort_eq_of_free k r.forwardPath choices.1
    (cString_receivePort_decodePath buffer 0 .zero) (fun i hi => h.used i (by omega)) h.forward
    hforward

theorem returnHalf_layout {buffer : List UInt8} {choices : UInt16 × UInt16}
    (h : Layout k r c f t) (hfree : PortsFree k r buffer choices) :
    let half := returnHalf k r buffer choices
    let k' := (forwardHalf k r buffer choices).2.2
    half.1 = some t ∧ (∀ i, i ≠ t → half.2.2.desc i = k'.desc i) ∧ half.2.2.portOf t ≠ none ∧
      (getPortNumber k (some t) = messagePort buffer 8 → half.2.2.desc t = k'.desc t) := by
  obtain ⟨hport, hiff⟩ := forwardHalf_kernel h.open hfree.forward (boundReturn buffer choices)
  obtain ⟨-, hother, hopen, -⟩ := forwardHalf_layout h hfree
  have hreturn := hfree.returned.imp_right hiff.mpr
  rw [← hport] at hreturn
  rw [h.returnFd] at hreturn hport
  have hlt' := h.lt'
  rw [returnHalf, h.returnFd, ← hport]
  refine updateReceivePort_eq_of_free _ r.returnPath choices.2
    (cString_receivePort_decodePath buffer 8 .zero) ?_ ?_ hreturn
  · intro i hi
    rcases eq_or_ne i f with rfl | hne
    · exact Kernel.desc_ne_none_of_portOf hopen
    · rw [hother i hne]
      exact h.used i (by omega)
  · rw [Kernel.portOf_congr (hother t (by omega))]
    exact h.returned

/-- **A reconfiguration that can bind its ports** keeps the numbers, and the sockets whose ports it
does not change. -/
theorem updateForwardings_layout {buffer : List UInt8} {choices : UInt16 × UInt16}
    (h : Layout k r c f t) (hfree : PortsFree k r buffer choices) :
    let result := updateForwardings k r buffer choices
    Layout result.2 result.1 c f t ∧
      (getPortNumber k (some f) = messagePort buffer 0 → result.2.desc f = k.desc f) ∧
      (getPortNumber k (some t) = messagePort buffer 8 → result.2.desc t = k.desc t) := by
  obtain ⟨hfd, hother, hopen, hkeep⟩ := forwardHalf_layout h hfree
  obtain ⟨hfd', hother', hopen', hkeep'⟩ := returnHalf_layout h hfree
  have hlt := h.lt
  have hlt' := h.lt'
  have hdesc : ∀ i, i ≠ f → i ≠ t → (returnHalf k r buffer choices).2.2.desc i = k.desc i := by
    intro i hf ht
    rw [hother' i ht, hother i hf]
  have hdescf := hother' f (by omega)
  have hportf : (returnHalf k r buffer choices).2.2.portOf f ≠ none := by
    rw [Kernel.portOf_congr hdescf]
    exact hopen
  refine ⟨⟨h.controlFd, hfd, hfd', hlt, hlt', ?_, ?_, hportf, hopen'⟩, ?_, ?_⟩
  · intro i hi
    by_cases hf : i = f
    · rw [hf]
      exact Kernel.desc_ne_none_of_portOf hportf
    · by_cases ht : i = t
      · rw [ht]
        exact Kernel.desc_ne_none_of_portOf hopen'
      · exact fun hnone => h.used i hi ((hdesc i hf ht).symm.trans hnone)
  · refine fun hnone => h.control ?_
    rw [← Kernel.portOf_congr (hdesc c (by omega) (by omega))]
    exact hnone
  · exact fun heq => hdescf.trans (hkeep heq)
  · exact fun heq => (hkeep' heq).trans (hother t (by omega))

end Layout

/-! ## The invariant of the loop -/

/-- What `select` found readable is still pending. -/
def Waiting (k : Kernel) (fd : ℕ) (readFds : List ℕ) : Prop := fd ∈ readFds → k.queueOf fd ≠ []

/-- What is pending at a place of the loop. -/
def CtlInv (k : Kernel) (c f t : ℕ) : Ctl → Prop
  | .select => True
  | .testControl readFds => Waiting k c readFds ∧ Waiting k f readFds ∧ Waiting k t readFds
  | .recvControl readFds => k.queueOf c ≠ [] ∧ Waiting k f readFds ∧ Waiting k t readFds
  | .testForward readFds => Waiting k f readFds ∧ Waiting k t readFds
  | .recvForward readFds => k.queueOf f ≠ [] ∧ Waiting k t readFds
  | .testReturn readFds => Waiting k t readFds
  | .recvReturn => k.queueOf t ≠ []

structure LoopInv (s : System) (c f t : ℕ) : Prop where
  layout : Layout s.kernel s.router c f t
  ctl : CtlInv s.kernel c f t s.ctl

variable {c f t : ℕ}

theorem CtlInv.mono {k k' : Kernel} (hqueue : ∀ i, k.queueOf i ≠ [] → k'.queueOf i ≠ [])
    {ctl : Ctl} (h : CtlInv k c f t ctl) : CtlInv k' c f t ctl := by
  have hwait : ∀ {fd readFds}, Waiting k fd readFds → Waiting k' fd readFds :=
    fun hw hmem => hqueue _ (hw hmem)
  cases ctl with
  | select => trivial
  | testControl readFds => exact ⟨hwait h.1, hwait h.2.1, hwait h.2.2⟩
  | recvControl readFds => exact ⟨hqueue _ h.1, hwait h.2.1, hwait h.2.2⟩
  | testForward readFds => exact ⟨hwait h.1, hwait h.2⟩
  | recvForward readFds => exact ⟨hqueue _ h.1, hwait h.2⟩
  | testReturn readFds => exact hwait h
  | recvReturn => exact hqueue _ h

theorem LoopInv.safe {s : System} (h : LoopInv s c f t) : Safe s := by
  have hctl := h.ctl
  rw [Safe]
  cases hs : s.ctl with
  | select =>
    rw [h.layout.controlFd, h.layout.forwardFd, h.layout.returnFd]
    exact ⟨Option.some_ne_none _, Option.some_ne_none _, Option.some_ne_none _⟩
  | testControl readFds =>
    rw [h.layout.controlFd]
    exact Option.some_ne_none _
  | recvControl readFds =>
    rw [hs] at hctl
    exact ⟨c, h.layout.controlFd, hctl.1⟩
  | testForward readFds =>
    rw [h.layout.forwardFd]
    exact Option.some_ne_none _
  | recvForward readFds =>
    rw [hs] at hctl
    exact ⟨f, h.layout.forwardFd, hctl.1⟩
  | testReturn readFds =>
    rw [h.layout.returnFd]
    exact Option.some_ne_none _
  | recvReturn =>
    rw [hs] at hctl
    exact ⟨t, h.layout.returnFd, hctl⟩

/-! ## One step -/

section Step

variable {resolve : List UInt8 → Option Ipv4} {s s' : System}

theorem LoopInv.arrive (h : LoopInv s c f t) (port : UInt16) (d : Datagram) :
    LoopInv { s with kernel := s.kernel.deliver port d } c f t where
  layout := h.layout.congr (s.kernel.portOf_deliver port d) fun _ => s.kernel.desc_deliver_ne_none
  ctl := h.ctl.mono fun _ => s.kernel.queueOf_deliver_ne_nil

theorem Layout.recvfrom {k k' : Kernel} {r : Router} {fd size : ℕ} {d : Datagram}
    (h : Layout k r c f t) (hrecv : k.recvfrom fd size = some (d, k')) : Layout k' r c f t :=
  h.congr (Kernel.portOf_recvfrom hrecv) fun _ => Kernel.desc_recvfrom_ne_none hrecv

theorem Waiting.recvfrom {k k' : Kernel} {fd size : ℕ} {d : Datagram}
    (hrecv : k.recvfrom fd size = some (d, k')) {n : ℕ} (hn : n ≠ fd) {readFds : List ℕ}
    (h : Waiting k n readFds) : Waiting k' n readFds := by
  intro hmem
  rw [Kernel.queueOf_recvfrom_of_ne hrecv hn]
  exact h hmem

/-- The sockets that `select` finds readable are waiting. -/
theorem waiting_readable (k : Kernel) (fds : List ℕ) (fd : ℕ) : Waiting k fd (readable k fds) := by
  intro hmem
  simpa using (List.mem_filter.mp hmem).2

/-- The control branch of the loop. -/
theorem LoopInv.control {d : Datagram} {choices : UInt16 × UInt16} {readFds : List ℕ}
    (hlayout : Layout s.kernel s.router c f t) (hctl : s.ctl = .testForward readFds)
    (hforward : Waiting s.kernel f readFds) (hreturn : Waiting s.kernel t readFds)
    (hcalm : d.data.length = zzconfigSize → PortsFree s.kernel s.router d.data choices ∧
      (getPortNumber s.kernel (some f) = messagePort d.data 0 ∨ f ∉ readFds) ∧
      (getPortNumber s.kernel (some t) = messagePort d.data 8 ∨ t ∉ readFds)) :
    LoopInv (s.control d choices) c f t := by
  rw [System.control]
  split
  · refine ⟨hlayout, ?_⟩
    rw [hctl]
    exact ⟨hforward, hreturn⟩
  · rename_i hlen
    obtain ⟨hfree, hf, ht⟩ := hcalm (not_not.mp hlen)
    obtain ⟨hlayout', hkeep, hkeep'⟩ := updateForwardings_layout hlayout hfree
    refine ⟨hlayout', ?_⟩
    simp only [hctl]
    refine ⟨fun hmem => ?_, fun hmem => ?_⟩
    · rw [Kernel.queueOf_congr (hkeep (hf.resolve_right (not_not_intro hmem)))]
      exact hforward hmem
    · rw [Kernel.queueOf_congr (hkeep' (ht.resolve_right (not_not_intro hmem)))]
      exact hreturn hmem

/-- The loop goes on to read a socket or to test the next one. -/
theorem ctlInv_test {k : Kernel} {readable : Prop} [Decidable readable] {ctl ctl' : Ctl}
    (h : readable → CtlInv k c f t ctl) (h' : CtlInv k c f t ctl') :
    CtlInv k c f t (if readable then ctl else ctl') := by
  split_ifs with hreadable
  · exact h hreadable
  · exact h'

/-- **The step lemma.** -/
theorem LoopInv.process {choices : UInt16 × UInt16} {sendOk : Bool} (h : LoopInv s c f t)
    (hcalm : Calm s (.process choices sendOk))
    (hstep : s.process resolve choices sendOk = some s') : LoopInv s' c f t := by
  obtain ⟨hlayout, hctl⟩ := h
  have hlt := hlayout.lt
  have hlt' := hlayout.lt'
  rw [System.process] at hstep
  cases hs : s.ctl with
  | select =>
    simp only [hs, hlayout.controlFd, hlayout.forwardFd, hlayout.returnFd] at hstep
    split_ifs at hstep
    obtain rfl := Option.some.inj hstep
    exact ⟨hlayout, waiting_readable _ _ c, waiting_readable _ _ f, waiting_readable _ _ t⟩
  | testControl readFds =>
    simp only [hs, hlayout.controlFd, Option.map_some] at hstep
    rw [hs] at hctl
    obtain rfl := Option.some.inj hstep
    exact ⟨hlayout, ctlInv_test (fun hmem => ⟨hctl.1 hmem, hctl.2⟩) hctl.2⟩
  | recvControl readFds =>
    simp only [hs, hlayout.controlFd, Option.bind_some] at hstep
    rw [hs] at hctl
    obtain ⟨⟨d, k⟩, hrecv, rfl⟩ := Option.map_eq_some_iff.mp hstep
    have hcalm := hcalm readFds c d k hs hlayout.controlFd hrecv
    exact LoopInv.control (s := { s with kernel := k, ctl := .testForward readFds })
      (hlayout.recvfrom hrecv) rfl (hctl.2.1.recvfrom hrecv (by omega))
      (hctl.2.2.recvfrom hrecv (by omega)) fun hlen => ⟨(hcalm hlen).1,
        (hcalm hlen).2.1 f hlayout.forwardFd, (hcalm hlen).2.2 t hlayout.returnFd⟩
  | testForward readFds =>
    simp only [hs, hlayout.forwardFd, Option.map_some] at hstep
    rw [hs] at hctl
    obtain rfl := Option.some.inj hstep
    exact ⟨hlayout, ctlInv_test (fun hmem => ⟨hctl.1 hmem, hctl.2⟩) hctl.2⟩
  | recvForward readFds =>
    simp only [hs, hlayout.forwardFd, Option.bind_some] at hstep
    rw [hs] at hctl
    obtain ⟨⟨d, k⟩, hrecv, rfl⟩ := Option.map_eq_some_iff.mp hstep
    have hlayout := hlayout.recvfrom hrecv
    refine ⟨?_, ?_⟩
    · simp only [System.forwardData, System.kernel_sendto, System.router_sendto]
      exact ⟨hlayout.controlFd, hlayout.forwardFd, hlayout.returnFd, hlt, hlt', hlayout.used,
        hlayout.control, hlayout.forward, hlayout.returned⟩
    · simp only [System.forwardData, System.kernel_sendto, System.ctl_sendto]
      exact hctl.2.recvfrom hrecv (by omega)
  | testReturn readFds =>
    simp only [hs, hlayout.returnFd, Option.map_some] at hstep
    rw [hs] at hctl
    obtain rfl := Option.some.inj hstep
    exact ⟨hlayout, ctlInv_test (fun hmem => hctl hmem) trivial⟩
  | recvReturn =>
    simp only [hs, hlayout.returnFd, Option.bind_some] at hstep
    obtain ⟨⟨d, k⟩, hrecv, rfl⟩ := Option.map_eq_some_iff.mp hstep
    refine ⟨?_, ?_⟩
    · simp only [System.returnData, System.kernel_sendto, System.router_sendto]
      exact hlayout.recvfrom hrecv
    · simp only [System.returnData, System.kernel_sendto, System.ctl_sendto]
      trivial

end Step

/-! ## Runs -/

/-- `main` gives the sockets increasing numbers. -/
theorem loopInv_of_start {k : Kernel} {controlPort : List UInt8} {choice choice' choice'' : UInt16}
    {s₀ : System} (h : start k controlPort choice choice' choice'' = some s₀) :
    ∃ c f t, LoopInv s₀ c f t := by
  simp only [start] at h
  split at h
  · rename_i c f t hc hf ht
    obtain rfl := Option.some.inj h
    obtain ⟨p, hp⟩ := bound_of_eq_some hc
    obtain ⟨p', hp'⟩ := bound_of_eq_some hf
    obtain ⟨p'', hp''⟩ := bound_of_eq_some ht
    have hlt := hp.lt_lowestFree
    have hlt' := hp'.lt_lowestFree
    obtain rfl := Option.some.inj (hc.symm.trans hp.fd)
    obtain rfl := Option.some.inj (hf.symm.trans hp'.fd)
    obtain rfl := Option.some.inj (ht.symm.trans hp''.fd)
    refine ⟨_, _, _, ⟨rfl, rfl, rfl, hlt, hlt', fun i => hp''.desc_ne_none, ?_, ?_,
      hp''.portOf_self⟩, trivial⟩
    · refine fun hnone => hp.portOf_self ?_
      rw [← hp'.portOf_of_ne (by omega), ← hp''.portOf_of_ne (by omega)]
      exact hnone
    · refine fun hnone => hp'.portOf_self ?_
      rw [← hp''.portOf_of_ne (by omega)]
      exact hnone
  · cases h

theorem System.open_control {s : System} (h : s.router.Open s.kernel) (d : Datagram)
    (choices : UInt16 × UInt16) :
    (s.control d choices).router.Open (s.control d choices).kernel := by
  rw [control]
  split
  · exact h
  · exact updateForwardings_open h

/-- In every run, the descriptors that are not -1 are different open sockets. -/
theorem open_of_reachable {resolve : List UInt8 → Option Ipv4} {k : Kernel}
    {controlPort : List UInt8} {choice choice' choice'' : UInt16} {s₀ s : System}
    (h₀ : start k controlPort choice choice' choice'' = some s₀)
    (h : (zigzagrouter resolve s₀).Reachable s) : s.router.Open s.kernel := by
  obtain ⟨c, f, t, hinv⟩ := loopInv_of_start h₀
  refine h.invariant (I := fun s => s.router.Open s.kernel) ?_ ?_
  · rintro s rfl
    exact hinv.layout.open
  · rintro s a s' - hs hstep
    cases a with
    | arrive port d =>
      obtain rfl := Option.some.inj hstep
      exact hs.congr (s.kernel.portOf_deliver port d)
    | process choices sendOk =>
      have hstep : s.process resolve choices sendOk = some s' := hstep
      cases System.processStep hstep with
      | move ctl => exact hs
      | control hfd hrecv =>
        apply System.open_control
        exact hs.congr (Kernel.portOf_recvfrom hrecv)
      | forward hfd hrecv =>
        have h := hs.congr (Kernel.portOf_recvfrom hrecv)
        simp only [System.forwardData, System.kernel_sendto, System.router_sendto]
        exact ⟨h.control, h.forward, h.returned⟩
      | returned hfd hrecv =>
        simp only [System.returnData, System.kernel_sendto, System.router_sendto]
        exact hs.congr (Kernel.portOf_recvfrom hrecv)

/-- **The router blocks only in `select`.** -/
theorem safe_of_calm {resolve : List UInt8 → Option Ipv4} {k : Kernel} {controlPort : List UInt8}
    {choice choice' choice'' : UInt16} {s₀ s : System}
    (h₀ : start k controlPort choice choice' choice'' = some s₀)
    (h : ((zigzagrouter resolve s₀).restrict Calm).Reachable s) : Safe s := by
  obtain ⟨c, f, t, hinv⟩ := loopInv_of_start h₀
  have hrun : LoopInv s c f t := by
    refine h.invariant (I := fun s => LoopInv s c f t) ?_ ?_
    · rintro s rfl
      exact hinv
    · rintro s a s' - hs ⟨hstep, hcalm⟩
      cases a with
      | arrive port d =>
        obtain rfl := Option.some.inj hstep
        exact hs.arrive port d
      | process choices sendOk => exact hs.process hcalm hstep
  exact hrun.safe

/-- A process with the standard streams open. -/
def stdio : Kernel := ⟨[some .file, some .file, some .file], []⟩

/-- The argument `10000`. -/
def controlPort : List UInt8 := [0x31, 0x30, 0x30, 0x30, 0x30]

/-- A control message from `127.0.0.1:5000`. -/
def fillIn : Datagram := ⟨⟨⟨127, 0, 0, 1⟩, 5000⟩, fillInMessage⟩

/-- A packet of a client. -/
def ping : Datagram := ⟨⟨⟨10, 0, 0, 7⟩, 7000⟩, [1, 2, 3]⟩

theorem calm_of_ne {s : System} {choices : UInt16 × UInt16} {sendOk : Bool}
    (h : ∀ readFds, s.ctl ≠ .recvControl readFds) : Calm s (.process choices sendOk) :=
  fun readFds _ _ _ hctl => absurd hctl (h readFds)

/-- The router behind `main`. -/
def started : System where
  kernel := threeSockets []
  router :=
    { freshRouter with
      forwardPath := { ForwardingPath.zero with receivePort := [0x33, 0x30, 0x30, 0x30, 0x31, 0] }
      returnPath := { ForwardingPath.zero with receivePort := [0x33, 0x30, 0x30, 0x30, 0x32, 0] } }
  ctl := .select
  sent := []
  history := []

theorem start_eq_started : start stdio controlPort 0 30001 30002 = some started := by
  decide

/-- A run with one control message. -/
theorem safe_of_calm_fillIn :
    ∃ s, ((zigzagrouter (fun _ => none) started).restrict Calm).Reachable s ∧
      s.history = [.control fillInMessage] ∧ Safe s := by
  let M := (zigzagrouter (fun _ => none) started).restrict Calm
  have harrive : M.Reachable _ :=
    (LTS.Reachable.init rfl).step (a := .arrive 10000 fillIn) ⟨rfl, trivial⟩
  have hselect : M.Reachable _ :=
    harrive.step (a := .process (0, 0) true) ⟨rfl, calm_of_ne nofun⟩
  have htest : M.Reachable _ :=
    hselect.step (a := .process (0, 0) true) ⟨rfl, calm_of_ne nofun⟩
  obtain ⟨s, hrecv, hhistory⟩ : ∃ s, M.Reachable s ∧ s.history = [.control fillInMessage] := by
    refine ⟨_, htest.step (a := .process (0, 0) true) ⟨rfl, ?_⟩, rfl⟩
    rintro readFds fd d k ⟨⟩ ⟨⟩ ⟨⟩ -
    refine ⟨by decide, ?_, ?_⟩
    · rintro n ⟨⟩
      exact .inr (by decide)
    · rintro n ⟨⟩
      exact .inr (by decide)
  exact ⟨s, hrecv, hhistory, safe_of_calm start_eq_started hrecv⟩

/-- A control message and a packet on the old forward port in one round: `recvfrom` is called on
the new forward socket, where nothing has arrived. -/
theorem recvfrom_blocks :
    ∃ s, start stdio controlPort 0 30001 30002 = some started ∧
      (zigzagrouter (fun _ => none) started).Reachable s ∧ s.ctl = .recvForward [3, 4] ∧
        s.router.forwardFd = some 4 ∧ s.kernel.queueOf 4 = [] ∧ ¬ Safe s := by
  have hrun : LTS.run (System.exec fun _ => none) (fun _ _ => True) started
      [.arrive 10000 fillIn, .arrive 30001 ping, .process (0, 0) true, .process (0, 0) true,
        .process (0, 0) true, .process (0, 0) true] = some _ := rfl
  refine ⟨_, start_eq_started, (LTS.reachable_of_run (LTS.Reachable.init rfl) hrun).of_restrict,
    rfl, rfl, rfl, ?_⟩
  rintro ⟨fd, hfd, hqueue⟩
  obtain rfl := Option.some.inj hfd
  exact hqueue rfl

end CS536Labs.Lab6
