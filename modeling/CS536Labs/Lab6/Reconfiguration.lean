import CS536Labs.Lab6.Zigzagrouter

/-!
# Reconfiguration that cannot bind a port

`update_forwardings` closes the old socket of a path before it binds the new one and does not look
at the result, so that a port that cannot be bound leaves the descriptor -1 behind. `main` and
`create_and_bind_control_socket` check the result of the same call.

* `updateReceivePort_cases` says what the update of one port can do.
* `updateForwardings_atomic_iff`: a reconfiguration that cannot bind a port leaves the router as
  before only where there is nothing to show, when the ports asked for are free.
-/

namespace CS536Labs.Lab6

open Udp

/-- A port of a message, at the offset of the field. -/
def messagePort (buffer : List UInt8) (offset : ℕ) : UInt16 :=
  UInt16.ofNat (loadLE (bytesAt buffer offset 2))

/-- A port that `bind` accepts. -/
def Free (k : Kernel) (port : UInt16) : Prop := port ≠ 0 ∧ k.holds port = false

instance (k : Kernel) (port : UInt16) : Decidable (Free k port) :=
  inferInstanceAs (Decidable (_ ∧ _))

/-- The port that is bound for the forward path. -/
def boundForward (buffer : List UInt8) (choices : UInt16 × UInt16) : UInt16 :=
  boundPort (messagePort buffer 0) choices.1

/-- The port that is bound for the return path. -/
def boundReturn (buffer : List UInt8) (choices : UInt16 × UInt16) : UInt16 :=
  boundPort (messagePort buffer 8) choices.2

/-- The sockets without the old forward socket, if it has to go. -/
def withoutForward (k : Kernel) (r : Router) (buffer : List UInt8) : Kernel :=
  if getPortNumber k r.forwardFd = messagePort buffer 0 then k else k.close r.forwardFd

/-- Each of the two ports is the current one, or no other live socket holds it: when the forward
port is bound, the return socket is still there, and the return port is bound after it. -/
structure PortsFree (k : Kernel) (r : Router) (buffer : List UInt8) (choices : UInt16 × UInt16) :
    Prop where
  forward : getPortNumber k r.forwardFd = messagePort buffer 0 ∨
    Free (k.close r.forwardFd) (boundForward buffer choices)
  returned : getPortNumber k r.returnFd = messagePort buffer 8 ∨
    (Free ((withoutForward k r buffer).close r.returnFd) (boundReturn buffer choices) ∧
      (getPortNumber k r.forwardFd = messagePort buffer 0 ∨
        boundReturn buffer choices ≠ boundForward buffer choices))

instance (k : Kernel) (r : Router) (buffer : List UInt8) (choices : UInt16 × UInt16) :
    Decidable (PortsFree k r buffer choices) :=
  decidable_of_iff (_ ∧ _) ⟨fun h => ⟨h.1, h.2⟩, fun h => ⟨h.1, h.2⟩⟩

/-- The result of the forward half of `update_forwardings`. -/
def forwardHalf (k : Kernel) (r : Router) (buffer : List UInt8) (choices : UInt16 × UInt16) :
    Option ℕ × ForwardingPath × Kernel :=
  updateReceivePort k r.forwardFd r.forwardPath (decodeZzconfig buffer .zero .zero).1 choices.1

/-- The result of the return half of `update_forwardings`. -/
def returnHalf (k : Kernel) (r : Router) (buffer : List UInt8) (choices : UInt16 × UInt16) :
    Option ℕ × ForwardingPath × Kernel :=
  updateReceivePort (forwardHalf k r buffer choices).2.2 r.returnFd r.returnPath
    (decodeZzconfig buffer .zero .zero).2 choices.2

/-- A new port is asked for, and `create_and_bind_udp_socket` returns -1. -/
def CannotBind (k : Kernel) (r : Router) (buffer : List UInt8) (choices : UInt16 × UInt16) :
    Prop :=
  (getPortNumber k r.forwardFd ≠ messagePort buffer 0 ∧
      (forwardHalf k r buffer choices).1 = none) ∨
    (getPortNumber (forwardHalf k r buffer choices).2.2 r.returnFd ≠ messagePort buffer 8 ∧
      (returnHalf k r buffer choices).1 = none)

/-- The data sockets are open on their ports and the tables are unchanged. -/
structure AsBefore (k : Kernel) (r : Router) (result : Router × Kernel) : Prop where
  forwardFd : result.1.forwardFd ≠ none
  returnFd : result.1.returnFd ≠ none
  forwardPort : getPortNumber result.2 result.1.forwardFd = getPortNumber k r.forwardFd
  returnPort : getPortNumber result.2 result.1.returnFd = getPortNumber k r.returnFd
  forwardPath : result.1.forwardPath = r.forwardPath
  returnPath : result.1.returnPath = r.returnPath

/-- The descriptors that are not -1 are different open sockets. -/
structure Router.Open (r : Router) (k : Kernel) : Prop where
  control : ∀ fd, r.controlFd = some fd → k.portOf fd ≠ none
  forward : ∀ fd, r.forwardFd = some fd → k.portOf fd ≠ none ∧ r.controlFd ≠ some fd
  returned : ∀ fd, r.returnFd = some fd →
    k.portOf fd ≠ none ∧ r.controlFd ≠ some fd ∧ r.forwardFd ≠ some fd

/-! ## The update of one port -/

theorem toNat_messagePort (buffer : List UInt8) (offset : ℕ) :
    (messagePort buffer offset).toNat = loadLE (bytesAt buffer offset 2) := by
  have hlen : (bytesAt buffer offset 2).length ≤ 2 := List.length_take_le _ _
  have hlt := loadLE_lt (bytesAt buffer offset 2)
  have hpow : 256 ^ (bytesAt buffer offset 2).length ≤ 256 ^ 2 :=
    Nat.pow_le_pow_right (by decide) hlen
  exact UInt16.toNat_ofNat_of_lt' (Nat.lt_of_lt_of_le hlt hpow)

/-- The texts of a decoded path are printed numbers. -/
theorem texts_decodePath (buffer : List UInt8) (offset : ℕ) (path : ForwardingPath) :
    (decodePath buffer offset path).texts =
      [numeral (messagePort buffer offset).toNat, numeral (messagePort buffer (offset + 2)).toNat,
        inetNtop (bytesAt buffer (offset + 4) 4)] := by
  rw [toNat_messagePort, toNat_messagePort]
  exact texts_printPath path

theorem BindFailed.not_free {k : Kernel} {port : UInt16} {result : Option ℕ × Kernel}
    (h : BindFailed k port result) : ¬ Free k port := by
  rintro ⟨hne, hfree⟩
  rcases h.held with hzero | hheld
  · exact hne hzero
  · rw [hfree] at hheld
    cases hheld

theorem cString_receivePort_decodePath (buffer : List UInt8) (offset : ℕ)
    (path : ForwardingPath) : cString (decodePath buffer offset path).receivePort =
      numeral (messagePort buffer offset).toNat :=
  (List.cons.inj (texts_decodePath buffer offset path)).1

section updateReceivePort

variable (k : Kernel) (fd : Option ℕ) (path : ForwardingPath) (choice : UInt16)
  {new : ForwardingPath} {port : UInt16}

/-- **What the update of one port can do.** -/
theorem updateReceivePort_cases (hnew : cString new.receivePort = numeral port.toNat) :
    (getPortNumber k fd = port ∧ updateReceivePort k fd path new choice = (fd, path, k)) ∨
    (getPortNumber k fd ≠ port ∧ ∃ result,
      (BindFailed (k.close fd) (boundPort port choice) result ∨
        Bound (k.close fd) (boundPort port choice) result) ∧
      updateReceivePort k fd path new choice =
        (result.1, { path with receivePort := strncpy (numeral port.toNat) portStrlen },
          result.2)) := by
  have hport : UInt16.ofNat (strtoul0 (cString new.receivePort)) = port := by
    rw [hnew, strtoul0_numeral (Nat.lt_trans port.toNat_lt (by decide)), UInt16.ofNat_toNat]
  rw [updateReceivePort, hport]
  by_cases h : getPortNumber k fd = port
  · exact .inl ⟨h, if_neg (not_not_intro h)⟩
  · refine .inr ⟨h, _, createAndBindUdpSocket_cases (k.close fd)
      ((congrArg serviceNumber hnew).trans (serviceNumber_port port)) choice, ?_⟩
    rw [if_pos h, ← hnew]

/-- When the update of one port fails. -/
theorem updateReceivePort_fails_iff (hnew : cString new.receivePort = numeral port.toNat) :
    (getPortNumber k fd ≠ port ∧ (updateReceivePort k fd path new choice).1 = none) ↔
      ¬ (getPortNumber k fd = port ∨ Free (k.close fd) (boundPort port choice)) := by
  rcases updateReceivePort_cases k fd path choice hnew with
    ⟨hkeep, -⟩ | ⟨hchange, result, hfailed | hbound, heq⟩
  · simp [hkeep]
  · rw [heq, or_iff_right hchange]
    exact ⟨fun _ => hfailed.not_free, fun _ => ⟨hchange, hfailed.fd⟩⟩
  · rw [heq]
    constructor
    · rintro ⟨-, hnone⟩
      rw [hbound.fd] at hnone
      cases hnone
    · intro hnot
      exact absurd (.inr hbound.free) hnot

/-- **The update of a port that can be bound.** As long as all lower numbers are in use, the socket
keeps its number. -/
theorem updateReceivePort_eq_of_free {n : ℕ}
    (hnew : cString new.receivePort = numeral port.toNat) (hused : ∀ i < n, k.desc i ≠ none)
    (hopen : k.portOf n ≠ none)
    (hfree : getPortNumber k (some n) = port ∨
      Free (k.close (some n)) (boundPort port choice)) :
    let result := updateReceivePort k (some n) path new choice
    result.1 = some n ∧ (∀ i, i ≠ n → result.2.2.desc i = k.desc i) ∧
      result.2.2.portOf n ≠ none ∧
      (getPortNumber k (some n) = port → result.2.2.desc n = k.desc n) := by
  rcases updateReceivePort_cases k (some n) path choice hnew with
    ⟨-, heq⟩ | ⟨hchange, result, hfailed | hbound, heq⟩
  · simp only [heq, true_and, implies_true, and_true]
    exact hopen
  · exact absurd (hfree.resolve_left hchange) hfailed.not_free
  · have hlowest : (k.close (some n)).lowestFree = n := by
      apply Kernel.lowestFree_eq
      · rw [Kernel.desc_close, if_pos rfl]
      · intro i hi
        rw [Kernel.desc_close, if_neg (by simpa using Nat.ne_of_gt hi)]
        exact hused i hi
    simp only [heq]
    refine ⟨by rw [hbound.fd, hlowest], ?_, ?_, fun h => absurd h hchange⟩
    · intro i hi
      rw [hbound.desc, hlowest, if_neg hi, Kernel.desc_close, if_neg (by simpa using hi.symm)]
    · rw [Kernel.portOf, hbound.desc, hlowest, if_pos rfl]
      exact Option.some_ne_none _

/-- The other open sockets stay open and keep their numbers for themselves, and the descriptor
behind the update is -1 or an open socket. -/
theorem updateReceivePort_open (hnew : cString new.receivePort = numeral port.toNat)
    (hopen : ∀ n, fd = some n → k.portOf n ≠ none) :
    let result := updateReceivePort k fd path new choice
    (∀ j, k.portOf j ≠ none → fd ≠ some j → result.2.2.portOf j ≠ none ∧ result.1 ≠ some j) ∧
      ∀ n, result.1 = some n → result.2.2.portOf n ≠ none := by
  have hclose : ∀ j, fd ≠ some j → (k.close fd).desc j = k.desc j := by
    intro j hj
    rw [Kernel.desc_close, if_neg hj]
  rcases updateReceivePort_cases k fd path choice hnew with
    ⟨-, heq⟩ | ⟨-, result, hfailed | hbound, heq⟩
  · simp only [heq]
    exact ⟨fun j hj hne => ⟨hj, hne⟩, hopen⟩
  · simp only [heq, hfailed.fd]
    refine ⟨fun j hj hne => ⟨?_, nofun⟩, nofun⟩
    rw [Kernel.portOf_congr ((hfailed.desc j).trans (hclose j hne))]
    exact hj
  · simp only [heq, hbound.fd]
    refine ⟨fun j hj hne => ?_, ?_⟩
    · have hlowest : j ≠ (k.close fd).lowestFree := by
        rintro rfl
        apply Kernel.desc_ne_none_of_portOf hj
        rw [← hclose _ hne, Kernel.desc_lowestFree]
      rw [hbound.portOf_of_ne hlowest, Kernel.portOf_congr (hclose j hne)]
      exact ⟨hj, fun h => hlowest (Option.some.inj h).symm⟩
    · intro n hn
      rw [← Option.some.inj hn]
      exact hbound.portOf_self

end updateReceivePort

/-! ## The two halves -/

variable {k : Kernel} {r : Router} {buffer : List UInt8} {choices : UInt16 × UInt16}

theorem forwardHalf_cases (k : Kernel) (r : Router) (buffer : List UInt8)
    (choices : UInt16 × UInt16) :
    (getPortNumber k r.forwardFd = messagePort buffer 0 ∧
      forwardHalf k r buffer choices = (r.forwardFd, r.forwardPath, k)) ∨
    (getPortNumber k r.forwardFd ≠ messagePort buffer 0 ∧ ∃ result,
      (BindFailed (k.close r.forwardFd) (boundForward buffer choices) result ∨
        Bound (k.close r.forwardFd) (boundForward buffer choices) result) ∧
      forwardHalf k r buffer choices = (result.1, { r.forwardPath with
        receivePort := strncpy (numeral (messagePort buffer 0).toNat) portStrlen }, result.2)) :=
  updateReceivePort_cases _ _ _ _ (cString_receivePort_decodePath buffer 0 .zero)

/-- The return socket and the ports that stand in its way, behind the forward half. -/
theorem forwardHalf_kernel (hopen : r.Open k)
    (hforward : getPortNumber k r.forwardFd = messagePort buffer 0 ∨
      Free (k.close r.forwardFd) (boundForward buffer choices)) (p : UInt16) :
    let k' := (forwardHalf k r buffer choices).2.2
    getPortNumber k' r.returnFd = getPortNumber k r.returnFd ∧
      (Free (k'.close r.returnFd) p ↔ Free ((withoutForward k r buffer).close r.returnFd) p ∧
        (getPortNumber k r.forwardFd = messagePort buffer 0 ∨
          p ≠ boundForward buffer choices)) := by
  rcases forwardHalf_cases k r buffer choices with
    ⟨hkeep, heq⟩ | ⟨hchange, result, hfailed | hbound, heq⟩
  · simp only [heq, withoutForward, hkeep, if_true, true_or, and_true, and_self]
  · exact absurd (hforward.resolve_left hchange) hfailed.not_free
  · -- The new socket has a number of its own, since the return socket is open.
    have hreturn : r.returnFd ≠ some (k.close r.forwardFd).lowestFree := by
      intro h
      obtain ⟨hport, -, hne⟩ := hopen.returned _ h
      have hnone := (k.close r.forwardFd).desc_lowestFree
      rw [Kernel.desc_close, if_neg hne] at hnone
      apply hport
      rw [Kernel.portOf, hnone]
    have hclose : getPortNumber (k.close r.forwardFd) r.returnFd = getPortNumber k r.returnFd := by
      cases h : r.returnFd with
      | none => rfl
      | some fd =>
        simp only [getPortNumber, Option.bind_some, Kernel.portOf, Kernel.desc_close,
          if_neg (hopen.returned fd h).2.2]
    simp only [heq, withoutForward, if_neg hchange]
    refine ⟨(hbound.getPortNumber hreturn).trans hclose, ?_⟩
    rw [Free, Free, ← Bool.not_eq_true, ← Bool.not_eq_true, hbound.holds_close_iff hreturn, not_or,
      or_iff_right hchange]
    constructor
    · rintro ⟨hne, hp, hfree⟩
      exact ⟨⟨hne, hfree⟩, hp⟩
    · rintro ⟨⟨hne, hfree⟩, hp⟩
      exact ⟨hne, hp, hfree⟩

/-- **When a port cannot be bound.** -/
theorem cannotBind_iff (hopen : r.Open k) :
    CannotBind k r buffer choices ↔ ¬ PortsFree k r buffer choices := by
  have hforward := updateReceivePort_fails_iff k r.forwardFd r.forwardPath choices.1
    (cString_receivePort_decodePath buffer 0 .zero)
  have hreturn := updateReceivePort_fails_iff (forwardHalf k r buffer choices).2.2 r.returnFd
    r.returnPath choices.2 (cString_receivePort_decodePath buffer 8 .zero)
  rw [CannotBind, forwardHalf, returnHalf]
  refine (or_congr hforward hreturn).trans ?_
  by_cases hfree : getPortNumber k r.forwardFd = messagePort buffer 0 ∨
      Free (k.close r.forwardFd) (boundForward buffer choices)
  · obtain ⟨hport, hiff⟩ := forwardHalf_kernel hopen hfree (boundReturn buffer choices)
    rw [hport]
    constructor
    · rintro (h | h) hports
      · exact h hports.forward
      · exact h (hports.returned.imp_right hiff.mpr)
    · intro hports
      apply Or.inr
      intro h
      exact hports ⟨hfree, h.imp_right hiff.mp⟩
  · exact iff_of_true (.inl hfree) fun hports => hfree hports.forward

/-- A port that cannot be bound leaves the descriptor -1. -/
theorem not_asBefore_of_cannotBind (h : CannotBind k r buffer choices) :
    ¬ AsBefore k r (updateForwardings k r buffer choices) := by
  intro hbefore
  rcases h with ⟨-, hnone⟩ | ⟨-, hnone⟩
  · exact hbefore.forwardFd hnone
  · exact hbefore.returnFd hnone

/-- **Atomic reconfiguration.** For every router with open sockets and every message: a
reconfiguration that cannot bind one of its ports leaves the router as before, if and only if the
ports can be bound. -/
theorem updateForwardings_atomic_iff (k : Kernel) (r : Router) (buffer : List UInt8)
    (choices : UInt16 × UInt16) (hopen : r.Open k) :
    (CannotBind k r buffer choices → AsBefore k r (updateForwardings k r buffer choices)) ↔
      PortsFree k r buffer choices := by
  constructor
  · intro h
    by_contra hports
    have hcannot := (cannotBind_iff hopen).mpr hports
    exact not_asBefore_of_cannotBind hcannot (h hcannot)
  · intro hports hcannot
    exact absurd hports ((cannotBind_iff hopen).mp hcannot)

/-! ## The routers that occur -/

theorem Router.Open.congr {k' : Kernel} (h : r.Open k) (hport : ∀ i, k'.portOf i = k.portOf i) :
    r.Open k' where
  control fd hfd := by rw [hport]; exact h.control fd hfd
  forward fd hfd := by rw [hport]; exact h.forward fd hfd
  returned fd hfd := by rw [hport]; exact h.returned fd hfd

/-- A reconfiguration leaves different open sockets, whether it can bind its ports or not. -/
theorem updateForwardings_open (h : r.Open k) :
    (updateForwardings k r buffer choices).1.Open (updateForwardings k r buffer choices).2 := by
  obtain ⟨hother, hopen⟩ := updateReceivePort_open k r.forwardFd r.forwardPath choices.1
    (cString_receivePort_decodePath buffer 0 .zero) fun n hn => (h.forward n hn).1
  obtain ⟨hother', hopen'⟩ := updateReceivePort_open (forwardHalf k r buffer choices).2.2
    r.returnFd r.returnPath choices.2 (cString_receivePort_decodePath buffer 8 .zero)
    fun n hn => (hother n (h.returned n hn).1 (h.returned n hn).2.2).1
  have hcontrol : ∀ c, r.controlFd = some c →
      (returnHalf k r buffer choices).2.2.portOf c ≠ none ∧
        (forwardHalf k r buffer choices).1 ≠ some c ∧
          (returnHalf k r buffer choices).1 ≠ some c := by
    intro c hc
    obtain ⟨hport, hne⟩ := hother c (h.control c hc) fun hf => (h.forward c hf).2 hc
    obtain ⟨hport', hne'⟩ := hother' c hport fun ht => (h.returned c ht).2.1 hc
    exact ⟨hport', hne, hne'⟩
  have hforward : ∀ f, (forwardHalf k r buffer choices).1 = some f →
      (returnHalf k r buffer choices).2.2.portOf f ≠ none ∧
        (returnHalf k r buffer choices).1 ≠ some f := by
    intro f hf
    refine hother' f (hopen f hf) fun ht => ?_
    exact (hother f (h.returned f ht).1 (h.returned f ht).2.2).2 hf
  refine ⟨fun c hc => (hcontrol c hc).1, fun f hf => ⟨(hforward f hf).1, fun hc => ?_⟩,
    fun t ht => ⟨hopen' t ht, fun hc => ?_, fun hf => ?_⟩⟩
  · exact (hcontrol f hc).2.1 hf
  · exact (hcontrol t hc).2.2 ht
  · exact (hforward t hf).2 ht

/-- The control, forward and return sockets on the ports 10000, 30001 and 30002; another process
holds the given ports. -/
def threeSockets (others : List UInt16) : Kernel :=
  ⟨[some .file, some .file, some .file, some (.socket 10000 []), some (.socket 30001 []),
    some (.socket 30002 [])], others⟩

/-- The router on these sockets, before the first control message. -/
def freshRouter : Router := ⟨some 3, some 4, some 5, .zero, .zero⟩

theorem freshRouter_open (others : List UInt16) : freshRouter.Open (threeSockets others) where
  control := by
    rintro fd ⟨⟩
    exact Option.some_ne_none _
  forward := by
    rintro fd ⟨⟩
    exact ⟨Option.some_ne_none _, by decide⟩
  returned := by
    rintro fd ⟨⟩
    exact ⟨Option.some_ne_none _, by decide, by decide⟩

/-- With the ports 10001 and 10002 free, the reconfiguration is atomic. -/
theorem updateForwardings_atomic_fillInMessage :
    PortsFree (threeSockets []) freshRouter fillInMessage (0, 0) ∧
      ((CannotBind (threeSockets []) freshRouter fillInMessage (0, 0) →
        AsBefore (threeSockets []) freshRouter
          (updateForwardings (threeSockets []) freshRouter fillInMessage (0, 0))) ↔
        PortsFree (threeSockets []) freshRouter fillInMessage (0, 0)) :=
  ⟨by decide, updateForwardings_atomic_iff _ _ _ _ (freshRouter_open [])⟩

/-- Another process holds port 10001: the forward socket is closed, and its descriptor is -1. -/
theorem updateForwardings_port_taken :
    freshRouter.Open (threeSockets [10001]) ∧
      CannotBind (threeSockets [10001]) freshRouter fillInMessage (0, 0) ∧
      (updateForwardings (threeSockets [10001]) freshRouter fillInMessage (0, 0)).1.forwardFd =
        none ∧
      ¬ AsBefore (threeSockets [10001]) freshRouter
        (updateForwardings (threeSockets [10001]) freshRouter fillInMessage (0, 0)) := by
  have hnone : (updateForwardings (threeSockets [10001]) freshRouter fillInMessage
      (0, 0)).1.forwardFd = none := by decide
  exact ⟨freshRouter_open _, .inl ⟨by decide, hnone⟩, hnone, fun h => h.forwardFd hnone⟩

end CS536Labs.Lab6
