import CS536Labs.Lab6.SatisfiableUpdate

/-!
# Datagrams that `recvfrom` cuts off

`recvfrom` stores as much of a datagram as its buffer takes and discards the rest. The check of
`update_forwardings` for the size of a message sees the length that is left: the buffer has exactly
that size, and a longer datagram passes. `forward_data` sends on what is left of the payload.

* `updateForwardings_unchanged_iff`: a message leaves sockets and tables as they are, whatever ports
  the kernel chooses, exactly when it asks for what is in place.
* `actsOnWhole_iff`: the router never acts on a part of the datagram exactly when the datagram fits
  the buffer or the part has no effect.
-/

namespace CS536Labs.Lab6

open Udp

/-- The socket that the next step receives from. -/
def System.receivingFd (s : System) : Option ℕ :=
  match s.ctl with
  | .recvControl _ => s.router.controlFd
  | .recvForward _ => s.router.forwardFd
  | .recvReturn => s.router.returnFd
  | _ => none

/-- The datagram that the next step receives, as it arrived. -/
def System.incoming (s : System) : Option Datagram :=
  s.receivingFd.bind fun fd => (s.kernel.queueOf fd).head?

/-- Whatever the kernel does, a control datagram of the wrong length leaves the sockets and the
tables as they are, and a data datagram is sent on with its payload or not at all. -/
structure ActsOnWhole (resolve : List UInt8 → Option Ipv4) (s : System) (d : Datagram) : Prop where
  control : ∀ readFds, s.ctl = .recvControl readFds → d.data.length ≠ zzconfigSize →
    ∀ choices sendOk s', s.process resolve choices sendOk = some s' →
      s'.router = s.router ∧ ∀ fd, s'.kernel.portOf fd = s.kernel.portOf fd
  data : (∃ readFds, s.ctl = .recvForward readFds) ∨ s.ctl = .recvReturn →
    ∀ choices sendOk s', s.process resolve choices sendOk = some s' →
      s'.sent = s.sent ∨ ∃ p : Packet, p.data = d.data ∧ s'.sent = s.sent ++ [p]

/-- The table has the send address of the path at the offset. -/
structure ForwardingPath.HasAddress (path : ForwardingPath) (buffer : List UInt8) (offset : ℕ) :
    Prop where
  sendPort : path.sendPort = strncpy (numeral (messagePort buffer (offset + 2)).toNat) portStrlen
  sendIp : path.sendIp = strncpy (inetNtop (bytesAt buffer (offset + 4) 4)) inetAddrstrlen

/-- The message asks for the ports and the addresses that the router has. -/
structure InPlace (k : Kernel) (r : Router) (buffer : List UInt8) : Prop where
  forwardPort : getPortNumber k r.forwardFd = messagePort buffer 0
  returnPort : getPortNumber k r.returnFd = messagePort buffer 8
  forwardPath : r.forwardPath.HasAddress buffer 0
  returnPath : r.returnPath.HasAddress buffer 8

/-- The datagram fits the buffer; or its beginning is a message that asks for what is in place, or
a payload with no place to go. -/
structure CutHarmless (resolve : List UInt8 → Option Ipv4) (s : System) (d : Datagram) :
    Prop where
  control : ∀ readFds, s.ctl = .recvControl readFds →
    d.data.length ≤ zzconfigSize ∨ InPlace s.kernel s.router (d.data.take zzconfigSize)
  forward : ∀ readFds, s.ctl = .recvForward readFds → d.data.length ≤ bufferSize ∨
    sendable (sendAddress resolve s.router.forwardPath) = none ∨ s.router.returnFd = none
  returned : s.ctl = .recvReturn →
    d.data.length ≤ bufferSize ∨ sendable (sendAddress resolve s.router.returnPath) = none

/-! ## The update of one port -/

section updateReceivePort

variable {k : Kernel} {fd : Option ℕ} {path new : ForwardingPath} {port : UInt16}

theorem updateReceivePort_of_port (hnew : cString new.receivePort = numeral port.toNat)
    (hport : getPortNumber k fd = port) (choice : UInt16) :
    updateReceivePort k fd path new choice = (fd, path, k) := by
  rcases updateReceivePort_cases k fd path choice hnew with ⟨-, heq⟩ | ⟨hne, -⟩
  · exact heq
  · exact absurd hport hne

/-- A socket that is updated leaves its port, unless the kernel chooses that port again. -/
theorem updateReceivePort_leaves (path : ForwardingPath)
    (hnew : cString new.receivePort = numeral port.toNat) {old : UInt16}
    (hold : fd.bind k.portOf = some old) (hne : old ≠ port) {choice : UInt16}
    (hchoice : choice ≠ old) :
    let result := updateReceivePort k fd path new choice
    result.1.bind result.2.2.portOf ≠ some old := by
  rcases updateReceivePort_cases k fd path choice hnew with
    ⟨hkeep, -⟩ | ⟨-, result, hfailed | hbound, heq⟩
  · exact absurd (hkeep.symm.trans (getPortNumber_of_bind hold)).symm hne
  · simp only [heq, hfailed.fd]
    exact nofun
  · have hport : boundPort port choice ≠ old := by
      rw [boundPort]
      split_ifs
      · exact hchoice
      · exact hne.symm
    simp only [heq, hbound.fd, Option.bind_some, Kernel.portOf, hbound.desc, if_true]
    exact fun h => hport (Option.some.inj h)

end updateReceivePort

/-! ## A message without effect -/

variable {k : Kernel} {r : Router} {buffer : List UInt8}

theorem updateSendAddress_eq_iff (path : ForwardingPath) (buffer : List UInt8) (offset : ℕ) :
    updateSendAddress path (decodePath buffer offset .zero) = path ↔
      path.HasAddress buffer offset := by
  obtain ⟨-, htail⟩ := List.cons.inj (texts_decodePath buffer offset .zero)
  obtain ⟨hport, htail⟩ := List.cons.inj htail
  obtain ⟨hip, -⟩ := List.cons.inj htail
  rw [updateSendAddress, hport, hip]
  constructor
  · intro h
    exact ⟨(congrArg ForwardingPath.sendPort h).symm, (congrArg ForwardingPath.sendIp h).symm⟩
  · rintro ⟨h, h'⟩
    rw [← h, ← h']

/-- With both ports in place, only the send addresses are stored. -/
theorem updateForwardings_of_ports (hport : getPortNumber k r.forwardFd = messagePort buffer 0)
    (hport' : getPortNumber k r.returnFd = messagePort buffer 8) (choices : UInt16 × UInt16) :
    updateForwardings k r buffer choices = ({ r with
      forwardPath := updateSendAddress r.forwardPath (decodePath buffer 0 .zero)
      returnPath := updateSendAddress r.returnPath (decodePath buffer 8 .zero) }, k) := by
  simp only [updateForwardings, decodeZzconfig,
    updateReceivePort_of_port (cString_receivePort_decodePath buffer 0 .zero) hport,
    updateReceivePort_of_port (cString_receivePort_decodePath buffer 8 .zero) hport']

/-- A new forward port is bound, or the forward descriptor changes. -/
theorem forwardPort_of_unchanged (hopen : r.Open k) {f : UInt16}
    (hf : r.forwardFd.bind k.portOf = some f) (hne : r.forwardFd ≠ r.returnFd)
    (h : ∀ choices, (updateForwardings k r buffer choices).1 = r ∧
      ∀ fd, (updateForwardings k r buffer choices).2.portOf fd = k.portOf fd) :
    f = messagePort buffer 0 := by
  by_contra hchange
  obtain ⟨hrouter, hports⟩ := h (f + 1, 0)
  have hnew := cString_receivePort_decodePath buffer 0 .zero
  have hfd : (forwardHalf k r buffer (f + 1, 0)).1 = r.forwardFd :=
    congrArg Router.forwardFd hrouter
  have hleaves := updateReceivePort_leaves r.forwardPath hnew hf hchange
    (by simp : f + 1 ≠ f)
  obtain ⟨-, hbound⟩ := updateReceivePort_open k r.forwardFd r.forwardPath (f + 1) hnew
    fun n hn => (hopen.forward n hn).1
  obtain ⟨i, hi, hport⟩ := Option.bind_eq_some_iff.mp hf
  obtain ⟨p, hp⟩ := Option.ne_none_iff_exists'.mp (hbound i (hfd.trans hi))
  -- the update of the return port leaves the forward socket alone
  have hkeeps := updateReceivePort_keeps (forwardHalf k r buffer (f + 1, 0)).2.2 r.returnPath
    (cString_receivePort_decodePath buffer 8 .zero) 0 hne (p := p) (by rw [hi]; exact hp)
  rw [hi, Option.bind_some] at hkeeps
  have hsame : some p = some f := by
    rw [← hport, ← hports i, ← hkeeps]
    rfl
  apply hleaves
  rw [← hsame, ← hp]
  exact congrArg (Option.bind · _) (hfd.trans hi)

/-- A new return port is bound, or the return descriptor changes. -/
theorem returnPort_of_unchanged (hport : getPortNumber k r.forwardFd = messagePort buffer 0)
    {t : UInt16} (ht : r.returnFd.bind k.portOf = some t)
    (h : ∀ choices, (updateForwardings k r buffer choices).1 = r ∧
      ∀ fd, (updateForwardings k r buffer choices).2.portOf fd = k.portOf fd) :
    t = messagePort buffer 8 := by
  by_contra hchange
  obtain ⟨hrouter, hports⟩ := h (0, t + 1)
  have hleaves := updateReceivePort_leaves r.returnPath
    (cString_receivePort_decodePath buffer 8 .zero) ht hchange (by simp : t + 1 ≠ t)
  have hreturn : returnHalf k r buffer (0, t + 1) =
      updateReceivePort k r.returnFd r.returnPath (decodePath buffer 8 .zero) (t + 1) := by
    rw [returnHalf, forwardHalf, decodeZzconfig,
      updateReceivePort_of_port (cString_receivePort_decodePath buffer 0 .zero) hport]
  have hfd : (returnHalf k r buffer (0, t + 1)).1 = r.returnFd := congrArg Router.returnFd hrouter
  have hkernel : (returnHalf k r buffer (0, t + 1)).2.2.portOf = k.portOf := funext hports
  rw [hreturn] at hfd hkernel
  apply hleaves
  rw [hfd, hkernel, ht]

/-- **A message without effect.** Whatever ports the kernel chooses, it leaves the descriptors, the
tables and the ports as they are if and only if it asks for what is in place. -/
theorem updateForwardings_unchanged_iff (buffer : List UInt8) (hopen : r.Open k) {f t : UInt16}
    (hf : r.forwardFd.bind k.portOf = some f) (ht : r.returnFd.bind k.portOf = some t) :
    (∀ choices, (updateForwardings k r buffer choices).1 = r ∧
      ∀ fd, (updateForwardings k r buffer choices).2.portOf fd = k.portOf fd) ↔
      InPlace k r buffer := by
  have hne : r.forwardFd ≠ r.returnFd := by
    obtain ⟨j, hj, -⟩ := Option.bind_eq_some_iff.mp ht
    rw [hj]
    exact (hopen.returned j hj).2.2
  constructor
  · intro h
    have hport : getPortNumber k r.forwardFd = messagePort buffer 0 := by
      rw [getPortNumber_of_bind hf, forwardPort_of_unchanged hopen hf hne h]
    have hport' : getPortNumber k r.returnFd = messagePort buffer 8 := by
      rw [getPortNumber_of_bind ht, returnPort_of_unchanged hport ht h]
    have hrouter := (h (0, 0)).1
    rw [updateForwardings_of_ports hport hport'] at hrouter
    exact ⟨hport, hport', (updateSendAddress_eq_iff _ _ _).mp (congrArg Router.forwardPath hrouter),
      (updateSendAddress_eq_iff _ _ _).mp (congrArg Router.returnPath hrouter)⟩
  · rintro ⟨hport, hport', haddress, haddress'⟩ choices
    rw [updateForwardings_of_ports hport hport', (updateSendAddress_eq_iff _ _ _).mpr haddress,
      (updateSendAddress_eq_iff _ _ _).mpr haddress']
    exact ⟨rfl, fun _ => rfl⟩

/-! ## The descriptors in front of a control message -/

/-- `select` was called with open data sockets, and nothing has happened to them since. -/
def System.DataFds (s : System) : Prop :=
  match s.ctl with
  | .testControl _ | .recvControl _ => s.router.forwardFd ≠ none ∧ s.router.returnFd ≠ none
  | _ => True

theorem System.DataFds.process {resolve : List UInt8 → Option Ipv4} {s s' : System}
    {choices : UInt16 × UInt16} {sendOk : Bool} (h : s.DataFds)
    (hstep : s.process resolve choices sendOk = some s') : s'.DataFds := by
  rw [System.process] at hstep
  cases hctl : s.ctl with
  | select =>
    simp only [hctl] at hstep
    split at hstep
    · rename_i _ forwardFd returnFd _ hforward hreturn
      split_ifs at hstep
      obtain rfl := Option.some.inj hstep
      refine ⟨?_, ?_⟩
      · rw [hforward]
        exact Option.some_ne_none _
      · rw [hreturn]
        exact Option.some_ne_none _
    · cases hstep
  | testControl readFds =>
    simp only [System.DataFds, hctl] at h
    simp only [hctl] at hstep
    obtain ⟨fd, -, rfl⟩ := Option.map_eq_some_iff.mp hstep
    rw [System.DataFds]
    split_ifs
    · exact h
    · trivial
  | recvControl readFds =>
    simp only [hctl] at hstep
    obtain ⟨⟨d, k⟩, -, rfl⟩ := Option.map_eq_some_iff.mp hstep
    rw [System.control]
    split_ifs <;> trivial
  | testForward readFds | testReturn readFds =>
    simp only [hctl] at hstep
    obtain ⟨fd, -, rfl⟩ := Option.map_eq_some_iff.mp hstep
    rw [System.DataFds]
    split_ifs <;> trivial
  | recvForward readFds =>
    simp only [hctl] at hstep
    obtain ⟨⟨d, k⟩, -, rfl⟩ := Option.map_eq_some_iff.mp hstep
    simp only [System.DataFds, System.forwardData, System.ctl_sendto]
  | recvReturn =>
    simp only [hctl] at hstep
    obtain ⟨⟨d, k⟩, -, rfl⟩ := Option.map_eq_some_iff.mp hstep
    simp only [System.DataFds, System.returnData, System.ctl_sendto]

theorem dataFds_of_reachable {resolve : List UInt8 → Option Ipv4} {controlPort : List UInt8}
    {choice choice' choice'' : UInt16} {s₀ s : System}
    (h₀ : start k controlPort choice choice' choice'' = some s₀)
    (h : (zigzagrouter resolve s₀).Reachable s) : s.DataFds := by
  refine h.invariant (I := System.DataFds) ?_ ?_
  · rintro s rfl
    simp only [start] at h₀
    split at h₀
    · obtain rfl := Option.some.inj h₀
      trivial
    · cases h₀
  · rintro s a s' - hs hstep
    cases a with
    | arrive port d =>
      obtain rfl := Option.some.inj hstep
      exact hs
    | process choices sendOk => exact hs.process hstep

/-! ## The step that receives -/

section receive

variable {resolve : List UInt8 → Option Ipv4} {s : System} {d : Datagram} {fd : ℕ}

theorem inPlace_congr {k' : Kernel} (h : k'.portOf = k.portOf) :
    InPlace k' r buffer ↔ InPlace k r buffer := by
  have hport : getPortNumber k' = getPortNumber k := by
    funext fd
    rw [getPortNumber, h, getPortNumber]
  constructor
  · rintro ⟨hforward, hreturn, haddress, haddress'⟩
    exact ⟨by rw [← hport, hforward], by rw [← hport, hreturn], haddress, haddress'⟩
  · rintro ⟨hforward, hreturn, haddress, haddress'⟩
    exact ⟨by rw [hport, hforward], by rw [hport, hreturn], haddress, haddress'⟩

/-- What `sendto` does for a payload that was cut to `n` bytes. -/
theorem sent_sendto_iff (destination : Option Address) (n : ℕ) :
    (∀ sendOk, (s.sendto destination (d.data.take n) sendOk).sent = s.sent ∨
        ∃ p : Packet, p.data = d.data ∧
          (s.sendto destination (d.data.take n) sendOk).sent = s.sent ++ [p]) ↔
      d.data.length ≤ n ∨ sendable destination = none ∨ s.router.returnFd = none := by
  unfold System.sendto
  cases sendable destination with
  | none => simp
  | some destination =>
    cases hfd : s.router.returnFd with
    | none => simp
    | some fd =>
      simp only [reduceCtorEq, or_false]
      constructor
      · intro h
        obtain hsame | ⟨p, hp, hsent⟩ := h true
        · simp at hsame
        · simp only [if_true, List.append_cancel_left_eq, List.cons.injEq, and_true] at hsent
          rw [← hsent] at hp
          have hlen := congrArg List.length hp
          rw [List.length_take] at hlen
          omega
      · intro hlen sendOk
        rw [List.take_of_length_le hlen]
        cases sendOk with
        | false => exact .inl rfl
        | true => exact .inr ⟨⟨getPortNumber s.kernel (some fd), destination, d.data⟩, rfl, rfl⟩

/-- **The control socket.** -/
theorem unchanged_control_iff (hopen : s.router.Open s.kernel)
    (hforward : s.router.forwardFd ≠ none) (hreturn : s.router.returnFd ≠ none) {k : Kernel}
    {readFds : List ℕ}
    (hrecv : s.kernel.recvfrom fd zzconfigSize = some (⟨d.source, d.data.take zzconfigSize⟩, k)) :
    (d.data.length ≠ zzconfigSize → ∀ choices,
      let s' := { s with kernel := k, ctl := .testForward readFds }.control
        ⟨d.source, d.data.take zzconfigSize⟩ choices
      s'.router = s.router ∧ ∀ fd, s'.kernel.portOf fd = s.kernel.portOf fd) ↔
      d.data.length ≤ zzconfigSize ∨ InPlace s.kernel s.router (d.data.take zzconfigSize) := by
  have hport := Kernel.portOf_recvfrom hrecv
  rcases Nat.lt_trichotomy d.data.length zzconfigSize with hlt | heq | hgt
  · refine iff_of_true (fun _ choices => ?_) (.inl hlt.le)
    have hlen : (d.data.take zzconfigSize).length ≠ zzconfigSize := by
      rw [List.length_take]
      omega
    simp only [System.control, if_pos hlen]
    exact ⟨trivial, hport⟩
  · exact iff_of_true (fun hne => absurd heq hne) (.inl heq.le)
  · have hlen : ¬ (d.data.take zzconfigSize).length ≠ zzconfigSize := by
      rw [List.length_take, Nat.min_eq_left hgt.le]
      exact not_not_intro rfl
    obtain ⟨i, hi⟩ := Option.ne_none_iff_exists'.mp hforward
    obtain ⟨j, hj⟩ := Option.ne_none_iff_exists'.mp hreturn
    obtain ⟨f, hf⟩ := Option.ne_none_iff_exists'.mp (hopen.forward i hi).1
    obtain ⟨t, ht⟩ := Option.ne_none_iff_exists'.mp (hopen.returned j hj).1
    have hiff := updateForwardings_unchanged_iff (d.data.take zzconfigSize) (hopen.congr hport)
      (f := f) (t := t) (by rw [hi, Option.bind_some, hport, hf])
      (by rw [hj, Option.bind_some, hport, ht])
    rw [or_iff_right (Nat.not_le_of_lt hgt), ← inPlace_congr (funext hport), ← hiff]
    simp only [System.control, if_neg hlen, ← hport]
    exact ⟨fun h => h (Nat.ne_of_gt hgt), fun h _ => h⟩

theorem actsOnWhole_control_iff {readFds : List ℕ} (hctl : s.ctl = .recvControl readFds)
    {next : UInt16 × UInt16 → System}
    (hprocess : ∀ choices sendOk, s.process resolve choices sendOk = some (next choices)) :
    ActsOnWhole resolve s d ↔ (d.data.length ≠ zzconfigSize → ∀ choices,
      (next choices).router = s.router ∧
        ∀ fd, (next choices).kernel.portOf fd = s.kernel.portOf fd) := by
  constructor
  · intro h hne choices
    exact h.control readFds hctl hne choices true _ (hprocess choices true)
  · intro h
    refine ⟨fun _ _ hne choices sendOk s' hstep => ?_, ?_⟩
    · obtain rfl := Option.some.inj ((hprocess choices sendOk).symm.trans hstep)
      exact h hne choices
    · rintro (⟨_, hctl'⟩ | hctl') <;> cases hctl.symm.trans hctl'

theorem actsOnWhole_data_iff
    (hctl : (∃ readFds, s.ctl = .recvForward readFds) ∨ s.ctl = .recvReturn) {next : Bool → System}
    (hprocess : ∀ choices sendOk, s.process resolve choices sendOk = some (next sendOk)) :
    ActsOnWhole resolve s d ↔ ∀ sendOk, (next sendOk).sent = s.sent ∨
      ∃ p : Packet, p.data = d.data ∧ (next sendOk).sent = s.sent ++ [p] := by
  constructor
  · intro h sendOk
    exact h.data hctl (0, 0) sendOk _ (hprocess (0, 0) sendOk)
  · intro h
    refine ⟨fun readFds hctl' => ?_, fun _ choices sendOk s' hstep => ?_⟩
    · rcases hctl with ⟨_, hctl⟩ | hctl <;> cases hctl.symm.trans hctl'
    · obtain rfl := Option.some.inj ((hprocess choices sendOk).symm.trans hstep)
      exact h sendOk

end receive

/-- **Cut datagrams.** For every state that the router reaches and every datagram that it receives
there, of any length: the router acts on the whole datagram or not at all if and only if the
datagram fits the buffer or what is left of it has no effect. -/
theorem actsOnWhole_iff {resolve : List UInt8 → Option Ipv4} {controlPort : List UInt8}
    {choice choice' choice'' : UInt16} {s₀ s : System}
    (h₀ : start k controlPort choice choice' choice'' = some s₀)
    (h : (zigzagrouter resolve s₀).Reachable s) {d : Datagram} (hd : s.incoming = some d) :
    ActsOnWhole resolve s d ↔ CutHarmless resolve s d := by
  obtain ⟨fd, hfd, hhead⟩ := Option.bind_eq_some_iff.mp hd
  rw [System.receivingFd] at hfd
  cases hctl : s.ctl with
  | select | testControl | testForward | testReturn => simp only [hctl, reduceCtorEq] at hfd
  | recvControl readFds =>
    simp only [hctl] at hfd
    obtain ⟨k', hrecv⟩ := Kernel.recvfrom_of_head? hhead zzconfigSize
    have hfds := dataFds_of_reachable h₀ h
    simp only [System.DataFds, hctl] at hfds
    have hprocess : ∀ choices sendOk, s.process resolve choices sendOk =
        some ({ s with kernel := k', ctl := .testForward readFds }.control
          ⟨d.source, d.data.take zzconfigSize⟩ choices) := by
      intro choices sendOk
      simp only [System.process, hctl, hfd, Option.bind_some, hrecv, Option.map_some]
    rw [actsOnWhole_control_iff hctl hprocess,
      unchanged_control_iff (open_of_reachable h₀ h) hfds.1 hfds.2 hrecv]
    exact ⟨fun hcut => ⟨fun _ _ => hcut, by simp [hctl], by simp [hctl]⟩,
      fun hcut => hcut.control readFds hctl⟩
  | recvForward readFds =>
    simp only [hctl] at hfd
    obtain ⟨k', hrecv⟩ := Kernel.recvfrom_of_head? hhead bufferSize
    have hprocess : ∀ choices sendOk, s.process resolve choices sendOk =
        some ({ s with kernel := k', ctl := .testReturn readFds }.forwardData resolve
          ⟨d.source, d.data.take bufferSize⟩ sendOk) := by
      intro choices sendOk
      simp only [System.process, hctl, hfd, Option.bind_some, hrecv, Option.map_some]
    rw [actsOnWhole_data_iff (.inl ⟨readFds, hctl⟩) hprocess]
    refine (sent_sendto_iff (sendAddress resolve s.router.forwardPath) bufferSize).trans ?_
    exact ⟨fun hcut => ⟨by simp [hctl], fun _ _ => hcut, by simp [hctl]⟩,
      fun hcut => hcut.forward readFds hctl⟩
  | recvReturn =>
    simp only [hctl] at hfd
    obtain ⟨k', hrecv⟩ := Kernel.recvfrom_of_head? hhead bufferSize
    have hprocess : ∀ choices sendOk, s.process resolve choices sendOk =
        some ({ s with kernel := k', ctl := .select }.returnData resolve
          ⟨d.source, d.data.take bufferSize⟩ sendOk) := by
      intro choices sendOk
      simp only [System.process, hctl, hfd, Option.bind_some, hrecv, Option.map_some]
    have hopen : s.router.returnFd ≠ none := by
      rw [hfd]
      exact Option.some_ne_none _
    rw [actsOnWhole_data_iff (.inr hctl) hprocess]
    refine (sent_sendto_iff (sendAddress resolve s.router.returnPath) bufferSize).trans ?_
    rw [or_iff_left hopen]
    exact ⟨fun hcut => ⟨by simp [hctl], by simp [hctl], fun _ => hcut⟩,
      fun hcut => hcut.returned hctl⟩

/-- A data datagram behind a control message is sent on with its payload. -/
theorem actsOnWhole_ping :
    ∃ s s', (zigzagrouter (fun _ => none) started).Reachable s ∧ s.incoming = some ping ∧
      ActsOnWhole (fun _ => none) s ping ∧
      s.process (fun _ => none) (0, 0) true = some s' ∧
      s'.sent = [⟨10002, ⟨⟨127, 0, 0, 1⟩, 20001⟩, ping.data⟩] := by
  have hrun : LTS.run (System.exec fun _ => none) (fun _ _ => True) started
      (.arrive 10000 fillIn :: round ++
        .arrive 10001 ping :: List.replicate 3 (.process (0, 0) true)) = some _ := rfl
  have hreach := (LTS.reachable_of_run (LTS.Reachable.init rfl) hrun).of_restrict
  refine ⟨_, _, hreach, rfl, (actsOnWhole_iff start_eq_started hreach rfl).mpr ?_, rfl, rfl⟩
  exact ⟨nofun, fun _ _ => .inl (by decide), nofun⟩

/-- A control datagram of 17 bytes. -/
def longMessage : Datagram := ⟨⟨⟨127, 0, 0, 1⟩, 5000⟩, fillInMessage ++ [0]⟩

/-- The first 16 bytes of a longer datagram replace the sockets and the tables. -/
theorem not_actsOnWhole_longMessage :
    ∃ s, start stdio controlPort 0 30001 30002 = some started ∧
      (zigzagrouter (fun _ => none) started).Reachable s ∧ s.incoming = some longMessage ∧
        longMessage.data.length = 17 ∧ ¬ ActsOnWhole (fun _ => none) s longMessage := by
  have hrun : LTS.run (System.exec fun _ => none) (fun _ _ => True) started
      [.arrive 10000 longMessage, .process (0, 0) true, .process (0, 0) true] = some _ := rfl
  refine ⟨_, start_eq_started, (LTS.reachable_of_run (LTS.Reachable.init rfl) hrun).of_restrict,
    rfl, rfl, fun h => ?_⟩
  have hports := (h.control [3] rfl (by decide) (0, 0) true _ rfl).2 4
  revert hports
  decide

end CS536Labs.Lab6
