import CS536Labs.Lab6.ControlRound
import CS536Labs.Lab6.Zigzagconf

/-!
# From `zzoverlay.dat` to the network

The entries of `zzoverlay.dat` describe a network when each forward path leads to the forward port
of the next entry, and the return paths lead back in an order of their own (`Describes`). `deployed`
follows such a file through the programs of the lab: `zigzagconf` sends a message for each entry,
every router handles its message in one round of its loop, and then the datagrams of the client come
to the server, and its replies back, hop by hop through rounds of these routers.
-/

namespace CS536Labs.Lab6

open Udp

/-! ## What an entry describes -/

/-- The address of a text in dotted decimal form. -/
def textIp (token : List UInt8) : Ipv4 := ((inetPton token).bind Ipv4.ofBytes).getD .any

/-- The port of a text of digits. -/
def textPort (token : List UInt8) : UInt16 := UInt16.ofNat (decimalValue token)

/-- Where the path sends to. -/
def PathText.sendAddress (text : PathText) : Address := ⟨textIp text.sendIp, textPort text.sendPort⟩

namespace EntryText

def controlAddress (text : EntryText) : Address := ⟨textIp text.ip, textPort text.port⟩

def forwardAddress (text : EntryText) : Address :=
  ⟨textIp text.ip, textPort text.forwardPath.receivePort⟩

def returnAddress (text : EntryText) : Address :=
  ⟨textIp text.ip, textPort text.returnPath.receivePort⟩

end EntryText

/-- The `n` entries are chains from the first router to the server, and back. The sockets of the
client and the server are bound. -/
structure Describes (n : ℕ) (entry : ℕ → EntryText) (order : List ℕ) (client server : Address) :
    Prop where
  client_ne_zero : client.port ≠ 0
  server_ne_zero : server.port ≠ 0
  pos : 0 < n
  forwardChain : ∀ i, i + 1 < n →
    (entry i).forwardPath.sendAddress = (entry (i + 1)).forwardAddress
  forwardLast : (entry (n - 1)).forwardPath.sendAddress = server
  order_lt : ∀ i ∈ order, i < n
  order_head : order.head? = some (n - 1)
  order_last : order.getLast? = some 0
  returnChain : order.IsChain fun i i' =>
    (entry i).returnPath.sendAddress = (entry i').returnAddress
  returnFirst : (entry 0).returnPath.sendAddress = fillInAddress
  nodup : (client :: server :: (List.range n).flatMap fun i =>
    [(entry i).forwardAddress, (entry i).returnAddress]).Nodup

/-- The router waits on the control port of the entry, and the ports of its paths are available. -/
structure Reconfigurable (s : System) (h : Host) (text : EntryText) : Prop where
  ip : h.ip = textIp text.ip
  exclusive : s.kernel.Exclusive
  idle : ∃ returnPath c f t, Idle s h returnPath c f t (textPort text.port)
  distinct : text.forwardAddress.port ≠ text.returnAddress.port
  forward : Available s.kernel h.forwardPort h.returnPort text.forwardAddress.port
  returned : Available s.kernel h.forwardPort h.returnPort text.returnAddress.port
  forward_ne : text.forwardAddress.port ≠ h.returnPort

/-- A router that has just been started, when both ports are free. -/
theorem reconfigurable_of_start {k : Kernel} {port : List UInt8} {choice choice' choice'' : UInt16}
    {s : System} (hstart : start k port choice choice' choice'' = some s) (hk : k.Exclusive)
    {text : EntryText}
    (hcontrol : getPortNumber s.kernel s.router.controlFd = textPort text.port)
    (hdistinct : text.forwardAddress.port ≠ text.returnAddress.port)
    (hforward : Free s.kernel text.forwardAddress.port)
    (hreturned : Free s.kernel text.returnAddress.port) :
    ∃ h, Reconfigurable s h text := by
  obtain ⟨h, c, f, t, hip, hidle⟩ := idle_of_start hstart (textIp text.ip)
  rw [hcontrol] at hidle
  refine ⟨h, hip, exclusive_of_start hk hstart, ⟨_, c, f, t, hidle⟩, hdistinct,
    ⟨hforward.1, .inl hforward.2⟩, ⟨hreturned.1, .inl hreturned.2⟩, ?_⟩
  intro heq
  have hholds : s.kernel.holds h.returnPort = true :=
    (Kernel.holds_iff _ _).mpr (.inr ⟨t, [], hidle.quiet.returned⟩)
  rw [← heq, hforward.2] at hholds
  cases hholds

/-! ## What a message says -/

section Message

variable {buffer : List UInt8} {text : PathText} {entry : EntryText} {m : Message}

/-- The ports and the address of a path in a message. -/
theorem PathText.Agrees.message {offset : ℕ} {old : ForwardingPath}
    (h : text.Agrees (decodePath buffer offset old)) (hoffset : offset + 8 ≤ buffer.length) :
    messagePort buffer offset = textPort text.receivePort ∧
      messageAddress buffer (offset + 2) = text.sendAddress := by
  have htexts := texts_decodePath buffer offset old
  simp only [ForwardingPath.texts, List.cons.injEq, and_true] at htexts
  obtain ⟨hreceive, hsend, hip⟩ := htexts
  have hport := h.receivePort
  have hport' := h.sendPort
  have haddr := h.sendIp
  have hlen : (bytesAt buffer (offset + 4) 4).length = 4 := by
    rw [bytesAt, List.length_take, List.length_drop]
    omega
  rw [hreceive, decimalValue_numeral] at hport
  rw [hsend, decimalValue_numeral] at hport'
  rw [hip, inetPton_inetNtop hlen] at haddr
  refine ⟨?_, ?_⟩
  · rw [textPort, ← hport, UInt16.ofNat_toNat]
  · rw [messageAddress, PathText.sendAddress, textIp, ← haddr, textPort, ← hport',
      UInt16.ofNat_toNat, Option.bind_some]

/-- **The message of an installed entry.** -/
theorem Installed.message (h : Installed entry m) :
    m.destination = entry.controlAddress ∧
      (messagePort m.data 0 = entry.forwardAddress.port ∧
        messageAddress m.data 2 = entry.forwardPath.sendAddress) ∧
      messagePort m.data 8 = entry.returnAddress.port ∧
        messageAddress m.data 10 = entry.returnPath.sendAddress := by
  have hlen : 16 = m.data.length := h.length.symm
  have hip := h.ip
  have hport := h.port
  refine ⟨?_, h.forwardPath.message (by omega), h.returnPath.message (by omega)⟩
  rw [EntryText.controlAddress, textIp, hip, textPort, hport, UInt16.ofNat_toNat,
    Option.bind_some, Ipv4.ofBytes_bytes]
  rfl

/-- The message can be carried out. -/
theorem Reconfigurable.satisfiable {s : System} {h : Host} (hr : Reconfigurable s h entry)
    (hm : Installed entry m) : Satisfiable s.kernel h.forwardPort h.returnPort m.data := by
  obtain ⟨-, ⟨hforward, -⟩, hreturned, -⟩ := hm.message
  refine ⟨hm.length, ?_, ?_, ?_⟩
  · rw [hforward, hreturned]
    exact hr.distinct
  · rw [hforward]
    exact hr.forward
  · rw [hreturned]
    exact hr.returned

end Message

/-! ## The configured routers -/

/-- The host is configured as the entry says. -/
structure Host.Configured (h : Host) (text : EntryText) : Prop where
  forwardAddress : h.forwardAddress = text.forwardAddress
  returnAddress : h.returnAddress = text.returnAddress
  forwardPath : h.forwardPath.SendsTo text.forwardPath.sendAddress
  returnPath : h.returnPath.SendsTo text.returnPath.sendAddress

/-- **The router of an entry** handles its message in one round. -/
theorem Reconfigurable.configured (resolve : List UInt8 → Option Ipv4) {s : System} {h : Host}
    {text : EntryText} {m : Message} (hr : Reconfigurable s h text) (hm : Installed text m)
    (source : Address) :
    ∃ s' h', LTS.run (System.exec resolve) (fun _ _ => True) s
        (arriveAndHandle m.destination.port ⟨source, m.data⟩) = some s' ∧
      Host.Configured h' text ∧
      ∃ c f t controlPort, Idle s' h' h'.returnPath c f t controlPort := by
  obtain ⟨returnPath, c, f, t, hidle⟩ := hr.idle
  obtain ⟨hdestination, ⟨hforward, hsend⟩, hreturned, hsend'⟩ := hm.message
  have hne : messagePort m.data 0 ≠ h.returnPort := by
    rw [hforward]
    exact hr.forward_ne
  obtain ⟨s', h', hrun, hconf, hidle', -⟩ :=
    hidle.control_round resolve hr.exclusive ⟨source, m.data⟩ (hr.satisfiable hm) hne
  have hip := hconf.ip.trans hr.ip
  have hport := hconf.forwardPort.trans hforward
  have hport' := hconf.returnPort.trans hreturned
  have hpath := hconf.forwardPath
  have hpath' := hconf.returnPath
  rw [hsend] at hpath
  rw [hsend'] at hpath'
  refine ⟨s', h', ?_, ⟨?_, ?_, hpath, hpath'⟩, c, f, t, _, hidle'⟩
  · rw [hdestination]
    exact hrun
  · rw [Host.forwardAddress, hip, hport]
    rfl
  · rw [Host.returnAddress, hip, hport']
    rfl

/-- **Configured hosts form the network that the entries describe.** -/
theorem Describes.wellFormed {n : ℕ} {entry : ℕ → EntryText} {order : List ℕ}
    {client server : Address} (h : Describes n entry order client server) {host : ℕ → Host}
    (hhost : ∀ i < n, (host i).Configured (entry i)) :
    Overlay.WellFormed ⟨n, host, order, client, server, h.client_ne_zero, h.server_ne_zero⟩ := by
  have hpos := h.pos
  refine
    { pos := hpos
      forwardChain := ?_
      forwardLast := ?_
      order_lt := h.order_lt
      order_head := h.order_head
      order_last := h.order_last
      returnChain := ?_
      returnFirst := ?_
      nodup := ?_ }
  · intro i hi
    have hi : i + 1 < n := hi
    show (host i).forwardPath.SendsTo (host (i + 1)).forwardAddress
    rw [(hhost (i + 1) hi).forwardAddress, ← h.forwardChain i hi]
    exact (hhost i (by omega)).forwardPath
  · show (host (n - 1)).forwardPath.SendsTo server
    rw [← h.forwardLast]
    exact (hhost (n - 1) (by omega)).forwardPath
  · apply h.returnChain.imp_of_mem_imp
    intro i i' hi hi' hsend
    show (host i).returnPath.SendsTo (host i').returnAddress
    rw [(hhost i' (h.order_lt i' hi')).returnAddress, ← hsend]
    exact (hhost i (h.order_lt i hi)).returnPath
  · show (host 0).returnPath.SendsTo fillInAddress
    rw [← h.returnFirst]
    exact (hhost 0 hpos).returnPath
  · have hsockets : (Overlay.sockets ⟨n, host, order, client, server, h.client_ne_zero,
        h.server_ne_zero⟩).map Prod.fst =
        client :: server :: (List.range n).flatMap fun i =>
          [(entry i).forwardAddress, (entry i).returnAddress] := by
      simp only [Overlay.sockets, List.map_cons, List.map_flatMap, List.map_nil]
      refine congrArg _ (congrArg _ (List.flatMap_congr fun i hi => ?_))
      have hi := List.mem_range.mp hi
      rw [(hhost i hi).forwardAddress, (hhost i hi).returnAddress]
    rw [hsockets]
    exact h.nodup

/-- `zigzagconf` on a file whose entries are valid. -/
theorem zigzagconf_installs (env : Env) {content : Option (List UInt8)} {n : ℕ}
    {entry : ℕ → EntryText} (hread : readOverlay content = some (some ((List.range n).map entry)))
    (hsocket : env.socketOk = true) (hsend : ∀ i < n, env.sendOk i = true)
    (hentry : ∀ i < n, (entry i).Valid ∧ (entry i).Plain) :
    ∃ outcome, zigzagconf env content = some outcome ∧ outcome.status = 0 ∧
      ∀ i < n, ∃ r m, outcome.results[i]? = some (r, some m) ∧ Installed (entry i) m := by
  have hstored : ∀ i < n, (entry i).Stored := fun i hi => (hentry i hi).1.stored (hentry i hi).2
  have hreads : ∀ read ∈ (List.range n).map entry, read.Stored := by
    intro read hmem
    obtain ⟨i, hi, rfl⟩ := List.mem_map.mp hmem
    exact hstored i (List.mem_range.mp hi)
  obtain ⟨results, hresults⟩ := exists_sendEntries env 0 hreads
  refine ⟨⟨0, results⟩, ?_, rfl, fun i hi => ?_⟩
  · simp only [zigzagconf, hread, sendOverlayConfigurations, hsocket, if_true, hresults,
      Option.map_some]
  · have hget : ((List.range n).map entry)[i]? = some (entry i) := by
      rw [List.getElem?_map, List.getElem?_range hi]
      rfl
    obtain ⟨r, m, hm, hinstalled⟩ := (configures_iff env i (hstored i hi) (entry i)).mpr
      ((conveys_self_iff env i (hstored i hi)).mpr
        ⟨(hentry i hi).1, (hentry i hi).2, hsend i hi⟩)
    exact ⟨r, m, (sendOverlayEntry_of_sendEntries hresults hget).1.symm.trans hm, hinstalled⟩

/-- The overlay `net` is what the entries describe, and its routers are in these states. -/
structure Deployed (n : ℕ) (entry : ℕ → EntryText) (order : List ℕ) (client server : Address)
    (net : Overlay) (systems : ℕ → System) : Prop where
  host : ∀ i < n, (net.host i).Configured (entry i)
  wellFormed : net.WellFormed
  shape : net.n = n ∧ net.order = order ∧ net.client = client ∧ net.server = server
  simulates : ∀ payload, net.Simulates (net.initial payload) systems

/-- **Deployment.** When `zigzagconf` runs on a file that describes a network, its messages
configure the routers in one round each, and the network of these routers delivers: a datagram of
the client comes to the server, the reply comes back, and every state on the way is one of the
routers. -/
theorem deployed (env : Env) (content : Option (List UInt8)) (n : ℕ) (entry : ℕ → EntryText)
    (order : List ℕ) (client server source : Address) (routers : ℕ → System) (host : ℕ → Host)
    (hread : readOverlay content = some (some ((List.range n).map entry)))
    (hsocket : env.socketOk = true) (hsend : ∀ i < n, env.sendOk i = true)
    (hentry : ∀ i < n, (entry i).Valid ∧ (entry i).Plain)
    (hdescribes : Describes n entry order client server)
    (hrouters : ∀ i < n, Reconfigurable (routers i) (host i) (entry i))
    (resolve : List UInt8 → Option Ipv4) :
    ∃ outcome net systems, zigzagconf env content = some outcome ∧ outcome.status = 0 ∧
      (∀ i < n, ∃ r m, outcome.results[i]? = some (r, some m) ∧
        m.destination = (entry i).controlAddress ∧
        LTS.run (System.exec resolve) (fun _ _ => True) (routers i)
          (arriveAndHandle m.destination.port ⟨source, m.data⟩) = some (systems i)) ∧
      Deployed n entry order client server net systems ∧
      ∀ payload reply, payload.length ≤ bufferSize → reply.length ≤ bufferSize →
        (net.system resolve reply payload).Inevitably (net.Delivered payload reply)
          (net.initial payload) ∧
        ∀ s, (net.system resolve reply payload).Reachable s → ∃ systems',
          net.Simulates s systems' ∧
          ∀ i, (zigzagrouter resolve (systems i)).Reachable (systems' i) := by
  obtain ⟨outcome, hconf, hstatus, hinstalled⟩ :=
    zigzagconf_installs env hread hsocket hsend hentry
  have hrouter : ∀ i, ∃ s' h', i < n → (∃ r m, outcome.results[i]? = some (r, some m) ∧
      m.destination = (entry i).controlAddress ∧
      LTS.run (System.exec resolve) (fun _ _ => True) (routers i)
        (arriveAndHandle m.destination.port ⟨source, m.data⟩) = some s') ∧
      Host.Configured h' (entry i) ∧ ∃ c f t controlPort, Idle s' h' h'.returnPath c f t
        controlPort := by
    intro i
    by_cases hi : i < n
    · obtain ⟨r, m, hresult, hm⟩ := hinstalled i hi
      obtain ⟨s', h', hrun, hhost, hidle⟩ := (hrouters i hi).configured resolve hm source
      exact ⟨s', h', fun _ => ⟨⟨r, m, hresult, hm.message.1, hrun⟩, hhost, hidle⟩⟩
    · exact ⟨routers i, host i, fun h => absurd h hi⟩
  choose systems host' hall using hrouter
  have hhost : ∀ i < n, (host' i).Configured (entry i) := fun i hi => (hall i hi).2.1
  have hwell := hdescribes.wellFormed hhost
  let net : Overlay := ⟨n, host', order, client, server, hdescribes.client_ne_zero,
    hdescribes.server_ne_zero⟩
  have hsimulates : ∀ payload, net.Simulates (net.initial payload) systems := by
    intro payload
    refine ⟨fun i hi => (hall i hi).2.2, fun p hp => .inl ?_⟩
    rw [List.mem_singleton.mp hp]
  refine ⟨outcome, net, systems, hconf, hstatus,
    fun i hi => (hall i hi).1, ⟨hhost, hwell, ⟨rfl, rfl, rfl, rfl⟩, hsimulates⟩, ?_⟩
  intro payload reply hpayload hreply
  refine ⟨?_, fun s hs => ?_⟩
  · have hdelivered : (net.system resolve reply payload).Inevitably
        (net.Delivered (payload.take bufferSize) (reply.take bufferSize)) (net.initial payload) :=
      Overlay.inevitably_delivered hwell
    rw [List.take_of_length_le hpayload, List.take_of_length_le hreply] at hdelivered
    exact hdelivered
  · obtain ⟨systems', hsim, hreach⟩ := Overlay.simulated_of_reachable (hsimulates payload) hs
    exact ⟨systems', hsim, fun i => (hreach i).of_restrict⟩

/-- The file `zzoverlay.dat` of the lab. -/
def zzoverlay : List UInt8 :=
  ascii "2\n\n127.0.0.1 10000\n10001 20001 127.0.0.1\n10002 0 0.0.0.0\n\n127.0.0.1 20000\n" ++
    ascii "20001 30001 127.0.0.1\n20002 10002 127.0.0.1"

/-- Its entries. -/
def zzoverlayEntry (i : ℕ) : EntryText :=
  if i = 0 then numericEntry
  else ⟨ascii "127.0.0.1", ascii "20000", ⟨ascii "20001", ascii "30001", ascii "127.0.0.1"⟩,
    ⟨ascii "20002", ascii "10002", ascii "127.0.0.1"⟩⟩

theorem readOverlay_zzoverlay :
    readOverlay (some zzoverlay) = some (some ((List.range 2).map zzoverlayEntry)) := by
  decide

theorem describes_zzoverlay :
    Describes 2 zzoverlayEntry [1, 0] ⟨⟨127, 0, 0, 1⟩, 40000⟩ ⟨⟨127, 0, 0, 1⟩, 30001⟩ where
  client_ne_zero := by decide
  server_ne_zero := by decide
  pos := by decide
  forwardChain i hi := by
    obtain rfl : i = 0 := by omega
    decide
  forwardLast := by decide
  order_lt := by decide
  order_head := rfl
  order_last := rfl
  returnChain := List.isChain_pair.mpr (by decide)
  returnFirst := by decide
  nodup := by decide

theorem zzoverlayEntry_valid {i : ℕ} (hi : i < 2) :
    (zzoverlayEntry i).Valid ∧ (zzoverlayEntry i).Plain := by
  rcases Nat.le_one_iff_eq_zero_or_eq_one.mp (Nat.le_of_lt_succ hi) with rfl | rfl
  · exact ⟨numericEntry_valid, numericEntry_plain⟩
  · exact
      { left :=
          { ip := ⟨⟨127, 0, 0, 1⟩, by decide⟩
            port := isPort_of_all (by decide) (by decide) (by decide)
            forwardPath :=
              { receivePort := isPort_of_all (by decide) (by decide) (by decide)
                sendPort := isPort_of_all (by decide) (by decide) (by decide)
                sendIp := ⟨⟨127, 0, 0, 1⟩, by decide⟩ }
            returnPath :=
              { receivePort := isPort_of_all (by decide) (by decide) (by decide)
                sendPort := isPort_of_all (by decide) (by decide) (by decide)
                sendIp := ⟨⟨127, 0, 0, 1⟩, by decide⟩ } }
        right :=
          { port := by decide
            forwardPath := ⟨⟨by decide, .inl (by decide)⟩, by decide, .inl (by decide)⟩
            returnPath := ⟨⟨by decide, .inl (by decide)⟩, by decide, .inl (by decide)⟩ } }

theorem exclusive_stdio (others : List UInt16) : Kernel.Exclusive ⟨stdio.table, others⟩ := by
  have hnone : ∀ i, Kernel.portOf ⟨stdio.table, others⟩ i = none
    | 0 | 1 | 2 => rfl
    | _ + 3 => rfl
  constructor
  · intro i j port hi
    rw [hnone] at hi
    cases hi
  · intro i port hi
    rw [hnone] at hi
    cases hi

/-- The first router of the lab, with the ports of the second one and of the ends. -/
def firstRouter : System :=
  (start ⟨stdio.table, [20000, 41003, 41004, 30001, 40000]⟩ controlPort 0 41001 41002).getD started

/-- The second router of the lab, with the ports of the first one and of the ends. -/
def secondRouter : System :=
  (start ⟨stdio.table, [10000, 10001, 10002, 30001, 40000]⟩ (ascii "20000") 0 41003 41004).getD
    started

theorem firstRouter_reconfigurable : ∃ h, Reconfigurable firstRouter h (zzoverlayEntry 0) := by
  have hstart : start ⟨stdio.table, [20000, 41003, 41004, 30001, 40000]⟩ controlPort 0 41001
      41002 = some firstRouter := by
    decide
  exact reconfigurable_of_start hstart (exclusive_stdio _) (by decide) (by decide) (by decide)
    (by decide)

theorem secondRouter_reconfigurable : ∃ h, Reconfigurable secondRouter h (zzoverlayEntry 1) := by
  have hstart : start ⟨stdio.table, [10000, 10001, 10002, 30001, 40000]⟩ (ascii "20000") 0 41003
      41004 = some secondRouter := by
    decide
  exact reconfigurable_of_start hstart (exclusive_stdio _) (by decide) (by decide) (by decide)
    (by decide)

/-- The file of the lab, deployed on its two routers. -/
theorem deployed_zzoverlay : ∃ outcome net systems,
    zigzagconf allOk (some zzoverlay) = some outcome ∧ outcome.status = 0 ∧
      Deployed 2 zzoverlayEntry [1, 0] ⟨⟨127, 0, 0, 1⟩, 40000⟩ ⟨⟨127, 0, 0, 1⟩, 30001⟩ net systems ∧
      (net.system allOk.resolve [4, 5, 6] [1, 2, 3]).Inevitably
        (net.Delivered [1, 2, 3] [4, 5, 6]) (net.initial [1, 2, 3]) := by
  obtain ⟨h, hfirst⟩ := firstRouter_reconfigurable
  obtain ⟨h', hsecond⟩ := secondRouter_reconfigurable
  obtain ⟨outcome, net, systems, hconf, hstatus, -, hdeployed, hdelivers⟩ :=
    deployed allOk (some zzoverlay) 2 zzoverlayEntry [1, 0] ⟨⟨127, 0, 0, 1⟩, 40000⟩
      ⟨⟨127, 0, 0, 1⟩, 30001⟩ ⟨⟨127, 0, 0, 1⟩, 5000⟩
      (fun i => if i = 0 then firstRouter else secondRouter) (fun i => if i = 0 then h else h')
      readOverlay_zzoverlay rfl (fun _ _ => rfl) (fun _ => zzoverlayEntry_valid) describes_zzoverlay
      (fun i hi => by
        rcases Nat.le_one_iff_eq_zero_or_eq_one.mp (Nat.le_of_lt_succ hi) with rfl | rfl
        · exact hfirst
        · exact hsecond)
      allOk.resolve
  exact ⟨outcome, net, systems, hconf, hstatus, hdeployed,
    (hdelivers [1, 2, 3] [4, 5, 6] (by decide) (by decide)).1⟩

end CS536Labs.Lab6
