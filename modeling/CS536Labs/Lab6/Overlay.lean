import CS536Labs.Lab6.ReturnPath
import Mathlib.Data.List.Chain

/-!
# The overlay network

Routers, a client and a server that exchange datagrams. Each router handles a datagram the way
`forward_data` does: it may learn the return address, and it sends the payload on from its return
socket, to the address in its table. A step of the network delivers one of the datagrams in flight,
and the server answers every datagram it receives.

`Overlay.WellFormed` is the chain of the forward entries from the first router to the server, and
the chain of the return entries from the last router back to the first, in an order of its own.
-/

namespace CS536Labs.Lab6

open Udp

/-- A configured router: its address, the ports of its data sockets, and its tables. -/
structure Host where
  ip : Ipv4
  forwardPort : UInt16
  returnPort : UInt16
  forwardPath : ForwardingPath
  returnPath : ForwardingPath
  /-- A bound socket has a port. -/
  forwardPort_ne_zero : forwardPort ≠ 0
  returnPort_ne_zero : returnPort ≠ 0

/-- Where the forward socket receives. -/
def Host.forwardAddress (h : Host) : Address := ⟨h.ip, h.forwardPort⟩

/-- Where the return socket receives, and where the router sends from. -/
def Host.returnAddress (h : Host) : Address := ⟨h.ip, h.returnPort⟩

/-- The routers `0` to `n - 1` in the order of the forward path, and the order of the return
path. -/
structure Overlay where
  n : ℕ
  host : ℕ → Host
  order : List ℕ
  client : Address
  server : Address
  client_ne_zero : client.port ≠ 0
  server_ne_zero : server.port ≠ 0

/-- Who receives a datagram. -/
inductive Party
  | forward (i : ℕ)
  | returned (i : ℕ)
  | client
  | server
  deriving DecidableEq

namespace Overlay

/-- All sockets of the network. -/
def sockets (net : Overlay) : List (Address × Party) :=
  (net.client, .client) :: (net.server, .server) :: (List.range net.n).flatMap fun i =>
    [((net.host i).forwardAddress, .forward i), ((net.host i).returnAddress, .returned i)]

/-- The overlay is configured as chains. -/
structure WellFormed (net : Overlay) : Prop where
  pos : 0 < net.n
  forwardChain : ∀ i, i + 1 < net.n →
    (net.host i).forwardPath.SendsTo (net.host (i + 1)).forwardAddress
  forwardLast : (net.host (net.n - 1)).forwardPath.SendsTo net.server
  order_lt : ∀ i ∈ net.order, i < net.n
  order_head : net.order.head? = some (net.n - 1)
  order_last : net.order.getLast? = some 0
  returnChain : net.order.IsChain fun i i' =>
    (net.host i).returnPath.SendsTo (net.host i').returnAddress
  returnFirst : (net.host 0).returnPath.SendsTo fillInAddress
  /-- No two sockets have the same address. -/
  nodup : (net.sockets.map Prod.fst).Nodup

/-- A datagram in flight. -/
structure Flying where
  source : Address
  destination : Address
  data : List UInt8
  deriving DecidableEq

/-- The return tables, the datagrams in flight, and what the ends have received. -/
structure State where
  returnPath : ℕ → ForwardingPath
  flying : List Flying
  serverInbox : List Datagram
  clientInbox : List Datagram

variable (net : Overlay) (resolve : List UInt8 → Option Ipv4) (reply : List UInt8)

/-- A router sends from its return socket. -/
def send (s : State) (i : ℕ) (destination : Option Address) (data : List UInt8) : State :=
  match sendable destination with
  | none => s
  | some destination =>
    { s with flying := s.flying ++ [⟨(net.host i).returnAddress, destination, data⟩] }

/-- The receiver handles a datagram. -/
def receive (s : State) (p : Flying) : Party → State
  | .forward i =>
    net.send { s with
      returnPath := Function.update s.returnPath i (learnReturnPath p.source (s.returnPath i)) } i
      (sendAddress resolve (net.host i).forwardPath) (p.data.take bufferSize)
  | .returned i =>
    net.send s i (sendAddress resolve (s.returnPath i)) (p.data.take bufferSize)
  | .server =>
    { s with
      serverInbox := s.serverInbox ++ [⟨p.source, p.data⟩]
      flying := s.flying ++ [⟨net.server, p.source, reply⟩] }
  | .client => { s with clientInbox := s.clientInbox ++ [⟨p.source, p.data⟩] }

/-- One of the datagrams in flight is delivered. -/
def exec (s : State) (i : ℕ) : Option State :=
  s.flying[i]?.bind fun p =>
    (net.sockets.lookup p.destination).map
      (net.receive resolve reply { s with flying := s.flying.eraseIdx i } p)

/-- The client has sent a datagram to the first router. -/
def initial (payload : List UInt8) : State where
  returnPath i := (net.host i).returnPath
  flying := [⟨net.client, (net.host 0).forwardAddress, payload⟩]
  serverInbox := []
  clientInbox := []

def system (payload : List UInt8) : LTS State ℕ :=
  LTS.ofExec (net.initial payload) (net.exec resolve reply)

/-- The server has received the payload from the last router, the client has received the reply,
and nothing is in flight. -/
structure Delivered (payload reply : List UInt8) (s : State) : Prop where
  server : s.serverInbox = [⟨(net.host (net.n - 1)).returnAddress, payload⟩]
  client : s.clientInbox = [⟨(net.host 0).returnAddress, reply⟩]
  flying : s.flying = []

/-! ## One hop -/

variable {net resolve reply} {payload : List UInt8} {P : State → Prop} {s : State} {p : Flying}

theorem send_of_port {destination : Address} (h : destination.port ≠ 0) (i : ℕ)
    (data : List UInt8) :
    net.send s i (some destination) data =
      { s with flying := s.flying ++ [⟨(net.host i).returnAddress, destination, data⟩] } := by
  rw [send, sendable_of_port h]

theorem lookup_of_mem {α β : Type*} [DecidableEq α] {l : List (α × β)}
    (hnodup : (l.map Prod.fst).Nodup) {a : α} {b : β} (h : (a, b) ∈ l) : l.lookup a = some b := by
  induction l with
  | nil => cases h
  | cons p l ih =>
    rw [List.map_cons, List.nodup_cons] at hnodup
    rcases List.mem_cons.mp h with rfl | h
    · exact List.lookup_cons_self
    · rw [List.lookup_cons, beq_false_of_ne, ih hnodup.2 h]
      rintro rfl
      exact hnodup.1 (List.mem_map.mpr ⟨_, h, rfl⟩)

/-- With one datagram in flight, the network has no choice. -/
theorem inevitably_of_receive (h : net.WellFormed) {party : Party} (hflying : s.flying = [p])
    (hparty : (p.destination, party) ∈ net.sockets)
    (hnext : (net.system resolve reply payload).Inevitably P
      (net.receive resolve reply { s with flying := [] } p party)) :
    (net.system resolve reply payload).Inevitably P s := by
  have hexec : net.exec resolve reply s 0 =
      some (net.receive resolve reply { s with flying := [] } p party) := by
    rw [exec, hflying]
    simp only [List.getElem?_cons_zero, Option.bind_some, lookup_of_mem h.nodup hparty,
      Option.map_some]
    rfl
  refine .next ⟨0, _, hexec⟩ ?_
  intro i t ht
  have ht : net.exec resolve reply s i = some t := ht
  cases i with
  | zero =>
    rw [hexec] at ht
    rw [← Option.some.inj ht]
    exact hnext
  | succ i =>
    rw [exec, hflying] at ht
    cases ht

theorem forward_mem_sockets {i : ℕ} (hi : i < net.n) :
    ((net.host i).forwardAddress, Party.forward i) ∈ net.sockets := by
  refine List.mem_cons_of_mem _ (List.mem_cons_of_mem _ (List.mem_flatMap.mpr
    ⟨i, List.mem_range.mpr hi, List.mem_cons_self⟩))

theorem returned_mem_sockets {i : ℕ} (hi : i < net.n) :
    ((net.host i).returnAddress, Party.returned i) ∈ net.sockets := by
  refine List.mem_cons_of_mem _ (List.mem_cons_of_mem _ (List.mem_flatMap.mpr
    ⟨i, List.mem_range.mpr hi, List.mem_cons_of_mem _ List.mem_cons_self⟩))

theorem client_mem_sockets : (net.client, Party.client) ∈ net.sockets := List.mem_cons_self

theorem server_mem_sockets : (net.server, Party.server) ∈ net.sockets :=
  List.mem_cons_of_mem _ List.mem_cons_self

/-! ## The way back -/

/-- The return tables once the first router has learned the client. -/
structure Configured (net : Overlay) (returnPath : ℕ → ForwardingPath) : Prop where
  first : (returnPath 0).SendsTo net.client
  others : ∀ i ∈ net.order, i ≠ 0 → returnPath i = (net.host i).returnPath

theorem returnAddress_ne_fillIn (h : Host) : h.returnAddress ≠ fillInAddress :=
  fun heq => h.returnPort_ne_zero (congrArg Address.port heq)

/-- **The return chain.** A datagram on the return path of a router comes to the client. -/
theorem inevitably_return (h : net.WellFormed) {i : ℕ} {rest : List ℕ}
    (hsuffix : i :: rest <:+ net.order) (hconf : net.Configured s.returnPath) {source : Address}
    {data : List UInt8} (hflying : s.flying = [⟨source, (net.host i).returnAddress, data⟩])
    (hclient : s.clientInbox = [])
    (hP : ∀ t, t.serverInbox = s.serverInbox →
      t.clientInbox = [⟨(net.host 0).returnAddress, data.take bufferSize⟩] → t.flying = [] → P t) :
    (net.system resolve reply payload).Inevitably P s := by
  induction rest generalizing i s source data with
  | nil =>
    obtain ⟨before, horder⟩ := hsuffix
    have hi : i = 0 := by
      have hlast := h.order_last
      rw [← horder, List.getLast?_append_of_ne_nil _ (List.cons_ne_nil _ _)] at hlast
      exact Option.some.inj hlast
    subst hi
    refine inevitably_of_receive h hflying (returned_mem_sockets h.pos) ?_
    rw [receive, hconf.first.sendAddress resolve, send_of_port net.client_ne_zero]
    refine inevitably_of_receive h rfl client_mem_sockets (.now ?_)
    exact hP _ rfl (congrArg (· ++ [_]) hclient) rfl
  | cons i' rest ih =>
    have hmem : i ∈ net.order := hsuffix.subset List.mem_cons_self
    have hmem' : i' ∈ net.order := hsuffix.subset (List.mem_cons_of_mem _ List.mem_cons_self)
    have hsend : (net.host i).returnPath.SendsTo (net.host i').returnAddress :=
      (List.isChain_cons_cons.mp (h.returnChain.suffix hsuffix)).1
    have hi : i ≠ 0 := by
      rintro rfl
      exact returnAddress_ne_fillIn _ (hsend.unique h.returnFirst)
    refine inevitably_of_receive h hflying (returned_mem_sockets (h.order_lt i hmem)) ?_
    rw [receive]
    simp only [hconf.others i hmem hi, hsend.sendAddress resolve]
    rw [send_of_port (net.host i').returnPort_ne_zero]
    refine ih ((List.suffix_cons _ _).trans hsuffix) hconf rfl hclient ?_
    intro t hserver hclient
    rw [List.take_take, Nat.min_self] at hclient
    exact hP t hserver hclient

/-! ## The way there -/

/-- A router on the return chain other than the first one has an address to send to. -/
theorem exists_sendsTo (h : net.WellFormed) {i : ℕ} (hi : i ∈ net.order) (hne : i ≠ 0) :
    ∃ address, address ≠ fillInAddress ∧ (net.host i).returnPath.SendsTo address := by
  obtain ⟨before, rest, horder⟩ := List.append_of_mem hi
  have hchain := h.returnChain
  have hlast := h.order_last
  rw [horder] at hchain hlast
  cases rest with
  | nil =>
    rw [List.getLast?_concat] at hlast
    exact absurd (Option.some.inj hlast) hne
  | cons i' rest =>
    have hsuffix := hchain.suffix (List.suffix_append before _)
    exact ⟨_, returnAddress_ne_fillIn _, (List.isChain_cons_cons.mp hsuffix).1⟩

/-- Learning changes nothing once the first router knows the client. -/
theorem Configured.learn (h : net.WellFormed) {returnPath : ℕ → ForwardingPath}
    (hconf : net.Configured returnPath) {i : ℕ} (hi : i ≠ 0) (source : Address) :
    net.Configured (Function.update returnPath i (learnReturnPath source (returnPath i))) where
  first := by
    rw [Function.update_of_ne hi.symm]
    exact hconf.first
  others j hj hne := by
    rcases eq_or_ne j i with rfl | hji
    · obtain ⟨address, hfill, hsend⟩ := exists_sendsTo h hj hne
      rw [Function.update_self, hconf.others j hj hne, hsend.learn_eq hfill]
    · rw [Function.update_of_ne hji, hconf.others j hj hne]

/-- The first router learns the client from the first datagram. -/
theorem configured_of_client (h : net.WellFormed) :
    net.Configured (Function.update (fun i => (net.host i).returnPath) 0
      (learnReturnPath net.client (net.host 0).returnPath)) where
  first := by
    have hlearn := h.returnFirst.learn net.client
    rw [if_pos rfl] at hlearn
    rw [Function.update_self]
    exact hlearn
  others i hi hne := by
    rw [Function.update_of_ne hne]

/-- At the server: the reply enters the return chain at the last router. -/
theorem inevitably_server (h : net.WellFormed) (hconf : net.Configured s.returnPath)
    {data : List UInt8}
    (hflying : s.flying = [⟨(net.host (net.n - 1)).returnAddress, net.server, data⟩])
    (hserver : s.serverInbox = []) (hclient : s.clientInbox = []) :
    (net.system resolve reply payload).Inevitably
      (net.Delivered data (reply.take bufferSize)) s := by
  refine inevitably_of_receive h hflying server_mem_sockets ?_
  obtain ⟨rest, horder⟩ : ∃ rest, net.order = (net.n - 1) :: rest := by
    cases hcases : net.order with
    | nil =>
      have hhead := h.order_head
      rw [hcases] at hhead
      cases hhead
    | cons i rest =>
      have hhead := h.order_head
      rw [hcases] at hhead
      exact ⟨rest, by rw [← Option.some.inj hhead]⟩
  refine inevitably_return h ⟨[], horder.symm⟩ hconf rfl hclient ?_
  intro t htserver htclient htflying
  exact ⟨htserver.trans (congrArg (· ++ [_]) hserver), htclient, htflying⟩

/-- **The forward chain.** A datagram on the forward path of a router comes to the server. -/
theorem inevitably_forward (h : net.WellFormed) {k i : ℕ} (hi : i + k + 1 = net.n)
    {source : Address} {data : List UInt8}
    (hconf : net.Configured
      (Function.update s.returnPath i (learnReturnPath source (s.returnPath i))))
    (hflying : s.flying = [⟨source, (net.host i).forwardAddress, data⟩])
    (hserver : s.serverInbox = []) (hclient : s.clientInbox = []) :
    (net.system resolve reply payload).Inevitably
      (net.Delivered (data.take bufferSize) (reply.take bufferSize)) s := by
  induction k generalizing i s source data with
  | zero =>
    obtain rfl : i = net.n - 1 := by omega
    refine inevitably_of_receive h hflying (forward_mem_sockets (by omega)) ?_
    rw [receive, h.forwardLast.sendAddress resolve, send_of_port net.server_ne_zero]
    exact inevitably_server h hconf rfl hserver hclient
  | succ k ih =>
    refine inevitably_of_receive h hflying (forward_mem_sockets (by omega)) ?_
    have htake : net.Delivered (data.take bufferSize) (reply.take bufferSize) =
        net.Delivered ((data.take bufferSize).take bufferSize) (reply.take bufferSize) := by
      rw [List.take_take, Nat.min_self]
    rw [receive, (h.forwardChain i (by omega)).sendAddress resolve,
      send_of_port (net.host (i + 1)).forwardPort_ne_zero, htake]
    exact ih (by omega) (hconf.learn h (Nat.succ_ne_zero i) _) rfl hserver hclient

/-- What arrives is cut to the size of the buffer. -/
theorem inevitably_delivered (h : net.WellFormed) :
    (net.system resolve reply payload).Inevitably
      (net.Delivered (payload.take bufferSize) (reply.take bufferSize)) (net.initial payload) := by
  have hpos := h.pos
  have hlength : 0 + (net.n - 1) + 1 = net.n := by omega
  exact inevitably_forward h hlength (configured_of_client h) rfl rfl rfl

/-- **Overlay delivery.** In every well-formed overlay, a datagram that fits the buffer comes to the
server unchanged, from the last router, and a reply that fits the buffer comes back to the
client. -/
theorem overlay_delivery (net : Overlay) (resolve : List UInt8 → Option Ipv4)
    (payload reply : List UInt8) (h : net.WellFormed) (hpayload : payload.length ≤ bufferSize)
    (hreply : reply.length ≤ bufferSize) :
    (net.system resolve reply payload).Inevitably (net.Delivered payload reply)
      (net.initial payload) := by
  have hdelivered : (net.system resolve reply payload).Inevitably
      (net.Delivered (payload.take bufferSize) (reply.take bufferSize)) (net.initial payload) :=
    inevitably_delivered h
  rw [List.take_of_length_le hpayload, List.take_of_length_le hreply] at hdelivered
  exact hdelivered

/-- The only outcome, whatever the lengths. -/
theorem delivered_of_reachable (h : net.WellFormed)
    (hs : (net.system resolve reply payload).Reachable s) (hflying : s.flying = []) :
    net.Delivered (payload.take bufferSize) (reply.take bufferSize) s := by
  have hend : ∀ (s : State) (i : ℕ) (t : State), s.flying = [] →
      ¬ (net.system resolve reply payload).step s i t := by
    intro s i t hs hstep
    have hstep : net.exec resolve reply s i = some t := hstep
    rw [exec, hs] at hstep
    cases hstep
  have hinevitably : (net.system resolve reply payload).Inevitably
      (net.Delivered (payload.take bufferSize) (reply.take bufferSize)) s := by
    refine LTS.Inevitably.of_reachable ?_ ?_ hs
    · rintro s rfl
      exact inevitably_delivered h
    · intro s i t hP
      exact hend s i t hP.flying
  cases hinevitably with
  | now hP => exact hP
  | next hstep _ =>
    obtain ⟨i, t, hstep⟩ := hstep
    exact absurd hstep (hend s i t hflying)

end Overlay

/-- The table of `10001 20001 127.0.0.1`, for these ports. -/
def localPath (port : UInt16) : ForwardingPath :=
  ⟨[], strncpy (numeral port.toNat) portStrlen,
    strncpy (inetNtop (Ipv4.bytes ⟨127, 0, 0, 1⟩)) inetAddrstrlen⟩

/-- A router of the documentation. -/
def localHost (forwardPort returnPort : UInt16) (forwardPath returnPath : ForwardingPath)
    (h : forwardPort ≠ 0 ∧ returnPort ≠ 0) : Host :=
  ⟨⟨127, 0, 0, 1⟩, forwardPort, returnPort, forwardPath, returnPath, h.1, h.2⟩

/-- The overlay of the documentation: two routers, with a server at port 30001. -/
def localOverlay : Overlay where
  n := 2
  host i :=
    if i = 0 then
      localHost 10001 10002 (localPath 20001)
        { localPath 0 with sendIp := strncpy returnIpFillIn inetAddrstrlen } (by decide)
    else localHost 20001 20002 (localPath 30001) (localPath 10002) (by decide)
  order := [1, 0]
  client := ⟨⟨127, 0, 0, 1⟩, 40000⟩
  server := ⟨⟨127, 0, 0, 1⟩, 30001⟩
  client_ne_zero := by decide
  server_ne_zero := by decide

theorem localOverlay_wellFormed : localOverlay.WellFormed where
  pos := by decide
  forwardChain i hi := by
    obtain rfl : i = 0 := by
      have : localOverlay.n = 2 := rfl
      omega
    exact ⟨by decide, by decide⟩
  forwardLast := ⟨by decide, by decide⟩
  order_lt := by decide
  order_head := rfl
  order_last := rfl
  returnChain := List.isChain_pair.mpr ⟨by decide, by decide⟩
  returnFirst := ⟨by decide, by decide⟩
  nodup := by decide

/-- A ping over the overlay of the documentation. -/
theorem localOverlay_delivery :
    (localOverlay.system (fun _ => none) [4, 5, 6] [1, 2, 3]).Inevitably
      (localOverlay.Delivered [1, 2, 3] [4, 5, 6]) (localOverlay.initial [1, 2, 3]) :=
  Overlay.overlay_delivery localOverlay (fun _ => none) [1, 2, 3] [4, 5, 6]
    localOverlay_wellFormed (by decide) (by decide)

/-- A reply of 4097 bytes is never delivered: it is cut to 4096 bytes. -/
theorem localOverlay_reply_cut :
    localOverlay.WellFormed ∧ [1, 2, 3].length ≤ bufferSize ∧
      ∀ s, (localOverlay.system (fun _ => none) (List.replicate 4097 7) [1, 2, 3]).Reachable s →
        ¬ localOverlay.Delivered [1, 2, 3] (List.replicate 4097 7) s := by
  refine ⟨localOverlay_wellFormed, by decide, ?_⟩
  intro s hs hdelivered
  have hcut := Overlay.delivered_of_reachable localOverlay_wellFormed hs hdelivered.flying
  have hdata := (List.cons.inj (hcut.client.symm.trans hdelivered.client)).1
  have hlen := congrArg List.length (congrArg Datagram.data hdata)
  rw [List.length_take, List.length_replicate, bufferSize] at hlen
  omega

end CS536Labs.Lab6
