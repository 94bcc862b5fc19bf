import CS536Labs.Foundations.Transition
import CS536Labs.Lab6.SocketUtils
import CS536Labs.Lab6.ZzconfigCodec

/-!
# `lab6/v1/zigzagrouter.c`

The application layer router: three UDP sockets, two forwarding tables and the loop of `run` around
`select`. `Ctl` is the place in the loop; the labels of `exec` are the arrival of a datagram at the
host and a step of the process. `exec` has no step where the behaviour of `FD_SET` or `FD_ISSET`
would be undefined, nor where `select` or `recvfrom` block.

`history` logs what the loop handled, and `sent` the datagrams that `sendto` took.
-/

namespace CS536Labs.Lab6

open Udp

/-- `BUFFER_SIZE`. -/
def bufferSize : ℕ := 4096

/-- `RETURN_IP_FILL_IN`. -/
def returnIpFillIn : List UInt8 := [0x30, 0x2e, 0x30, 0x2e, 0x30, 0x2e, 0x30]

/-- `RETURN_PORT_FILL_IN`. -/
def returnPortFillIn : List UInt8 := [0x30]

/-- The static variables, `none` for the descriptor -1, and the tables of `main`. -/
structure Router where
  controlFd : Option ℕ
  forwardFd : Option ℕ
  returnFd : Option ℕ
  forwardPath : ForwardingPath
  returnPath : ForwardingPath
  deriving DecidableEq

/-! ## `update_forwardings` -/

/-- The update of one receiving port: the old socket is closed before the new one is bound. -/
def updateReceivePort (k : Kernel) (fd : Option ℕ) (path new : ForwardingPath) (choice : UInt16) :
    Option ℕ × ForwardingPath × Kernel :=
  if getPortNumber k fd ≠ UInt16.ofNat (strtoul0 (cString new.receivePort)) then
    let result := createAndBindUdpSocket (k.close fd) (cString new.receivePort) choice
    (result.1, { path with receivePort := strncpy (cString new.receivePort) portStrlen }, result.2)
  else (fd, path, k)

/-- The copies of the sending address into a table. -/
def updateSendAddress (path new : ForwardingPath) : ForwardingPath :=
  { path with
    sendPort := strncpy (cString new.sendPort) portStrlen
    sendIp := strncpy (cString new.sendIp) inetAddrstrlen }

/-- `update_forwardings` behind `recvfrom`, on a message of `ZZCONFIG_SIZE` bytes. -/
def updateForwardings (k : Kernel) (r : Router) (buffer : List UInt8) (choices : UInt16 × UInt16) :
    Router × Kernel :=
  let new := decodeZzconfig buffer .zero .zero
  let forward := updateReceivePort k r.forwardFd r.forwardPath new.1 choices.1
  let returned := updateReceivePort forward.2.2 r.returnFd r.returnPath new.2 choices.2
  ({ r with
      forwardFd := forward.1
      returnFd := returned.1
      forwardPath := updateSendAddress forward.2.1 new.1
      returnPath := updateSendAddress returned.2.1 new.2 }, returned.2.2)

/-! ## `forward_data` -/

/-- `update_return_path`. -/
def updateReturnPath (source : Address) (returnPath : ForwardingPath) : ForwardingPath :=
  { returnPath with
    sendIp := strncpy (inetNtop source.ip.bytes) inetAddrstrlen
    sendPort := strncpy ((numeral source.port.toNat).take (portStrlen - 1)) portStrlen }

/-- The return path behind the check for the fill-in values. -/
def learnReturnPath (source : Address) (returnPath : ForwardingPath) : ForwardingPath :=
  if strncmpEq returnPath.sendIp returnIpFillIn inetAddrstrlen &&
      strncmpEq returnPath.sendPort returnPortFillIn portStrlen then
    updateReturnPath source returnPath
  else returnPath

/-- Where a path sends to: nowhere before it was initialized. -/
def sendAddress (resolve : List UInt8 → Option Ipv4) (path : ForwardingPath) : Option Address :=
  if cString (path.sendIp.take inetAddrstrlen) = [] ∨ cString (path.sendPort.take portStrlen) = []
  then none
  else buildAddrinfo resolve (cString path.sendIp) (cString path.sendPort)

/-! ## `run` -/

/-- A datagram that left the host. -/
structure Packet where
  sourcePort : UInt16
  destination : Address
  data : List UInt8
  deriving DecidableEq

/-- What the loop has handled. -/
inductive Handled
  | control (message : List UInt8)
  | forward (source : Address)
  | returned (source : Address)
  deriving DecidableEq

/-- The place in the loop, with the set of descriptors that `select` left in `read_fds`. -/
inductive Ctl
  | select
  | testControl (readFds : List ℕ)
  | recvControl (readFds : List ℕ)
  | testForward (readFds : List ℕ)
  | recvForward (readFds : List ℕ)
  | testReturn (readFds : List ℕ)
  | recvReturn
  deriving DecidableEq

structure System where
  kernel : Kernel
  router : Router
  ctl : Ctl
  sent : List Packet
  history : List Handled
  deriving DecidableEq

inductive Label
  /-- A datagram for a port of the host arrives. -/
  | arrive (port : UInt16) (d : Datagram)
  /-- The process makes a step. The kernel chooses ports for the requests of port 0, and `sendto`
  succeeds or not. -/
  | process (choices : UInt16 × UInt16) (sendOk : Bool)

/-- `update_forwardings` behind the datagram that `recvfrom` returned. -/
def System.control (s : System) (d : Datagram) (choices : UInt16 × UInt16) : System :=
  if d.data.length ≠ zzconfigSize then s
  else
    let result := updateForwardings s.kernel s.router d.data choices
    { s with
      router := result.1
      kernel := result.2
      history := s.history ++ [Handled.control d.data] }

/-- The address that `sendto` takes: it refuses port 0 with `EINVAL`. -/
def sendable (destination : Option Address) : Option Address :=
  destination.filter fun address => address.port ≠ 0

/-- `sendto` on the return socket. -/
def System.sendto (s : System) (destination : Option Address) (data : List UInt8) (sendOk : Bool) :
    System :=
  match sendable destination, s.router.returnFd with
  | some destination, some fd =>
    if sendOk then
      { s with sent := s.sent ++ [⟨getPortNumber s.kernel fd, destination, data⟩] }
    else s
  | _, _ => s

/-- `forward_data(forward_fd, forward_path, return_path)` behind `recvfrom`. -/
def System.forwardData (resolve : List UInt8 → Option Ipv4) (s : System) (d : Datagram)
    (sendOk : Bool) : System :=
  { s with
    router.returnPath := learnReturnPath d.source s.router.returnPath
    history := s.history ++ [Handled.forward d.source] }.sendto
    (sendAddress resolve s.router.forwardPath) d.data sendOk

/-- `forward_data(return_fd, return_path, NULL)` behind `recvfrom`. -/
def System.returnData (resolve : List UInt8 → Option Ipv4) (s : System) (d : Datagram)
    (sendOk : Bool) : System :=
  { s with history := s.history ++ [Handled.returned d.source] }.sendto
    (sendAddress resolve s.router.returnPath) d.data sendOk

/-- The descriptors that `select` finds readable, if there is one. -/
def readable (k : Kernel) (fds : List ℕ) : List ℕ := fds.filter fun fd => k.queueOf fd ≠ []

/-- A step of the process. -/
def System.process (resolve : List UInt8 → Option Ipv4) (s : System) (choices : UInt16 × UInt16)
    (sendOk : Bool) : Option System :=
  match s.ctl with
  | .select =>
    match s.router.controlFd, s.router.forwardFd, s.router.returnFd with
    | some controlFd, some forwardFd, some returnFd =>
      let readFds := readable s.kernel [controlFd, forwardFd, returnFd]
      if readFds = [] then none else some { s with ctl := .testControl readFds }
    | _, _, _ => none
  | .testControl readFds =>
    s.router.controlFd.map fun fd =>
      { s with ctl := if fd ∈ readFds then .recvControl readFds else .testForward readFds }
  | .recvControl readFds =>
    (s.router.controlFd.bind fun fd => s.kernel.recvfrom fd zzconfigSize).map fun (d, k) =>
      { s with kernel := k, ctl := .testForward readFds }.control d choices
  | .testForward readFds =>
    s.router.forwardFd.map fun fd =>
      { s with ctl := if fd ∈ readFds then .recvForward readFds else .testReturn readFds }
  | .recvForward readFds =>
    (s.router.forwardFd.bind fun fd => s.kernel.recvfrom fd bufferSize).map fun (d, k) =>
      { s with kernel := k, ctl := .testReturn readFds }.forwardData resolve d sendOk
  | .testReturn readFds =>
    s.router.returnFd.map fun fd =>
      { s with ctl := if fd ∈ readFds then .recvReturn else .select }
  | .recvReturn =>
    (s.router.returnFd.bind fun fd => s.kernel.recvfrom fd bufferSize).map fun (d, k) =>
      { s with kernel := k, ctl := .select }.returnData resolve d sendOk

/-- A step of the router or of the network. -/
def System.exec (resolve : List UInt8 → Option Ipv4) (s : System) : Label → Option System
  | .arrive port d => some { s with kernel := s.kernel.deliver port d }
  | .process choices sendOk => s.process resolve choices sendOk

/-- `main` up to `run`: the control port is an argument, or the text `0`. -/
def start (k : Kernel) (controlPort : List UInt8) (choice choice' choice'' : UInt16) :
    Option System :=
  let control := createAndBindUdpSocket k controlPort choice
  let forward := createAndBindUdpSocket control.2 [0x30] choice'
  let returned := createAndBindUdpSocket forward.2 [0x30] choice''
  match control.1, forward.1, returned.1 with
  | some controlFd, some forwardFd, some returnFd =>
    let initial (fd : ℕ) : ForwardingPath :=
      { ForwardingPath.zero with
        receivePort := storeString ForwardingPath.zero.receivePort
          (numeral (getPortNumber returned.2 fd).toNat) }
    some
      { kernel := returned.2
        router := ⟨controlFd, forwardFd, returnFd, initial forwardFd, initial returnFd⟩
        ctl := .select
        sent := []
        history := [] }
  | _, _, _ => none

theorem sendable_of_port {destination : Address} (h : destination.port ≠ 0) :
    sendable (some destination) = some destination :=
  Option.filter_some_pos (decide_eq_true h)

section sendto

variable (s : System) (destination : Option Address) (data : List UInt8) (sendOk : Bool)

/-- `sendto` adds to what was sent and changes nothing else. -/
theorem System.sendto_eq : ∃ sent, s.sendto destination data sendOk = { s with sent := sent } := by
  unfold sendto
  split
  · split
    · exact ⟨_, rfl⟩
    · exact ⟨s.sent, rfl⟩
  · exact ⟨s.sent, rfl⟩

@[simp] theorem System.kernel_sendto :
    (s.sendto destination data sendOk).kernel = s.kernel := by
  obtain ⟨sent, h⟩ := s.sendto_eq destination data sendOk
  rw [h]

@[simp] theorem System.router_sendto :
    (s.sendto destination data sendOk).router = s.router := by
  obtain ⟨sent, h⟩ := s.sendto_eq destination data sendOk
  rw [h]

@[simp] theorem System.ctl_sendto : (s.sendto destination data sendOk).ctl = s.ctl := by
  obtain ⟨sent, h⟩ := s.sendto_eq destination data sendOk
  rw [h]

@[simp] theorem System.history_sendto :
    (s.sendto destination data sendOk).history = s.history := by
  obtain ⟨sent, h⟩ := s.sendto_eq destination data sendOk
  rw [h]

end sendto

/-- What a step of the process can do: move on in the loop, or receive and handle a datagram. -/
inductive ProcessStep (resolve : List UInt8 → Option Ipv4) (s : System)
    (choices : UInt16 × UInt16) (sendOk : Bool) : System → Prop
  | move (ctl : Ctl) : ProcessStep resolve s choices sendOk { s with ctl := ctl }
  | control {fd readFds d k} (hfd : s.router.controlFd = some fd)
      (hrecv : s.kernel.recvfrom fd zzconfigSize = some (d, k)) :
      ProcessStep resolve s choices sendOk
        ({ s with kernel := k, ctl := .testForward readFds }.control d choices)
  | forward {fd readFds d k} (hfd : s.router.forwardFd = some fd)
      (hrecv : s.kernel.recvfrom fd bufferSize = some (d, k)) :
      ProcessStep resolve s choices sendOk
        ({ s with kernel := k, ctl := .testReturn readFds }.forwardData resolve d sendOk)
  | returned {fd d k} (hfd : s.router.returnFd = some fd)
      (hrecv : s.kernel.recvfrom fd bufferSize = some (d, k)) :
      ProcessStep resolve s choices sendOk
        ({ s with kernel := k, ctl := .select }.returnData resolve d sendOk)

theorem System.processStep {resolve : List UInt8 → Option Ipv4} {s s' : System}
    {choices : UInt16 × UInt16} {sendOk : Bool}
    (h : s.process resolve choices sendOk = some s') :
    ProcessStep resolve s choices sendOk s' := by
  rw [process] at h
  cases hctl : s.ctl with
  | select =>
    simp only [hctl] at h
    split at h
    · split_ifs at h
      obtain rfl := Option.some.inj h
      exact .move _
    · cases h
  | testControl readFds | testForward readFds | testReturn readFds =>
    simp only [hctl] at h
    obtain ⟨fd, -, rfl⟩ := Option.map_eq_some_iff.mp h
    exact .move _
  | recvControl readFds =>
    simp only [hctl] at h
    obtain ⟨⟨d, k⟩, hbind, rfl⟩ := Option.map_eq_some_iff.mp h
    obtain ⟨fd, hfd, hrecv⟩ := Option.bind_eq_some_iff.mp hbind
    exact .control hfd hrecv
  | recvForward readFds =>
    simp only [hctl] at h
    obtain ⟨⟨d, k⟩, hbind, rfl⟩ := Option.map_eq_some_iff.mp h
    obtain ⟨fd, hfd, hrecv⟩ := Option.bind_eq_some_iff.mp hbind
    exact .forward hfd hrecv
  | recvReturn =>
    simp only [hctl] at h
    obtain ⟨⟨d, k⟩, hbind, rfl⟩ := Option.map_eq_some_iff.mp h
    obtain ⟨fd, hfd, hrecv⟩ := Option.bind_eq_some_iff.mp hbind
    exact .returned hfd hrecv

/-- The router, started in one of the states of `start`. -/
def zigzagrouter (resolve : List UInt8 → Option Ipv4) (s₀ : System) : LTS System Label :=
  LTS.ofExec s₀ (System.exec resolve)

end CS536Labs.Lab6
