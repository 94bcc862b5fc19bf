import CS536Labs.Foundations.Ipv4

/-!
# UDP sockets of a process

The descriptor table of one process, and the ports that other processes of the host hold. `socket`
returns the lowest free descriptor, `bind` succeeds exactly when no live socket holds the port, and
`close` discards the datagrams in the queue of a socket.

Each operation comes with what it does to `desc`, the descriptor of a number (`desc_put`,
`desc_deliver`), and with what it does to the ports that are held (`holds_iff`).
-/

namespace CS536Labs.Udp

/-- The four bytes of an IPv4 address, in network order. -/
structure Ipv4 where
  a : UInt8
  b : UInt8
  c : UInt8
  d : UInt8
  deriving DecidableEq

def Ipv4.bytes (ip : Ipv4) : List UInt8 := [ip.a, ip.b, ip.c, ip.d]

/-- `INADDR_ANY`, `0.0.0.0`. -/
def Ipv4.any : Ipv4 := ⟨0, 0, 0, 0⟩

def Ipv4.ofBytes : List UInt8 → Option Ipv4
  | [a, b, c, d] => some ⟨a, b, c, d⟩
  | _ => none

/-- A socket address. -/
structure Address where
  ip : Ipv4
  port : UInt16
  deriving DecidableEq

structure Datagram where
  source : Address
  data : List UInt8
  deriving DecidableEq

/-- What a descriptor refers to. A socket has port 0 until it is bound. -/
inductive Descriptor
  | file
  | socket (port : UInt16) (queue : List Datagram)
  deriving DecidableEq

/-- A datagram arrives at a socket with the port. -/
def Descriptor.enqueue (port : UInt16) (d : Datagram) : Descriptor → Descriptor
  | .file => .file
  | .socket port' queue => .socket port' (if port' = port then queue ++ [d] else queue)

/-- The descriptor table, and the ports that the other processes hold. -/
structure Kernel where
  table : List (Option Descriptor)
  others : List UInt16
  deriving DecidableEq

theorem Ipv4.length_bytes (ip : Ipv4) : ip.bytes.length = 4 := rfl

theorem Ipv4.ofBytes_bytes (ip : Ipv4) : Ipv4.ofBytes ip.bytes = some ip := rfl

theorem Ipv4.ofBytes_of_length {bytes : List UInt8} (h : bytes.length = 4) :
    ∃ ip : Ipv4, Ipv4.ofBytes bytes = some ip ∧ ip.bytes = bytes := by
  obtain ⟨a, b, c, d, rfl⟩ := List.length_eq_four.mp h
  exact ⟨⟨a, b, c, d⟩, rfl, rfl⟩

theorem Ipv4.bytes_inj {ip ip' : Ipv4} (h : ip.bytes = ip'.bytes) : ip = ip' := by
  apply Option.some.inj
  rw [← ofBytes_bytes, h, ofBytes_bytes]

namespace Kernel

/-- What the number refers to. -/
def desc (k : Kernel) (fd : ℕ) : Option Descriptor := k.table[fd]?.join

/-- The kernel with one entry of the table replaced. -/
def put (k : Kernel) (fd : ℕ) (d : Option Descriptor) : Kernel :=
  { k with table := (k.table ++ List.replicate (fd + 1 - k.table.length) none).set fd d }

/-- The lowest number that is not in use. -/
def lowestFree (k : Kernel) : ℕ := k.table.findIdx Option.isNone

/-- Some live socket of the host holds the port. -/
def holds (k : Kernel) (port : UInt16) : Bool :=
  k.others.contains port ||
    k.table.any fun d =>
      match d with
      | some (.socket port' _) => port' == port
      | _ => false

/-- `socket(AF_INET, SOCK_DGRAM, 0)`. -/
def socket (k : Kernel) : ℕ × Kernel := (k.lowestFree, k.put k.lowestFree (some (.socket 0 [])))

/-- `bind`, which fails when the port is held. The kernel chooses the port for a request of
port 0. -/
def bind (k : Kernel) (fd : ℕ) (port choice : UInt16) : Option Kernel :=
  let port := if port = 0 then choice else port
  if k.holds port then none else some (k.put fd (some (.socket port [])))

/-- `close`, which fails without effect for the descriptor -1. -/
def close (k : Kernel) : Option ℕ → Kernel
  | none => k
  | some fd => k.put fd none

/-- `getsockname`: the port of a socket. -/
def portOf (k : Kernel) (fd : ℕ) : Option UInt16 :=
  match k.desc fd with
  | some (.socket port _) => some port
  | _ => none

/-- The datagrams queued at a socket. -/
def queueOf (k : Kernel) (fd : ℕ) : List Datagram :=
  match k.desc fd with
  | some (.socket _ queue) => queue
  | _ => []

/-- `recvfrom` into a buffer of a size, `none` when nothing is queued: the call blocks. -/
def recvfrom (k : Kernel) (fd size : ℕ) : Option (Datagram × Kernel) :=
  match k.desc fd with
  | some (.socket port (d :: queue)) =>
    some (⟨d.source, d.data.take size⟩, k.put fd (some (.socket port queue)))
  | _ => none

/-- A datagram arrives from the network. -/
def deliver (k : Kernel) (port : UInt16) (d : Datagram) : Kernel :=
  { k with table := k.table.map fun e => e.map (Descriptor.enqueue port d) }

/-! ## The table behind an operation -/

variable (k : Kernel)

@[simp] theorem others_put (fd : ℕ) (d : Option Descriptor) : (k.put fd d).others = k.others := rfl

/-- **`put` changes one entry.** -/
theorem desc_put (fd i : ℕ) (d : Option Descriptor) :
    (k.put fd d).desc i = if i = fd then d else k.desc i := by
  have hlen : fd < (k.table ++ List.replicate (fd + 1 - k.table.length) none).length := by
    rw [List.length_append, List.length_replicate]
    omega
  rw [desc, put, List.getElem?_set]
  split
  · rename_i h
    rw [if_pos h.symm]
    rfl
  · rename_i h
    rw [if_neg (Ne.symm h), desc, List.getElem?_append]
    split
    · rfl
    · rename_i hi
      rw [List.getElem?_replicate, List.getElem?_eq_none (Nat.le_of_not_lt hi)]
      split <;> rfl

theorem desc_put_self (fd : ℕ) (d : Option Descriptor) : (k.put fd d).desc fd = d := by
  rw [desc_put, if_pos rfl]

theorem desc_put_of_ne {fd i : ℕ} (h : i ≠ fd) (d : Option Descriptor) :
    (k.put fd d).desc i = k.desc i := by
  rw [desc_put, if_neg h]

@[simp] theorem others_close (fd : Option ℕ) : (k.close fd).others = k.others := by
  cases fd <;> rfl

theorem desc_close (fd : Option ℕ) (i : ℕ) :
    (k.close fd).desc i = if fd = some i then none else k.desc i := by
  cases fd with
  | none => rfl
  | some fd =>
    rw [close, desc_put]
    simp only [Option.some.injEq, eq_comm]

theorem desc_ne_none_of_portOf {k : Kernel} {i : ℕ} (h : k.portOf i ≠ none) :
    k.desc i ≠ none := by
  intro hnone
  rw [portOf, hnone] at h
  exact h rfl

theorem portOf_congr {k k' : Kernel} {i : ℕ} (h : k'.desc i = k.desc i) :
    k'.portOf i = k.portOf i := by
  rw [portOf, h, portOf]

theorem queueOf_congr {k k' : Kernel} {i : ℕ} (h : k'.desc i = k.desc i) :
    k'.queueOf i = k.queueOf i := by
  rw [queueOf, h, queueOf]

theorem desc_lowestFree : k.desc k.lowestFree = none := by
  rw [desc]
  cases h : k.table[k.lowestFree]? with
  | none => rfl
  | some d =>
    have hnone := List.findIdx_of_getElem?_eq_some h
    rw [Option.isNone_iff_eq_none] at hnone
    rw [hnone]
    rfl

theorem desc_ne_none_of_lt {i : ℕ} (h : i < k.lowestFree) : k.desc i ≠ none := by
  have hlen : i < k.table.length := Nat.lt_of_lt_of_le h List.findIdx_le_length
  have hsome := List.not_of_lt_findIdx h
  intro hnone
  rw [desc, List.getElem?_eq_getElem hlen] at hnone
  have hnone : k.table[i] = none := hnone
  rw [hnone] at hsome
  cases hsome

/-- The lowest free number is the one below which everything is in use. -/
theorem lowestFree_eq {fd : ℕ} (hfree : k.desc fd = none) (hused : ∀ i < fd, k.desc i ≠ none) :
    k.lowestFree = fd := by
  rcases Nat.lt_trichotomy k.lowestFree fd with h | h | h
  · exact absurd k.desc_lowestFree (hused _ h)
  · exact h
  · exact absurd hfree (k.desc_ne_none_of_lt h)

theorem desc_deliver (port : UInt16) (d : Datagram) (i : ℕ) :
    (k.deliver port d).desc i = (k.desc i).map (Descriptor.enqueue port d) := by
  rw [desc, desc, deliver, List.getElem?_map]
  cases k.table[i]? <;> rfl

theorem queueOf_deliver_ne_nil {port : UInt16} {d : Datagram} {i : ℕ} (h : k.queueOf i ≠ []) :
    (k.deliver port d).queueOf i ≠ [] := by
  rw [queueOf] at h
  rw [queueOf, desc_deliver]
  match hi : k.desc i with
  | none => simp [hi] at h
  | some .file => simp [hi] at h
  | some (.socket port' queue) =>
    have hqueue : queue ≠ [] := by simpa [hi] using h
    simp only [Option.map_some, Descriptor.enqueue]
    split <;> simp [hqueue]

theorem portOf_deliver (port : UInt16) (d : Datagram) (i : ℕ) :
    (k.deliver port d).portOf i = k.portOf i := by
  rw [portOf, portOf, desc_deliver]
  match k.desc i with
  | none => rfl
  | some .file => rfl
  | some (.socket port' queue) => rfl

theorem desc_deliver_ne_none {port : UInt16} {d : Datagram} {i : ℕ} (h : k.desc i ≠ none) :
    (k.deliver port d).desc i ≠ none := by
  rw [desc_deliver]
  exact mt Option.map_eq_none_iff.mp h

/-- **What `recvfrom` does.** A datagram leaves the queue of the socket. -/
theorem recvfrom_eq_some {k k' : Kernel} {fd size : ℕ} {d : Datagram}
    (h : k.recvfrom fd size = some (d, k')) :
    ∃ port first queue, k.desc fd = some (.socket port (first :: queue)) ∧
      d = ⟨first.source, first.data.take size⟩ ∧ k' = k.put fd (some (.socket port queue)) := by
  rw [recvfrom] at h
  match hfd : k.desc fd, h with
  | some (.socket port (first :: queue)), h =>
    obtain ⟨rfl, rfl⟩ := Prod.mk.inj (Option.some.inj h)
    exact ⟨port, first, queue, rfl, rfl, rfl⟩

/-- The first datagram of the queue is received. -/
theorem recvfrom_of_head? {k : Kernel} {fd : ℕ} {d : Datagram} (h : (k.queueOf fd).head? = some d)
    (size : ℕ) : ∃ k', k.recvfrom fd size = some (⟨d.source, d.data.take size⟩, k') := by
  rw [queueOf] at h
  match hfd : k.desc fd with
  | none => simp [hfd] at h
  | some .file => simp [hfd] at h
  | some (.socket port []) => simp [hfd] at h
  | some (.socket port (first :: queue)) =>
    simp only [hfd, List.head?_cons, Option.some.injEq] at h
    subst h
    exact ⟨k.put fd (some (.socket port queue)), by rw [recvfrom, hfd]⟩

section recvfrom

variable {k k' : Kernel} {fd size : ℕ} {d : Datagram} (h : k.recvfrom fd size = some (d, k'))
include h

theorem portOf_recvfrom (i : ℕ) : k'.portOf i = k.portOf i := by
  obtain ⟨port, first, queue, hdesc, -, rfl⟩ := recvfrom_eq_some h
  rcases eq_or_ne i fd with rfl | hi
  · rw [portOf, portOf, k.desc_put_self, hdesc]
  · rw [portOf, portOf, k.desc_put_of_ne hi]

theorem others_recvfrom : k'.others = k.others := by
  obtain ⟨port, first, queue, -, -, rfl⟩ := recvfrom_eq_some h
  rfl

theorem desc_recvfrom_of_ne {i : ℕ} (hi : i ≠ fd) : k'.desc i = k.desc i := by
  obtain ⟨port, first, queue, -, -, rfl⟩ := recvfrom_eq_some h
  exact k.desc_put_of_ne hi _

theorem desc_recvfrom_ne_none {i : ℕ} (hi : k.desc i ≠ none) : k'.desc i ≠ none := by
  obtain ⟨port, first, queue, -, -, rfl⟩ := recvfrom_eq_some h
  rw [desc_put]
  split
  · exact Option.some_ne_none _
  · exact hi

theorem queueOf_recvfrom_of_ne {i : ℕ} (hi : i ≠ fd) : k'.queueOf i = k.queueOf i := by
  exact queueOf_congr (desc_recvfrom_of_ne h hi)

end recvfrom

/-- **Who holds a port.** -/
theorem holds_iff (port : UInt16) : k.holds port = true ↔
    port ∈ k.others ∨ ∃ fd queue, k.desc fd = some (.socket port queue) := by
  rw [holds, Bool.or_eq_true, List.contains_iff_mem, List.any_eq_true]
  apply or_congr_right
  constructor
  · rintro ⟨d, hd, hport⟩
    obtain ⟨fd, hfd, hget⟩ := List.mem_iff_getElem.mp hd
    match d, hport with
    | some (.socket port' queue), hport =>
      obtain rfl : port' = port := by simpa using hport
      refine ⟨fd, queue, ?_⟩
      rw [desc, List.getElem?_eq_getElem hfd, hget]
      rfl
  · rintro ⟨fd, queue, hdesc⟩
    rw [desc] at hdesc
    obtain ⟨d, hget, hd⟩ : ∃ d, k.table[fd]? = some d ∧ d = some (.socket port queue) := by
      cases hget : k.table[fd]? with
      | none =>
        rw [hget] at hdesc
        cases hdesc
      | some d =>
        rw [hget] at hdesc
        exact ⟨d, rfl, hdesc⟩
    refine ⟨d, List.mem_of_getElem? hget, ?_⟩
    rw [hd]
    exact beq_self_eq_true port

theorem portOf_eq_some_iff {fd : ℕ} {port : UInt16} :
    k.portOf fd = some port ↔ ∃ queue, k.desc fd = some (.socket port queue) := by
  rw [portOf]
  match k.desc fd with
  | none => simp
  | some .file => simp
  | some (.socket port' queue) => simp

theorem holds_iff_portOf (port : UInt16) :
    k.holds port = true ↔ port ∈ k.others ∨ ∃ fd, k.portOf fd = some port := by
  simp only [holds_iff, portOf_eq_some_iff]

theorem portOf_close (fd : Option ℕ) (i : ℕ) :
    (k.close fd).portOf i = if fd = some i then none else k.portOf i := by
  rw [portOf, desc_close, portOf]
  by_cases h : fd = some i
  · rw [if_pos h, if_pos h]
  · rw [if_neg h, if_neg h]

variable {k}

/-- Closing a socket takes no port. -/
theorem not_holds_close {port : UInt16} (h : k.holds port = false) (fd : Option ℕ) :
    (k.close fd).holds port = false := by
  rw [← Bool.not_eq_true, holds_iff_portOf, not_or] at h ⊢
  refine ⟨by rw [others_close]; exact h.1, ?_⟩
  rintro ⟨i, hi⟩
  rw [portOf_close] at hi
  split_ifs at hi
  exact h.2 ⟨i, hi⟩

/-! ## One holder for each port -/

/-- No two live sockets hold one port. -/
structure Exclusive (k : Kernel) : Prop where
  socket : ∀ i j port, k.portOf i = some port → k.portOf j = some port → i = j
  others : ∀ i port, k.portOf i = some port → port ∉ k.others

theorem Exclusive.congr {k' : Kernel} (h : k.Exclusive) (hport : ∀ i, k'.portOf i = k.portOf i)
    (hothers : k'.others = k.others) : k'.Exclusive where
  socket i j port := by
    rw [hport, hport]
    exact h.socket i j port
  others i port := by
    rw [hport, hothers]
    exact h.others i port

theorem Exclusive.close (h : k.Exclusive) (fd : Option ℕ) : (k.close fd).Exclusive where
  socket i j port hi hj := by
    rw [portOf_close] at hi hj
    split_ifs at hi hj
    exact h.socket i j port hi hj
  others i port hi := by
    rw [portOf_close] at hi
    split_ifs at hi
    rw [others_close]
    exact h.others i port hi

/-- A port is free once its socket is closed. -/
theorem Exclusive.not_holds_close (h : k.Exclusive) {fd : Option ℕ} {port : UInt16}
    (hport : fd.bind k.portOf = some port) : (k.close fd).holds port = false := by
  obtain ⟨i, rfl, hi⟩ := Option.bind_eq_some_iff.mp hport
  rw [← Bool.not_eq_true, holds_iff_portOf, not_or, others_close]
  refine ⟨h.others i port hi, ?_⟩
  rintro ⟨j, hj⟩
  rw [portOf_close] at hj
  split_ifs at hj with hne
  exact hne (congrArg some (h.socket i j port hi hj))

end Kernel

end CS536Labs.Udp
