import CS536Labs.Foundations.Udp

/-!
# `lab6/v1/socket_utils.c` and the sockets of `zigzagrouter`

Addresses from text, and `create_and_bind_udp_socket` of the router over the sockets of the process.
`createAndBindUdpSocket_cases` says all that the call can do.
-/

namespace CS536Labs.Lab6

open Udp

/-- The service of `getaddrinfo` under `AI_NUMERICSERV`: the whole text is a number for `strtoul`
with base 10 that is not negative as an `int`, and its low 16 bits are the port. No text is port
0. -/
def serviceNumber (service : List UInt8) : Option UInt16 :=
  let digits := service.dropWhile isSpace
  let digits := if digits.head? == some 0x2d || digits.head? == some 0x2b then digits.tail
    else digits
  let num := strtoul service % 2 ^ 32
  if service = [] then some 0
  else if digits ≠ [] ∧ digits.all isDigit ∧ num < 2 ^ 31 then some (UInt16.ofNat num)
  else none

/-- The node of `getaddrinfo`: an address in dotted decimal form, or what the name service knows. -/
def nodeAddress (resolve : List UInt8 → Option Ipv4) (node : List UInt8) : Option Ipv4 :=
  match inetPton node with
  | some addr => Ipv4.ofBytes addr
  | none => resolve node

/-- `build_addrinfo` with an address to send to. With a node, the service `*` is none. -/
def buildAddrinfo (resolve : List UInt8 → Option Ipv4) (ip port : List UInt8) : Option Address :=
  match serviceNumber (if port = [0x2a] then [] else port), nodeAddress resolve ip with
  | some port, some ip => some ⟨ip, port⟩
  | _, _ => none

/-- `get_port_number`, whose return value -1 is the port 65535. -/
def getPortNumber (k : Kernel) (fd : Option ℕ) : UInt16 := (fd.bind k.portOf).getD 65535

/-- `create_and_bind_udp_socket`: the descriptor, or `none` for -1. -/
def createAndBindUdpSocket (k : Kernel) (port : List UInt8) (choice : UInt16) :
    Option ℕ × Kernel :=
  match serviceNumber port with
  | none => (none, k)
  | some port =>
    let fd := k.socket.1
    match k.socket.2.bind fd port choice with
    | none => (none, k.socket.2.close (some fd))
    | some k => (some fd, k)

/-- The port that is bound for a request. -/
def boundPort (port choice : UInt16) : UInt16 := if port = 0 then choice else port

/-! ## Texts that the codec prints -/

theorem ofNat_toNat_port {n : ℕ} (hn : n < 2 ^ 16) : (UInt16.ofNat n).toNat = n :=
  UInt16.toNat_ofNat_of_lt' hn

/-- Digits up to 65535 are a service. -/
theorem serviceNumber_digits {s : List UInt8} (hne : s ≠ []) (hs : ∀ c ∈ s, isDigit c = true)
    (hlt : decimalValue s < 2 ^ 16) :
    serviceNumber s = some (UInt16.ofNat (decimalValue s)) := by
  have hvalue : strtoul s % 2 ^ 32 = decimalValue s := by
    rw [strtoul_digits hs]
    omega
  have hnum : s ≠ [] ∧ s.all isDigit = true ∧ decimalValue s < 2 ^ 31 :=
    ⟨hne, List.all_eq_true.mpr hs, Nat.lt_trans hlt (by decide)⟩
  simp only [serviceNumber, dropWhile_isSpace_digits hs, not_sign_of_digits hs (c := 0x2d) rfl,
    not_sign_of_digits hs (c := 0x2b) rfl, Bool.or_self, Bool.false_eq_true, if_false, hvalue]
  rw [if_neg hne, if_pos hnum]

theorem serviceNumber_numeral {n : ℕ} (hn : n < 2 ^ 16) :
    serviceNumber (numeral n) = some (UInt16.ofNat n) := by
  have hservice := serviceNumber_digits (numeral_ne_nil n) (fun c => isDigit_of_mem_numeral)
    (by rwa [decimalValue_numeral])
  rwa [decimalValue_numeral] at hservice

theorem serviceNumber_port (port : UInt16) : serviceNumber (numeral port.toNat) = some port := by
  rw [serviceNumber_numeral port.toNat_lt, UInt16.ofNat_toNat]

theorem nodeAddress_inetNtop (resolve : List UInt8 → Option Ipv4) (ip : Ipv4) :
    nodeAddress resolve (inetNtop ip.bytes) = some ip := by
  rw [nodeAddress, inetPton_inetNtop ip.length_bytes]
  exact ip.ofBytes_bytes

theorem star_ne_digits {s : List UInt8} (hs : ∀ c ∈ s, isDigit c = true) : s ≠ [0x2a] := by
  rintro rfl
  exact absurd (hs 0x2a List.mem_cons_self) (by decide)

/-- **A printed address is read.** -/
theorem buildAddrinfo_print (resolve : List UInt8 → Option Ipv4) (address : Address) :
    buildAddrinfo resolve (inetNtop address.ip.bytes) (numeral address.port.toNat) =
      some address := by
  rw [buildAddrinfo, if_neg (star_ne_digits fun c => isDigit_of_mem_numeral),
    nodeAddress_inetNtop, serviceNumber_port]

/-! ## Creating a socket -/

/-- What a call of `create_and_bind_udp_socket` does when the port is taken. -/
structure BindFailed (k : Kernel) (port : UInt16) (result : Option ℕ × Kernel) : Prop where
  fd : result.1 = none
  held : port = 0 ∨ k.holds port = true
  desc : ∀ i, result.2.desc i = k.desc i
  others : result.2.others = k.others

/-- What a call of `create_and_bind_udp_socket` does when the port is free. -/
structure Bound (k : Kernel) (port : UInt16) (result : Option ℕ × Kernel) : Prop where
  fd : result.1 = some k.lowestFree
  free : port ≠ 0 ∧ k.holds port = false
  desc : ∀ i, result.2.desc i =
    if i = k.lowestFree then some (.socket port []) else k.desc i
  others : result.2.others = k.others

theorem holds_socket (k : Kernel) (port : UInt16) :
    k.socket.2.holds port = true ↔ port = 0 ∨ k.holds port = true := by
  rw [Kernel.holds_iff, Kernel.holds_iff, Kernel.socket, Kernel.others_put]
  constructor
  · rintro (h | ⟨fd, queue, h⟩)
    · exact .inr (.inl h)
    · rw [Kernel.desc_put] at h
      split at h
      · cases h
        exact .inl rfl
      · exact .inr (.inr ⟨fd, queue, h⟩)
  · rintro (rfl | h | ⟨fd, queue, h⟩)
    · exact .inr ⟨_, [], k.desc_put_self _ _⟩
    · exact .inl h
    · apply Or.inr
      refine ⟨fd, queue, ?_⟩
      rw [Kernel.desc_put_of_ne, h]
      rintro rfl
      rw [k.desc_lowestFree] at h
      cases h

/-- **All that `create_and_bind_udp_socket` can do.** -/
theorem createAndBindUdpSocket_cases (k : Kernel) {service : List UInt8} {port : UInt16}
    (hservice : serviceNumber service = some port) (choice : UInt16) :
    BindFailed k (boundPort port choice) (createAndBindUdpSocket k service choice) ∨
      Bound k (boundPort port choice) (createAndBindUdpSocket k service choice) := by
  have hbind : k.socket.2.bind k.socket.1 port choice =
      if k.socket.2.holds (boundPort port choice) then none
      else some (k.socket.2.put k.socket.1 (some (.socket (boundPort port choice) []))) := rfl
  have hdesc : ∀ d i, (k.socket.2.put k.socket.1 d).desc i =
      if i = k.lowestFree then d else k.desc i := by
    intro d i
    rw [Kernel.desc_put, Kernel.socket]
    split
    · rfl
    · rename_i h
      rw [Kernel.desc_put_of_ne _ h]
  rw [createAndBindUdpSocket, hservice]
  simp only [hbind]
  by_cases h : k.socket.2.holds (boundPort port choice) = true
  · apply Or.inl
    rw [if_pos h]
    refine ⟨rfl, (holds_socket k _).mp h, ?_, rfl⟩
    intro i
    refine (hdesc none i).trans ?_
    split
    · rename_i hi
      rw [hi, k.desc_lowestFree]
    · rfl
  · apply Or.inr
    rw [if_neg h]
    have hfree := mt (holds_socket k (boundPort port choice)).mpr h
    rw [not_or, Bool.not_eq_true] at hfree
    exact ⟨rfl, hfree, hdesc _, rfl⟩

/-- A descriptor is returned for a bound socket. -/
theorem bound_of_eq_some {k : Kernel} {service : List UInt8} {choice : UInt16} {fd : ℕ}
    (h : (createAndBindUdpSocket k service choice).1 = some fd) :
    ∃ port, Bound k port (createAndBindUdpSocket k service choice) := by
  cases hservice : serviceNumber service with
  | none =>
    rw [createAndBindUdpSocket, hservice] at h
    cases h
  | some port =>
    refine ⟨boundPort port choice,
      (createAndBindUdpSocket_cases k hservice choice).resolve_left fun hfailed => ?_⟩
    rw [hfailed.fd] at h
    cases h

/-- The ports that are held once a socket is bound. -/
theorem Bound.holds_close_iff {k : Kernel} {port : UInt16} {result : Option ℕ × Kernel}
    (h : Bound k port result) {fd : Option ℕ} (hfd : fd ≠ some k.lowestFree) (p : UInt16) :
    (result.2.close fd).holds p = true ↔ p = port ∨ (k.close fd).holds p = true := by
  rw [Kernel.holds_iff, Kernel.holds_iff, Kernel.others_close, Kernel.others_close, h.others]
  constructor
  · rintro (hp | ⟨i, queue, hi⟩)
    · exact .inr (.inl hp)
    · rw [Kernel.desc_close, h.desc] at hi
      split at hi
      · cases hi
      · rename_i hne
        split at hi
        · cases hi
          exact .inl rfl
        · refine .inr (.inr ⟨i, queue, ?_⟩)
          rw [Kernel.desc_close, if_neg hne, hi]
  · rintro (rfl | hp | ⟨i, queue, hi⟩)
    · refine .inr ⟨k.lowestFree, [], ?_⟩
      rw [Kernel.desc_close, if_neg hfd, h.desc, if_pos rfl]
    · exact .inl hp
    · refine .inr ⟨i, queue, ?_⟩
      rw [Kernel.desc_close] at hi ⊢
      split at hi
      · cases hi
      · rename_i hne
        rw [if_neg hne, h.desc, if_neg, hi]
        rintro rfl
        rw [k.desc_lowestFree] at hi
        cases hi

section Bound

variable {k : Kernel} {port : UInt16} {result : Option ℕ × Kernel} (h : Bound k port result)
include h

theorem Bound.desc_ne_none {i : ℕ} (hi : i ≤ k.lowestFree) : result.2.desc i ≠ none := by
  rw [h.desc]
  split
  · exact Option.some_ne_none _
  · exact k.desc_ne_none_of_lt (by omega)

theorem Bound.lt_lowestFree : k.lowestFree < result.2.lowestFree := by
  by_contra hle
  exact h.desc_ne_none (Nat.le_of_not_lt hle) result.2.desc_lowestFree

theorem Bound.portOf_self : result.2.portOf k.lowestFree ≠ none := by
  rw [Kernel.portOf, h.desc, if_pos rfl]
  exact Option.some_ne_none _

theorem Bound.portOf_of_ne {i : ℕ} (hi : i ≠ k.lowestFree) :
    result.2.portOf i = k.portOf i := by
  apply Kernel.portOf_congr
  rw [h.desc, if_neg hi]

end Bound

/-- **One holder for each port**, whatever `create_and_bind_udp_socket` does. -/
theorem exclusive_createAndBindUdpSocket {k : Kernel} (h : k.Exclusive) (service : List UInt8)
    (choice : UInt16) : (createAndBindUdpSocket k service choice).2.Exclusive := by
  cases hservice : serviceNumber service with
  | none =>
    rw [createAndBindUdpSocket, hservice]
    exact h
  | some port =>
    rcases createAndBindUdpSocket_cases k hservice choice with hfailed | hbound
    · exact h.congr (fun i => Kernel.portOf_congr (hfailed.desc i)) hfailed.others
    · have hfree := mt (Kernel.holds_iff_portOf k _).mpr (ne_true_of_eq_false hbound.free.2)
      rw [not_or, not_exists] at hfree
      have hself : (createAndBindUdpSocket k service choice).2.portOf k.lowestFree =
          some (boundPort port choice) :=
        (Kernel.portOf_eq_some_iff _).mpr ⟨[], by rw [hbound.desc, if_pos rfl]⟩
      constructor
      · intro i j p hi hj
        by_cases hlowest : i = k.lowestFree <;> by_cases hlowest' : j = k.lowestFree
        · exact hlowest.trans hlowest'.symm
        · rw [hlowest, hself] at hi
          rw [hbound.portOf_of_ne hlowest', ← hi] at hj
          exact absurd hj (hfree.2 j)
        · rw [hlowest', hself] at hj
          rw [hbound.portOf_of_ne hlowest, ← hj] at hi
          exact absurd hi (hfree.2 i)
        · rw [hbound.portOf_of_ne hlowest] at hi
          rw [hbound.portOf_of_ne hlowest'] at hj
          exact h.socket i j p hi hj
      · intro i p hi
        rw [hbound.others]
        by_cases hlowest : i = k.lowestFree
        · rw [hlowest, hself] at hi
          rw [← Option.some.inj hi]
          exact hfree.1
        · rw [hbound.portOf_of_ne hlowest] at hi
          exact h.others i p hi

/-- The other sockets keep their ports. -/
theorem Bound.getPortNumber {k : Kernel} {port : UInt16} {result : Option ℕ × Kernel}
    (h : Bound k port result) {fd : Option ℕ} (hfd : fd ≠ some k.lowestFree) :
    getPortNumber result.2 fd = getPortNumber k fd := by
  cases fd with
  | none => rfl
  | some fd =>
    have hne : fd ≠ k.lowestFree := fun h => hfd (congrArg some h)
    simp only [Lab6.getPortNumber, Option.bind_some, Kernel.portOf, h.desc, if_neg hne]

end CS536Labs.Lab6
