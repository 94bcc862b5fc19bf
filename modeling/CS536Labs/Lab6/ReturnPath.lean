import CS536Labs.Lab6.SelectLoop

/-!
# Learning the return path

The send address of the return table is the one of the latest control message. The address
`0.0.0.0` with port 0 stands for an address that is to be filled in: `forward_data` puts the source
of a datagram in its place. The table keeps the addresses as text, and the check for the fill-in
values compares texts.

* `learnedAddress` is the intended address, as a function of what the loop handled, and
  `tableInv_of_reachable` says that the table holds its text in every reachable state.
* `returnPath_learning` reads it off the events since the latest control message. A source that is
  itself `0.0.0.0` with port 0 cannot be told from an address that is yet to be filled in.
-/

namespace CS536Labs.Lab6

open Udp

/-- The address that stands for one to be filled in. -/
def fillInAddress : Address := ⟨.any, 0⟩

/-- The address of a message whose port stands at the offset. -/
def messageAddress (buffer : List UInt8) (offset : ℕ) : Address :=
  ⟨(Ipv4.ofBytes (bytesAt buffer (offset + 2) 4)).getD .any, messagePort buffer offset⟩

/-- The texts of the sending address. -/
structure ForwardingPath.SendsTo (path : ForwardingPath) (address : Address) : Prop where
  ip : cString path.sendIp = inetNtop address.ip.bytes
  port : cString path.sendPort = numeral address.port.toNat

/-! ## The two ways to write the table -/

theorem length_numeral_uint16 (port : UInt16) : (numeral port.toNat).length < portStrlen :=
  length_numeral_port port.toNat_lt

/-- Texts of addresses are compared in full. -/
theorem strncmpEq_iff {s t : List UInt8} {size : ℕ} (hs : (cString s).length < size)
    (ht : (cString t).length < size) : strncmpEq s t size = true ↔ cString s = cString t := by
  rw [strncmpEq, List.take_of_length_le (Nat.le_of_lt hs), List.take_of_length_le (Nat.le_of_lt ht),
    beq_iff_eq]

variable {path : ForwardingPath} {address : Address}

/-- **The check for the fill-in values** finds exactly the fill-in address. -/
theorem ForwardingPath.SendsTo.isFillIn_iff (h : path.SendsTo address) :
    (strncmpEq path.sendIp returnIpFillIn inetAddrstrlen &&
      strncmpEq path.sendPort returnPortFillIn portStrlen) = true ↔ address = fillInAddress := by
  have hip : cString returnIpFillIn = inetNtop Ipv4.any.bytes := by decide
  have hport : cString returnPortFillIn = numeral (0 : UInt16).toNat := by decide
  rw [Bool.and_eq_true, strncmpEq_iff, strncmpEq_iff, h.ip, h.port, hip, hport]
  · constructor
    · rintro ⟨hip, hport⟩
      have hip := Ipv4.bytes_inj (inetNtop_inj address.ip.length_bytes Ipv4.any.length_bytes hip)
      have hport := UInt16.toNat_inj.mp (numeral_inj hport)
      cases address
      exact congrArg₂ Address.mk hip hport
    · rintro rfl
      exact ⟨rfl, rfl⟩
  · rw [h.port]
    exact length_numeral_uint16 _
  · rw [hport]
    exact length_numeral_uint16 _
  · rw [h.ip]
    exact length_inetNtop_lt address.ip.length_bytes
  · rw [hip]
    exact length_inetNtop_lt Ipv4.any.length_bytes

/-- A table with the texts of an address sends there. -/
theorem ForwardingPath.SendsTo.sendAddress (h : path.SendsTo address)
    (resolve : List UInt8 → Option Ipv4) : sendAddress resolve path = some address := by
  have hip : cString path.sendIp ≠ [] := by
    intro hnil
    have hsome := inetPton_inetNtop address.ip.length_bytes
    rw [← h.ip, hnil] at hsome
    cases hsome
  have hport : cString path.sendPort ≠ [] := by
    rw [h.port]
    exact numeral_ne_nil _
  rw [Lab6.sendAddress, if_neg, h.ip, h.port, buildAddrinfo_print]
  rw [not_or]
  exact ⟨cString_take_ne_nil hip (by decide), cString_take_ne_nil hport (by decide)⟩

theorem ForwardingPath.SendsTo.unique {address' : Address} (h : path.SendsTo address)
    (h' : path.SendsTo address') : address = address' := by
  have hsend := h.sendAddress fun _ => none
  rw [h'.sendAddress] at hsend
  exact (Option.some.inj hsend).symm

theorem sendsTo_updateReturnPath (source : Address) (path : ForwardingPath) :
    (updateReturnPath source path).SendsTo source where
  ip := cString_strncpy (nul_notMem_inetNtop _) (length_inetNtop_lt source.ip.length_bytes)
  port := by
    have hlen : (numeral source.port.toNat).length ≤ portStrlen - 1 :=
      Nat.le_of_lt_succ (length_numeral_uint16 _)
    simp only [updateReturnPath, List.take_of_length_le hlen]
    exact cString_strncpy (nul_notMem_numeral _) (length_numeral_uint16 _)

/-- What a forward datagram does to the table. -/
theorem ForwardingPath.SendsTo.learn (h : path.SendsTo address) (source : Address) :
    (learnReturnPath source path).SendsTo
      (if address = fillInAddress then source else address) := by
  rw [learnReturnPath]
  by_cases hfill : address = fillInAddress
  · rw [if_pos (h.isFillIn_iff.mpr hfill), if_pos hfill]
    exact sendsTo_updateReturnPath source path
  · rw [if_neg (mt h.isFillIn_iff.mp hfill), if_neg hfill]
    exact h

/-- Other addresses are not touched. -/
theorem ForwardingPath.SendsTo.learn_eq (h : path.SendsTo address) (hne : address ≠ fillInAddress)
    (source : Address) : learnReturnPath source path = path := by
  rw [learnReturnPath, if_neg (mt h.isFillIn_iff.mp hne)]

/-- What a control message does to a table. -/
theorem sendsTo_updateSendAddress {buffer : List UInt8} (hbuffer : buffer.length = zzconfigSize)
    {offset : ℕ} (hoffset : offset + 8 ≤ zzconfigSize) (path old : ForwardingPath) :
    (updateSendAddress path (decodePath buffer offset old)).SendsTo
      (messageAddress buffer (offset + 2)) := by
  have htexts := texts_decodePath buffer offset old
  simp only [ForwardingPath.texts, List.cons.injEq, and_true] at htexts
  obtain ⟨-, hport, hip⟩ := htexts
  have hlen : (bytesAt buffer (offset + 4) 4).length = 4 := by
    rw [bytesAt, List.length_take, List.length_drop]
    omega
  obtain ⟨ip, hofBytes, hbytes⟩ := Ipv4.ofBytes_of_length hlen
  refine ⟨?_, ?_⟩
  · rw [updateSendAddress, hip, cString_strncpy (nul_notMem_inetNtop _) (length_inetNtop_lt hlen),
      messageAddress, hofBytes, Option.getD_some, hbytes]
  · rw [updateSendAddress, hport]
    exact cString_strncpy (nul_notMem_numeral _) (length_numeral_uint16 _)

/-! ## The address over a run -/

/-- The intended return address after an event. -/
def learnedAddress : List Handled → Option Address :=
  List.foldl (fun address event =>
    match event with
    | .control m => some (messageAddress m 10)
    | .forward source => address.map fun address =>
        if address = fillInAddress then source else address
    | .returned _ => address) none

/-- The source of the first forward datagram from an address that does not stand for one to be
filled in. -/
def firstSource (events : List Handled) : Option Address :=
  events.findSome? fun event =>
    match event with
    | .forward source => if source = fillInAddress then none else some source
    | _ => none

theorem learnedAddress_append (events : List Handled) (event : Handled) :
    learnedAddress (events ++ [event]) =
      match event with
      | .control m => some (messageAddress m 10)
      | .forward source => (learnedAddress events).map fun address =>
          if address = fillInAddress then source else address
      | .returned _ => learnedAddress events := by
  rw [learnedAddress, List.foldl_append]
  rfl

theorem ne_fillIn_of_firstSource {events : List Handled} {address : Address}
    (h : firstSource events = some address) : address ≠ fillInAddress := by
  obtain ⟨event, -, hevent⟩ := List.exists_of_findSome?_eq_some h
  cases event with
  | control m => cases hevent
  | returned source => cases hevent
  | forward source =>
    have hevent : (if source = fillInAddress then none else some source) = some address := hevent
    split_ifs at hevent with hsource
    rw [← Option.some.inj hevent]
    exact hsource

/-- The intended address is the one of the latest control message, or the first source since. -/
theorem learnedAddress_eq (before after : List Handled) (m : List UInt8)
    (hafter : ∀ m', .control m' ∉ after) :
    learnedAddress (before ++ .control m :: after) =
      some (if messageAddress m 10 = fillInAddress then (firstSource after).getD fillInAddress
        else messageAddress m 10) := by
  induction after using List.reverseRecOn with
  | nil =>
    rw [learnedAddress_append]
    simp only [firstSource, List.findSome?_nil, Option.getD_none, Option.some.injEq]
    split
    · assumption
    · rfl
  | append_singleton after event ih =>
    have ih := ih fun m' hm' => hafter m' (List.mem_append_left _ hm')
    rw [← List.cons_append, ← List.append_assoc, learnedAddress_append, ih]
    have hfirst : firstSource (after ++ [event]) = (firstSource after).or (firstSource [event]) :=
      List.findSome?_append
    cases event with
    | control m' => exact absurd (List.mem_append_right _ List.mem_cons_self) (hafter m')
    | returned source =>
      rw [hfirst, firstSource, firstSource, List.findSome?_singleton, Option.or_none]
    | forward source =>
      simp only [Option.map_some, Option.some.injEq]
      by_cases hm : messageAddress m 10 = fillInAddress
      · rw [if_pos hm, if_pos hm, hfirst]
        cases h : firstSource after with
        | some address =>
          exact if_neg (ne_fillIn_of_firstSource h)
        | none =>
          simp only [Option.getD_none, if_true, Option.none_or, firstSource,
            List.findSome?_singleton]
          split
          · assumption
          · rfl
      · rw [if_neg hm, if_neg hm, if_neg hm]

/-! ## The table over a run -/

/-- The table holds the intended address. -/
def TableInv (s : System) : Prop :=
  ∀ address, learnedAddress s.history = some address → s.router.returnPath.SendsTo address

theorem TableInv.control {s : System} (h : TableInv s) (d : Datagram)
    (choices : UInt16 × UInt16) : TableInv (s.control d choices) := by
  rw [System.control]
  split
  · exact h
  · rename_i hlen
    intro address haddress
    simp only [learnedAddress_append] at haddress
    rw [← Option.some.inj haddress]
    exact sendsTo_updateSendAddress (not_not.mp hlen) (by decide) _ _

theorem TableInv.forwardData {resolve : List UInt8 → Option Ipv4} {s : System} (h : TableInv s)
    (d : Datagram) (sendOk : Bool) : TableInv (s.forwardData resolve d sendOk) := by
  intro address haddress
  rw [System.forwardData, System.history_sendto] at haddress
  rw [System.forwardData, System.router_sendto]
  simp only [learnedAddress_append] at haddress
  obtain ⟨old, hold, rfl⟩ := Option.map_eq_some_iff.mp haddress
  exact (h old hold).learn d.source

theorem TableInv.returnData {resolve : List UInt8 → Option Ipv4} {s : System} (h : TableInv s)
    (d : Datagram) (sendOk : Bool) : TableInv (s.returnData resolve d sendOk) := by
  intro address haddress
  rw [System.returnData, System.history_sendto] at haddress
  rw [System.returnData, System.router_sendto]
  simp only [learnedAddress_append] at haddress
  exact h address haddress

theorem history_of_start {k : Kernel} {controlPort : List UInt8} {choice choice' choice'' : UInt16}
    {s₀ : System} (h : start k controlPort choice choice' choice'' = some s₀) :
    s₀.history = [] := by
  simp only [start] at h
  split at h
  · rw [← Option.some.inj h]
  · cases h

theorem tableInv_of_reachable {resolve : List UInt8 → Option Ipv4} {k : Kernel}
    {controlPort : List UInt8} {choice choice' choice'' : UInt16} {s₀ s : System}
    (h₀ : start k controlPort choice choice' choice'' = some s₀)
    (h : (zigzagrouter resolve s₀).Reachable s) : TableInv s := by
  refine h.invariant (I := TableInv) ?_ ?_
  · rintro s rfl
    have hhistory : s.history = [] := history_of_start h₀
    intro address haddress
    rw [hhistory] at haddress
    cases haddress
  · rintro s a s' - hs hstep
    cases a with
    | arrive port d =>
      obtain rfl := Option.some.inj hstep
      exact hs
    | process choices sendOk =>
      have hstep : s.process resolve choices sendOk = some s' := hstep
      cases System.processStep hstep with
      | move ctl => exact hs
      | control hfd hrecv =>
        apply TableInv.control
        exact hs
      | forward hfd hrecv =>
        apply TableInv.forwardData
        exact hs
      | returned hfd hrecv =>
        apply TableInv.returnData
        exact hs

/-- **Learning the return path.** After the latest control message, the return table sends to the
address of the message, unless that is to be filled in: then it sends to the source of the first
forward datagram whose source is not itself `0.0.0.0` with port 0. -/
theorem returnPath_learning {resolve : List UInt8 → Option Ipv4} {k : Kernel}
    {controlPort : List UInt8} {choice choice' choice'' : UInt16} {s₀ s : System}
    (h₀ : start k controlPort choice choice' choice'' = some s₀)
    (h : (zigzagrouter resolve s₀).Reachable s) (before after : List Handled) (m : List UInt8)
    (hhistory : s.history = before ++ .control m :: after) (hafter : ∀ m', .control m' ∉ after) :
    s.router.returnPath.SendsTo
      (if messageAddress m 10 = fillInAddress then (firstSource after).getD fillInAddress
        else messageAddress m 10) := by
  apply tableInv_of_reachable h₀ h
  rw [hhistory]
  exact learnedAddress_eq before after m hafter

/-- A round of the loop that handles one datagram. -/
def round : List Label := List.replicate 5 (.process (0, 0) true)

/-- Two packets behind a control message: the source of the first one is learned. -/
theorem returnPath_learning_ping :
    ∃ s, (zigzagrouter (fun _ => none) started).Reachable s ∧
      s.history = [.control fillInMessage, .forward ping.source, .forward fillIn.source] ∧
        s.router.returnPath.SendsTo ping.source := by
  have hrun : LTS.run (System.exec fun _ => none) (fun _ _ => True) started
      (.arrive 10000 fillIn :: round ++ .arrive 10001 ping :: round ++
        .arrive 10001 fillIn :: round) = some _ := rfl
  have hreach := (LTS.reachable_of_run (LTS.Reachable.init rfl) hrun).of_restrict
  exact ⟨_, hreach, rfl,
    returnPath_learning start_eq_started hreach [] [.forward ping.source, .forward fillIn.source]
      fillInMessage rfl (by simp)⟩

/-- A packet from `0.0.0.0` with port 0. -/
def unspecified : Datagram := ⟨fillInAddress, [9]⟩

/-- The first forward datagram comes from `0.0.0.0` with port 0: the source of the next one takes
its place. -/
theorem returnPath_learned_twice :
    ∃ s, (zigzagrouter (fun _ => none) started).Reachable s ∧
      messageAddress fillInMessage 10 = fillInAddress ∧
      s.history = [.control fillInMessage, .forward unspecified.source, .forward ping.source] ∧
        ¬ s.router.returnPath.SendsTo unspecified.source := by
  have hrun : LTS.run (System.exec fun _ => none) (fun _ _ => True) started
      (.arrive 10000 fillIn :: round ++ .arrive 10001 unspecified :: round ++
        .arrive 10001 ping :: round) = some _ := rfl
  refine ⟨_, (LTS.reachable_of_run (LTS.Reachable.init rfl) hrun).of_restrict, by decide, rfl, ?_⟩
  intro h
  exact absurd h.port (by decide)

end CS536Labs.Lab6
