import CS536Labs.Lab6.OverlayLines
import CS536Labs.Lab6.SocketUtils

/-!
# `lab6/v1/zigzagconf.c`

The program that sends a control message to the router of every entry of `zzoverlay.dat`.
`send_overlay_configurations` does not look at what `send_overlay_entry` returns, and
`encode_zzconfig` takes the return value 0 of `inet_pton` for a success, so that the exit status
does not tell of a message that is wrong or was not sent.

* `Installed`: a message configures the router of an entry as the text of the entry says.
* `conveys_self_iff`: the message for an entry is right when its ports are plain and it is sent.
* `installs_iff`: when the exit status 0 means that all entries of the file are installed.
-/

namespace CS536Labs.Lab6

open Udp

/-- What the system contributes to a run: the name service, the results of `socket` and of
`sendto`, and what was in the array `config` of each call. -/
structure Env where
  resolve : List UInt8 → Option Ipv4
  socketOk : Bool
  sendOk : ℕ → Bool
  config : ℕ → List UInt8
  length_config : ∀ i, (config i).length = zzconfigSize

/-- A datagram that was sent. -/
structure Message where
  destination : Address
  data : List UInt8
  deriving DecidableEq

instance (path : ForwardingPath) : Decidable path.Terminated :=
  decidable_of_iff (0 ∈ path.receivePort ∧ 0 ∈ path.sendPort ∧ 0 ∈ path.sendIp)
    ⟨fun h => ⟨h.1, h.2.1, h.2.2⟩, fun h => ⟨h.receivePort, h.sendPort, h.sendIp⟩⟩

instance (entry : OverlayEntry) : Decidable entry.Terminated :=
  decidable_of_iff
    (0 ∈ entry.ip ∧ 0 ∈ entry.port ∧ entry.forwardPath.Terminated ∧ entry.returnPath.Terminated)
    ⟨fun h => ⟨h.1, h.2.1, h.2.2.1, h.2.2.2⟩, fun h => ⟨h.ip, h.port, h.forwardPath, h.returnPath⟩⟩

/-- `send_overlay_entry`: the return value and the message that was sent. The result is `none` when
a field without a terminator is read beyond its end. The error codes of `getaddrinfo` are
negative. -/
def sendOverlayEntry (env : Env) (i : ℕ) (entry : OverlayEntry) : Option (ℤ × Option Message) :=
  if entry.Terminated then
    let result := encodeZzconfig entry.forwardPath entry.returnPath (env.config i)
    if result.1 < 0 then some (-1, none)
    else
      match buildAddrinfo env.resolve (cString entry.ip) (cString entry.port) with
      | none => some (-1, none)
      | some address =>
        if env.sendOk i then some (0, some ⟨address, result.2⟩) else some (-1, none)
  else none

/-- The loop of `send_overlay_configurations` from entry `i` on: what the calls returned and
sent. -/
def sendEntries (env : Env) : ℕ → List OverlayEntry → Option (List (ℤ × Option Message))
  | _, [] => some []
  | i, entry :: entries =>
    (sendOverlayEntry env i entry).bind fun result =>
      (sendEntries env (i + 1) entries).map fun results => result :: results

/-- The exit status, and what the calls of `send_overlay_entry` returned and sent. -/
structure Outcome where
  status : ℤ
  results : List (ℤ × Option Message)
  deriving DecidableEq

/-- `send_overlay_configurations`. -/
def sendOverlayConfigurations (env : Env) (entries : List OverlayEntry) : Option Outcome :=
  if env.socketOk then (sendEntries env 0 entries).map fun results => ⟨0, results⟩
  else some ⟨-1, []⟩

/-- `main`, on the content of `zzoverlay.dat`. The result is `none` when the behaviour is
undefined. -/
def zigzagconf (env : Env) (content : Option (List UInt8)) : Option Outcome :=
  match readOverlay content with
  | none => none
  | some none => some ⟨-1, []⟩
  | some (some texts) => sendOverlayConfigurations env (texts.map EntryText.store)

/-! ## What an entry says -/

/-- A decimal number from 0 to 65535. -/
structure IsPort (token : List UInt8) : Prop where
  ne_nil : token ≠ []
  digits : ∀ c ∈ token, isDigit c = true
  lt : decimalValue token < 2 ^ 16

/-- The ports are numbers and the address is in dotted decimal form. -/
structure PathText.Valid (text : PathText) : Prop where
  receivePort : IsPort text.receivePort
  sendPort : IsPort text.sendPort
  sendIp : ∃ ip : Ipv4, inetPton text.sendIp = some ip.bytes

structure EntryText.Valid (text : EntryText) : Prop where
  ip : ∃ ip : Ipv4, inetPton text.ip = some ip.bytes
  port : IsPort text.port
  forwardPath : text.forwardPath.Valid
  returnPath : text.returnPath.Valid

/-- A decoded path has the numbers and the address of the text. -/
structure PathText.Agrees (text : PathText) (path : ForwardingPath) : Prop where
  receivePort : decimalValue (cString path.receivePort) = decimalValue text.receivePort
  sendPort : decimalValue (cString path.sendPort) = decimalValue text.sendPort
  sendIp : inetPton (cString path.sendIp) = inetPton text.sendIp

/-- The entry is valid, and the message configures its router as the text says. -/
structure Installed (text : EntryText) (m : Message) : Prop where
  valid : text.Valid
  ip : inetPton text.ip = some m.destination.ip.bytes
  port : decimalValue text.port = m.destination.port.toNat
  length : m.data.length = zzconfigSize
  forwardPath : text.forwardPath.Agrees (decodeZzconfig m.data .zero .zero).1
  returnPath : text.returnPath.Agrees (decodeZzconfig m.data .zero .zero).2

/-- When the exit status is 0, the message of every entry of the file was sent. -/
def Installs (env : Env) (content : Option (List UInt8)) : Prop :=
  ∃ outcome : Outcome, zigzagconf env content = some outcome ∧
    (outcome.status = 0 → ∀ (i : ℕ) group, (entryGroups content)[i]? = some group →
      ∃ text r m, entryOf group = some text ∧ outcome.results[i]? = some (r, some m) ∧
        Installed text m)

/-! ## When the exit status tells of all entries -/

/-- The texts that were read for a path denote what the path says: the ports in base 0, and the
address, for which `old` stays in the message when it is not valid. -/
structure PathText.ReadAs (read text : PathText) (old : List UInt8) : Prop where
  receivePort : strtoul0 read.receivePort % 2 ^ 16 = decimalValue text.receivePort
  sendPort : strtoul0 read.sendPort % 2 ^ 16 = decimalValue text.sendPort
  sendIp : inetPton text.sendIp = some ((inetPton read.sendIp).getD (old.drop 4))

/-- The entry is valid, the texts that were read for it denote what it says, and the message is
sent. -/
structure Conveys (env : Env) (i : ℕ) (read text : EntryText) : Prop where
  valid : text.Valid
  address : ∃ ip : Ipv4, inetPton text.ip = some ip.bytes ∧
    buildAddrinfo env.resolve read.ip read.port = some ⟨ip, UInt16.ofNat (decimalValue text.port)⟩
  forwardPath : read.forwardPath.ReadAs text.forwardPath ((env.config i).take 8)
  returnPath : read.returnPath.ReadAs text.returnPath ((env.config i).drop 8)
  sent : env.sendOk i = true

/-- The entries that the file announces fit their array. If they are all there and there is a
socket, their texts fit the fields, the file has no further entry, and what is read for each of its
entries says what the entry says. -/
structure Configurable (env : Env) (content : Option (List UInt8)) : Prop where
  inBounds : ¬ Outruns content
  fits : env.socketOk = true → LaidOut content → ∀ i < numFwdPairs content, ∀ read,
    Announced (bodyLines content) i read → read.Fits
  entries : env.socketOk = true → LaidOut content → ∀ (i : ℕ) group,
    (entryGroups content)[i]? = some group → i < numFwdPairs content ∧
      ∃ text, entryOf group = some text ∧
        ∀ read, Announced (bodyLines content) i read → Conveys env i read text

/-- The port fits its field, and `strtoul` with base 0 does not take it for an octal number. -/
def IsPlainPort (token : List UInt8) : Prop :=
  token.length < portStrlen ∧ (token.head? ≠ some 0x30 ∨ decimalValue token < 8)

/-- The port of the router fits its field, and the ports of the paths are plain. -/
structure EntryText.Plain (text : EntryText) : Prop where
  port : text.port.length < portStrlen
  forwardPath : IsPlainPort text.forwardPath.receivePort ∧ IsPlainPort text.forwardPath.sendPort
  returnPath : IsPlainPort text.returnPath.receivePort ∧ IsPlainPort text.returnPath.sendPort

/-! ## One field -/

theorem IsPort.nul_notMem {token : List UInt8} (h : IsPort token) : 0 ∉ token := by
  intro hmem
  exact absurd (h.digits 0 hmem) (by decide)

/-- A port is read as it stands if base 0 reads it as a decimal number. -/
theorem IsPort.strtoul0_eq_iff {token : List UInt8} (h : IsPort token) :
    strtoul0 token % 2 ^ 16 = decimalValue token ↔
      token.head? ≠ some 0x30 ∨ decimalValue token < 8 := by
  have hlt := h.lt
  have hle := strtoul0_le_decimalValue h.digits
  rw [← strtoul0_eq_decimalValue_iff h.digits (Nat.lt_trans h.lt (by decide)),
    Nat.mod_eq_of_lt (by omega)]

theorem nul_notMem_of_inetPton {s addr : List UInt8} (h : inetPton s = some addr) : 0 ∉ s := by
  rw [((inetPton_eq_some_iff _ _).mp h).2]
  exact nul_notMem_inetNtop addr

theorem length_lt_of_inetPton {s addr : List UInt8} (h : inetPton s = some addr) :
    s.length < inetAddrstrlen := by
  obtain ⟨hlen, rfl⟩ := (inetPton_eq_some_iff _ _).mp h
  exact length_inetNtop_lt hlen

/-! ## One path -/

section Path

variable {read text : PathText}

/-- The bytes of a path in a message. -/
theorem PathText.bytes_store (hnul : 0 ∉ read.receivePort ∧ 0 ∉ read.sendPort ∧ 0 ∉ read.sendIp)
    (hfits : read.receivePort.length < portStrlen ∧ read.sendPort.length < portStrlen ∧
      read.sendIp.length < inetAddrstrlen) (old : List UInt8) :
    read.store.bytes old = storeLE 2 (strtoul0 read.receivePort) ++
      (storeLE 2 (strtoul0 read.sendPort) ++ (inetPton read.sendIp).getD (old.drop 4)) := by
  rw [ForwardingPath.bytes, store, cString_strncpy hnul.1 hfits.1,
    cString_strncpy hnul.2.1 hfits.2.1, cString_strncpy hnul.2.2 hfits.2.2]

theorem length_getD_inetPton (s : List UInt8) {old : List UInt8} (hold : old.length = 8) :
    ((inetPton s).getD (old.drop 4)).length = 4 := by
  cases h : inetPton s with
  | none => rw [Option.getD_none, List.length_drop, hold]
  | some addr => exact length_of_inetPton h

/-- **What is decoded agrees with the text** when the numbers and the address are the same. -/
theorem PathText.agrees_iff (text : PathText) {p q : ℕ} {addr : List UInt8} (h : addr.length = 4)
    (path : ForwardingPath) : text.Agrees (printPath path p q addr) ↔
      p = decimalValue text.receivePort ∧ q = decimalValue text.sendPort ∧
        inetPton text.sendIp = some addr := by
  have htexts : (printPath path p q addr).texts = [numeral p, numeral q, inetNtop addr] :=
    texts_printPath path
  simp only [ForwardingPath.texts, List.cons.injEq, and_true] at htexts
  obtain ⟨hreceive, hsend, haddr⟩ := htexts
  constructor
  · rintro ⟨hreceive', hsend', haddr'⟩
    rw [hreceive, decimalValue_numeral] at hreceive'
    rw [hsend, decimalValue_numeral] at hsend'
    rw [haddr, inetPton_inetNtop h] at haddr'
    exact ⟨hreceive', hsend', haddr'.symm⟩
  · rintro ⟨hreceive', hsend', haddr'⟩
    refine ⟨?_, ?_, ?_⟩
    · rw [hreceive, decimalValue_numeral, hreceive']
    · rw [hsend, decimalValue_numeral, hsend']
    · rw [haddr, inetPton_inetNtop h, haddr']

/-- A valid path is read as it stands if its ports are. -/
theorem PathText.Valid.readAs_iff (h : text.Valid) (old : List UInt8) :
    text.ReadAs text old ↔
      (text.receivePort.head? ≠ some 0x30 ∨ decimalValue text.receivePort < 8) ∧
        (text.sendPort.head? ≠ some 0x30 ∨ decimalValue text.sendPort < 8) := by
  obtain ⟨ip, hip⟩ := h.sendIp
  rw [← h.receivePort.strtoul0_eq_iff, ← h.sendPort.strtoul0_eq_iff]
  constructor
  · rintro ⟨hreceive, hsend, -⟩
    exact ⟨hreceive, hsend⟩
  · rintro ⟨hreceive, hsend⟩
    exact ⟨hreceive, hsend, by rw [hip, Option.getD_some]⟩

end Path

/-! ## One entry -/

section Entry

variable {read text : EntryText}

/-- The texts of an entry are strings that fit their fields. -/
structure EntryText.Stored (read : EntryText) : Prop where
  noNul : ∀ field ∈ read.fields, 0 ∉ field.1
  fits : read.Fits

theorem EntryText.Stored.terminated (h : read.Stored) : read.store.Terminated :=
  (EntryText.terminated_store_iff h.noNul).mpr h.fits

/-- What the router decodes for a path whose texts were read. -/
def PathText.decoded (read : PathText) (old : List UInt8) : ForwardingPath :=
  printPath .zero (strtoul0 read.receivePort % 2 ^ 16) (strtoul0 read.sendPort % 2 ^ 16)
    ((inetPton read.sendIp).getD (old.drop 4))

theorem PathText.agrees_decoded_iff (read text : PathText) {old : List UInt8}
    (hold : old.length = 8) : text.Agrees (read.decoded old) ↔ read.ReadAs text old := by
  rw [decoded, agrees_iff text (length_getD_inetPton _ hold)]
  constructor
  · rintro ⟨hreceive, hsend, haddr⟩
    exact ⟨hreceive, hsend, haddr⟩
  · rintro ⟨hreceive, hsend, haddr⟩
    exact ⟨hreceive, hsend, haddr⟩

/-- The message for two paths, and what is decoded from it. -/
theorem encodeZzconfig_store (h : read.Stored) {old : List UInt8}
    (hold : old.length = zzconfigSize) :
    ∃ data, encodeZzconfig read.forwardPath.store read.returnPath.store old = (0, data) ∧
      data.length = zzconfigSize ∧ decodeZzconfig data .zero .zero =
        (read.forwardPath.decoded (old.take 8), read.returnPath.decoded (old.drop 8)) := by
  have htake : (old.take 8).length = 8 := by rw [List.length_take, hold]; rfl
  have hdrop : (old.drop 8).length = 8 := by rw [List.length_drop, hold]; rfl
  have hnul := h.noNul
  have hfits := h.fits
  simp only [EntryText.Fits, EntryText.fields, List.forall_mem_cons] at hnul hfits
  obtain ⟨-, -, hreceive, hsend, hsendIp, hreceive', hsend', hsendIp', -⟩ := hnul
  obtain ⟨-, -, hreceive_lt, hsend_lt, hsendIp_lt, hreceive_lt', hsend_lt', hsendIp_lt', -⟩ := hfits
  have hencode := encodeZzconfig_eq read.forwardPath.store read.returnPath.store htake hdrop
  rw [List.take_append_drop, PathText.bytes_store ⟨hreceive, hsend, hsendIp⟩
    ⟨hreceive_lt, hsend_lt, hsendIp_lt⟩, PathText.bytes_store ⟨hreceive', hsend', hsendIp'⟩
    ⟨hreceive_lt', hsend_lt', hsendIp_lt'⟩] at hencode
  have haddr := length_getD_inetPton read.forwardPath.sendIp htake
  have haddr' := length_getD_inetPton read.returnPath.sendIp hdrop
  have hdecode := decodeZzconfig_append .zero .zero
    (length_storeLE 2 (strtoul0 read.forwardPath.receivePort))
    (length_storeLE 2 (strtoul0 read.forwardPath.sendPort)) haddr
    (length_storeLE 2 (strtoul0 read.returnPath.receivePort))
    (length_storeLE 2 (strtoul0 read.returnPath.sendPort)) haddr'
  simp only [loadLE_storeLE_eq_mod] at hdecode
  refine ⟨_, hencode, ?_, hdecode⟩
  simp only [List.length_append, length_storeLE, haddr, haddr']
  rfl

/-- **What is sent for an entry.** -/
theorem sendOverlayEntry_eq (env : Env) (i : ℕ) (h : read.Stored) :
    ∃ data, data.length = zzconfigSize ∧ decodeZzconfig data .zero .zero =
        (read.forwardPath.decoded ((env.config i).take 8),
          read.returnPath.decoded ((env.config i).drop 8)) ∧
      sendOverlayEntry env i read.store =
        match buildAddrinfo env.resolve read.ip read.port with
        | none => some (-1, none)
        | some address =>
          if env.sendOk i then some (0, some ⟨address, data⟩) else some (-1, none) := by
  obtain ⟨data, hencode, hlength, hdecode⟩ := encodeZzconfig_store h (env.length_config i)
  refine ⟨data, hlength, hdecode, ?_⟩
  have hnul := h.noNul
  have hfits := h.fits
  simp only [EntryText.Fits, EntryText.fields, List.forall_mem_cons] at hnul hfits
  have hip : cString read.store.ip = read.ip := cString_strncpy hnul.1 hfits.1
  have hport : cString read.store.port = read.port := cString_strncpy hnul.2.1 hfits.2.1
  have hencode : encodeZzconfig read.store.forwardPath read.store.returnPath (env.config i) =
      (0, data) := hencode
  rw [sendOverlayEntry, if_pos h.terminated]
  simp only [hencode, hip, hport]
  rfl

/-- **When an entry is installed** by the message for what was read. -/
theorem configures_iff (env : Env) (i : ℕ) (h : read.Stored) (text : EntryText) :
    (∃ r m, sendOverlayEntry env i read.store = some (r, some m) ∧ Installed text m) ↔
      Conveys env i read text := by
  obtain ⟨data, hlength, hdecode, hsend⟩ := sendOverlayEntry_eq env i h
  have htake : ((env.config i).take 8).length = 8 := by
    rw [List.length_take, env.length_config]
    rfl
  have hdrop : ((env.config i).drop 8).length = 8 := by
    rw [List.length_drop, env.length_config]
    rfl
  rw [hsend]
  constructor
  · rintro ⟨r, m, hm, hinstalled⟩
    cases haddress : buildAddrinfo env.resolve read.ip read.port with
    | none =>
      rw [haddress] at hm
      cases hm
    | some address =>
      rw [haddress] at hm
      dsimp only at hm
      by_cases hok : env.sendOk i = true
      swap
      · rw [if_neg hok] at hm
        cases hm
      rw [if_pos hok] at hm
      cases hm
      have hforward := hinstalled.forwardPath
      have hreturn := hinstalled.returnPath
      simp only [hdecode, PathText.agrees_decoded_iff _ _ htake,
        PathText.agrees_decoded_iff _ _ hdrop] at hforward hreturn
      refine ⟨hinstalled.valid, ⟨address.ip, hinstalled.ip, ?_⟩, hforward, hreturn, hok⟩
      rw [haddress, hinstalled.port, UInt16.ofNat_toNat]
  · intro hconveys
    obtain ⟨ip, hip, haddress⟩ := hconveys.address
    refine ⟨0, ⟨⟨ip, UInt16.ofNat (decimalValue text.port)⟩, data⟩, ?_, ?_⟩
    · rw [haddress]
      exact if_pos hconveys.sent
    · exact
        { valid := hconveys.valid
          ip := hip
          port := (ofNat_toNat_port hconveys.valid.port.lt).symm
          length := hlength
          forwardPath := by
            simp only [hdecode]
            exact (PathText.agrees_decoded_iff _ _ htake).mpr hconveys.forwardPath
          returnPath := by
            simp only [hdecode]
            exact (PathText.agrees_decoded_iff _ _ hdrop).mpr hconveys.returnPath }

/-- The texts of a valid entry are strings that fit when its ports do. -/
theorem EntryText.Valid.stored (h : text.Valid) (hplain : text.Plain) : text.Stored := by
  obtain ⟨ip, hip⟩ := h.ip
  obtain ⟨ipF, hipF⟩ := h.forwardPath.sendIp
  obtain ⟨ipR, hipR⟩ := h.returnPath.sendIp
  constructor
  · simp only [EntryText.fields, List.forall_mem_cons]
    exact ⟨nul_notMem_of_inetPton hip, h.port.nul_notMem, h.forwardPath.receivePort.nul_notMem,
      h.forwardPath.sendPort.nul_notMem, nul_notMem_of_inetPton hipF,
      h.returnPath.receivePort.nul_notMem, h.returnPath.sendPort.nul_notMem,
      nul_notMem_of_inetPton hipR, fun _ hmem => absurd hmem List.not_mem_nil⟩
  · simp only [EntryText.Fits, EntryText.fields, List.forall_mem_cons]
    exact ⟨length_lt_of_inetPton hip, hplain.port, hplain.forwardPath.1.1, hplain.forwardPath.2.1,
      length_lt_of_inetPton hipF, hplain.returnPath.1.1, hplain.returnPath.2.1,
      length_lt_of_inetPton hipR, fun _ hmem => absurd hmem List.not_mem_nil⟩

/-- **A valid entry that is read as it stands** has the right message when base 0 reads its ports
as decimal numbers and the message is sent. -/
theorem conveys_self_iff (env : Env) (i : ℕ) (h : text.Stored) :
    Conveys env i text text ↔ text.Valid ∧ text.Plain ∧ env.sendOk i = true := by
  have hfits := h.fits
  simp only [EntryText.Fits, EntryText.fields, List.forall_mem_cons] at hfits
  obtain ⟨-, hport, hreceive, hsend, -, hreceive', hsend', -, -⟩ := hfits
  constructor
  · intro hconveys
    have hvalid := hconveys.valid
    obtain ⟨hfr, hfs⟩ := (hvalid.forwardPath.readAs_iff _).mp hconveys.forwardPath
    obtain ⟨hrr, hrs⟩ := (hvalid.returnPath.readAs_iff _).mp hconveys.returnPath
    exact ⟨hvalid, ⟨hport, ⟨⟨hreceive, hfr⟩, hsend, hfs⟩, ⟨hreceive', hrr⟩, hsend', hrs⟩,
      hconveys.sent⟩
  · rintro ⟨hvalid, ⟨-, ⟨⟨-, hfr⟩, -, hfs⟩, ⟨-, hrr⟩, -, hrs⟩, hok⟩
    obtain ⟨ip, hip⟩ := hvalid.ip
    refine ⟨hvalid, ⟨ip, hip, ?_⟩, (hvalid.forwardPath.readAs_iff _).mpr ⟨hfr, hfs⟩,
      (hvalid.returnPath.readAs_iff _).mpr ⟨hrr, hrs⟩, hok⟩
    rw [buildAddrinfo, if_neg (star_ne_digits hvalid.port.digits),
      serviceNumber_digits hvalid.port.ne_nil hvalid.port.digits hvalid.port.lt, nodeAddress, hip]
    simp only [ip.ofBytes_bytes]

end Entry

/-! ## All entries -/

/-- **The loop over the entries** makes one call for each. -/
theorem sendEntries_eq_some_iff (env : Env) (k : ℕ) (entries : List OverlayEntry)
    (results : List (ℤ × Option Message)) :
    sendEntries env k entries = some results ↔ results.length = entries.length ∧
      ∀ i entry, entries[i]? = some entry → sendOverlayEntry env (k + i) entry = results[i]? := by
  induction entries generalizing k results with
  | nil =>
    rw [sendEntries, Option.some.injEq, eq_comm, List.length_nil, List.length_eq_zero_iff]
    exact ⟨fun h => ⟨h, fun i entry hi => by cases hi⟩, fun h => h.1⟩
  | cons entry entries ih =>
    have hindex : ∀ i, k + 1 + i = k + (i + 1) := by
      intro i
      omega
    simp only [sendEntries, Option.bind_eq_some_iff, Option.map_eq_some_iff, ih]
    constructor
    · rintro ⟨result, hresult, results', ⟨hlen, hall⟩, rfl⟩
      refine ⟨by rw [List.length_cons, List.length_cons, hlen], fun i entry' hi => ?_⟩
      cases i with
      | zero =>
        obtain rfl : entry = entry' := Option.some.inj hi
        exact hresult
      | succ i =>
        rw [← hindex]
        exact hall i entry' hi
    · rintro ⟨hlen, hall⟩
      cases results with
      | nil => cases hlen
      | cons result results' =>
        refine ⟨result, hall 0 entry rfl, results', ⟨Nat.succ.inj hlen, fun i entry' hi => ?_⟩, rfl⟩
        rw [hindex]
        exact hall (i + 1) entry' hi

/-- The calls are defined when the texts fit their fields. -/
theorem exists_sendEntries (env : Env) (k : ℕ) {reads : List EntryText}
    (h : ∀ read ∈ reads, read.Stored) :
    ∃ results, sendEntries env k (reads.map EntryText.store) = some results := by
  induction reads generalizing k with
  | nil => exact ⟨[], rfl⟩
  | cons read reads ih =>
    obtain ⟨hread, hreads⟩ := List.forall_mem_cons.mp h
    obtain ⟨results, hresults⟩ := ih (k + 1) hreads
    obtain ⟨data, -, -, hsend⟩ := sendOverlayEntry_eq env k hread
    obtain ⟨result, hresult⟩ : ∃ result, sendOverlayEntry env k read.store = some result := by
      rw [hsend]
      split
      · exact ⟨_, rfl⟩
      · split_ifs
        · exact ⟨_, rfl⟩
        · exact ⟨_, rfl⟩
    refine ⟨result :: results, ?_⟩
    rw [List.map_cons, sendEntries, hresult, Option.bind_some, hresults]
    rfl

theorem terminated_of_sendOverlayEntry {env : Env} {i : ℕ} {entry : OverlayEntry}
    {result : ℤ × Option Message} (h : sendOverlayEntry env i entry = some result) :
    entry.Terminated := by
  by_contra hterm
  rw [sendOverlayEntry, if_neg hterm] at h
  cases h

/-- The call for an entry that was read. -/
theorem sendOverlayEntry_of_sendEntries {env : Env} {reads : List EntryText}
    {results : List (ℤ × Option Message)}
    (h : sendEntries env 0 (reads.map EntryText.store) = some results) {i : ℕ} {read : EntryText}
    (hread : reads[i]? = some read) :
    sendOverlayEntry env i read.store = results[i]? ∧ read.store.Terminated := by
  obtain ⟨hlength, hall⟩ := (sendEntries_eq_some_iff env 0 _ results).mp h
  have hsend := hall i read.store (by rw [List.getElem?_map, hread]; rfl)
  have hlt := (List.getElem?_eq_some_iff.mp hread).1
  rw [List.length_map] at hlength
  rw [Nat.zero_add] at hsend
  refine ⟨hsend, ?_⟩
  rw [List.getElem?_eq_getElem (by omega)] at hsend
  exact terminated_of_sendOverlayEntry hsend

/-- **The entries that were read**, one call for each: what it takes for the messages of all entries
of the file. -/
theorem sendEntries_iff (env : Env) {content : Option (List UInt8)} {reads : List EntryText}
    (hlen : reads.length = numFwdPairs content)
    (hreads : ∀ i read, reads[i]? = some read → Announced (bodyLines content) i read) :
    (∃ results, sendEntries env 0 (reads.map EntryText.store) = some results ∧
        ∀ (i : ℕ) group, (entryGroups content)[i]? = some group →
          ∃ text r m, entryOf group = some text ∧ results[i]? = some (r, some m) ∧
            Installed text m) ↔
      (∀ i < numFwdPairs content, ∀ read, Announced (bodyLines content) i read → read.Fits) ∧
      ∀ (i : ℕ) group, (entryGroups content)[i]? = some group → i < numFwdPairs content ∧
        ∃ text, entryOf group = some text ∧
          ∀ read, Announced (bodyLines content) i read → Conveys env i read text := by
  have hget : ∀ i < numFwdPairs content, ∃ read, reads[i]? = some read ∧
      ∀ read', Announced (bodyLines content) i read' → read' = read := by
    intro i hi
    have hsome := List.getElem?_eq_getElem (l := reads) (i := i) (by omega)
    exact ⟨_, hsome, fun read' hread' => hread'.unique (hreads i _ hsome)⟩
  have hcall : ∀ {results : List (ℤ × Option Message)} {i : ℕ} {read : EntryText},
      sendEntries env 0 (reads.map EntryText.store) = some results → reads[i]? = some read →
        sendOverlayEntry env i read.store = results[i]? ∧ read.Stored := by
    intro results i read hresults hread
    have hnul := (hreads i read hread).nul_notMem
    obtain ⟨hsend, hterm⟩ := sendOverlayEntry_of_sendEntries hresults hread
    exact ⟨hsend, hnul, (EntryText.terminated_store_iff hnul).mp hterm⟩
  constructor
  · rintro ⟨results, hresults, hall⟩
    refine ⟨fun i hi read hannounced => ?_, fun i group hgroup => ?_⟩
    · obtain ⟨read', hread', hunique⟩ := hget i hi
      rw [hunique read hannounced]
      exact (hcall hresults hread').2.fits
    · obtain ⟨text, r, m, htext, hresult, hinstalled⟩ := hall i group hgroup
      have hi : i < numFwdPairs content := by
        have hlt := (List.getElem?_eq_some_iff.mp hresult).1
        have hlength := ((sendEntries_eq_some_iff env 0 _ results).mp hresults).1
        rw [List.length_map] at hlength
        omega
      obtain ⟨read', hread', hunique⟩ := hget i hi
      obtain ⟨hsend, hread⟩ := hcall hresults hread'
      refine ⟨hi, text, htext, fun read hannounced => ?_⟩
      rw [hunique read hannounced]
      exact (configures_iff env i hread text).mp ⟨r, m, hsend.trans hresult, hinstalled⟩
  · rintro ⟨hfits, hentries⟩
    obtain ⟨results, hresults⟩ : ∃ results,
        sendEntries env 0 (reads.map EntryText.store) = some results := by
      refine exists_sendEntries env 0 fun read hread => ?_
      obtain ⟨i, hi⟩ := List.getElem?_of_mem hread
      have hlt := (List.getElem?_eq_some_iff.mp hi).1
      have hannounced := hreads i read hi
      exact ⟨hannounced.nul_notMem, hfits i (by omega) read hannounced⟩
    refine ⟨results, hresults, fun i group hgroup => ?_⟩
    obtain ⟨hi, text, htext, hconveys⟩ := hentries i group hgroup
    obtain ⟨read, hread, -⟩ := hget i hi
    obtain ⟨hsend, hstored⟩ := hcall hresults hread
    obtain ⟨r, m, hm, hinstalled⟩ :=
      (configures_iff env i hstored text).mpr (hconveys read (hreads i read hread))
    exact ⟨text, r, m, htext, hsend.symm.trans hm, hinstalled⟩

/-- **The exit status of `zigzagconf`.** For every content of `zzoverlay.dat`, the exit status 0
means that all entries of the file are installed exactly when the file is configurable. -/
theorem installs_iff (env : Env) (content : Option (List UInt8)) :
    Installs env content ↔ Configurable env content := by
  have hfails : zigzagconf env content = some ⟨-1, []⟩ → Installs env content := by
    intro h
    refine ⟨_, h, fun hstatus => ?_⟩
    cases hstatus
  cases content with
  | none =>
    refine iff_of_true (hfails rfl) ⟨fun h => absurd h.announced (by decide), ?_, ?_⟩
    · intro _ _ i hi
      exact absurd hi (Nat.not_lt_zero i)
    · intro _ _ i group hgroup
      cases hgroup
  | some file =>
    have houtruns := readOverlay_eq_none_iff_outruns (some file)
    by_cases hout : Outruns (some file)
    · refine iff_of_false ?_ fun h => h.inBounds hout
      rintro ⟨outcome, houtcome, -⟩
      rw [zigzagconf, houtruns.mpr hout] at houtcome
      cases houtcome
    by_cases hlaid : LaidOut (some file)
    · obtain ⟨reads, hread, hlen, hreads⟩ := hlaid.readOverlay_eq_some hout
      have hconf : zigzagconf env (some file) =
          sendOverlayConfigurations env (reads.map EntryText.store) := by
        rw [zigzagconf, hread]
      by_cases hsocket : env.socketOk = true
      · rw [sendOverlayConfigurations, if_pos hsocket] at hconf
        have hall := sendEntries_iff env hlen hreads
        constructor
        · rintro ⟨outcome, houtcome, h⟩
          rw [hconf] at houtcome
          obtain ⟨results, hresults, rfl⟩ := Option.map_eq_some_iff.mp houtcome
          obtain ⟨hfits, hentries⟩ := hall.mp ⟨results, hresults, h rfl⟩
          exact ⟨hout, fun _ _ => hfits, fun _ _ => hentries⟩
        · intro h
          obtain ⟨results, hresults, hinstalled⟩ :=
            hall.mpr ⟨h.fits hsocket hlaid, h.entries hsocket hlaid⟩
          rw [hresults] at hconf
          exact ⟨_, hconf, fun _ => hinstalled⟩
      · rw [sendOverlayConfigurations, if_neg hsocket] at hconf
        exact iff_of_true (hfails hconf)
          ⟨hout, fun h => absurd h hsocket, fun h => absurd h hsocket⟩
    · refine iff_of_true (hfails ?_) ⟨hout, fun _ h => absurd h hlaid, fun _ h => absurd h hlaid⟩
      rw [zigzagconf, readOverlay_eq_reject hout hlaid]

/-- The bytes of a text. -/
def ascii (s : String) : List UInt8 := s.toList.map fun c => UInt8.ofNat c.toNat

/-- A file with one entry. -/
def oneEntry (text : EntryText) : List UInt8 :=
  ascii "1\n\n" ++ text.ip ++ ascii " " ++ text.port ++ ascii "\n" ++
    text.forwardPath.receivePort ++ ascii " " ++ text.forwardPath.sendPort ++ ascii " " ++
    text.forwardPath.sendIp ++ ascii "\n" ++ text.returnPath.receivePort ++ ascii " " ++
    text.returnPath.sendPort ++ ascii " " ++ text.returnPath.sendIp ++ ascii "\n"

/-- An entry of the documentation. -/
def numericEntry : EntryText :=
  ⟨ascii "127.0.0.1", ascii "10000", ⟨ascii "10001", ascii "20001", ascii "127.0.0.1"⟩,
    ⟨ascii "10002", ascii "0", ascii "0.0.0.0"⟩⟩

/-- The entry with a symbolic name for the next hop. -/
def symbolicEntry : EntryText :=
  { numericEntry with forwardPath.sendIp := ascii "amber05" }

/-- A system without a name service on which all calls succeed. -/
def allOk : Env where
  resolve _ := none
  socketOk := true
  sendOk _ := true
  config _ := List.replicate zzconfigSize 0xaa
  length_config _ := rfl

theorem entryGroups_oneEntry_numericEntry :
    (entryGroups (some (oneEntry numericEntry))).map entryOf = [some numericEntry] := by
  decide

theorem announced_numericEntry :
    Announced (bodyLines (some (oneEntry numericEntry))) 0 numericEntry :=
  ⟨by decide, by decide⟩

theorem isPort_of_all {token : List UInt8} (hne : token ≠ []) (hall : token.all isDigit = true)
    (hlt : decimalValue token < 2 ^ 16) : IsPort token :=
  ⟨hne, List.all_eq_true.mp hall, hlt⟩

theorem numericEntry_valid : numericEntry.Valid where
  ip := ⟨⟨127, 0, 0, 1⟩, by decide⟩
  port := isPort_of_all (by decide) (by decide) (by decide)
  forwardPath :=
    { receivePort := isPort_of_all (by decide) (by decide) (by decide)
      sendPort := isPort_of_all (by decide) (by decide) (by decide)
      sendIp := ⟨⟨127, 0, 0, 1⟩, by decide⟩ }
  returnPath :=
    { receivePort := isPort_of_all (by decide) (by decide) (by decide)
      sendPort := isPort_of_all (by decide) (by decide) (by decide)
      sendIp := ⟨⟨0, 0, 0, 0⟩, by decide⟩ }

theorem numericEntry_plain : numericEntry.Plain where
  port := by decide
  forwardPath := ⟨⟨by decide, .inl (by decide)⟩, by decide, .inl (by decide)⟩
  returnPath := ⟨⟨by decide, .inl (by decide)⟩, by decide, .inr (by decide)⟩

/-- The entry of the documentation is installed. -/
theorem installs_numericEntry : Installs allOk (some (oneEntry numericEntry)) := by
  have hstored := numericEntry_valid.stored numericEntry_plain
  have hcount : numFwdPairs (some (oneEntry numericEntry)) = 1 := by decide
  have hread : ∀ {i : ℕ} {read : EntryText}, i < 1 →
      Announced (bodyLines (some (oneEntry numericEntry))) i read → read = numericEntry := by
    intro i read hi hannounced
    obtain rfl : i = 0 := Nat.lt_one_iff.mp hi
    exact hannounced.unique announced_numericEntry
  refine (installs_iff allOk (some (oneEntry numericEntry))).mpr ⟨?_, ?_, ?_⟩
  · intro h
    exact absurd h.announced (by decide)
  · intro _ _ i hi read hannounced
    rw [hcount] at hi
    rw [hread hi hannounced]
    exact hstored.fits
  · intro _ _ i group hgroup
    have hentry : ((entryGroups (some (oneEntry numericEntry))).map entryOf)[i]? =
        some (entryOf group) := by
      rw [List.getElem?_map, hgroup]
      rfl
    rw [entryGroups_oneEntry_numericEntry] at hentry
    have hi : i < 1 := (List.getElem?_eq_some_iff.mp hentry).1
    obtain rfl : i = 0 := Nat.lt_one_iff.mp hi
    refine ⟨hcount ▸ Nat.one_pos, numericEntry, (Option.some.inj hentry).symm, ?_⟩
    intro read hannounced
    rw [hread hi hannounced]
    exact (conveys_self_iff allOk 0 hstored).mpr ⟨numericEntry_valid, numericEntry_plain, rfl⟩

/-- With a symbolic name for the next hop, the address in the message is what was in the array,
and the exit status is 0. -/
theorem not_installs_symbolicEntry :
    (entryGroups (some (oneEntry symbolicEntry))).map entryOf = [some symbolicEntry] ∧
      (zigzagconf allOk (some (oneEntry symbolicEntry))).map Outcome.status = some 0 ∧
      ¬ Installs allOk (some (oneEntry symbolicEntry)) := by
  have hstatus : (zigzagconf allOk (some (oneEntry symbolicEntry))).map Outcome.status =
      some 0 := by
    decide
  have hgroups : (entryGroups (some (oneEntry symbolicEntry))).map entryOf =
      [some symbolicEntry] := by
    decide
  refine ⟨hgroups, hstatus, ?_⟩
  rintro ⟨outcome, houtcome, h⟩
  rw [houtcome] at hstatus
  obtain ⟨group, hgroup, hentry⟩ := List.map_eq_singleton_iff.mp hgroups
  obtain ⟨text, r, m, htext, -, hinstalled⟩ :=
    h (Option.some.inj hstatus) 0 group (by rw [hgroup]; rfl)
  obtain rfl : symbolicEntry = text := Option.some.inj (hentry.symm.trans htext)
  obtain ⟨ip, hip⟩ := hinstalled.valid.forwardPath.sendIp
  have hnone : inetPton symbolicEntry.forwardPath.sendIp = none := by decide
  rw [hnone] at hip
  cases hip

end CS536Labs.Lab6
