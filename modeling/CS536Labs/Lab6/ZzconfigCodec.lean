import CS536Labs.Foundations.Buffer
import CS536Labs.Foundations.Ipv4
import Mathlib.Data.Int.Notation

/-!
# `lab6/v1/zzconfig_codec.c`

The control messages of the overlay network: 16 bytes that hold, for the forward and the return
path, a receive port, a send port and a send address. The tables hold them as text.

* `encodeZzconfig_eq` lays the bytes of an encoded message out, and `decodeZzconfig` reads them.
* `encodeZzconfig_decodeZzconfig` and `texts_decodeZzconfig`: decoding is inverse to encoding on all
  messages and on all paths with canonical texts.
-/

namespace CS536Labs.Lab6

/-- `PORT_STRLEN`. -/
def portStrlen : ℕ := 6

/-- `ZZCONFIG_SIZE`. -/
def zzconfigSize : ℕ := 16

/-- The arrays of a `ForwardingPath`. -/
structure ForwardingPath where
  receivePort : List UInt8
  sendPort : List UInt8
  sendIp : List UInt8
  deriving DecidableEq

/-- The arrays have the sizes they are declared with. -/
structure ForwardingPath.Sized (path : ForwardingPath) : Prop where
  receivePort : path.receivePort.length = portStrlen
  sendPort : path.sendPort.length = portStrlen
  sendIp : path.sendIp.length = inetAddrstrlen

/-- The initializer `{0}`. -/
def ForwardingPath.zero : ForwardingPath :=
  ⟨List.replicate portStrlen 0, List.replicate portStrlen 0, List.replicate inetAddrstrlen 0⟩

theorem ForwardingPath.zero_sized : ForwardingPath.zero.Sized where
  receivePort := List.length_replicate
  sendPort := List.length_replicate
  sendIp := List.length_replicate

/-- The arrays hold terminated strings. -/
structure ForwardingPath.Terminated (path : ForwardingPath) : Prop where
  receivePort : 0 ∈ path.receivePort
  sendPort : 0 ∈ path.sendPort
  sendIp : 0 ∈ path.sendIp

/-- The strings of a path. -/
def ForwardingPath.texts (path : ForwardingPath) : List (List UInt8) :=
  [cString path.receivePort, cString path.sendPort, cString path.sendIp]

/-- `inet_pton(AF_INET, s, &config[offset])`: the return value, and the bytes behind the call. -/
def inetPtonAt (s : List UInt8) (config : List UInt8) (offset : ℕ) : ℤ × List UInt8 :=
  match inetPton s with
  | some addr => (1, storeAt config offset addr)
  | none => (0, config)

/-- The half of `encode_zzconfig` for one path, whose fields start at an offset. -/
def encodePath (path : ForwardingPath) (config : List UInt8) (offset : ℕ) : ℤ × List UInt8 :=
  let config := storeAt config offset (storeLE 2 (strtoul0 (cString path.receivePort)))
  let config := storeAt config (offset + 2) (storeLE 2 (strtoul0 (cString path.sendPort)))
  let result := inetPtonAt (cString path.sendIp) config (offset + 4)
  if result.1 < 0 then (-1, result.2) else (0, result.2)

/-- `encode_zzconfig`: the return value, and the message behind the call. -/
def encodeZzconfig (forwardPath returnPath : ForwardingPath) (config : List UInt8) :
    ℤ × List UInt8 :=
  let result := encodePath forwardPath config 0
  if result.1 < 0 then (-1, result.2) else encodePath returnPath result.2 8

/-- The half of `decode_zzconfig` for one path: two calls of `sprintf` and one of `inet_ntop`. -/
def decodePath (config : List UInt8) (offset : ℕ) (path : ForwardingPath) : ForwardingPath where
  receivePort := storeString path.receivePort (numeral (loadLE (bytesAt config offset 2)))
  sendPort := storeString path.sendPort (numeral (loadLE (bytesAt config (offset + 2) 2)))
  sendIp := storeString path.sendIp (inetNtop (bytesAt config (offset + 4) 4))

/-- `decode_zzconfig`, which cannot fail: `inet_ntop` knows `AF_INET`, and its result is a
pointer. -/
def decodeZzconfig (config : List UInt8) (forwardPath returnPath : ForwardingPath) :
    ForwardingPath × ForwardingPath :=
  (decodePath config 0 forwardPath, decodePath config 8 returnPath)

/-! ## The layout of a message -/

/-- The eight bytes of a path in a message whose previous bytes are `old`. An address that
`inet_pton` does not accept leaves them in place. -/
def ForwardingPath.bytes (path : ForwardingPath) (old : List UInt8) : List UInt8 :=
  storeLE 2 (strtoul0 (cString path.receivePort)) ++
    (storeLE 2 (strtoul0 (cString path.sendPort)) ++
      (inetPton (cString path.sendIp)).getD (old.drop 4))

theorem ForwardingPath.length_bytes (path : ForwardingPath) {old : List UInt8}
    (hold : old.length = 8) : (path.bytes old).length = 8 := by
  have haddr : ((inetPton (cString path.sendIp)).getD (old.drop 4)).length = 4 := by
    cases h : inetPton (cString path.sendIp) with
    | none =>
      rw [Option.getD_none, List.length_drop, hold]
    | some addr => exact length_of_inetPton h
  rw [bytes, List.length_append, List.length_append, length_storeLE, length_storeLE, haddr]

/-- The three fields of a path. -/
theorem exists_fields {bytes : List UInt8} (h : bytes.length = 8) :
    ∃ x y z : List UInt8, x.length = 2 ∧ y.length = 2 ∧ z.length = 4 ∧ bytes = x ++ (y ++ z) := by
  refine ⟨bytes.take 2, (bytes.drop 2).take 2, bytes.drop 4, by simp [h], by simp [h], by simp [h],
    ?_⟩
  rw [← List.append_assoc, ← List.take_add, List.take_append_drop]

/-- **What is encoded for one path.** -/
theorem encodePath_eq (path : ForwardingPath) (before after : List UInt8) {old : List UInt8}
    (hold : old.length = 8) :
    encodePath path (before ++ (old ++ after)) before.length =
      (0, before ++ (path.bytes old ++ after)) := by
  obtain ⟨x, y, z, hx, hy, hz, rfl⟩ := exists_fields hold
  set receivePort := storeLE 2 (strtoul0 (cString path.receivePort)) with hreceive
  set sendPort := storeLE 2 (strtoul0 (cString path.sendPort)) with hsend
  have hfirst : storeAt (before ++ ((x ++ (y ++ z)) ++ after)) before.length receivePort =
      before ++ receivePort ++ (y ++ (z ++ after)) := by
    rw [List.append_assoc x, storeAt_append _ _ _ _ (by rw [hreceive, length_storeLE, hx])]
    simp only [List.append_assoc]
  have hsecond : storeAt (before ++ receivePort ++ (y ++ (z ++ after))) (before.length + 2)
      sendPort = before ++ receivePort ++ sendPort ++ (z ++ after) := by
    have hlen : before.length + 2 = (before ++ receivePort).length := by
      rw [List.length_append, hreceive, length_storeLE]
    rw [hlen, storeAt_append _ _ _ _ (by rw [hsend, length_storeLE, hy])]
    simp only [List.append_assoc]
  have hold4 : (x ++ (y ++ z)).drop 4 = z := by
    rw [← List.append_assoc]
    exact List.drop_left' (by rw [List.length_append, hx, hy])
  rw [encodePath, ForwardingPath.bytes, hold4]
  simp only [← hreceive, ← hsend, hfirst, hsecond]
  rw [inetPtonAt]
  cases h : inetPton (cString path.sendIp) with
  | none => simp
  | some addr =>
    have hlen : before.length + 4 = (before ++ receivePort ++ sendPort).length := by
      rw [List.length_append, List.length_append, hreceive, hsend, length_storeLE, length_storeLE]
    simp only [hlen]
    rw [storeAt_append _ _ _ _ (by rw [length_of_inetPton h, hz])]
    simp

/-- **What is encoded.** -/
theorem encodeZzconfig_eq (forwardPath returnPath : ForwardingPath) {old old' : List UInt8}
    (hold : old.length = 8) (hold' : old'.length = 8) :
    encodeZzconfig forwardPath returnPath (old ++ old') =
      (0, forwardPath.bytes old ++ returnPath.bytes old') := by
  have hforward := encodePath_eq forwardPath [] old' hold
  have hreturn := encodePath_eq returnPath (forwardPath.bytes old) [] hold'
  rw [forwardPath.length_bytes hold] at hreturn
  simp only [List.append_nil, List.nil_append, List.length_nil] at hforward hreturn
  simp only [encodeZzconfig, hforward]
  exact hreturn

/-- What is printed for a path. -/
def printPath (path : ForwardingPath) (receivePort sendPort : ℕ) (addr : List UInt8) :
    ForwardingPath :=
  ⟨storeString path.receivePort (numeral receivePort),
    storeString path.sendPort (numeral sendPort), storeString path.sendIp (inetNtop addr)⟩

/-- **What is decoded for one path.** -/
theorem decodePath_eq (path : ForwardingPath) (before after : List UInt8) {x y z : List UInt8}
    (hx : x.length = 2) (hy : y.length = 2) (hz : z.length = 4) :
    decodePath (before ++ ((x ++ (y ++ z)) ++ after)) before.length path =
      printPath path (loadLE x) (loadLE y) z := by
  have hfirst : bytesAt (before ++ ((x ++ (y ++ z)) ++ after)) before.length 2 = x := by
    rw [List.append_assoc x, ← hx, bytesAt_append]
  have hsecond : bytesAt (before ++ ((x ++ (y ++ z)) ++ after)) (before.length + 2) 2 = y := by
    have h := bytesAt_append (before ++ x) y (z ++ after)
    rw [List.length_append, hx, hy] at h
    simpa only [List.append_assoc] using h
  have hthird : bytesAt (before ++ ((x ++ (y ++ z)) ++ after)) (before.length + 4) 4 = z := by
    have h := bytesAt_append (before ++ x ++ y) z after
    rw [List.length_append, List.length_append, hx, hy, hz] at h
    simpa only [List.append_assoc] using h
  rw [decodePath, hfirst, hsecond, hthird, printPath]

/-! ## Decoding and encoding are inverse to each other -/

/-- The texts of a path are the ones the codec prints. -/
def ForwardingPath.Canonical (path : ForwardingPath) : Prop :=
  ∃ receivePort sendPort : ℕ, ∃ addr : List UInt8, receivePort < 2 ^ 16 ∧ sendPort < 2 ^ 16 ∧
    addr.length = 4 ∧ path.texts = [numeral receivePort, numeral sendPort, inetNtop addr]

theorem loadLE_lt_port {bytes : List UInt8} (h : bytes.length = 2) : loadLE bytes < 2 ^ 16 := by
  have := loadLE_lt bytes
  rw [h] at this
  exact this

theorem length_numeral_port {n : ℕ} (h : n < 2 ^ 16) : (numeral n).length < portStrlen :=
  Nat.lt_succ_of_le (length_numeral_le (by decide) (Nat.lt_trans h (by decide)))

section printPath

variable {receivePort sendPort : ℕ} {addr : List UInt8} (path : ForwardingPath)

theorem texts_printPath : (printPath path receivePort sendPort addr).texts =
    [numeral receivePort, numeral sendPort, inetNtop addr] := by
  rw [ForwardingPath.texts, printPath]
  simp only [cString_storeString (nul_notMem_numeral _),
    cString_storeString (nul_notMem_inetNtop _)]

theorem printPath_sized {path : ForwardingPath} (h : path.Sized) (hreceive : receivePort < 2 ^ 16)
    (hsend : sendPort < 2 ^ 16) (haddr : addr.length = 4) :
    (printPath path receivePort sendPort addr).Sized where
  receivePort := by
    rw [printPath, length_storeString, h.receivePort]
    rw [h.receivePort]
    exact length_numeral_port hreceive
  sendPort := by
    rw [printPath, length_storeString, h.sendPort]
    rw [h.sendPort]
    exact length_numeral_port hsend
  sendIp := by
    rw [printPath, length_storeString, h.sendIp]
    rw [h.sendIp]
    exact length_inetNtop_lt haddr

theorem printPath_terminated : (printPath path receivePort sendPort addr).Terminated where
  receivePort := List.mem_append_right _ List.mem_cons_self
  sendPort := List.mem_append_right _ List.mem_cons_self
  sendIp := List.mem_append_right _ List.mem_cons_self

/-- A path with these texts is encoded by the numbers. -/
theorem ForwardingPath.bytes_of_texts {path : ForwardingPath} (hreceive : receivePort < 2 ^ 16)
    (hsend : sendPort < 2 ^ 16) (haddr : addr.length = 4)
    (h : path.texts = [numeral receivePort, numeral sendPort, inetNtop addr]) (old : List UInt8) :
    path.bytes old = storeLE 2 receivePort ++ (storeLE 2 sendPort ++ addr) := by
  simp only [texts, List.cons.injEq, and_true] at h
  obtain ⟨hreceive', hsend', haddr'⟩ := h
  rw [bytes, hreceive', hsend', haddr', strtoul0_numeral (Nat.lt_trans hreceive (by decide)),
    strtoul0_numeral (Nat.lt_trans hsend (by decide)), inetPton_inetNtop haddr, Option.getD_some]

end printPath

/-- **What is decoded.** -/
theorem decodeZzconfig_append (forwardPath returnPath : ForwardingPath)
    {x y z x' y' z' : List UInt8} (hx : x.length = 2) (hy : y.length = 2) (hz : z.length = 4)
    (hx' : x'.length = 2) (hy' : y'.length = 2) (hz' : z'.length = 4) :
    decodeZzconfig ((x ++ (y ++ z)) ++ (x' ++ (y' ++ z'))) forwardPath returnPath =
      (printPath forwardPath (loadLE x) (loadLE y) z,
        printPath returnPath (loadLE x') (loadLE y') z') := by
  have hlen : (x ++ (y ++ z)).length = 8 := by simp [hx, hy, hz]
  have hforward := decodePath_eq forwardPath [] (x' ++ (y' ++ z')) hx hy hz
  have hreturn := decodePath_eq returnPath (x ++ (y ++ z)) [] hx' hy' hz'
  rw [hlen, List.append_nil] at hreturn
  exact congrArg₂ Prod.mk hforward hreturn

/-- The fields of a message, and what is decoded from them. -/
theorem exists_decodeZzconfig_eq {config : List UInt8} (h : config.length = zzconfigSize)
    (forwardPath returnPath : ForwardingPath) :
    ∃ x y z x' y' z' : List UInt8, (x.length = 2 ∧ y.length = 2 ∧ z.length = 4) ∧
      (x'.length = 2 ∧ y'.length = 2 ∧ z'.length = 4) ∧
      config = (x ++ (y ++ z)) ++ (x' ++ (y' ++ z')) ∧
      decodeZzconfig config forwardPath returnPath =
        (printPath forwardPath (loadLE x) (loadLE y) z,
          printPath returnPath (loadLE x') (loadLE y') z') := by
  have htake : (config.take 8).length = 8 := by rw [List.length_take, h]; rfl
  have hdrop : (config.drop 8).length = 8 := by rw [List.length_drop, h]; rfl
  obtain ⟨x, y, z, hx, hy, hz, hfirst⟩ := exists_fields htake
  obtain ⟨x', y', z', hx', hy', hz', hsecond⟩ := exists_fields hdrop
  have hconfig : config = (x ++ (y ++ z)) ++ (x' ++ (y' ++ z')) := by
    rw [← hfirst, ← hsecond, List.take_append_drop]
  refine ⟨x, y, z, x', y', z', ⟨hx, hy, hz⟩, ⟨hx', hy', hz'⟩, hconfig, ?_⟩
  rw [hconfig]
  exact decodeZzconfig_append forwardPath returnPath hx hy hz hx' hy' hz'

/-- The decoded paths are encoded to the message. -/
theorem encodeZzconfig_decodeZzconfig {config old : List UInt8}
    (h : config.length = zzconfigSize) (hold : old.length = zzconfigSize)
    (forwardPath returnPath : ForwardingPath) :
    encodeZzconfig (decodeZzconfig config forwardPath returnPath).1
      (decodeZzconfig config forwardPath returnPath).2 old = (0, config) := by
  obtain ⟨x, y, z, x', y', z', ⟨hx, hy, hz⟩, ⟨hx', hy', hz'⟩, rfl, hdecode⟩ :=
    exists_decodeZzconfig_eq h forwardPath returnPath
  have hstore : ∀ {bytes : List UInt8}, bytes.length = 2 → storeLE 2 (loadLE bytes) = bytes := by
    intro bytes hbytes
    rw [← hbytes, storeLE_loadLE]
  rw [hdecode, ← List.take_append_drop 8 old,
    encodeZzconfig_eq _ _ (by rw [List.length_take, hold]; rfl)
      (by rw [List.length_drop, hold]; rfl),
    ForwardingPath.bytes_of_texts (loadLE_lt_port hx) (loadLE_lt_port hy) hz (texts_printPath _),
    ForwardingPath.bytes_of_texts (loadLE_lt_port hx') (loadLE_lt_port hy') hz'
      (texts_printPath _),
    hstore hx, hstore hy, hstore hx', hstore hy']

/-- The message that encodes canonical paths is decoded to their texts. -/
theorem texts_decodeZzconfig {forwardPath returnPath : ForwardingPath}
    (hforward : forwardPath.Canonical) (hreturn : returnPath.Canonical) {old : List UInt8}
    (hold : old.length = zzconfigSize) (forwardPath₀ returnPath₀ : ForwardingPath) :
    ((decodeZzconfig (encodeZzconfig forwardPath returnPath old).2 forwardPath₀
        returnPath₀).1.texts = forwardPath.texts) ∧
      (decodeZzconfig (encodeZzconfig forwardPath returnPath old).2 forwardPath₀
        returnPath₀).2.texts = returnPath.texts := by
  obtain ⟨p, q, addr, hp, hq, haddr, htexts⟩ := hforward
  obtain ⟨p', q', addr', hp', hq', haddr', htexts'⟩ := hreturn
  have hencode : (encodeZzconfig forwardPath returnPath old).2 =
      (storeLE 2 p ++ (storeLE 2 q ++ addr)) ++ (storeLE 2 p' ++ (storeLE 2 q' ++ addr')) := by
    rw [← List.take_append_drop 8 old, encodeZzconfig_eq _ _ (by rw [List.length_take, hold]; rfl)
        (by rw [List.length_drop, hold]; rfl),
      ForwardingPath.bytes_of_texts hp hq haddr htexts,
      ForwardingPath.bytes_of_texts hp' hq' haddr' htexts']
  have hlen : ∀ n, (storeLE 2 n).length = 2 := length_storeLE 2
  have hload : ∀ {n : ℕ}, n < 2 ^ 16 → loadLE (storeLE 2 n) = n := fun hn => loadLE_storeLE hn
  have hfirst := decodePath_eq forwardPath₀ [] (storeLE 2 p' ++ (storeLE 2 q' ++ addr'))
    (hlen p) (hlen q) haddr
  have hsecond := decodePath_eq returnPath₀ (storeLE 2 p ++ (storeLE 2 q ++ addr)) []
    (hlen p') (hlen q') haddr'
  have hbefore : (storeLE 2 p ++ (storeLE 2 q ++ addr)).length = 8 := by
    rw [List.length_append, List.length_append, hlen, hlen, haddr]
  rw [hbefore, List.append_nil] at hsecond
  rw [hencode, decodeZzconfig]
  refine ⟨?_, ?_⟩
  · rw [htexts]
    refine (congrArg ForwardingPath.texts hfirst).trans ?_
    rw [texts_printPath, hload hp, hload hq]
  · rw [htexts']
    refine (congrArg ForwardingPath.texts hsecond).trans ?_
    rw [texts_printPath, hload hp', hload hq']

/-- **The codec is a bijection.** Decoding any message writes terminated strings inside their arrays
and is undone by encoding; encoding paths with canonical texts is undone by decoding. -/
theorem zzconfig_bijection :
    (∀ (config old : List UInt8) (forwardPath returnPath : ForwardingPath),
      config.length = zzconfigSize → old.length = zzconfigSize → forwardPath.Sized →
        returnPath.Sized →
        let paths := decodeZzconfig config forwardPath returnPath
        (paths.1.Sized ∧ paths.1.Terminated) ∧ (paths.2.Sized ∧ paths.2.Terminated) ∧
          encodeZzconfig paths.1 paths.2 old = (0, config)) ∧
    ∀ (forwardPath returnPath forwardPath₀ returnPath₀ : ForwardingPath) (old : List UInt8),
      forwardPath.Canonical → returnPath.Canonical → old.length = zzconfigSize →
        let paths := decodeZzconfig (encodeZzconfig forwardPath returnPath old).2 forwardPath₀
          returnPath₀
        paths.1.texts = forwardPath.texts ∧ paths.2.texts = returnPath.texts := by
  refine ⟨?_, fun f r f₀ r₀ old hf hr hold => texts_decodeZzconfig hf hr hold f₀ r₀⟩
  intro config old forwardPath returnPath hconfig hold hforward hreturn
  have hencode := encodeZzconfig_decodeZzconfig hconfig hold forwardPath returnPath
  obtain ⟨x, y, z, x', y', z', ⟨hx, hy, hz⟩, ⟨hx', hy', hz'⟩, -, hdecode⟩ :=
    exists_decodeZzconfig_eq hconfig forwardPath returnPath
  refine ⟨?_, ?_, hencode⟩
  · rw [hdecode]
    exact ⟨printPath_sized hforward (loadLE_lt_port hx) (loadLE_lt_port hy) hz,
      printPath_terminated _⟩
  · rw [hdecode]
    exact ⟨printPath_sized hreturn (loadLE_lt_port hx') (loadLE_lt_port hy') hz',
      printPath_terminated _⟩

/-- The message of the documentation, 10001 20001 127.0.0.1 and 10002 0 0.0.0.0. -/
def fillInMessage : List UInt8 := [17, 39, 33, 78, 127, 0, 0, 1, 18, 39, 0, 0, 0, 0, 0, 0]

theorem zzconfig_bijection_fillInMessage :
    let paths := decodeZzconfig fillInMessage .zero .zero
    paths.2.texts = [[0x31, 0x30, 0x30, 0x30, 0x32], [0x30],
        [0x30, 0x2e, 0x30, 0x2e, 0x30, 0x2e, 0x30]] ∧
      encodeZzconfig paths.1 paths.2 fillInMessage = (0, fillInMessage) :=
  ⟨by decide, (zzconfig_bijection.1 fillInMessage fillInMessage .zero .zero rfl rfl
    ForwardingPath.zero_sized ForwardingPath.zero_sized).2.2⟩

end CS536Labs.Lab6
