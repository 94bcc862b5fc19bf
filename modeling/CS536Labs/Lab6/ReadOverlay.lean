import CS536Labs.Lab6.ZzconfigCodec

/-!
# `lab6/v1/read_overlay.c`

`readOverlay` reads the file `zzoverlay.dat` line by line into an array of entries. The texts of an
entry are tokens of its lines, and `EntryText.store` copies them into the fields with `strncpy`.
A field may end up without a terminator.

The results of `readEntries` and `readOverlay` are `none` for a store behind the array, and
`some none` for the return value -1.
-/

namespace CS536Labs.Lab6

/-- `MAX_OVERLAY_SIZE`, the length of the array that `main` of `zigzagconf` declares. -/
def maxOverlaySize : ℕ := 100

/-- `BUFFER_SIZE` of the reader. -/
def lineBufferSize : ℕ := 4096

/-- The characters up to the first newline, which is included, or `n` of them. -/
def takeLine : ℕ → List UInt8 → List UInt8
  | 0, _ => []
  | _, [] => []
  | n + 1, c :: file => if c = 0x0a then [c] else c :: takeLine n file

/-- `fgets(buffer, size, file)`: the string in the buffer and what is left of the file, `none` at
its end. -/
def fgets (size : ℕ) (file : List UInt8) : Option (List UInt8 × List UInt8) :=
  if file = [] then none
  else
    let line := takeLine (size - 1) file
    some (cString line, file.drop line.length)

/-- The texts of a path. -/
structure PathText where
  receivePort : List UInt8
  sendPort : List UInt8
  sendIp : List UInt8
  deriving DecidableEq

/-- The texts of an entry. -/
structure EntryText where
  ip : List UInt8
  port : List UInt8
  forwardPath : PathText
  returnPath : PathText
  deriving DecidableEq

/-- The arrays of an `OverlayEntry`. -/
structure OverlayEntry where
  ip : List UInt8
  port : List UInt8
  forwardPath : ForwardingPath
  returnPath : ForwardingPath
  deriving DecidableEq

/-- The fields of the entry hold terminated strings. -/
structure OverlayEntry.Terminated (entry : OverlayEntry) : Prop where
  ip : 0 ∈ entry.ip
  port : 0 ∈ entry.port
  forwardPath : entry.forwardPath.Terminated
  returnPath : entry.returnPath.Terminated

/-- The copies of `parse_entry_data_forwarding`. -/
def PathText.store (text : PathText) : ForwardingPath :=
  ⟨strncpy text.receivePort portStrlen, strncpy text.sendPort portStrlen,
    strncpy text.sendIp inetAddrstrlen⟩

/-- The copies of `parse_entry_control` and `parse_entry_data_forwarding`. -/
def EntryText.store (text : EntryText) : OverlayEntry :=
  ⟨strncpy text.ip inetAddrstrlen, strncpy text.port portStrlen, text.forwardPath.store,
    text.returnPath.store⟩

/-- The texts of an entry, each with the size of its array. -/
def EntryText.fields (text : EntryText) : List (List UInt8 × ℕ) :=
  [(text.ip, inetAddrstrlen), (text.port, portStrlen),
    (text.forwardPath.receivePort, portStrlen), (text.forwardPath.sendPort, portStrlen),
    (text.forwardPath.sendIp, inetAddrstrlen), (text.returnPath.receivePort, portStrlen),
    (text.returnPath.sendPort, portStrlen), (text.returnPath.sendIp, inetAddrstrlen)]

/-- The arrays of an entry. -/
def OverlayEntry.arrays (entry : OverlayEntry) : List (List UInt8) :=
  [entry.ip, entry.port, entry.forwardPath.receivePort, entry.forwardPath.sendPort,
    entry.forwardPath.sendIp, entry.returnPath.receivePort, entry.returnPath.sendPort,
    entry.returnPath.sendIp]

theorem OverlayEntry.terminated_iff (entry : OverlayEntry) :
    entry.Terminated ↔ ∀ array ∈ entry.arrays, 0 ∈ array := by
  simp only [arrays, List.forall_mem_cons]
  constructor
  · rintro ⟨hip, hport, ⟨hreceive, hsend, hsendIp⟩, hreceive', hsend', hsendIp'⟩
    exact ⟨hip, hport, hreceive, hsend, hsendIp, hreceive', hsend', hsendIp', nofun⟩
  · rintro ⟨hip, hport, hreceive, hsend, hsendIp, hreceive', hsend', hsendIp', -⟩
    exact ⟨hip, hport, ⟨hreceive, hsend, hsendIp⟩, hreceive', hsend', hsendIp'⟩

theorem EntryText.arrays_store (text : EntryText) :
    text.store.arrays = text.fields.map fun field => strncpy field.1 field.2 := rfl

/-- The separators of `zzoverlay.dat`. -/
def isOverlayDelimiter (c : UInt8) : Bool := c == 0x20 || c == 0x09 || c == 0x0a

/-- `parse_entry_control`, with the tokens that it copies. -/
def parseEntryControl (buffer : List UInt8) : Option (List UInt8 × List UInt8) :=
  if buffer = [0x0a] then none
  else
    match tokens isOverlayDelimiter buffer with
    | ip :: port :: _ => some (ip, port)
    | _ => none

/-- `parse_entry_data_forwarding`, with the tokens that it copies. -/
def parseEntryDataForwarding (buffer : List UInt8) : Option PathText :=
  if buffer = [0x0a] then none
  else
    match tokens isOverlayDelimiter buffer with
    | receivePort :: sendPort :: sendIp :: _ => some ⟨receivePort, sendPort, sendIp⟩
    | _ => none

/-- `read_entry`: the texts of the entry and what is left of the file, `none` for -1. -/
def readEntry (file : List UInt8) : Option (EntryText × List UInt8) := do
  let (buffer, file) ← fgets lineBufferSize file
  let (ip, port) ← parseEntryControl buffer
  let (buffer, file) ← fgets lineBufferSize file
  let forwardPath ← parseEntryDataForwarding buffer
  let (buffer, file) ← fgets lineBufferSize file
  let returnPath ← parseEntryDataForwarding buffer
  match fgets lineBufferSize file with
  | none => some (⟨ip, port, forwardPath, returnPath⟩, file)
  | some (buffer, file) =>
    if buffer = [0x0a] then some (⟨ip, port, forwardPath, returnPath⟩, file) else none

/-- `read_entry` stores something: its first line has a token. -/
def storesEntry (file : List UInt8) : Bool :=
  (fgets lineBufferSize file).any fun result => tokens isOverlayDelimiter result.1 ≠ []

/-- The loop of `read_overlay` over `n` more entries, from entry `i` on. -/
def readEntries : ℕ → ℕ → List UInt8 → Option (Option (List EntryText))
  | _, 0, _ => some (some [])
  | i, n + 1, file =>
    if maxOverlaySize ≤ i ∧ storesEntry file then none
    else
      match readEntry file with
      | none => some none
      | some (text, file) =>
        (readEntries (i + 1) n file).map fun texts => texts.map fun texts => text :: texts

/-- `read_overlay` on the content of `zzoverlay.dat`, `none` when the file cannot be opened. -/
def readOverlay (content : Option (List UInt8)) : Option (Option (List EntryText)) :=
  match content with
  | none => some none
  | some file =>
    match fgets lineBufferSize file with
    | none => some (some [])
    | some (buffer, file) =>
      if strtoul0 buffer = 0 then some (some [])
      else
        match fgets lineBufferSize file with
        | none => some none
        | some (separator, file) =>
          if separator = [0x0a] then readEntries 0 (strtoul0 buffer) file else some none

/-- `num_fwd_pairs`, the number of entries that the file announces. -/
def numFwdPairs (content : Option (List UInt8)) : ℕ :=
  match content.bind (fgets lineBufferSize) with
  | none => 0
  | some (buffer, _) => strtoul0 buffer

end CS536Labs.Lab6
