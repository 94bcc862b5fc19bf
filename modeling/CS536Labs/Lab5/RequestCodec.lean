import CS536Labs.Lab3.FileServer

/-!
# `lab5/lib/request_codec.c`, and the request codecs of all labs

The codec of lab 5 has the layout of the other ones. Its decoder clears `filename` instead of
storing a terminator, the server clears the buffer in front of `recvfrom`, and `check_filename`
wants a `.au` behind the letters. `RequestCodec` holds what the labs do differently, with the
functions of one lab in its fields.

* `request_round_trip`: what is encoded is decoded, whatever the buffers held before.
* `no_smuggled_path`: the names that a server lets through are plain ones.
-/

namespace CS536Labs

namespace Lab5

/-- `REQUEST_SIZE`. -/
def requestSize : ℕ := 10

/-- `.au` -/
def dotAu : List UInt8 := [0x2e, 0x61, 0x75]

/-- `encode_request`. -/
def encodeRequest (filename : CString) (blocksize : ℕ) (message : List UInt8) : List UInt8 :=
  encodeKeyed (requestSize - maxFilenameLen) filename blocksize message

/-- `decode_request`, into a `filename` that holds anything. -/
def decodeRequestInto (message filename : List UInt8) : List UInt8 × ℕ :=
  let filename := storeAt filename 0 (List.replicate (maxFilenameLen + 1) 0)
  (storeAt filename 0
      (strncpy (cString (message.drop (requestSize - maxFilenameLen))) maxFilenameLen),
    loadLE (bytesAt message 0 (requestSize - maxFilenameLen)))

/-- The `memset` of the buffer in `read_request`. -/
def clearRequest (request : List UInt8) : List UInt8 :=
  storeAt request 0 (List.replicate requestSize 0)

/-- `check_filename`. -/
def checkFilename (filename : List UInt8) : ℤ :=
  let s := cString filename
  if min s.length (maxFilenameLen + 1) > maxFilenameLen then -1
  else if s.dropWhile isAlpha ≠ dotAu then -2
  else 0

end Lab5

/-- Letters in front of the suffix, `MAX_FILENAME_LEN` characters at most. -/
structure PlainName (suffix name : List UInt8) : Prop where
  length_le : name.length ≤ maxFilenameLen
  letters : ∃ letters : List UInt8, (∀ c ∈ letters, isAlpha c = true) ∧ name = letters ++ suffix

/-- The functions of one lab. -/
structure RequestCodec where
  keySize : ℕ
  /-- What `check_filename` wants behind the letters. -/
  suffix : List UInt8
  encode : CString → ℕ → List UInt8 → List UInt8
  decode : List UInt8 → List UInt8 → List UInt8 × ℕ
  /-- The buffer in front of the call that receives a request. -/
  clear : List UInt8 → List UInt8
  checkFilename : List UInt8 → ℤ
  encode_eq : encode = encodeKeyed keySize
  decode_eq : ∀ message filename : List UInt8, filename.length = maxFilenameLen + 1 →
    decode message filename = decodeKeyed keySize message
  length_clear : ∀ request : List UInt8, request.length = keySize + maxFilenameLen →
    (clear request).length = keySize + maxFilenameLen
  checkFilename_iff : ∀ filename : List UInt8,
    checkFilename filename = 0 ↔ PlainName suffix (cString filename)

theorem dropWhile_isAlpha_eq_iff {s suffix : List UInt8}
    (hsuffix : suffix.dropWhile isAlpha = suffix) :
    s.dropWhile isAlpha = suffix ↔
      ∃ letters : List UInt8, (∀ c ∈ letters, isAlpha c = true) ∧ s = letters ++ suffix := by
  constructor
  · rintro rfl
    exact ⟨s.takeWhile isAlpha, fun c hc => List.mem_takeWhile_imp hc,
      List.takeWhile_append_dropWhile.symm⟩
  · rintro ⟨letters, hletters, rfl⟩
    rw [List.dropWhile_append_of_pos hletters, hsuffix]

theorem checkFilename_iff (filename : List UInt8) :
    checkFilename filename = 0 ↔ PlainName [] (cString filename) := by
  rw [checkFilename]
  split_ifs with hlong hletters
  · exact iff_of_false (by decide) fun h => absurd h.length_le (Nat.not_le.mpr hlong)
  · exact iff_of_false (by decide) fun h => hletters ((dropWhile_isAlpha_eq_iff rfl).mpr h.letters)
  · refine iff_of_true rfl ⟨Nat.not_lt.mp hlong, ?_⟩
    exact (dropWhile_isAlpha_eq_iff rfl).mp (not_not.mp hletters)

theorem Lab5.checkFilename_iff (filename : List UInt8) :
    Lab5.checkFilename filename = 0 ↔ PlainName Lab5.dotAu (cString filename) := by
  rw [Lab5.checkFilename]
  split_ifs with hlong hletters
  · exact iff_of_false (by decide) fun h => absurd h.length_le (by omega)
  · exact iff_of_false (by decide) fun h => hletters ((dropWhile_isAlpha_eq_iff rfl).mpr h.letters)
  · refine iff_of_true rfl ⟨by omega, ?_⟩
    exact (dropWhile_isAlpha_eq_iff rfl).mp (not_not.mp hletters)

/-- The cleared `filename` ends the name where the terminator of the other labs stands. -/
theorem Lab5.decodeRequestInto_eq (message : List UInt8) {filename : List UInt8}
    (h : filename.length = maxFilenameLen + 1) :
    Lab5.decodeRequestInto message filename =
      decodeKeyed (Lab5.requestSize - maxFilenameLen) message := by
  have hclear : storeAt filename 0 (List.replicate (maxFilenameLen + 1) 0) =
      List.replicate (maxFilenameLen + 1) 0 :=
    storeAt_zero (h.trans List.length_replicate.symm)
  rw [Lab5.decodeRequestInto, hclear, storeAt, length_strncpy]
  rfl

/-- Lab 3. -/
def Lab3.requestCodec : RequestCodec where
  keySize := requestSize - maxFilenameLen
  suffix := []
  encode := encodeRequest
  decode := decodeRequestInto
  clear := id
  checkFilename := CS536Labs.checkFilename
  encode_eq := rfl
  decode_eq _ _ h := decodeKeyedInto_eq _ _ h
  length_clear _ h := h
  checkFilename_iff := CS536Labs.checkFilename_iff

/-- Lab 4, with a secret key. -/
def Lab4.secretKeyCodec : RequestCodec where
  keySize := requestSizeWithSecretKey - maxFilenameLen
  suffix := []
  encode := encodeRequestWithSecretKey
  decode := decodeRequestWithSecretKeyInto
  clear := id
  checkFilename := checkFilename
  encode_eq := rfl
  decode_eq _ _ h := decodeKeyedInto_eq _ _ h
  length_clear _ h := h
  checkFilename_iff := checkFilename_iff

/-- Lab 4, with a certificate. -/
def Lab4.certificateCodec : RequestCodec where
  keySize := requestSizeWithCertificate - maxFilenameLen
  suffix := []
  encode := encodeRequestWithCertificate
  decode := decodeRequestWithCertificateInto
  clear := id
  checkFilename := checkFilename
  encode_eq := rfl
  decode_eq _ _ h := decodeKeyedInto_eq _ _ h
  length_clear _ h := h
  checkFilename_iff := checkFilename_iff

def Lab5.requestCodec : RequestCodec where
  keySize := requestSize - maxFilenameLen
  suffix := dotAu
  encode := encodeRequest
  decode := decodeRequestInto
  clear := clearRequest
  checkFilename := checkFilename
  encode_eq := rfl
  decode_eq _ _ h := decodeRequestInto_eq _ h
  length_clear _ h := by
    have hclear : clearRequest _ = List.replicate requestSize 0 :=
      storeAt_zero (h.trans List.length_replicate.symm)
    rw [hclear]
    exact List.length_replicate
  checkFilename_iff := checkFilename_iff

/-- The codecs of all labs. -/
def requestCodecs : List RequestCodec :=
  [Lab3.requestCodec, Lab4.secretKeyCodec, Lab4.certificateCodec, Lab5.requestCodec]

namespace RequestCodec

variable (codec : RequestCodec)

/-- The size of a request. -/
def requestSize : ℕ := codec.keySize + maxFilenameLen

/-- `read_request`: the buffer of the request, the array `filename`, and the received bytes. -/
def readRequest (request filename data : List UInt8) : List UInt8 × ℕ :=
  codec.decode (recvInto (codec.clear request) data) filename

/-- The name that an encoded request leaves in `filename` has a terminator. -/
theorem decode_encode {filename : CString} (hname : filename.bytes.length ≤ maxFilenameLen)
    {number : ℕ} (hnumber : number < 256 ^ codec.keySize) {message output : List UInt8}
    (hmessage : message.length = codec.requestSize) (houtput : output.length = maxFilenameLen + 1) :
    codec.decode (codec.encode filename number message) output =
      (strncpy filename.bytes maxFilenameLen ++ [0], number) := by
  rw [codec.decode_eq _ _ houtput, codec.encode_eq, encodeKeyed_eq _ _ hmessage,
    decodeKeyed_storeLE hname hnumber]

theorem cString_strncpy_append {filename : CString}
    (hname : filename.bytes.length ≤ maxFilenameLen) :
    cString (strncpy filename.bytes maxFilenameLen ++ [0]) = filename.bytes := by
  rw [cString_append_zero, cString_strncpy_of_le filename.noNul hname]

/-- A request that arrives whole is decoded to what was encoded. -/
theorem readRequest_encode {filename : CString} (hname : filename.bytes.length ≤ maxFilenameLen)
    {number : ℕ} (hnumber : number < 256 ^ codec.keySize) {request message output : List UInt8}
    (hrequest : request.length = codec.requestSize) (hmessage : message.length = codec.requestSize)
    (houtput : output.length = maxFilenameLen + 1) :
    codec.readRequest request output (codec.encode filename number message) =
      (strncpy filename.bytes maxFilenameLen ++ [0], number) := by
  have hsize : (codec.clear request).length =
      (codec.encode filename number message).length := by
    rw [codec.length_clear _ hrequest, codec.encode_eq, encodeKeyed_eq _ _ hmessage,
      List.length_append, length_storeLE, length_strncpy]
  rw [readRequest, recvInto_of_le (Nat.le_of_eq hsize.symm),
    List.drop_eq_nil_of_le (Nat.le_of_eq hsize), List.append_nil,
    codec.decode_encode hname hnumber hmessage houtput]

end RequestCodec

/-- **The round trip.** For a name that `check_filename` accepts, the message does not depend on
what its buffer held before, and decoding it gives the name, with a terminator, and the number. -/
theorem request_round_trip (codec : RequestCodec) (_ : codec ∈ requestCodecs)
    (filename : CString) (hcheck : codec.checkFilename filename.bytes = 0) {number : ℕ}
    (hnumber : number < 256 ^ codec.keySize) {message output : List UInt8}
    (hmessage : message.length = codec.requestSize) (houtput : output.length = maxFilenameLen + 1) :
    (∀ message' : List UInt8, message'.length = codec.requestSize →
      codec.encode filename number message' = codec.encode filename number message) ∧
    ∃ filename' : List UInt8,
      codec.decode (codec.encode filename number message) output = (filename', number) ∧
        0 ∈ filename' ∧ cString filename' = filename.bytes := by
  have hname : filename.bytes.length ≤ maxFilenameLen := by
    have hplain := (codec.checkFilename_iff _).mp hcheck
    rw [cString_eq_self filename.noNul] at hplain
    exact hplain.length_le
  constructor
  · intro message' hmessage'
    rw [codec.encode_eq, encodeKeyed_eq _ _ hmessage, encodeKeyed_eq _ _ hmessage']
  · exact ⟨_, codec.decode_encode hname hnumber hmessage houtput,
      List.mem_append_right _ (List.mem_singleton_self _),
      RequestCodec.cString_strncpy_append hname⟩

/-- A name of lab 3 with 8 characters, in buffers of other bytes. -/
theorem request_round_trip_full :
    Lab3.requestCodec.checkFilename [0x61, 0x61, 0x61, 0x61, 0x61, 0x61, 0x61, 0x61] = 0 ∧
      ∃ filename' : List UInt8,
        Lab3.requestCodec.decode
          (Lab3.requestCodec.encode ⟨[0x61, 0x61, 0x61, 0x61, 0x61, 0x61, 0x61, 0x61], by decide⟩
            65535 (List.replicate 10 0x62)) (List.replicate 9 0x63) = (filename', 65535) ∧
        0 ∈ filename' ∧
        cString filename' = [0x61, 0x61, 0x61, 0x61, 0x61, 0x61, 0x61, 0x61] :=
  ⟨by decide, (request_round_trip Lab3.requestCodec List.mem_cons_self _
    (by decide) (by decide) (by decide) (by decide)).2⟩

/-! ## The names that are let through -/

/-- The suffixes of the labs have at most one dot. -/
theorem count_dot_suffix_le {codec : RequestCodec} (h : codec ∈ requestCodecs) :
    0x2f ∉ codec.suffix ∧ codec.suffix.count 0x2e ≤ 1 := by
  simp only [requestCodecs, List.mem_cons, List.not_mem_nil, or_false] at h
  rcases h with rfl | rfl | rfl | rfl <;> decide

/-- There is neither a slash nor a parent directory in a plain name. -/
theorem PlainName.no_path {suffix name : List UInt8} (h : PlainName suffix name)
    (hslash : 0x2f ∉ suffix) (hdot : suffix.count 0x2e ≤ 1) :
    0x2f ∉ name ∧ ¬ [0x2e, 0x2e] <:+: name := by
  obtain ⟨letters, hletters, rfl⟩ := h.letters
  have hother : ∀ c : UInt8, isAlpha c = false → c ∉ letters := by
    intro c hc hmem
    rw [hletters c hmem] at hc
    cases hc
  constructor
  · intro hmem
    rcases List.mem_append.mp hmem with hmem | hmem
    · exact hother _ (by decide) hmem
    · exact hslash hmem
  · intro hdots
    have hcount := hdots.sublist.count_le (0x2e : UInt8)
    rw [List.count_append, List.count_eq_zero.mpr (hother _ (by decide)), Nat.zero_add] at hcount
    exact absurd (Nat.le_trans hcount hdot) (by decide)

/-- **No path.** A server lets the decoded name through exactly when it is a plain one, whatever was
received, so that it names no other directory. Every plain name gets through. -/
theorem no_smuggled_path (codec : RequestCodec) (hcodec : codec ∈ requestCodecs)
    {request output : List UInt8} (hrequest : request.length = codec.requestSize)
    (houtput : output.length = maxFilenameLen + 1) :
    (∀ data filename number, codec.readRequest request output data = (filename, number) →
      (codec.checkFilename filename = 0 ↔
        0 ∈ filename ∧ PlainName codec.suffix (cString filename)) ∧
      (codec.checkFilename filename = 0 →
        0x2f ∉ cString filename ∧ ¬ [0x2e, 0x2e] <:+: cString filename)) ∧
    ∀ name : CString, PlainName codec.suffix name.bytes → ∀ number < 256 ^ codec.keySize,
      ∀ message : List UInt8, message.length = codec.requestSize → ∃ filename,
        codec.readRequest request output (codec.encode name number message) =
          (filename, number) ∧
        cString filename = name.bytes ∧ codec.checkFilename filename = 0 := by
  constructor
  · intro data filename number hread
    have hnul : 0 ∈ filename := by
      rw [RequestCodec.readRequest, codec.decode_eq _ _ houtput, decodeKeyed] at hread
      obtain ⟨rfl, -⟩ := Prod.mk.inj hread
      exact List.mem_append_right _ (List.mem_singleton_self _)
    rw [codec.checkFilename_iff, and_iff_right hnul]
    obtain ⟨hslash, hdot⟩ := count_dot_suffix_le hcodec
    exact ⟨Iff.rfl, fun hplain => hplain.no_path hslash hdot⟩
  · intro name hplain number hnumber message hmessage
    have hname := RequestCodec.cString_strncpy_append hplain.length_le
    refine ⟨_, codec.readRequest_encode hplain.length_le hnumber hrequest hmessage houtput, hname,
      ?_⟩
    rw [codec.checkFilename_iff, hname]
    exact hplain

/-- `kj.au`, as the server of lab 5 receives it. -/
theorem no_smuggled_path_kj :
    ∃ filename, Lab5.requestCodec.readRequest (List.replicate 10 0x2f) (List.replicate 9 0x2f)
        (Lab5.requestCodec.encode ⟨[0x6b, 0x6a, 0x2e, 0x61, 0x75], by decide⟩ 1024
          (List.replicate 10 0x2f)) = (filename, 1024) ∧
      cString filename = [0x6b, 0x6a, 0x2e, 0x61, 0x75] ∧
      Lab5.requestCodec.checkFilename filename = 0 := by
  have hletters : ∀ c ∈ [0x6b, 0x6a], isAlpha c = true := by
    intro c hc
    rcases List.mem_pair.mp hc with rfl | rfl <;> rfl
  exact (no_smuggled_path Lab5.requestCodec (by simp [requestCodecs]) List.length_replicate
    List.length_replicate).2 ⟨[0x6b, 0x6a, 0x2e, 0x61, 0x75], by decide⟩
    ⟨by decide, [0x6b, 0x6a], hletters, rfl⟩ 1024 (by decide) _ List.length_replicate

/-- The files that the servers of labs 3 and 4 transfer have plain names. -/
theorem FileServer.plainName_of_serve {server : FileServer} {buffer : List UInt8} {r : Request}
    {transfer : Transfer} (h : (server.serve buffer r).2 = some transfer) :
    PlainName [] transfer.filename := by
  have hstart : ∀ filename key, server.start r filename key = some transfer →
      PlainName [] transfer.filename := by
    intro filename key hstart
    rw [start] at hstart
    split at hstart
    · cases hstart
    · split_ifs at hstart with hcheck
      obtain rfl := Option.some.inj hstart
      exact (checkFilename_iff filename).mp (not_not.mp hcheck)
  rw [serve] at h
  split at h
  · cases h
  · split at h
    · cases h
    · exact hstart _ _ h

end CS536Labs
