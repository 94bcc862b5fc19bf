import CS536Labs.Foundations.Buffer
import CS536Labs.Foundations.CString
import Mathlib.Data.Int.Notation

/-!
# `lab3/v1/request_codec.c` and the request codecs of lab 4

A file request is an integer, the secret key or the certificate, in front of a field of
`MAX_FILENAME_LEN` bytes for the file name. The codecs of the two labs differ in the width of the
integer only, so that one definition serves both.

`decodeKeyed_recvInto_eq_iff` says when the decoding of a received message does not depend on what
the buffer held before: the message holds the whole integer, and it fills the buffer or ends the
name with a NUL.
-/

namespace CS536Labs

/-- `MAX_FILENAME_LEN`. -/
def maxFilenameLen : ℕ := 8

/-- The bytes of `filename[MAX_FILENAME_LEN + 1]` and the integer that the codecs decode from a
message with an integer of `keySize` bytes. -/
def decodeKeyed (keySize : ℕ) (message : List UInt8) : List UInt8 × ℕ :=
  (strncpy (cString (message.drop keySize)) maxFilenameLen ++ [0], loadLE (message.take keySize))

/-- The stores of the decoders, into a `filename` that holds anything. -/
def decodeKeyedInto (keySize : ℕ) (message filename : List UInt8) : List UInt8 × ℕ :=
  let filename := storeAt filename 0 (strncpy (cString (message.drop keySize)) maxFilenameLen)
  (storeAt filename maxFilenameLen [0], loadLE (bytesAt message 0 keySize))

/-- The encoders of all labs: the message behind the stores of the integer and of the name. -/
def encodeKeyed (keySize : ℕ) (filename : CString) (key : ℕ) (message : List UInt8) : List UInt8 :=
  let message := storeAt message 0 (storeLE keySize key)
  storeAt message keySize (strncpy filename.bytes maxFilenameLen)

/-- `check_filename`. -/
def checkFilename (filename : List UInt8) : ℤ :=
  let s := cString filename
  if s.length > maxFilenameLen then -1
  else if s.dropWhile isAlpha ≠ [] then -2
  else 0

namespace Lab3

/-- `REQUEST_SIZE`. -/
def requestSize : ℕ := 10

/-- `encode_request`. -/
def encodeRequest (filename : CString) (secretKey : ℕ) (message : List UInt8) : List UInt8 :=
  encodeKeyed (requestSize - maxFilenameLen) filename secretKey message

/-- `decode_request`. -/
def decodeRequest (message : List UInt8) : List UInt8 × ℕ :=
  decodeKeyed (requestSize - maxFilenameLen) message

def decodeRequestInto (message filename : List UInt8) : List UInt8 × ℕ :=
  decodeKeyedInto (requestSize - maxFilenameLen) message filename

end Lab3

namespace Lab4

/-- `REQUEST_SIZE_WITH_SECRET_KEY`. -/
def requestSizeWithSecretKey : ℕ := 10

/-- `REQUEST_SIZE_WITH_CERTIFICATE`. -/
def requestSizeWithCertificate : ℕ := 12

/-- `encode_request_with_secret_key`. -/
def encodeRequestWithSecretKey (filename : CString) (secretKey : ℕ) (message : List UInt8) :
    List UInt8 :=
  encodeKeyed (requestSizeWithSecretKey - maxFilenameLen) filename secretKey message

/-- `encode_request_with_certificate`. -/
def encodeRequestWithCertificate (filename : CString) (certificate : ℕ) (message : List UInt8) :
    List UInt8 :=
  encodeKeyed (requestSizeWithCertificate - maxFilenameLen) filename certificate message

/-- `decode_request_with_secret_key`. -/
def decodeRequestWithSecretKey (message : List UInt8) : List UInt8 × ℕ :=
  decodeKeyed (requestSizeWithSecretKey - maxFilenameLen) message

def decodeRequestWithSecretKeyInto (message filename : List UInt8) : List UInt8 × ℕ :=
  decodeKeyedInto (requestSizeWithSecretKey - maxFilenameLen) message filename

/-- `decode_request_with_certificate`. -/
def decodeRequestWithCertificate (message : List UInt8) : List UInt8 × ℕ :=
  decodeKeyed (requestSizeWithCertificate - maxFilenameLen) message

def decodeRequestWithCertificateInto (message filename : List UInt8) : List UInt8 × ℕ :=
  decodeKeyedInto (requestSizeWithCertificate - maxFilenameLen) message filename

end Lab4

/-! ## Encoding and decoding -/

/-- Nothing of what `filename` held before is left. -/
theorem decodeKeyedInto_eq (keySize : ℕ) (message : List UInt8) {filename : List UInt8}
    (h : filename.length = maxFilenameLen + 1) :
    decodeKeyedInto keySize message filename = decodeKeyed keySize message := by
  have hname : (strncpy (cString (message.drop keySize)) maxFilenameLen).length =
      maxFilenameLen := length_strncpy _ _
  have hstore := storeAt_storeAt [0] (h.trans (congrArg (· + 1) hname.symm))
  rw [hname] at hstore
  rw [decodeKeyedInto, decodeKeyed, hstore]
  rfl

/-- Nothing of what the message held before is left. -/
theorem encodeKeyed_eq {keySize : ℕ} (filename : CString) (key : ℕ) {message : List UInt8}
    (h : message.length = keySize + maxFilenameLen) :
    encodeKeyed keySize filename key message =
      storeLE keySize key ++ strncpy filename.bytes maxFilenameLen := by
  have hkey : (storeLE keySize key).length = keySize := length_storeLE _ _
  have hname : (strncpy filename.bytes maxFilenameLen).length = maxFilenameLen :=
    length_strncpy _ _
  have hstore := storeAt_storeAt _ (h.trans (congrArg₂ (· + ·) hkey.symm hname.symm))
  rw [hkey] at hstore
  exact hstore

/-- **What was encoded is decoded.** A name of `MAX_FILENAME_LEN` characters is sent without a
terminator, and gets one behind the field. -/
theorem decodeKeyed_storeLE {keySize : ℕ} {filename : CString}
    (hlen : filename.bytes.length ≤ maxFilenameLen) {key : ℕ} (hkey : key < 256 ^ keySize) :
    decodeKeyed keySize (storeLE keySize key ++ strncpy filename.bytes maxFilenameLen) =
      (strncpy filename.bytes maxFilenameLen ++ [0], key) := by
  rw [decodeKeyed, List.drop_left' (length_storeLE _ _), List.take_left' (length_storeLE _ _),
    cString_strncpy_of_le filename.noNul hlen, loadLE_storeLE hkey]

/-! ## Decoding what was received -/

/-- A message holds the integer and the end of the name. -/
def KeyAndNameReceived (keySize : ℕ) (data : List UInt8) : Prop :=
  keySize ≤ data.length ∧ (keySize + maxFilenameLen ≤ data.length ∨ 0 ∈ data.drop keySize)

variable {keySize : ℕ} {data : List UInt8}

/-- A message with the integer and the end of the name is decoded to what it holds. -/
theorem decodeKeyed_recvInto (h : KeyAndNameReceived keySize data) {buffer : List UInt8}
    (hbuffer : buffer.length = keySize + maxFilenameLen) :
    decodeKeyed keySize (recvInto buffer data) =
      decodeKeyed keySize (data.take (keySize + maxFilenameLen)) := by
  obtain ⟨hkey, hname⟩ := h
  by_cases hfull : keySize + maxFilenameLen ≤ data.length
  · rw [recvInto, hbuffer, List.drop_eq_nil_of_le (by omega), List.append_nil]
  · have hnul := hname.resolve_left hfull
    have hname : cString ((data ++ buffer.drop data.length).drop keySize) =
        cString (data.drop keySize) := by
      rw [List.drop_append_of_le_length hkey, cString_append_of_mem hnul]
    rw [recvInto_of_le (by omega), List.take_of_length_le (by omega), decodeKeyed, decodeKeyed,
      hname, List.take_append_of_le_length hkey]

theorem getElem?_take_append_cons {l t : List UInt8} {c : UInt8} {n : ℕ} (h : l.length < n) :
    ((l ++ c :: t).take n)[l.length]? = some c := by
  rw [List.getElem?_take_of_lt h, List.getElem?_append_right (Nat.le_refl _), Nat.sub_self]
  rfl

/-- A buffer of zeros and a buffer of ones show the bytes that were not received. -/
theorem keyAndNameReceived_of_zeros_ones
    (h : decodeKeyed keySize (recvInto (List.replicate (keySize + maxFilenameLen) 0) data) =
      decodeKeyed keySize (recvInto (List.replicate (keySize + maxFilenameLen) 1) data)) :
    KeyAndNameReceived keySize data := by
  by_contra hnot
  rw [KeyAndNameReceived, not_and_or, not_or] at hnot
  have hlt : data.length < keySize + maxFilenameLen := by omega
  obtain ⟨n, hn⟩ : ∃ n, keySize + maxFilenameLen - data.length = n + 1 :=
    ⟨keySize + maxFilenameLen - data.length - 1, by omega⟩
  have hbuffer : ∀ c : UInt8, recvInto (List.replicate (keySize + maxFilenameLen) c) data =
      data ++ c :: List.replicate n c := by
    intro c
    rw [recvInto_of_le (by rw [List.length_replicate]; exact Nat.le_of_lt hlt),
      List.drop_replicate, hn, List.replicate_succ]
  rw [hbuffer, hbuffer] at h
  obtain ⟨hname, hkey⟩ := Prod.mk.inj h
  rcases Nat.lt_or_ge data.length keySize with hshort | hlong
  · -- The byte behind the message belongs to the integer.
    have hbytes := congrArg (·[data.length]?) (loadLE_inj (by simp) hkey)
    simp only [getElem?_take_append_cons hshort] at hbytes
    exact absurd hbytes (by decide)
  · -- The byte behind the message ends the name in one of the buffers only.
    obtain ⟨-, hnul⟩ := hnot.resolve_left (by omega)
    have hin : (data.drop keySize).length < maxFilenameLen := by
      rw [List.length_drop]
      omega
    rw [List.drop_append_of_le_length hlong, List.drop_append_of_le_length hlong,
      cString_append_of_notMem hnul, cString_append_of_notMem hnul] at hname
    have hzero : strncpy (data.drop keySize ++ cString (0 :: List.replicate n 0)) maxFilenameLen =
        (data.drop keySize ++ 0 :: List.replicate 7 0).take maxFilenameLen := by
      rw [strncpy, List.append_assoc]
      rfl
    have hone : strncpy (data.drop keySize ++ cString (1 :: List.replicate n 1)) maxFilenameLen =
        (data.drop keySize ++ 1 :: (cString (List.replicate n 1) ++
          List.replicate maxFilenameLen 0)).take maxFilenameLen := by
      rw [strncpy, List.append_assoc]
      rfl
    rw [hzero, hone] at hname
    have hbytes := congrArg (·[(data.drop keySize).length]?) (List.append_cancel_right hname)
    simp only [getElem?_take_append_cons hin] at hbytes
    exact absurd hbytes (by decide)

/-- **When the previous content of the buffer does not matter.** -/
theorem decodeKeyed_recvInto_eq_iff :
    (∀ buffer buffer' : List UInt8, buffer.length = keySize + maxFilenameLen →
      buffer'.length = keySize + maxFilenameLen →
        decodeKeyed keySize (recvInto buffer data) = decodeKeyed keySize (recvInto buffer' data)) ↔
      KeyAndNameReceived keySize data := by
  constructor
  · intro h
    apply keyAndNameReceived_of_zeros_ones
    apply h <;> apply List.length_replicate
  · intro h buffer buffer' hbuffer hbuffer'
    rw [decodeKeyed_recvInto h hbuffer, decodeKeyed_recvInto h hbuffer']

end CS536Labs
