import Mathlib.Data.List.Basic

/-!
# `lab4/lib/bbcodec.c` and `lab4/lib/packet_codec.c`

The XOR codec of the encrypted version of RoadRunner, and the packets of all versions: a sequence
number followed by a block of the file.
-/

namespace CS536Labs.Lab4

/-- The `Config` of either side, with the ranges that `check_blocksize` and `check_windowsize`
enforce. -/
structure Config where
  blocksize : ℕ
  windowsize : ℕ
  checkBlocksize : 1 ≤ blocksize ∧ blocksize ≤ 1471
  checkWindowsize : 1 ≤ windowsize ∧ windowsize ≤ 64

/-- Blocks of one byte, sent one by one. -/
def Config.one : Config := ⟨1, 1, by decide, by decide⟩

/-- `SEQUENCE_NUMBER_SPACE_TO_WINDOWSIZE_RATIO`. -/
def sequenceNumberSpaceToWindowsizeRatio : ℕ := 2

/-- `DUMMY_END_OF_PACKET`. -/
def dummyEndOfPacket : UInt8 := 255

def bbdecode (x prikey : UInt32) : UInt32 := x ^^^ prikey

def bbencode (y pubkey : UInt32) : UInt32 := y ^^^ pubkey

/-- Every byte is promoted to 32 bits for `bbdecode` and truncated when stored. -/
def bbdecodeData (data : List UInt8) (prikey : UInt32) : List UInt8 :=
  data.map fun byte => (bbdecode byte.toUInt32 prikey).toUInt8

def bbencodeData (data : List UInt8) (pubkey : UInt32) : List UInt8 :=
  data.map fun byte => (bbencode byte.toUInt32 pubkey).toUInt8

/-- The `1 + data_size` bytes that `encode_packet` stores into `packet`. -/
def encodePacket (num : UInt8) (data : List UInt8) : List UInt8 := num :: data

/-- `decode_packet`: the sequence number and `data_size` bytes of the block. -/
def decodePacket (packet : List UInt8) (dataSize : ℕ) : UInt8 × List UInt8 :=
  (packet.headD 0, packet.tail.take dataSize)

/-! ## The codec -/

/-- An encoded byte is the byte XORed with the low byte of the key. -/
theorem bbencodeData_eq (data : List UInt8) (pubkey : UInt32) :
    bbencodeData data pubkey = data.map (· ^^^ pubkey.toUInt8) := by
  simp [bbencodeData, bbencode]

theorem bbdecodeData_eq (data : List UInt8) (prikey : UInt32) :
    bbdecodeData data prikey = data.map (· ^^^ prikey.toUInt8) := by
  simp [bbdecodeData, bbdecode]

/-- **Decoding undoes encoding.** -/
theorem bbdecodeData_bbencodeData (data : List UInt8) (key : UInt32) :
    bbdecodeData (bbencodeData data key) key = data := by
  have hbyte : ∀ byte : UInt8, byte ^^^ key.toUInt8 ^^^ key.toUInt8 = byte := by
    intro byte
    rw [UInt8.xor_assoc, UInt8.xor_self, UInt8.xor_zero]
  rw [bbencodeData_eq, bbdecodeData_eq, List.map_map]
  exact List.map_id'' hbyte data

/-- A key is determined by what it turns one word into. -/
theorem bbencode_eq_iff (y key ip : UInt32) : bbencode y key = ip ↔ key = y ^^^ ip := by
  rw [bbencode]
  constructor
  · rintro rfl
    rw [← UInt32.xor_assoc, UInt32.xor_self, UInt32.zero_xor]
  · rintro rfl
    rw [← UInt32.xor_assoc, UInt32.xor_self, UInt32.zero_xor]

end CS536Labs.Lab4
