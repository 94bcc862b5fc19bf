import Mathlib.Algebra.Group.Nat.Defs
import Mathlib.Data.List.Basic
import Mathlib.Data.List.Induction

/-!
# Integers in byte buffers, and receiving into a buffer

`loadLE` and `storeLE` are the accesses of a little-endian host to an integer of `width` bytes, a
cast such as `*((uint16_t *)message)`. `recvInto` is what a buffer holds behind a call that received
`data` into it: the bytes behind the received ones keep their values. `storeAt` and `bytesAt` are
the accesses to the bytes at an offset.
-/

namespace CS536Labs

/-- The integer stored in the bytes, the least significant byte first. -/
def loadLE : List UInt8 → ℕ
  | [] => 0
  | b :: bs => b.toNat + 256 * loadLE bs

/-- The `width` bytes of an integer, the least significant byte first. -/
def storeLE : ℕ → ℕ → List UInt8
  | 0, _ => []
  | width + 1, n => UInt8.ofNat n :: storeLE width (n / 256)

@[simp] theorem length_storeLE (width n : ℕ) : (storeLE width n).length = width := by
  induction width generalizing n with
  | zero => rfl
  | succ width ih => simp [storeLE, ih]

/-- The low bytes are what is stored. -/
theorem loadLE_storeLE_eq_mod (width n : ℕ) : loadLE (storeLE width n) = n % 256 ^ width := by
  induction width generalizing n with
  | zero =>
    rw [Nat.pow_zero, Nat.mod_one]
    rfl
  | succ width ih =>
    have hpow : 256 ^ (width + 1) = 256 * 256 ^ width := Nat.pow_succ'
    rw [storeLE, loadLE, ih, UInt8.toNat_ofNat', hpow, Nat.mod_mul]

/-- What is stored is loaded, when it fits. -/
theorem loadLE_storeLE {width n : ℕ} (h : n < 256 ^ width) : loadLE (storeLE width n) = n := by
  rw [loadLE_storeLE_eq_mod, Nat.mod_eq_of_lt h]

/-- What is loaded is stored back. -/
theorem storeLE_loadLE (bytes : List UInt8) : storeLE bytes.length (loadLE bytes) = bytes := by
  induction bytes with
  | nil => rfl
  | cons b bs ih =>
    have hb : UInt8.ofNat (b.toNat + 256 * loadLE bs) = b := by
      apply UInt8.toNat_inj.mp
      have := b.toNat_lt
      rw [UInt8.toNat_ofNat']
      omega
    have hdiv : (b.toNat + 256 * loadLE bs) / 256 = loadLE bs := by
      have := b.toNat_lt
      omega
    rw [loadLE, List.length_cons, storeLE, hb, hdiv, ih]

theorem loadLE_lt (bytes : List UInt8) : loadLE bytes < 256 ^ bytes.length := by
  induction bytes with
  | nil => exact Nat.one_pos
  | cons b bs ih =>
    have := b.toNat_lt
    rw [loadLE, List.length_cons, Nat.pow_succ]
    omega

/-- Integers of one width are equal only when all their bytes are. -/
theorem loadLE_inj {bytes bytes' : List UInt8} (hlen : bytes.length = bytes'.length)
    (h : loadLE bytes = loadLE bytes') : bytes = bytes' := by
  rw [← storeLE_loadLE bytes, ← storeLE_loadLE bytes', hlen, h]

/-- The buffer behind a call that received `data` into it. -/
def recvInto (buffer data : List UInt8) : List UInt8 :=
  data.take buffer.length ++ buffer.drop data.length

@[simp] theorem length_recvInto (buffer data : List UInt8) :
    (recvInto buffer data).length = buffer.length := by
  simp only [recvInto, List.length_append, List.length_take, List.length_drop]
  omega

/-- A message that fits replaces a prefix of the buffer. -/
theorem recvInto_of_le {buffer data : List UInt8} (h : data.length ≤ buffer.length) :
    recvInto buffer data = data ++ buffer.drop data.length := by
  rw [recvInto, List.take_of_length_le h]

theorem getElem?_recvInto {buffer : List UInt8} (data : List UInt8) {p : ℕ}
    (hp : p < buffer.length) :
    (recvInto buffer data)[p]? = if p < data.length then data[p]? else buffer[p]? := by
  rw [recvInto]
  split_ifs with hdata
  · rw [List.getElem?_append_left (by rw [List.length_take]; omega), List.getElem?_take_of_lt hp]
  · rw [List.getElem?_append_right (by rw [List.length_take]; omega), List.length_take,
      List.getElem?_drop]
    congr 1
    omega

@[simp] theorem length_foldl_recvInto (buffer : List UInt8) (datas : List (List UInt8)) :
    (datas.foldl recvInto buffer).length = buffer.length := by
  induction datas generalizing buffer with
  | nil => rfl
  | cons data datas ih => rw [List.foldl_cons, ih, length_recvInto]

/-- **A buffer that several calls received into.** A byte is that of the last message which is long
enough to have it. -/
theorem getElem?_foldl_recvInto {buffer : List UInt8} (datas : List (List UInt8)) {p : ℕ}
    (hp : p < buffer.length) :
    (datas.foldl recvInto buffer)[p]? =
      ((datas.filter fun data => p < data.length).getLast?.getD buffer)[p]? := by
  induction datas using List.reverseRecOn with
  | nil => rfl
  | append_singleton datas data ih =>
    have hlt : p < (datas.foldl recvInto buffer).length := by rwa [length_foldl_recvInto]
    rw [List.foldl_append, List.foldl_cons, List.foldl_nil, List.filter_append,
      getElem?_recvInto data hlt]
    by_cases hdata : p < data.length
    · simp [hdata]
    · simp [hdata, ih]

/-- The buffer behind a store of `bytes` at an offset. -/
def storeAt (buffer : List UInt8) (offset : ℕ) (bytes : List UInt8) : List UInt8 :=
  buffer.take offset ++ bytes ++ buffer.drop (offset + bytes.length)

/-- The `width` bytes at an offset. -/
def bytesAt (buffer : List UInt8) (offset width : ℕ) : List UInt8 :=
  (buffer.drop offset).take width

/-- A store over the whole buffer. -/
theorem storeAt_zero {buffer bytes : List UInt8} (h : buffer.length = bytes.length) :
    storeAt buffer 0 bytes = bytes := by
  rw [storeAt, List.take_zero, List.nil_append, List.drop_eq_nil_of_le (by omega), List.append_nil]

/-- A store replaces the bytes that stand at the offset. -/
theorem storeAt_append (before old after bytes : List UInt8) (h : bytes.length = old.length) :
    storeAt (before ++ (old ++ after)) before.length bytes = before ++ (bytes ++ after) := by
  rw [storeAt, List.take_left, ← List.drop_drop, List.drop_left, h, List.drop_left,
    List.append_assoc]

/-- Two stores, one behind the other, fill the buffer. -/
theorem storeAt_storeAt {buffer first : List UInt8} (second : List UInt8)
    (h : buffer.length = first.length + second.length) :
    storeAt (storeAt buffer 0 first) first.length second = first ++ second := by
  have hfirst : storeAt buffer 0 first = first ++ (buffer.drop first.length ++ []) := by
    rw [storeAt, List.take_zero, List.nil_append, Nat.zero_add, List.append_nil]
  rw [hfirst, storeAt_append _ _ _ _ (by rw [List.length_drop]; omega), List.append_nil]

theorem bytesAt_append (before bytes after : List UInt8) :
    bytesAt (before ++ (bytes ++ after)) before.length bytes.length = bytes := by
  rw [bytesAt, List.drop_left, List.take_left]

end CS536Labs
