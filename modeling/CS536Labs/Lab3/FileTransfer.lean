import Mathlib.Algebra.Group.Nat.Defs
import Mathlib.Data.Int.Notation
import Mathlib.Data.List.Basic
import Mathlib.Data.List.TakeDrop
import Mathlib.Logic.Basic

/-!
# A file over a TCP connection: `send_file` of `myftps.c`, `fetch_and_save_file` of `myftpc.c`

The server writes the file to the connection block by block, and the client appends to its file
what each read returns. The stream in between delivers the bytes that were written, and then its
end. Each call has an outcome of its own: a write can fail or take a part of the block, a read can
fail or return any part of what is there, an append can fail or write a part of the data.

* `sendLoop_eq_iff`: the server has written the whole file exactly when every write was complete.
* `fetchLoop_spec`: what a client without a read error has counted and appended.
* `arrived_iff`: the transfers in which two programs that report success have moved the file.
-/

namespace CS536Labs.Lab3

/-! ## The server -/

/-- The outcomes of the calls of `send_file`. The `i`-th `write` fails, or takes at most the given
number of bytes. `ferror` is called on a file that is closed. -/
structure SendEnv where
  fopen : Bool
  write : ℕ → Option ℕ
  ferror : Bool

/-- The loop of `send_file` at its `i`-th block, with the part of the file that is not yet read:
the bytes that go into the connection. -/
def sendLoop (blocksizeByte : ℕ) (write : ℕ → Option ℕ) (i : ℕ) (rest : List UInt8) :
    List UInt8 :=
  let buffer := rest.take blocksizeByte
  if _ : 0 < buffer.length then
    match write i with
    | none => []
    | some n => buffer.take n ++ sendLoop blocksizeByte write (i + 1) (rest.drop blocksizeByte)
  else []
termination_by rest.length
decreasing_by
  rename_i h
  rw [List.length_take] at h
  rw [List.length_drop]
  omega

/-- `send_file`: the return value, and the bytes that go into the connection. The parameter
`blocksize_byte` has 16 bits. -/
def sendFile (env : SendEnv) (file : List UInt8) (blocksizeByte : UInt16) : ℤ × List UInt8 :=
  if !env.fopen then (-1, [])
  else (if env.ferror then -1 else 0, sendLoop blocksizeByte.toNat env.write 0 file)

/-! ## The client -/

/-- The outcomes of the calls of `append_file`: whether `fopen` succeeds, how many bytes reach the
file, and what `ferror` returns for a file that is closed. -/
structure Append where
  fopen : Bool
  written : ℕ
  ferror : Bool

/-- `append_file`, on a file that may not exist: the return value, and the file behind the call. -/
def appendFile (o : Append) (file : Option (List UInt8)) (data : List UInt8) :
    ℤ × Option (List UInt8) :=
  if !o.fopen then (-1, file)
  else (if o.ferror then -1 else 0, some (file.getD [] ++ data.take o.written))

/-- The outcomes of the calls of `fetch_and_save_file`, and the size of the largest array that the
stack can hold. The `i`-th `read` fails, or returns at most the given number of bytes and one. -/
structure FetchEnv where
  stack : ℕ
  read : ℕ → Option ℕ
  append : ℕ → Append

/-- The most bytes that the `i`-th read can return. -/
def FetchEnv.readSize (env : FetchEnv) (blocksizeByte i : ℕ) : ℕ :=
  min blocksizeByte ((env.read i).getD 0 + 1)

/-- The loop of `fetch_and_save_file` at its `i`-th read, with the part of the stream that is not
yet read: the return value, and the file. The file system keeps sizes below `2 ^ 63`, so that the
sum does not wrap. -/
def fetchLoop (env : FetchEnv) (blocksizeByte : ℕ) (i : ℕ) (stream : List UInt8)
    (file : Option (List UInt8)) (totalBytesRead : ℕ) : ℤ × Option (List UInt8) :=
  if env.read i = none then (-1, file)
  else
    let buffer := stream.take (env.readSize blocksizeByte i)
    if _ : 0 < buffer.length then
      fetchLoop env blocksizeByte (i + 1) (stream.drop (env.readSize blocksizeByte i))
        (appendFile (env.append i) file buffer).2 (totalBytesRead + buffer.length)
    else (totalBytesRead, file)
termination_by stream.length
decreasing_by
  rename_i h
  rw [List.length_take] at h
  rw [List.length_drop]
  omega

/-- `fetch_and_save_file`, on the stream of the connection: the return value and the file. The
result is `none` when the buffer does not fit in the stack. -/
def fetchAndSaveFile (env : FetchEnv) (blocksizeByte : UInt64) (stream : List UInt8)
    (file : Option (List UInt8)) : Option (ℤ × Option (List UInt8)) :=
  if file.isSome then some (-1, file)
  else if env.stack < blocksizeByte.toNat then none
  else some (fetchLoop env blocksizeByte.toNat 0 stream file 0)

/-- Pieces that start at `offset`, the first one of `first` elements: what holds of all of them, and
what is left of `length` in front of each, holds of the first and of the other ones. -/
theorem forall_pieces_iff {length first : ℕ} (offset rest : ℕ → ℕ) (P : ℕ → ℕ → Prop)
    (hzero : offset 0 = 0) (hsucc : ∀ j, offset (j + 1) = first + rest j) (hlength : 0 < length) :
    (∀ j, offset j < length → P j (length - offset j)) ↔
      P 0 length ∧ ∀ j, rest j < length - first → P (j + 1) (length - first - rest j) := by
  have hleft : ∀ j, length - offset (j + 1) = length - first - rest j := by
    intro j
    rw [hsucc, Nat.sub_sub]
  constructor
  · intro h
    refine ⟨by simpa [hzero] using h 0 (by rwa [hzero]), fun j hj => ?_⟩
    rw [← hleft]
    exact h (j + 1) (by rw [hsucc]; omega)
  · rintro ⟨hfirst, hrest⟩ j hj
    cases j with
    | zero => simpa [hzero] using hfirst
    | succ j =>
      rw [hleft]
      rw [hsucc] at hj
      exact hrest j (by omega)

/-! ## What the server has written -/

section Send

variable {blocksizeByte : ℕ} {write : ℕ → Option ℕ}

/-- Nothing that is not in the file goes into the connection, and nothing twice. -/
theorem sendLoop_sublist (blocksizeByte : ℕ) (write : ℕ → Option ℕ) (i : ℕ)
    (rest : List UInt8) : (sendLoop blocksizeByte write i rest).Sublist rest := by
  fun_induction sendLoop blocksizeByte write i rest with
  | case1 | case3 => exact List.nil_sublist _
  | case2 i rest buffer _ n _ ih =>
    have h := (List.take_sublist n buffer).append ih
    rwa [List.take_append_drop] at h

/-- From the `i`-th block on, with `length` bytes to go, every write takes its whole block. -/
def WritesWhole (blocksizeByte : ℕ) (write : ℕ → Option ℕ) (i length : ℕ) : Prop :=
  ∀ j, j * blocksizeByte < length →
    ∃ n, write (i + j) = some n ∧ min blocksizeByte (length - j * blocksizeByte) ≤ n

theorem writesWhole_iff {i length : ℕ} (hlength : 0 < length) :
    WritesWhole blocksizeByte write i length ↔
      (∃ n, write i = some n ∧ min blocksizeByte length ≤ n) ∧
        WritesWhole blocksizeByte write (i + 1) (length - blocksizeByte) := by
  have hsucc : ∀ j, (j + 1) * blocksizeByte = blocksizeByte + j * blocksizeByte := by
    intro j
    rw [Nat.succ_mul, Nat.add_comm]
  have hpieces := forall_pieces_iff (· * blocksizeByte) (· * blocksizeByte)
    (fun j left => ∃ n, write (i + j) = some n ∧ min blocksizeByte left ≤ n)
    (Nat.zero_mul blocksizeByte) hsucc hlength
  simpa only [WritesWhole, Nat.add_assoc, Nat.add_comm 1, Nat.add_zero] using hpieces

/-- **The whole file is written** exactly when every write is complete. -/
theorem sendLoop_eq_iff (hb : 0 < blocksizeByte) (i : ℕ) (rest : List UInt8) :
    sendLoop blocksizeByte write i rest = rest ↔
      WritesWhole blocksizeByte write i rest.length := by
  fun_induction sendLoop blocksizeByte write i rest with
  | case1 i rest buffer hpos hwrite =>
    have hlength : 0 < rest.length := by
      rw [List.length_take] at hpos
      omega
    rw [writesWhole_iff hlength, hwrite]
    refine iff_of_false ?_ ?_
    · rintro rfl
      exact absurd hlength (Nat.lt_irrefl _)
    · rintro ⟨⟨n, hn, -⟩, -⟩
      cases hn
  | case2 i rest buffer hpos n hwrite ih =>
    have hlength : 0 < rest.length := by
      rw [List.length_take] at hpos
      omega
    have hbuffer : buffer.length = min blocksizeByte rest.length := List.length_take
    have hsub := sendLoop_sublist blocksizeByte write (i + 1) (rest.drop blocksizeByte)
    rw [writesWhole_iff hlength, ← List.length_drop, ← ih, ← hbuffer]
    constructor
    · intro heq
      -- neither part is longer than what it stands for
      have hlen := congrArg List.length heq
      have hle := hsub.length_le
      rw [List.length_append, List.length_take] at hlen
      rw [List.length_drop] at hle
      refine ⟨⟨n, hwrite, by omega⟩, hsub.eq_of_length ?_⟩
      rw [List.length_drop]
      omega
    · rintro ⟨⟨n', hn', hle⟩, hrest⟩
      obtain rfl : n = n' := Option.some.inj (hwrite.symm.trans hn')
      rw [hrest, List.take_of_length_le hle, List.take_append_drop]
  | case3 i rest buffer hpos =>
    have hnil : rest = [] := by
      rw [List.length_take] at hpos
      rw [← List.length_eq_zero_iff]
      omega
    subst hnil
    refine iff_of_true rfl ?_
    intro j hj
    exact absurd hj (Nat.not_lt_zero _)

end Send

/-! ## What the client has appended -/

section Fetch

variable {env : FetchEnv} {blocksizeByte : ℕ}

/-- Where the `j`-th read from the `i`-th one on starts. -/
def FetchEnv.offset (env : FetchEnv) (blocksizeByte : ℕ) : ℕ → ℕ → ℕ
  | _, 0 => 0
  | i, j + 1 => env.readSize blocksizeByte i + env.offset blocksizeByte (i + 1) j

/-- From the `i`-th read on, with `length` bytes to go, everything that is read is appended. -/
def AppendsWhole (env : FetchEnv) (blocksizeByte i length : ℕ) : Prop :=
  ∀ j, env.offset blocksizeByte i j < length → (env.append (i + j)).fopen = true ∧
    min (env.readSize blocksizeByte (i + j)) (length - env.offset blocksizeByte i j) ≤
      (env.append (i + j)).written

theorem appendsWhole_iff {i length : ℕ} (hlength : 0 < length) :
    AppendsWhole env blocksizeByte i length ↔
      ((env.append i).fopen = true ∧
        min (env.readSize blocksizeByte i) length ≤ (env.append i).written) ∧
      AppendsWhole env blocksizeByte (i + 1) (length - env.readSize blocksizeByte i) := by
  have hpieces := forall_pieces_iff (env.offset blocksizeByte i)
    (env.offset blocksizeByte (i + 1))
    (fun j left => (env.append (i + j)).fopen = true ∧
      min (env.readSize blocksizeByte (i + j)) left ≤ (env.append (i + j)).written)
    rfl (fun _ => rfl) hlength
  simpa only [AppendsWhole, Nat.add_assoc, Nat.add_comm 1, Nat.add_zero] using hpieces

/-- What `append_file` adds to the file. -/
theorem appendFile_spec (o : Append) (file : Option (List UInt8)) {data : List UInt8}
    (hdata : 0 < data.length) :
    ∃ g, g.Sublist data ∧ (appendFile o file data).2.getD [] = file.getD [] ++ g ∧
      (g = data ↔ o.fopen = true ∧ data.length ≤ o.written) := by
  rw [appendFile]
  by_cases hopen : o.fopen = true
  · refine ⟨data.take o.written, List.take_sublist _ _, by simp [hopen], ?_⟩
    rw [and_iff_right hopen]
    exact List.take_eq_self_iff data
  · refine ⟨[], List.nil_sublist _, by simp [hopen], ?_⟩
    refine iff_of_false ?_ fun h => hopen h.1
    rintro rfl
    exact Nat.lt_irrefl 0 hdata

/-- Nothing is appended when the first read returns nothing. -/
theorem fetchLoop_of_nothing (env : FetchEnv) {stream : List UInt8}
    (h : blocksizeByte = 0 ∨ stream = []) (i : ℕ) (file : Option (List UInt8)) (total : ℕ) :
    (fetchLoop env blocksizeByte i stream file total).2 = file := by
  have hbuffer : ¬ 0 < (stream.take (env.readSize blocksizeByte i)).length := by
    rw [List.length_take, FetchEnv.readSize]
    rcases h with rfl | rfl
    · rw [Nat.zero_min, Nat.zero_min]
      exact Nat.lt_irrefl 0
    · simp
  rw [fetchLoop]
  split
  · rfl
  · rw [dif_neg hbuffer]

/-- **What a client without a read error has counted and appended.** -/
theorem fetchLoop_spec (env : FetchEnv) (hb : 0 < blocksizeByte) (i : ℕ) (stream : List UInt8)
    (file : Option (List UInt8)) (total : ℕ)
    (hret : 0 ≤ (fetchLoop env blocksizeByte i stream file total).1) :
    (fetchLoop env blocksizeByte i stream file total).1 = total + stream.length ∧
      ∃ g, g.Sublist stream ∧
        (fetchLoop env blocksizeByte i stream file total).2.getD [] = file.getD [] ++ g ∧
        (g = stream ↔ AppendsWhole env blocksizeByte i stream.length) := by
  fun_induction fetchLoop env blocksizeByte i stream file total with
  | case1 => cases hret
  | case2 i stream file total _ buffer hpos ih =>
    obtain ⟨htotal, g, hsub, hfile, hiff⟩ := ih hret
    obtain ⟨g', hsub', hfile', hiff'⟩ := appendFile_spec (env.append i) file hpos
    have hbuffer : buffer.length = min (env.readSize blocksizeByte i) stream.length :=
      List.length_take
    have hsplit : buffer ++ stream.drop (env.readSize blocksizeByte i) = stream :=
      List.take_append_drop _ _
    have hlen := congrArg List.length hsplit
    rw [List.length_append] at hlen
    refine ⟨by omega, g' ++ g, hsplit ▸ hsub'.append hsub, ?_, ?_⟩
    · rw [hfile, hfile', List.append_assoc]
    · rw [appendsWhole_iff (by omega), ← List.length_drop, ← hiff, ← hbuffer, ← hiff']
      constructor
      · intro heq
        have hlen' := congrArg List.length heq
        rw [List.length_append] at hlen'
        have hle := hsub.length_le
        have hle' := hsub'.length_le
        exact ⟨hsub'.eq_of_length (by omega), hsub.eq_of_length (by omega)⟩
      · rintro ⟨heq', heq⟩
        rw [heq', heq, hsplit]
  | case3 i stream file total _ buffer hpos =>
    obtain rfl : stream = [] := by
      rw [List.length_take, FetchEnv.readSize] at hpos
      rw [← List.length_eq_zero_iff]
      omega
    refine ⟨by simp, [], List.nil_sublist _, by simp, iff_of_true rfl ?_⟩
    intro j hj
    exact absurd hj (Nat.not_lt_zero _)

end Fetch

/-! ## Transfers -/

/-- A file, the `blocksize_byte` arguments of the two programs, and the outcomes of their calls. -/
structure FileTransfer where
  file : List UInt8
  serverBlocksize : UInt64
  clientBlocksize : UInt64
  send : SendEnv
  fetch : FetchEnv

namespace FileTransfer

variable (t : FileTransfer)

/-- The call of `send_file` in `run` converts the argument to 16 bits. -/
def sent : ℤ × List UInt8 := sendFile t.send t.file t.serverBlocksize.toUInt16

/-- The client fetches the stream into a file that does not exist yet. -/
def fetched : Option (ℤ × Option (List UInt8)) :=
  fetchAndSaveFile t.fetch t.clientBlocksize t.sent.2 none

/-- Both programs report success. -/
def BothSucceed : Prop := t.sent.1 = 0 ∧ ∃ n file, t.fetched = some (n, file) ∧ 0 ≤ n

/-- The client has the file of the server, and has returned its size. -/
def Arrived : Prop := t.fetched = some ((t.file.length : ℤ), some t.file)

/-- The file is not empty, the sizes of the buffers are not 0, every write takes its whole block,
and everything that is read is appended. -/
structure Whole : Prop where
  file : t.file ≠ []
  serverBlocksize : t.serverBlocksize.toNat % 2 ^ 16 ≠ 0
  clientBlocksize : t.clientBlocksize.toNat ≠ 0
  writes : WritesWhole (t.serverBlocksize.toNat % 2 ^ 16) t.send.write 0 t.file.length
  appends : AppendsWhole t.fetch t.clientBlocksize.toNat 0 t.file.length

variable {t}

theorem sent_of_success (h : t.sent.1 = 0) :
    t.sent.2 = sendLoop (t.serverBlocksize.toNat % 2 ^ 16) t.send.write 0 t.file := by
  rw [sent, sendFile] at h ⊢
  split at h
  · cases h
  · rename_i hopen
    rw [if_neg hopen, UInt64.toNat_toUInt16]

theorem fetched_of_success {n : ℤ} {file : Option (List UInt8)}
    (h : t.fetched = some (n, file)) :
    fetchLoop t.fetch t.clientBlocksize.toNat 0 t.sent.2 none 0 = (n, file) := by
  rw [fetched, fetchAndSaveFile] at h
  split at h
  · rename_i hsome
    cases hsome
  · split at h
    · cases h
    · exact Option.some.inj h

/-- **The transfers that move the file.** When both programs report success, the client has the
file of the server exactly when the transfer is whole. -/
theorem arrived_iff (t : FileTransfer) (h : t.BothSucceed) : t.Arrived ↔ t.Whole := by
  obtain ⟨hsend, n, file, hfetch, hret⟩ := h
  have hloop := fetched_of_success hfetch
  have hstream := sent_of_success hsend
  have hnothing : t.clientBlocksize.toNat = 0 ∨ t.sent.2 = [] → file = none := by
    intro h
    have hfile := fetchLoop_of_nothing t.fetch h 0 none 0
    rwa [hloop] at hfile
  rw [Arrived, hfetch]
  constructor
  · intro harrived
    obtain ⟨rfl, rfl⟩ := Prod.mk.inj (Option.some.inj harrived)
    obtain ⟨hclient, hne⟩ := not_or.mp fun h => Option.some_ne_none _ (hnothing h)
    obtain ⟨htotal, g, -, hfile, hiff⟩ := fetchLoop_spec t.fetch
      (Nat.pos_of_ne_zero hclient) 0 t.sent.2 none 0 (by rw [hloop]; exact hret)
    rw [hloop] at htotal hfile
    have hsub := sendLoop_sublist (t.serverBlocksize.toNat % 2 ^ 16) t.send.write 0 t.file
    have hsent : t.sent.2 = t.file := (hstream ▸ hsub).eq_of_length (by omega)
    obtain rfl : t.file = g := hfile
    have hserver : t.serverBlocksize.toNat % 2 ^ 16 ≠ 0 := by
      intro hzero
      rw [hstream, hzero, sendLoop] at hne
      exact hne (dif_neg (by simp))
    exact
      { file := hsent ▸ hne
        serverBlocksize := hserver
        clientBlocksize := hclient
        writes := (sendLoop_eq_iff (Nat.pos_of_ne_zero hserver) 0 t.file).mp (hstream ▸ hsent)
        appends := hsent ▸ hiff.mp hsent.symm }
  · intro hwhole
    have hsent : t.sent.2 = t.file := by
      rw [hstream, sendLoop_eq_iff (Nat.pos_of_ne_zero hwhole.serverBlocksize)]
      exact hwhole.writes
    obtain ⟨htotal, g, -, hfile, hiff⟩ := fetchLoop_spec t.fetch
      (Nat.pos_of_ne_zero hwhole.clientBlocksize) 0 t.sent.2 none 0 (by rw [hloop]; exact hret)
    rw [hloop, hsent] at htotal
    rw [hloop, hiff.mpr (hsent ▸ hwhole.appends), hsent] at hfile
    have hsome : file = some t.file := by
      cases file with
      | none => exact absurd hfile.symm hwhole.file
      | some content => exact congrArg some hfile
    have hn : n = t.file.length := by simpa using htotal
    rw [hsome, hn]

/-- A transfer in which no call fails, of a file of one byte. -/
def oneByte (serverBlocksize : UInt64) : FileTransfer where
  file := [0x61]
  serverBlocksize := serverBlocksize
  clientBlocksize := 1024
  send := ⟨true, fun _ => some 1, false⟩
  fetch := ⟨2 ^ 20, fun _ => some 1023, fun _ => ⟨true, 1024, false⟩⟩

/-- A transfer that moves the file. -/
theorem arrived_oneByte : (oneByte 1024).BothSucceed ∧ (oneByte 1024).Arrived := by
  have hsent : (oneByte 1024).sent = (0, [0x61]) := by
    simp [oneByte, sent, sendFile, sendLoop]
  have hfetched : (oneByte 1024).fetched = some (1, some [0x61]) := by
    rw [fetched, hsent]
    simp [oneByte, fetchAndSaveFile, fetchLoop, FetchEnv.readSize, appendFile]
  have hsuccess : (oneByte 1024).BothSucceed := by
    refine ⟨congrArg Prod.fst hsent, 1, some [0x61], hfetched, by decide⟩
  refine ⟨hsuccess, (arrived_iff (oneByte 1024) hsuccess).mpr ?_⟩
  exact
    { file := List.cons_ne_nil _ _
      serverBlocksize := by decide
      clientBlocksize := by decide
      writes := fun j _ => ⟨1, rfl, Nat.le_trans (Nat.min_le_right _ _) (Nat.sub_le _ _)⟩
      appends := fun j _ => ⟨rfl, Nat.le_trans (Nat.min_le_right _ _)
        (Nat.le_trans (Nat.sub_le _ _) (show 1 ≤ 1024 by decide))⟩ }

/-- With a block size of 65536 nothing is sent, and both programs report success. -/
theorem not_arrived_oneByte : (oneByte 65536).BothSucceed ∧ ¬ (oneByte 65536).Arrived := by
  have hsent : (oneByte 65536).sent = (0, []) := by
    simp [oneByte, sent, sendFile, sendLoop]
  have hfetched : (oneByte 65536).fetched = some (0, none) := by
    rw [fetched, hsent]
    simp [oneByte, fetchAndSaveFile, fetchLoop]
  refine ⟨⟨congrArg Prod.fst hsent, 0, none, hfetched, by decide⟩, ?_⟩
  rw [Arrived, hfetched]
  intro h
  cases h

end FileTransfer

end CS536Labs.Lab3
