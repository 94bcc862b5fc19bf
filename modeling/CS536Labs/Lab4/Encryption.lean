import CS536Labs.Lab4.AccessControl
import CS536Labs.Lab4.PacketBlocks

/-!
# Encryption is undone exactly once

The key that the server finds for a certificate is the key the client made it with, and every
datagram the server sends carries its block XORed once with the low byte of that key: the first
transmission and every retransmission, from either buffer, whatever fails in between.
-/

namespace CS536Labs.Lab4

/-- **The key is the client's own.** -/
theorem checkAccess_certificate {entries : List PublicKey} {ip prikey key : UInt32}
    (h : checkAccess ip (bbdecode ip prikey) entries = some key) : key = prikey := by
  obtain ⟨hkey, -⟩ := (checkAccess_eq_some_iff entries).mp h
  rw [hkey, bbdecode, UInt32.xor_comm ip prikey, UInt32.xor_assoc, UInt32.xor_self,
    UInt32.xor_zero]

/-- The bytes of the block in a datagram, as the client cuts them out. -/
def Datagram.blockData (config : Config) (d : Datagram) : List UInt8 :=
  (decodePacket d.bytes (blocksizeOf config d.bytes.length)).2

theorem blockData_of_carries {config : Config} {key : UInt32} {file : List UInt8} {d : Datagram}
    (h : Carries config (some key) file d) :
    d.blockData config = (fileBlock config file d.window d.block).map (· ^^^ key.toUInt8) := by
  obtain ⟨num, hbytes⟩ := h.bytes_eq
  have hsize := blocksizeOf_payload config (some key) file d.window d.block
  rw [Datagram.blockData, hbytes, List.length_cons, hsize, decodePacket, List.tail_cons, payload,
    encodeWith, bbencodeData_eq]
  exact List.take_left' (List.length_map _)

/-- **Encryption is undone exactly once.** -/
theorem encryption_undone_once (entries : List PublicKey) (ip prikey key : UInt32)
    (h : checkAccess ip (bbdecode ip prikey) entries = some key) :
    key = prikey ∧ ∀ config file s, (serverSystem config (some key) file).Reachable s →
      ∀ d ∈ s.sent,
        d.window ≤ lastWindow config file ∧ d.block < blockCount config file d.window ∧
        d.blockData config =
          (fileBlock config file d.window d.block).map (· ^^^ key.toUInt8) ∧
        bbdecodeData (d.blockData config) prikey = fileBlock config file d.window d.block := by
  have hkey := checkAccess_certificate h
  refine ⟨hkey, fun config file s hs d hd => ?_⟩
  have hcarries := ((reachable_serverInv hs).sent d hd).carries
  have hdata := blockData_of_carries hcarries
  refine ⟨hcarries.window_le, hcarries.block_lt, hdata, ?_⟩
  rw [hdata, ← bbencodeData_eq, hkey, bbdecodeData_bbencodeData]

/-- A file of two windows, with the first window sent twice. -/
theorem encryption_undone_once_retransmitted :
    ∃ s, (serverSystem .one (some 5) [1, 2]).Reachable s ∧
      s.sent.map (fun d => (d.window, d.bytes)) = [(0, [0, 4]), (0, [0, 4]), (1, [1, 7, 255])] ∧
      ∀ d ∈ s.sent, bbdecodeData (d.blockData .one) 5 =
        fileBlock .one [1, 2] d.window d.block := by
  obtain ⟨s, hrun, hsent⟩ : ∃ s, LTS.run (Server.exec .one (some 5)) (fun _ _ => True)
      (Server.initial [1, 2])
      [.ok, .ok, .ok, .ok, .ok, .timeout, .ok, .ok, .ack 0, .ok, .ok, .ok] = some s ∧
      s.sent.map (fun d => (d.window, d.bytes)) = [(0, [0, 4]), (0, [0, 4]), (1, [1, 7, 255])] :=
    ⟨_, rfl, by decide⟩
  have hs := (LTS.reachable_of_run (LTS.Reachable.init rfl) hrun).of_restrict
  have hmain := encryption_undone_once [⟨[], 5⟩] 7 5 5 (by decide)
  exact ⟨s, hs, hsent, fun d hd => (hmain.2 _ _ s hs d hd).2.2.2⟩

end CS536Labs.Lab4
