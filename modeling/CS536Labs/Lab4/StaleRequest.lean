import CS536Labs.Lab3.FileServer
import CS536Labs.Lab4.AccessControl

/-!
# Requests and the bytes of earlier requests

The file servers of lab 4, `lab4/v1/rrunners.c` to `lab4/v3/rrunners.c`, as instances of
`FileServer`, and the result for all the servers: a request is authenticated by the bytes of its
own message exactly when the message holds the integer and the end of the name. The length that
`recvfrom` returns is not looked at, so that the rest of a shorter message is whatever the buffer
held, such as the key of the client before.
-/

namespace CS536Labs.Lab4

/-- The server of `lab4/v1`. -/
def rrunnersV1 (secretKey : UInt16) : FileServer where
  keySize := 2
  requestSize := requestSizeWithSecretKey
  decode := decodeRequestWithSecretKey
  admits _ := true
  authenticate _ key := if secretKey.toNat ≠ key then none else some none
  ignores _ := false
  requestSize_eq := rfl
  decode_eq := rfl

/-- The server of `lab4/v2`. -/
def rrunnersV2 (publicKeys : List PublicKey) : FileServer where
  keySize := 4
  requestSize := requestSizeWithCertificate
  decode := decodeRequestWithCertificate
  admits _ := true
  authenticate ip certificate :=
    (checkAccess ip (UInt32.ofNat certificate) publicKeys).map fun _ => none
  ignores _ := false
  requestSize_eq := rfl
  decode_eq := rfl

/-- The server of `lab4/v3`, which encrypts the transfer with the key found. -/
def rrunnersV3 (publicKeys : List PublicKey) : FileServer where
  keySize := 4
  requestSize := requestSizeWithCertificate
  decode := decodeRequestWithCertificate
  admits _ := true
  authenticate ip certificate := (checkAccess ip (UInt32.ofNat certificate) publicKeys).map some
  ignores _ := false
  requestSize_eq := rfl
  decode_eq := rfl

/-- The file servers of the two labs. -/
def fileServers (secretKey : UInt16) (publicKeys : List PublicKey) : List FileServer :=
  [Lab3.myftps secretKey, rrunnersV1 secretKey, rrunnersV2 publicKeys, rrunnersV3 publicKeys]

/-- **Authentication by the current message.** What a server decodes from a message is independent
of the previous content of the buffer exactly when the message holds the integer and the end of the
name, and in a run of such messages every transfer rests on the message it answers. -/
theorem fileServers_authenticate (secretKey : UInt16) (publicKeys : List PublicKey) :
    ∀ server ∈ fileServers secretKey publicKeys,
      (∀ data, (∀ buffer buffer' : List UInt8, buffer.length = server.requestSize →
          buffer'.length = server.requestSize →
            (server.readRequest buffer (some data)).2 =
              (server.readRequest buffer' (some data)).2) ↔
        server.keySize ≤ data.length ∧
          (server.requestSize ≤ data.length ∨ 0 ∈ data.drop server.keySize)) ∧
      ∀ buffer : List UInt8, buffer.length = server.requestSize →
        ∀ s, ((server.system buffer).restrict server.Received).Reachable s →
          server.OnlyReceived s := by
  intro server _
  refine ⟨fun data => ?_, fun buffer hbuffer s hs => server.onlyReceived_of_received hbuffer hs⟩
  rw [server.readRequest_eq_iff, server.requestSize_eq, KeyAndNameReceived]

/-- A request with the key 7 and the file name `a`. -/
def requestOfA : Request :=
  ⟨0x0a000001, some [7, 0, 0x61, 0, 0, 0, 0, 0, 0, 0], fun filename => filename == [0x61], 1, true⟩

/-- The first transfer, over a buffer of any content. -/
theorem rrunnersV1_authenticates :
    ∃ s, (((rrunnersV1 7).system (List.replicate 10 0)).restrict
        (rrunnersV1 7).Received).Reachable s ∧
      s.served.map Prod.snd = [some ⟨0x0a000001, [0x61], none⟩] ∧
      (rrunnersV1 7).OnlyReceived s := by
  have hreceived : (rrunnersV1 7).Received ⟨List.replicate 10 0, []⟩ (.request requestOfA) := by
    intro r data hr hdata
    cases hr
    cases hdata
    exact ⟨by decide, .inl (by decide)⟩
  have hreach : (((rrunnersV1 7).system (List.replicate 10 0)).restrict
      (rrunnersV1 7).Received).Reachable _ :=
    (LTS.Reachable.init rfl).step (a := .request requestOfA) ⟨rfl, hreceived⟩
  exact ⟨_, hreach, rfl, (fileServers_authenticate 7 [] (rrunnersV1 7)
    (List.mem_cons_of_mem _ List.mem_cons_self)).2 _ rfl _ hreach⟩

/-- An empty datagram. -/
def requestOfB : Request := ⟨0x0a000002, some [], fun filename => filename == [0x61], 1, true⟩

/-- Behind a request of the client at `10.0.0.1`, an empty datagram is enough for a transfer to
`10.0.0.2`. -/
theorem rrunnersV1_stale_key :
    ∃ s, ((rrunnersV1 7).system (List.replicate 10 0)).Reachable s ∧
      s.served.map Prod.snd =
        [some ⟨0x0a000001, [0x61], none⟩, some ⟨0x0a000002, [0x61], none⟩] ∧
      ((rrunnersV1 7).serve (List.replicate 10 0) requestOfB).2 = none ∧
      ¬ (rrunnersV1 7).OnlyReceived s := by
  have hrun : LTS.run (rrunnersV1 7).exec (fun _ _ => True) ⟨List.replicate 10 0, []⟩
      [.request requestOfA, .request requestOfB] = some _ := rfl
  refine ⟨_, (LTS.reachable_of_run (LTS.Reachable.init rfl) hrun).of_restrict, rfl, rfl, ?_⟩
  intro h
  exact absurd (h _ (List.mem_cons_of_mem _ List.mem_cons_self) (List.replicate 10 0) rfl)
    (by decide)

end CS536Labs.Lab4
