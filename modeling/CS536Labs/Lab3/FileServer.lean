import CS536Labs.Foundations.Ipv4
import CS536Labs.Foundations.Transition
import CS536Labs.Lab3.RequestCodec

/-!
# `lab3/v1/myftps.c` and the loops of the lab 4 servers

`run` of the file servers: receive a request into a local buffer, decode it, check the key and the
file name, and fork a child that transfers the file. `FileServer` holds what the servers do
differently, and `serve` is one iteration of the loop.

The request buffer is not initialized. The state keeps its memory from one iteration to the next,
where other calls may overwrite it in between.

* `OnlyReceived`: what the server did in each iteration is what it would have done for the same
  message over any other previous content of the buffer.
* `onlyReceived_of_received`: it holds in every run whose messages hold the integer and the end of
  the name.
-/

namespace CS536Labs

/-- What one iteration finds: the address of the client, the message that is received, if the call
does not fail, the files that exist, the result of `rand`, and whether `fork` succeeds. -/
structure Request where
  ip : UInt32
  message : Option (List UInt8)
  access : List UInt8 → Bool
  rand : ℕ
  fork : Bool

/-- A child that transfers a file, with the key for its encryption. -/
structure Transfer where
  ip : UInt32
  filename : List UInt8
  pubkey : Option UInt32
  deriving DecidableEq

/-- One of the file servers. -/
structure FileServer where
  keySize : ℕ
  requestSize : ℕ
  decode : List UInt8 → List UInt8 × ℕ
  /-- `sanitize_client_addr`. -/
  admits : UInt32 → Bool
  /-- The check of the decoded integer. -/
  authenticate : UInt32 → ℕ → Option (Option UInt32)
  /-- `toss_coin`. -/
  ignores : ℕ → Bool
  requestSize_eq : requestSize = keySize + maxFilenameLen
  decode_eq : decode = decodeKeyed keySize

namespace FileServer

/-- `read_request`: the buffer behind the call, and the decoded file name and integer. -/
def readRequest (server : FileServer) (buffer : List UInt8) (message : Option (List UInt8)) :
    List UInt8 × Option (List UInt8 × ℕ) :=
  match message with
  | none => (buffer, none)
  | some data => (recvInto buffer data, some (server.decode (recvInto buffer data)))

/-- The checks behind `read_request`, and `fork`. -/
def start (server : FileServer) (r : Request) (filename : List UInt8) (key : ℕ) :
    Option Transfer :=
  match server.authenticate r.ip key with
  | none => none
  | some pubkey =>
    if checkFilename filename ≠ 0 then none
    else if !r.access (cString filename) then none
    else if server.ignores r.rand then none
    else if !r.fork then none
    else some ⟨r.ip, cString filename, pubkey⟩

/-- One iteration of the loop in `run`. -/
def serve (server : FileServer) (buffer : List UInt8) (r : Request) :
    List UInt8 × Option Transfer :=
  if !server.admits r.ip then (buffer, none)
  else
    match server.readRequest buffer r.message with
    | (buffer, none) => (buffer, none)
    | (buffer, some (filename, key)) => (buffer, server.start r filename key)

/-- The memory of the request buffer, and the requests served so far with the transfers that they
started. -/
structure State where
  buffer : List UInt8
  served : List (Request × Option Transfer)

inductive Event
  | request (r : Request)
  /-- Other calls use the memory of the buffer. -/
  | overwrite (bytes : List UInt8)

def exec (server : FileServer) (s : State) : Event → Option State
  | .request r =>
    some { buffer := (server.serve s.buffer r).1
           served := s.served ++ [(r, (server.serve s.buffer r).2)] }
  | .overwrite bytes =>
    if bytes.length = server.requestSize then some { s with buffer := bytes } else none

/-- The server, started with anything in the memory of the buffer. -/
def system (server : FileServer) (buffer : List UInt8) : LTS State Event :=
  LTS.ofExec ⟨buffer, []⟩ server.exec

/-- Every transfer rests on the current message alone: any other previous content of the buffer
would have led to the same. -/
def OnlyReceived (server : FileServer) (s : State) : Prop :=
  ∀ p ∈ s.served, ∀ buffer : List UInt8, buffer.length = server.requestSize →
    (server.serve buffer p.1).2 = p.2

/-- The messages received hold the integer and the end of the name. -/
def Received (server : FileServer) (_ : State) (e : Event) : Prop :=
  ∀ r data, e = .request r → r.message = some data → KeyAndNameReceived server.keySize data

variable {server : FileServer}

theorem length_serve (server : FileServer) (buffer : List UInt8) (r : Request) :
    (server.serve buffer r).1.length = buffer.length := by
  rw [serve]
  split
  · rfl
  · cases hm : r.message with
    | none => rfl
    | some data => exact length_recvInto buffer data

/-- When the previous content of the buffer does not matter to `read_request`. -/
theorem readRequest_eq_iff (server : FileServer) (data : List UInt8) :
    (∀ buffer buffer' : List UInt8, buffer.length = server.requestSize →
      buffer'.length = server.requestSize →
        (server.readRequest buffer (some data)).2 = (server.readRequest buffer' (some data)).2) ↔
      KeyAndNameReceived server.keySize data := by
  rw [← decodeKeyed_recvInto_eq_iff]
  simp only [readRequest, server.decode_eq, server.requestSize_eq, Option.some.injEq]

/-- The decoded request is all that an iteration takes from the buffer. -/
theorem serve_eq_of_decode {buffer buffer' : List UInt8} {r : Request}
    (h : ∀ data, r.message = some data →
      server.decode (recvInto buffer data) = server.decode (recvInto buffer' data)) :
    (server.serve buffer r).2 = (server.serve buffer' r).2 := by
  rw [serve, serve]
  split
  · rfl
  · cases hm : r.message with
    | none => rfl
    | some data => simp only [readRequest, h data hm]

theorem serve_eq_of_received {buffer buffer' : List UInt8} {r : Request}
    (hbuffer : buffer.length = server.requestSize)
    (hbuffer' : buffer'.length = server.requestSize)
    (h : ∀ data, r.message = some data → KeyAndNameReceived server.keySize data) :
    (server.serve buffer r).2 = (server.serve buffer' r).2 := by
  rw [server.requestSize_eq] at hbuffer hbuffer'
  apply serve_eq_of_decode
  intro data hdata
  rw [server.decode_eq]
  exact decodeKeyed_recvInto_eq_iff.mpr (h data hdata) _ _ hbuffer hbuffer'

/-- The invariant of a run: the buffer keeps its size, and `OnlyReceived`. -/
theorem inv_of_reachable {buffer : List UInt8} (hbuffer : buffer.length = server.requestSize)
    {s : State} (h : ((server.system buffer).restrict server.Received).Reachable s) :
    s.buffer.length = server.requestSize ∧ server.OnlyReceived s := by
  refine h.invariant (I := fun s => s.buffer.length = server.requestSize ∧
    server.OnlyReceived s) ?_ ?_
  · rintro s rfl
    exact ⟨hbuffer, fun p hp => absurd hp List.not_mem_nil⟩
  · rintro s e t - ⟨hlen, honly⟩ ⟨hstep, hreceived⟩
    cases e with
    | request r =>
      obtain rfl := Option.some.inj hstep
      refine ⟨(length_serve server _ r).trans hlen, ?_⟩
      intro p hp buffer' hbuffer'
      rcases List.mem_append.mp hp with hp | hp
      · exact honly p hp buffer' hbuffer'
      · obtain rfl := List.mem_singleton.mp hp
        exact serve_eq_of_received hbuffer' hlen fun data => hreceived r data rfl
    | overwrite bytes =>
      have hstep : (if bytes.length = server.requestSize then some { s with buffer := bytes }
          else none) = some t := hstep
      split_ifs at hstep with hbytes
      obtain rfl := Option.some.inj hstep
      exact ⟨hbytes, honly⟩

/-- **Runs whose messages are complete.** -/
theorem onlyReceived_of_received {buffer : List UInt8}
    (hbuffer : buffer.length = server.requestSize) {s : State}
    (h : ((server.system buffer).restrict server.Received).Reachable s) :
    server.OnlyReceived s :=
  (inv_of_reachable hbuffer h).2

end FileServer

/-! ## `myftps` -/

namespace Lab3

/-- `allowed_ips`: `128.10.25.` and `128.10.112.` -/
def allowedIps : List (List UInt8) :=
  [[0x31, 0x32, 0x38, 0x2e, 0x31, 0x30, 0x2e, 0x32, 0x35, 0x2e],
   [0x31, 0x32, 0x38, 0x2e, 0x31, 0x30, 0x2e, 0x31, 0x31, 0x32, 0x2e]]

/-- `sanitize_client_addr`, with the address in host byte order: the comparison of the printed
address with `strncmp`. -/
def sanitizeClientAddr (ip : UInt32) : Bool :=
  let ipstr := inetNtop (storeLE 4 ip.toNat).reverse
  allowedIps.any fun allowed => ipstr.take allowed.length == allowed

/-- The server of lab 3. A coin toss of 0 makes it ignore a request. -/
def myftps (secretKey : UInt16) : FileServer where
  keySize := 2
  requestSize := requestSize
  decode := decodeRequest
  admits := sanitizeClientAddr
  authenticate _ key := if secretKey.toNat ≠ key then none else some none
  ignores rand := rand % 2 == 0
  requestSize_eq := rfl
  decode_eq := rfl

end Lab3

end CS536Labs
