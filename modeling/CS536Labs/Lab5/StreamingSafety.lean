import CS536Labs.Lab5.AudioStreaming

/-!
# What is streamed

The invariant of a client and its server has two halves. `ServerSide` says that all requests are
for one file, so that each child streams it, and that the intervals they are told are short.
`ClientSide` says that the datagrams of the children go into the queue one behind the other, with
`InvAt` for the queue between two memory accesses.

* `Streams`: what the client receives, and what it plays.
* `streams_of_reachable`: it holds in all runs.
-/

namespace CS536Labs.Lab5

open Streaming

/-! ## The main thread in `write_queue` -/

/-- A call in progress goes on, or returns. -/
def Writer.Progress (s t : Writer) : Prop :=
  (t.pc ≠ .idle ∧ t.data = s.data ∧ t.calls = s.calls) ∨
    (t.pc = .idle ∧ t.data = [] ∧ ∃ call : Call, call.data = s.data ∧ t.calls = s.calls ++ [call])

theorem Writer.progress_return (s : Writer) (passed : Bool) (written : ℕ) (ret : ℤ) :
    s.Progress (s.return passed written ret) := .inr ⟨rfl, rfl, _, rfl, rfl⟩

theorem Writer.progress_loop (s : Writer) (written : ℕ) : s.Progress (s.loop written) := by
  rw [Writer.loop]
  split_ifs
  · exact .inl ⟨by simp, rfl, rfl⟩
  · exact s.progress_return _ _ _

theorem Writer.progress_test (s : Writer) (load : ℕ) : s.Progress (s.test load) := by
  rw [Writer.test]
  split_ifs
  · exact s.progress_return _ _ _
  · exact s.progress_loop 0

theorem Writer.progress_access {s : Writer} (h : s.pc ≠ .idle) : s.Progress s.access := by
  obtain ⟨queue, pc, data, read, calls⟩ := s
  cases pc with
  | idle => exact (h rfl).elim
  | diffTail | wrapTail => exact Writer.progress_test _ _
  | fullTail written next =>
    simp only [Writer.access]
    split_ifs
    · exact Writer.progress_return _ _ _ _
    · exact .inl ⟨by simp, rfl, rfl⟩
  | storeNext written next => exact Writer.progress_loop ⟨_, _, data, read, calls⟩ _
  | geTail head =>
    simp only [Writer.access]
    split_ifs <;> exact .inl ⟨by simp, rfl, rfl⟩
  | geHead | diffHead | wrapHead | fullHead | storeHead | storeData | nextHead =>
    exact .inl ⟨by simp [Writer.access], rfl, rfl⟩

theorem Writer.exec_access {s t : Writer} (h : s.exec .access = some t) :
    s.pc ≠ .idle ∧ t = s.access := by
  rw [Writer.exec] at h
  split at h
  · cases h
  · rename_i hpc
    exact ⟨hpc, (Option.some.inj h).symm⟩

/-- `write_queue` is called. -/
theorem InvAt.call {L : ℕ} {s : Writer} {buf data : List UInt8} (h : InvAt L s buf)
    (hpc : s.pc = .idle) (hdata : data.length ≤ 65535) :
    InvAt L { s with pc := .geHead, data := data } buf where
  represents := h.represents
  conserves := by
    have hcons := h.conserves
    rw [Writer.stream, hpc] at hcons
    simpa [Writer.stream, Pc.written] using hcons
  data_le := hdata
  atPc := trivial
  calls := h.calls

/-! ## The invariant -/

/-- The data that the calls of `write_queue` got, the one in progress last. -/
def Writer.written (s : Writer) : List (List UInt8) :=
  (s.calls.map Call.data ++ [s.data]).filter (· ≠ [])

/-- The datagrams that went into the queue. -/
def Streaming.blocks (s : Streaming) : List (List UInt8) :=
  (s.received.map Arrival.data).filter (· ≠ [])

/-- The streaming has ended with an empty datagram. -/
def Streaming.Phase.ended : Phase → Prop
  | .drain => True
  | .returned status => status = 0
  | _ => False

/-- No call of `write_queue` is in progress. -/
def Streaming.Phase.outside : Phase → Prop
  | .write _ | .exited => False
  | _ => True

variable {config : StreamConfig} {files : List UInt8 → Option (List UInt8)} {interval : UInt16}
  {s t : Streaming}

/-- What the server has to do with the client's requests. -/
structure ServerSide (config : StreamConfig) (files : List UInt8 → Option (List UInt8))
    (interval : UInt16) (s : Streaming) : Prop where
  requests : ∀ data ∈ s.requests, ∃ memory : RequestArray,
    data = encodeRequest config.filename config.blocksize memory.val
  children : ∀ c ∈ s.children, c.1 = config.blocksize ∧
    ∃ file, files config.filename.bytes = some file ∧
      SendInv file config.blocksize interval c.2
  feedbacks : ∀ f ∈ s.feedbacks, f.2 ≤ maxPspacingMs
  intervals : ∀ c ∈ s.children, ∀ x ∈ c.2.feedbacks, x ≤ maxPspacingMs

/-- What the client has received and written into its queue. -/
structure ClientSide (config : StreamConfig) (s : Streaming) : Prop where
  received : ∀ a ∈ s.received, ∃ c, s.children[a.child]? = some c ∧
    c.2.sent[a.index]? = some a.data
  writer : ∃ buf, InvAt config.length s.writer buf
  idle : s.writer.pc = .idle → s.writer.data = []
  outside : s.phase.outside → s.writer.pc = .idle
  written : s.writer.written = s.blocks
  ended : s.phase.ended → ∃ a ∈ s.received, a.data = []
  finished : s.phase = .returned 0 → getQueueLoad s.writer.queue = 0

/-! ## The server -/

theorem serverSide_start (buffer : ℕ → UInt8) :
    ServerSide config files interval (Streaming.start config buffer) :=
  ⟨nofun, nofun, nofun, nofun⟩

/-- What the server reads from a request of the client. -/
theorem readRequest_request (config : StreamConfig) (memory request : RequestArray)
    (filename : FilenameArray) :
    requestCodec.readRequest request.val filename.val
        (encodeRequest config.filename config.blocksize memory.val) =
      (strncpy config.filename.bytes maxFilenameLen ++ [0], config.blocksize) ∧
    cString (strncpy config.filename.bytes maxFilenameLen ++ [0]) = config.filename.bytes := by
  have hplain := (Lab5.checkFilename_iff config.filename.bytes).mp config.checkFilename
  rw [cString_eq_self config.filename.noNul] at hplain
  exact ⟨requestCodec.readRequest_encode hplain.length_le config.blocksize_lt request.property
      memory.property filename.property,
    RequestCodec.cString_strncpy_append hplain.length_le⟩

/-- **A request is received.** Nothing happens, or a child is forked for the file of the client. -/
theorem ServerSide.serve_cases (h : ServerSide config files interval s) {data : List UInt8}
    (hdata : data ∈ s.requests) (request : RequestArray) (filename : FilenameArray)
    (forks : Bool) :
    s.serve files interval request filename data forks = s ∨
      ∃ file, files config.filename.bytes = some file ∧
        s.serve files interval request filename data forks = { s with
          children := s.children ++ [(config.blocksize, AudioServer.start file interval)] } := by
  obtain ⟨memory, rfl⟩ := h.requests data hdata
  obtain ⟨hread, hname⟩ := readRequest_request config memory request filename
  simp only [Streaming.serve, hread, hname]
  split
  · exact .inl rfl
  · cases hfile : files config.filename.bytes with
    | none => exact .inl rfl
    | some file =>
      cases forks with
      | false => exact .inl rfl
      | true => exact .inr ⟨file, rfl, rfl⟩

theorem ServerSide.fork (h : ServerSide config files interval s) {file : List UInt8}
    (hfile : files config.filename.bytes = some file) :
    ServerSide config files interval { s with
      children := s.children ++ [(config.blocksize, AudioServer.start file interval)] } where
  requests := h.requests
  children c hc := by
    rcases List.mem_append.mp hc with hc | hc
    · exact h.children c hc
    · rw [List.mem_singleton.mp hc]
      exact ⟨rfl, file, hfile, sendInv_start file _ interval⟩
  feedbacks := h.feedbacks
  intervals c hc := by
    rcases List.mem_append.mp hc with hc | hc
    · exact h.intervals c hc
    · rw [List.mem_singleton.mp hc]
      exact nofun

/-- A child makes a step. A feedback that it receives is one of the client. -/
theorem ServerSide.childStep (h : ServerSide config files interval s) {i : ℕ} {c : ℕ × AudioServer}
    {a : AudioServer.Label} {child : AudioServer} (hc : s.children[i]? = some c)
    (hstep : c.2.exec c.1 a = some child)
    (ha : ∀ feedback data, a = .feedback feedback data →
      AudioServer.feedbackValue feedback data ≤ maxPspacingMs) :
    ServerSide config files interval { s with children := s.children.set i (c.1, child) } where
  requests := h.requests
  children c' hc' := by
    rcases List.mem_or_eq_of_mem_set hc' with hc' | rfl
    · exact h.children c' hc'
    · obtain ⟨hblocksize, file, hfile, hinv⟩ := h.children c (List.mem_of_getElem? hc)
      rw [hblocksize] at hstep
      exact ⟨hblocksize, file, hfile, hinv.step hstep⟩
  feedbacks := h.feedbacks
  intervals c' hc' x hx := by
    rcases List.mem_or_eq_of_mem_set hc' with hc' | rfl
    · exact h.intervals c' hc' x hx
    · rcases (logsGrow_of_exec hstep).feedbacks x hx with hx | ⟨feedback, data, hlabel, rfl⟩
      · exact h.intervals c (List.mem_of_getElem? hc) x hx
      · exact ha feedback data hlabel

/-- The children are still there, and their logs have only grown. -/
def ChildrenGrow (children children' : List (ℕ × AudioServer)) : Prop :=
  ∀ (i : ℕ) (c : ℕ × AudioServer), children[i]? = some c →
    ∃ c', children'[i]? = some c' ∧ c.2.sent <+: c'.2.sent

theorem childrenGrow_append (children more : List (ℕ × AudioServer)) :
    ChildrenGrow children (children ++ more) := by
  intro i c hc
  refine ⟨c, ?_, List.prefix_rfl⟩
  rw [List.getElem?_append_left (List.getElem?_eq_some_iff.mp hc).1, hc]

theorem childrenGrow_set {children : List (ℕ × AudioServer)} {i : ℕ} {c : ℕ × AudioServer}
    {a : AudioServer.Label} {child : AudioServer} (hc : children[i]? = some c)
    (hstep : c.2.exec c.1 a = some child) :
    ChildrenGrow children (children.set i (c.1, child)) := by
  intro j c' hc'
  by_cases hj : i = j
  · subst hj
    rw [hc] at hc'
    obtain rfl := Option.some.inj hc'
    refine ⟨(c.1, child), ?_, (logsGrow_of_exec hstep).sent⟩
    rw [List.getElem?_set_self (List.getElem?_eq_some_iff.mp hc).1]
  · exact ⟨c', by rw [List.getElem?_set_ne hj, hc'], List.prefix_rfl⟩

theorem ClientSide.grow (h : ClientSide config s) {children : List (ℕ × AudioServer)}
    (hgrow : ChildrenGrow s.children children) :
    ClientSide config { s with children := children } where
  received a ha := by
    obtain ⟨c, hc, hsent⟩ := h.received a ha
    obtain ⟨c', hc', hprefix⟩ := hgrow a.child c hc
    obtain ⟨more, hmore⟩ := hprefix
    refine ⟨c', hc', ?_⟩
    rw [← hmore, List.getElem?_append_left (List.getElem?_eq_some_iff.mp hsent).1, hsent]
  writer := h.writer
  idle := h.idle
  outside := h.outside
  written := h.written
  ended := h.ended
  finished := h.finished

/-! ## The client -/

theorem clientSide_start (buffer : ℕ → UInt8) :
    ClientSide config (Streaming.start config buffer) where
  received := nofun
  writer := ⟨[], invAt_initial config.length_pos buffer⟩
  idle _ := rfl
  outside _ := rfl
  written := rfl
  ended := nofun
  finished := nofun

/-- The client goes on without a change to the queue. -/
theorem ClientSide.move (h : ClientSide config s) {phase : Phase} {requests : List (List UInt8)}
    {feedbacks : List (ℕ × UInt16)} (houtside : phase.outside → s.writer.pc = .idle)
    (hended : phase.ended → ∃ a ∈ s.received, a.data = [])
    (hfinished : phase = .returned 0 → getQueueLoad s.writer.queue = 0) :
    ClientSide config { s with phase := phase, requests := requests, feedbacks := feedbacks } :=
  ⟨h.received, h.writer, h.idle, houtside, h.written, hended, hfinished⟩

/-- A frame is played, by the handler or in the loop behind the streaming. -/
theorem ClientSide.handler (h : ClientSide config s) {phase : Phase}
    (houtside : phase.outside → s.writer.pc = .idle)
    (hended : phase.ended → ∃ a ∈ s.received, a.data = []) (hreturned : phase ≠ .returned 0) :
    ClientSide config { s with writer := s.writer.handler, phase := phase } where
  received := h.received
  writer := by
    obtain ⟨buf, hinv⟩ := h.writer
    have hle := config.length_le
    exact hinv.handler (by omega)
  idle := h.idle
  outside := houtside
  written := h.written
  ended := hended
  finished hphase := absurd hphase hreturned

/-- A memory access of `write_queue`. -/
theorem ClientSide.access (h : ClientSide config s) {child : ℕ} (hphase : s.phase = .write child)
    (hpc : s.writer.pc ≠ .idle) : ClientSide config { s with writer := s.writer.access } where
  received := h.received
  writer := by
    obtain ⟨buf, hinv⟩ := h.writer
    exact hinv.access config.length_pos config.length_le
  idle hidle := by
    rcases Writer.progress_access hpc with ⟨hne, -⟩ | ⟨-, hdata, -⟩
    · exact absurd hidle hne
    · exact hdata
  outside houtside := by
    rw [hphase] at houtside
    exact houtside.elim
  written := by
    refine Eq.trans ?_ h.written
    simp only [Writer.written]
    rcases Writer.progress_access hpc with ⟨-, hdata, hcalls⟩ | ⟨-, hdata, call, hcall, hcalls⟩
    · rw [hdata, hcalls]
    · rw [hdata, hcalls, ← hcall]
      simp [List.filter_cons]
  ended hended := by
    rw [hphase] at hended
    exact hended.elim
  finished hreturned := by
    rw [hphase] at hreturned
    cases hreturned

/-- A datagram is received. -/
theorem ClientSide.receive (h : ClientSide config s) {successful : Bool}
    (hphase : s.phase = .receive successful) {a : Arrival} {c : ℕ × AudioServer}
    (hc : s.children[a.child]? = some c) (hsent : c.2.sent[a.index]? = some a.data)
    (hlen : a.data.length ≤ config.blocksize) (timer : Bool) :
    ClientSide config (s.receive successful a timer) := by
  have hidle := h.outside (by rw [hphase]; trivial)
  have hreceived : ∀ b ∈ s.received ++ [a], ∃ c, s.children[b.child]? = some c ∧
      c.2.sent[b.index]? = some b.data := by
    intro b hb
    rcases List.mem_append.mp hb with hb | hb
    · exact h.received b hb
    · rw [List.mem_singleton.mp hb]
      exact ⟨c, hc, hsent⟩
  rw [Streaming.receive]
  split
  · rename_i hempty
    exact {
      received := hreceived
      writer := h.writer
      idle := h.idle
      outside := fun _ => hidle
      written := by
        rw [h.written, Streaming.blocks, Streaming.blocks, List.map_append, List.filter_append]
        simp [hempty]
      ended := fun _ => ⟨a, List.mem_append_right _ (List.mem_singleton_self a), hempty⟩
      finished := by cases timer <;> exact nofun }
  · split
    · exact h.move (fun _ => hidle) nofun nofun
    · exact {
        received := hreceived
        writer := by
          obtain ⟨buf, hinv⟩ := h.writer
          have hlt := config.blocksize_lt
          exact ⟨buf, hinv.call hidle (by omega)⟩
        idle := nofun
        outside := nofun
        written := by
          have hwritten : (s.writer.calls.map Call.data).filter (· ≠ []) =
              (s.received.map Arrival.data).filter (· ≠ []) := by
            simpa [Writer.written, Streaming.blocks, h.idle hidle] using h.written
          simp only [Writer.written, Streaming.blocks, List.map_append, List.filter_append,
            hwritten, List.map_cons, List.map_nil]
        ended := nofun
        finished := nofun }

/-! ## Runs -/

theorem toPspacingMs_le {packetsPerSecond : ℚ} {interval : UInt16}
    (h : toPspacingMs packetsPerSecond = some interval) : interval ≤ maxPspacingMs := by
  rw [toPspacingMs] at h
  split_ifs at h
  · rw [← Option.some.inj h]
    exact UInt16.le_refl _
  · obtain ⟨packetIntervalMs, -, rfl⟩ := Option.map_eq_some_iff.mp h
    split_ifs with hgt
    · exact UInt16.le_refl _
    · exact UInt16.not_lt.mp hgt

/-- A feedback is received as it was sent. -/
theorem feedbackValue_storeLE (feedback interval : UInt16) :
    AudioServer.feedbackValue feedback (storeLE 2 interval.toNat) = interval := by
  have hlen : (storeLE 2 feedback.toNat).length = (storeLE 2 interval.toNat).length := by
    rw [length_storeLE, length_storeLE]
  rw [AudioServer.feedbackValue, recvInto_of_le hlen.ge, List.drop_eq_nil_of_le hlen.le,
    List.append_nil, loadLE_storeLE interval.toNat_lt, UInt16.ofNat_toNat]

/-- What holds in all runs. -/
structure StreamInv (config : StreamConfig) (files : List UInt8 → Option (List UInt8))
    (interval : UInt16) (s : Streaming) : Prop where
  server : ServerSide config files interval s
  client : ClientSide config s

/-- The client makes a step that sends nothing. -/
theorem StreamInv.ofClient (h : StreamInv config files interval s)
    (hclient : ClientSide config t) (hrequests : t.requests = s.requests)
    (hchildren : t.children = s.children) (hfeedbacks : t.feedbacks = s.feedbacks) :
    StreamInv config files interval t where
  server := ⟨hrequests ▸ h.server.requests, hchildren ▸ h.server.children,
    hfeedbacks ▸ h.server.feedbacks, hchildren ▸ h.server.intervals⟩
  client := hclient

/-- A child makes a step. -/
theorem StreamInv.childStep (h : StreamInv config files interval s) {i : ℕ} {c : ℕ × AudioServer}
    {a : AudioServer.Label} {child : AudioServer} (hc : s.children[i]? = some c)
    (hstep : c.2.exec c.1 a = some child)
    (ha : ∀ feedback data, a = .feedback feedback data →
      AudioServer.feedbackValue feedback data ≤ maxPspacingMs) :
    StreamInv config files interval { s with children := s.children.set i (c.1, child) } :=
  ⟨h.server.childStep hc hstep ha, h.client.grow (childrenGrow_set hc hstep)⟩

/-- `recvfrom` takes a datagram. -/
theorem StreamInv.recvfrom (h : StreamInv config files interval s) {successful : Bool}
    (hphase : s.phase = .receive successful) {child index : ℕ} {c : ℕ × AudioServer}
    {datagram : List UInt8} (hc : s.children[child]? = some c)
    (hsent : c.2.sent[index]? = some datagram) (timer : Bool) :
    StreamInv config files interval
      (s.receive successful ⟨child, index, datagram.take config.blocksize⟩ timer) := by
  obtain ⟨-, file, -, hinv⟩ := h.server.children c (List.mem_of_getElem? hc)
  have hle : datagram.length ≤ config.blocksize :=
    hinv.bounded _ (List.mem_cons_of_mem _ (List.mem_of_getElem? hsent))
  rw [List.take_of_length_le hle]
  have hclient := h.client.receive (a := ⟨child, index, datagram⟩) hphase hc hsent hle timer
  refine h.ofClient hclient ?_ ?_ ?_ <;>
  · rw [Streaming.receive]
    split
    · rfl
    · split <;> rfl

/-- `send_feedback` returns. -/
theorem StreamInv.sendFeedback (h : StreamInv config files interval s) {child : ℕ}
    (hpc : s.writer.pc = .idle) {packetsPerSecond : ℚ} {sent interrupted : Bool}
    (hstep : s.sendFeedback child packetsPerSecond sent interrupted = some t) :
    StreamInv config files interval t := by
  obtain ⟨x, hx, rfl⟩ := Option.map_eq_some_iff.mp hstep
  split
  · refine ⟨⟨h.server.requests, h.server.children, fun f hf => ?_, h.server.intervals⟩,
      h.client.move (fun _ => hpc) nofun nofun⟩
    rcases List.mem_append.mp hf with hf | hf
    · exact h.server.feedbacks f hf
    · rw [List.mem_singleton.mp hf]
      exact toPspacingMs_le hx
  · refine h.ofClient (h.client.move (fun _ => hpc) ?_ ?_) rfl rfl rfl <;>
    · cases interrupted <;> exact nofun

/-- The next call in the loop behind the streaming. -/
theorem StreamInv.drain (h : StreamInv config files interval s) (hphase : s.phase = .drain)
    (ok : Bool) : StreamInv config files interval
      (if getQueueLoad s.writer.queue > 0 then
        { s with writer := s.writer.handler, phase := if ok then .drain else .returned (-1) }
      else { s with phase := .returned (if ok then 0 else -1) }) := by
  have hpc := h.client.outside (by rw [hphase]; trivial)
  have hended := h.client.ended (by rw [hphase]; trivial)
  split
  · refine h.ofClient (h.client.handler (fun _ => hpc) (fun _ => hended) ?_) rfl rfl rfl
    cases ok <;> exact nofun
  · rename_i hload
    exact h.ofClient (h.client.move (fun _ => hpc) (fun _ => hended)
      fun _ => Nat.eq_zero_of_not_pos hload) rfl rfl rfl

/-- **One step.** -/
theorem StreamInv.step (h : StreamInv config files interval s) {a : Streaming.Label}
    (hstep : Streaming.exec config files interval s a = some t) :
    StreamInv config files interval t := by
  cases a with
  | request memory sent timer =>
    simp only [Streaming.exec] at hstep
    split at hstep
    · rename_i hphase
      have hpc := h.client.outside (by rw [hphase]; trivial)
      cases hstep
      refine ⟨⟨fun data hdata => ?_, h.server.children, h.server.feedbacks, h.server.intervals⟩,
        h.client.move (fun _ => hpc) ?_ ?_⟩
      · cases sent with
        | false => exact h.server.requests data hdata
        | true =>
          rcases List.mem_append.mp hdata with hdata | hdata
          · exact h.server.requests data hdata
          · exact ⟨memory, List.mem_singleton.mp hdata⟩
      · cases timer <;> exact nofun
      · cases timer <;> exact nofun
    · cases hstep
  | serve i request filename forks =>
    obtain ⟨data, hdata, rfl⟩ := Option.map_eq_some_iff.mp hstep
    rcases h.server.serve_cases (List.mem_of_getElem? hdata) request filename forks with
      hsame | ⟨file, hfile, hfork⟩
    · rw [hsame]
      exact h
    · rw [hfork]
      exact ⟨h.server.fork hfile, h.client.grow (childrenGrow_append _ _)⟩
  | child i a =>
    cases a with
    | feedback => cases hstep
    | call | fread | recvError =>
      obtain ⟨c, hc, hstep⟩ := Option.bind_eq_some_iff.mp hstep
      obtain ⟨child, hchild, rfl⟩ := Option.map_eq_some_iff.mp hstep
      exact h.childStep hc hchild (by rintro _ _ ⟨⟩)
  | childFeedback i j feedback =>
    obtain ⟨f, hf, hstep⟩ := Option.bind_eq_some_iff.mp hstep
    split at hstep
    · obtain ⟨c, hc, hstep⟩ := Option.bind_eq_some_iff.mp hstep
      obtain ⟨child, hchild, rfl⟩ := Option.map_eq_some_iff.mp hstep
      refine h.childStep hc hchild ?_
      rintro _ _ ⟨⟩
      rw [feedbackValue_storeLE]
      exact h.server.feedbacks f (List.mem_of_getElem? hf)
    · cases hstep
  | recvfrom child index timer =>
    simp only [Streaming.exec] at hstep
    split at hstep
    · rename_i successful hphase
      obtain ⟨datagram, hsent, rfl⟩ := Option.map_eq_some_iff.mp hstep
      obtain ⟨c, hc, hsent⟩ := Option.bind_eq_some_iff.mp hsent
      exact h.recvfrom hphase hc hsent timer
    · cases hstep
  | recvError interrupted =>
    simp only [Streaming.exec] at hstep
    split at hstep
    · rename_i successful hphase
      have hpc := h.client.outside (by rw [hphase]; trivial)
      cases hstep
      refine h.ofClient (h.client.move (fun _ => hpc) ?_ ?_) rfl rfl rfl <;>
      · cases interrupted <;> cases successful <;> exact nofun
    · cases hstep
  | access =>
    simp only [Streaming.exec] at hstep
    split at hstep
    · rename_i child hphase
      obtain ⟨writer, hwriter, rfl⟩ := Option.map_eq_some_iff.mp hstep
      obtain ⟨hpc, rfl⟩ := Writer.exec_access hwriter
      exact h.ofClient (h.client.access hphase hpc) rfl rfl rfl
    · cases hstep
  | feedback packetsPerSecond sent interrupted =>
    simp only [Streaming.exec] at hstep
    split at hstep
    · rename_i child hphase hpc
      exact h.sendFeedback hpc hstep
    · cases hstep
  | handler ok =>
    simp only [Streaming.exec] at hstep
    split at hstep
    · cases hstep
    · cases hstep
    · cases hstep
    · rename_i hdrain hreturned hexited
      cases hstep
      refine h.ofClient (h.client.handler ?_ ?_ ?_) rfl rfl rfl
      · cases ok with
        | true => exact h.client.outside
        | false => exact nofun
      · cases ok with
        | true => exact h.client.ended
        | false => exact nofun
      · cases ok with
        | true => exact hreturned 0
        | false => exact nofun
  | drain ok =>
    simp only [Streaming.exec] at hstep
    split at hstep
    · rename_i hphase
      have hdrain := h.drain hphase ok
      split at hstep <;> cases hstep
      · rename_i hload
        rwa [if_pos hload] at hdrain
      · rename_i hload
        rwa [if_neg hload] at hdrain
    · cases hstep

/-- The file that the server streams, the datagrams that were received, what was written into the
queue and what was played. -/
structure Streams (config : StreamConfig) (files : List UInt8 → Option (List UInt8))
    (interval : UInt16) (s : Streaming) : Prop where
  /-- Each child sends the file that was asked for, in blocks of the size that was asked for. -/
  sends : ∀ c ∈ s.children, ∃ file, files config.filename.bytes = some file ∧
    SendsFile file config.blocksize interval c.2
  /-- A child sleeps for the first interval, or one of at most two seconds. -/
  paced : ∀ c ∈ s.children, ∀ x ∈ c.2.slept, x = interval ∨ x ≤ maxPspacingMs
  /-- The datagrams are received whole. -/
  received : ∀ a ∈ s.received, ∃ c, s.children[a.child]? = some c ∧
    c.2.sent[a.index]? = some a.data
  /-- They go into the queue one behind the other, each as a whole or not at all. -/
  written : s.writer.written = s.blocks ∧ ∀ call ∈ s.writer.calls, call.Atomic
  /-- The handler plays what was written, from its beginning. -/
  played : s.writer.read <+: s.writer.stream
  /-- The streaming ends with an empty datagram, behind which a child has nothing to send. -/
  ended : s.phase.ended → ∃ c ∈ s.children, [] ∈ c.2.sent
  /-- When 0 is returned, everything that was written has been played. -/
  finished : s.phase = .returned 0 → s.writer.read = s.writer.stream

theorem StreamInv.streams (h : StreamInv config files interval s) :
    Streams config files interval s := by
  obtain ⟨buf, hinv⟩ := h.client.writer
  exact {
    sends := fun c hc => by
      obtain ⟨-, file, hfile, hsend⟩ := h.server.children c hc
      exact ⟨file, hfile, hsend.sendsFile⟩
    paced := fun c hc x hx => by
      obtain ⟨-, file, -, hsend⟩ := h.server.children c hc
      exact (hsend.intervals x hx).imp_right (h.server.intervals c hc x)
    received := h.client.received
    written := ⟨h.client.written, hinv.calls⟩
    played := ⟨buf, hinv.conserves⟩
    ended := fun hended => by
      obtain ⟨a, ha, hnil⟩ := h.client.ended hended
      obtain ⟨c, hc, hsent⟩ := h.client.received a ha
      exact ⟨c, List.mem_of_getElem? hc, hnil ▸ List.mem_of_getElem? hsent⟩
    finished := fun hreturned => by
      have hle := config.length_le
      have hload := h.client.finished hreturned
      rw [getQueueLoad_eq hinv.represents (by omega)] at hload
      rw [← hinv.conserves, List.length_eq_zero_iff.mp hload, List.append_nil] }

theorem streamInv_of_reachable {buffer : ℕ → UInt8}
    (h : (Streaming.system config files interval buffer).Reachable s) :
    StreamInv config files interval s := by
  apply h.invariant
  · rintro s rfl
    exact ⟨serverSide_start buffer, clientSide_start buffer⟩
  · intro s a t _ hs hstep
    exact hs.step hstep

/-- **Streaming.** -/
theorem streams_of_reachable {buffer : ℕ → UInt8}
    (h : (Streaming.system config files interval buffer).Reachable s) :
    Streams config files interval s := (streamInv_of_reachable h).streams

/-- The file `a.au` in blocks of two bytes. -/
def smallStream : StreamConfig where
  filename := ⟨[0x61, 0x2e, 0x61, 0x75], by decide⟩
  blocksize := 2
  length := 4
  checkFilename := by decide
  blocksize_pos := by decide
  blocksize_lt := by decide
  length_pos := by decide
  length_le := by decide

/-- The request arrives twice, and the second child is the first whose datagram arrives. -/
theorem streams_two : ∃ s, (Streaming.system smallStream (fun _ => some [1, 2, 3]) 100
      fun _ => 0).Reachable s ∧
    s.writer.stream = [1, 2] ∧ s.children.length = 2 ∧
      Streams smallStream (fun _ => some [1, 2, 3]) 100 s := by
  have hrun : LTS.run (Streaming.exec smallStream (fun _ => some [1, 2, 3]) 100)
      (fun _ _ => True) (Streaming.start smallStream fun _ => 0)
      ([.request ⟨List.replicate 10 0, rfl⟩ true true,
        .serve 0 ⟨List.replicate 10 0, rfl⟩ ⟨List.replicate 9 0, rfl⟩ true,
        .serve 0 ⟨List.replicate 10 0, rfl⟩ ⟨List.replicate 9 0, rfl⟩ true,
        .child 1 (.call true), .child 1 (.call true), .child 1 (.call true), .child 1 (.fread 2),
        .child 1 (.call true), .recvfrom 1 0 true] ++ List.replicate 8 .access ++ [.handler true] ++
        List.replicate 8 .access) = some _ := rfl
  have hreach := (LTS.reachable_of_run (LTS.Reachable.init rfl) hrun).of_restrict
  exact ⟨_, hreach, rfl, rfl, streams_of_reachable hreach⟩

end CS536Labs.Lab5
