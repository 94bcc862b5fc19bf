import CS536Labs.Foundations.Buffer
import CS536Labs.Foundations.Segments
import CS536Labs.Foundations.Transition
import CS536Labs.Lab5.Pspacing

/-!
# `send_file` of `lab5/lib/audio_server.c`

The child of the audio server that streams a file: it sends a block, sleeps, and looks for a
feedback without waiting for one, until nothing is read any more; then it sends eight empty
datagrams. A label is the outcome of the call that comes next.

* `AudioServer.exec`: the steps of `send_file`, `receive_feedback` and `send_eof`.
* `SendsFile`: what has been sent, at every moment.
* `sendsFile_of_reachable`: it holds in all runs, whatever calls fail.
-/

namespace CS536Labs.Lab5

/-- `EOF_TRIES`. -/
def eofTries : ℕ := 8

namespace AudioServer

/-- The call that comes next. -/
inductive Ctl
  | fopen
  | socket
  | openMemstream
  | fread
  | sendto (block : List UInt8)
  | logStream
  | nanosleep
  | receiveFeedback
  | sendEof (i : ℕ)
  | dumpLogging
  | returned (status : ℤ)
  deriving DecidableEq

inductive Label
  /-- A call that succeeds or not. -/
  | call (ok : Bool)
  /-- `fread` stores that many bytes; when they are fewer than it could, `ferror` tells so. -/
  | fread (n : ℕ)
  /-- `recvfrom` takes a datagram, with what `feedback` was before. -/
  | feedback (feedback : UInt16) (data : List UInt8)
  /-- `recvfrom` returns -1: there is no datagram, or another error. -/
  | recvError (again : Bool)

end AudioServer

open AudioServer

/-- The next call, what is left of the file, its error indicator, `packet_interval_ms`, the
datagrams that were sent, the intervals that were slept, and the feedbacks that were received. -/
structure AudioServer where
  ctl : Ctl
  rest : List UInt8
  error : Bool
  packetIntervalMs : UInt16
  sent : List (List UInt8)
  slept : List UInt16
  feedbacks : List UInt16
  deriving DecidableEq

namespace AudioServer

/-- `send_file` is called, and `to_pspacing_ms` returns the interval. -/
def start (file : List UInt8) (interval : UInt16) : AudioServer :=
  ⟨.fopen, file, false, interval, [], [], []⟩

/-- The value of `feedback` behind `recvfrom`. -/
def feedbackValue (feedback : UInt16) (data : List UInt8) : UInt16 :=
  UInt16.ofNat (loadLE (recvInto (storeLE 2 feedback.toNat) data))

/-- `fread` has stored `n` bytes. Without any, the loop ends, and `ferror` is asked. -/
def read (blocksize : ℕ) (s : AudioServer) (n : ℕ) : AudioServer :=
  let error := s.error || decide (n < min blocksize s.rest.length)
  { s with
    rest := s.rest.drop n
    error := error
    ctl := if n > 0 then .sendto (s.rest.take n)
      else if error then .returned (-1) else .sendEof 0 }

/-- A call that has succeeded, other than `fread` and `recvfrom`. -/
def done (s : AudioServer) : Option AudioServer :=
  match s.ctl with
  | .fopen => some { s with ctl := .socket }
  | .socket => some { s with ctl := .openMemstream }
  | .openMemstream => some { s with ctl := .fread }
  | .sendto block => some { s with ctl := .logStream, sent := s.sent ++ [block] }
  | .logStream => some { s with ctl := .nanosleep }
  | .nanosleep => some { s with ctl := .receiveFeedback, slept := s.slept ++ [s.packetIntervalMs] }
  | .sendEof i => some { s with
      ctl := if i + 1 < eofTries then .sendEof (i + 1) else .dumpLogging
      sent := s.sent ++ [[]] }
  | .dumpLogging => some { s with ctl := .returned 0 }
  | .fread | .receiveFeedback | .returned _ => none

/-- One library call and the code up to the next one. -/
def exec (blocksize : ℕ) (s : AudioServer) : Label → Option AudioServer
  | .call true => s.done
  | .call false => s.done.map fun _ => { s with ctl := .returned (-1) }
  | .fread n =>
    if s.ctl = .fread ∧ n ≤ min blocksize s.rest.length then some (s.read blocksize n) else none
  | .feedback feedback data =>
    if s.ctl = .receiveFeedback then
      some { s with
        ctl := .fread
        packetIntervalMs := feedbackValue feedback data
        feedbacks := s.feedbacks ++ [feedbackValue feedback data] }
    else none
  | .recvError again =>
    if s.ctl = .receiveFeedback then
      some { s with ctl := if again then .fread else .returned (-1) }
    else none

/-- How many blocks were sent. -/
def blocksSent (s : AudioServer) : ℕ := (s.sent.filter (· ≠ [])).length

/-- All runs of a child. -/
def system (file : List UInt8) (blocksize : ℕ) (interval : UInt16) : LTS AudioServer Label :=
  LTS.ofExec (start file interval) (exec blocksize)

end AudioServer

/-- The blocks of a file. -/
def fileBlocks (file : List UInt8) (blocksize n : ℕ) : List (List UInt8) :=
  (List.range n).map (segment file blocksize)

/-- The data that was sent is the beginning of the file, in datagrams of at most `blocksize` bytes,
and without a read error it is cut into the blocks of the file. The empty datagrams come behind all
blocks; when 0 is returned, there are eight of them. The child sleeps once behind each block, in
front of the next one, for the first interval or one of a feedback. -/
structure SendsFile (file : List UInt8) (blocksize : ℕ) (interval : UInt16) (s : AudioServer) :
    Prop where
  data : s.sent.flatten <+: file
  bounded : ∀ data ∈ s.sent, data.length ≤ blocksize
  blocks : s.error = false → ∃ n ≤ segmentCount blocksize file.length, ∃ k ≤ eofTries,
    s.sent = fileBlocks file blocksize n ++ List.replicate k [] ∧
      (0 < k → n = segmentCount blocksize file.length)
  eof : [] ∈ s.sent → s.error = false
  complete : s.ctl = .returned 0 → s.error = false ∧
    s.sent = fileBlocks file blocksize (segmentCount blocksize file.length) ++
      List.replicate eofTries []
  paced : s.slept.length ≤ s.blocksSent ∧ s.blocksSent ≤ s.slept.length + 1
  intervals : ∀ x ∈ s.slept, x = interval ∨ x ∈ s.feedbacks

/-! ## The invariant -/

/-- The block that was read and is not sent yet. -/
def AudioServer.Ctl.pending : Ctl → List UInt8
  | .sendto block => block
  | _ => []

/-- A sleep comes next. -/
def AudioServer.Ctl.due : Ctl → ℕ
  | .logStream | .nanosleep => 1
  | _ => 0

/-- A sleep comes next, or a call has failed in front of one. -/
def AudioServer.Ctl.missed : Ctl → ℕ
  | .logStream | .nanosleep | .returned _ => 1
  | _ => 0

theorem AudioServer.Ctl.missed_le_one (ctl : Ctl) : ctl.missed ≤ 1 := by
  cases ctl <;> simp [missed]

section

variable {file : List UInt8} {blocksize : ℕ} {interval : UInt16} {s t : AudioServer}

/-- What a child without read errors has sent: `n` blocks and `k` empty datagrams. -/
def AtCtl (file : List UInt8) (blocksize : ℕ) (s : AudioServer) (n k : ℕ) : Ctl → Prop
  | .sendto block => k = 0 ∧ n < segmentCount blocksize file.length ∧
      block = segment file blocksize n ∧ s.rest = file.drop ((n + 1) * blocksize)
  | .sendEof i => k = i ∧ i < eofTries ∧ n = segmentCount blocksize file.length
  | .dumpLogging => k = eofTries ∧ n = segmentCount blocksize file.length
  | .returned status => status = 0 → k = eofTries ∧ n = segmentCount blocksize file.length
  | _ => k = 0 ∧ s.rest = file.drop (n * blocksize)

/-- A child without read errors. -/
structure Whole (file : List UInt8) (blocksize : ℕ) (s : AudioServer) (n k : ℕ) : Prop where
  blocks_le : n ≤ segmentCount blocksize file.length
  eofs_le : k ≤ eofTries
  sent : s.sent = fileBlocks file blocksize n ++ List.replicate k []
  all : 0 < k → n = segmentCount blocksize file.length
  atCtl : AtCtl file blocksize s n k s.ctl

/-- A child with a read error. -/
structure Broken (s : AudioServer) : Prop where
  noEof : [] ∉ s.sent
  ctl : ∀ i, s.ctl ≠ .sendEof i ∧ s.ctl ≠ .dumpLogging ∧ s.ctl ≠ .returned 0

/-- What holds in all runs. -/
structure SendInv (file : List UInt8) (blocksize : ℕ) (interval : UInt16) (s : AudioServer) :
    Prop where
  data : s.sent.flatten <+: file
  rest : (∀ status, s.ctl ≠ .returned status) →
    s.sent.flatten ++ (s.ctl.pending ++ s.rest) = file
  pending : ∀ block, s.ctl = .sendto block → block ≠ []
  bounded : ∀ data ∈ s.ctl.pending :: s.sent, data.length ≤ blocksize
  whole : s.error = false → ∃ n k, Whole file blocksize s n k
  broken : s.error = true → Broken s
  paced : s.slept.length + s.ctl.due ≤ s.blocksSent ∧
    s.blocksSent ≤ s.slept.length + s.ctl.missed
  intervals : ∀ x ∈ s.slept, x = interval ∨ x ∈ s.feedbacks
  current : s.packetIntervalMs = interval ∨ s.packetIntervalMs ∈ s.feedbacks

theorem sendInv_start (file : List UInt8) (blocksize : ℕ) (interval : UInt16) :
    SendInv file blocksize interval (start file interval) where
  data := List.nil_prefix
  rest _ := rfl
  pending := nofun
  bounded data hdata := by
    obtain rfl := List.mem_singleton.mp hdata
    exact Nat.zero_le _
  whole _ := ⟨0, 0, Nat.zero_le _, Nat.zero_le _, rfl, nofun, rfl, by simp [start]⟩
  broken := nofun
  paced := ⟨Nat.le_refl 0, Nat.le_refl 0⟩
  intervals := nofun
  current := .inl rfl

/-- Nothing is pending any more. -/
theorem SendInv.bounded_nil (h : SendInv file blocksize interval s) :
    ∀ data ∈ [] :: s.sent, data.length ≤ blocksize := by
  intro data hdata
  rcases List.mem_cons.mp hdata with rfl | hdata
  · exact Nat.zero_le _
  · exact h.bounded data (List.mem_cons_of_mem _ hdata)

/-- A call fails. -/
theorem SendInv.fail (h : SendInv file blocksize interval s) :
    SendInv file blocksize interval { s with ctl := .returned (-1) } where
  data := h.data
  rest hctl := (hctl (-1) rfl).elim
  pending := nofun
  bounded := h.bounded_nil
  whole herror := by
    obtain ⟨n, k, hwhole⟩ := h.whole herror
    exact ⟨n, k, hwhole.blocks_le, hwhole.eofs_le, hwhole.sent, hwhole.all, nofun⟩
  broken herror := ⟨(h.broken herror).noEof, fun _ => ⟨nofun, nofun, nofun⟩⟩
  paced := ⟨le_of_add_le_left h.paced.1,
    h.paced.2.trans (Nat.add_le_add_left s.ctl.missed_le_one _)⟩
  intervals := h.intervals
  current := h.current

/-- The places where the blocks that were read have been sent. -/
def AudioServer.Ctl.Between : Ctl → Prop
  | .fopen | .socket | .openMemstream | .fread | .logStream | .nanosleep | .receiveFeedback => True
  | _ => False

theorem AudioServer.Ctl.Between.pending {ctl : Ctl} (h : ctl.Between) : ctl.pending = [] := by
  cases ctl <;> first | rfl | cases h

theorem AudioServer.Ctl.Between.missed {ctl : Ctl} (h : ctl.Between) : ctl.missed = ctl.due := by
  cases ctl <;> first | rfl | cases h

theorem AudioServer.Ctl.Between.atCtl {ctl : Ctl} (h : ctl.Between) {n k : ℕ} :
    AtCtl file blocksize s n k ctl ↔ k = 0 ∧ s.rest = file.drop (n * blocksize) := by
  cases ctl <;> first | rfl | cases h

/-- A step between two such places, in which nothing is read or sent. -/
theorem SendInv.move (h : SendInv file blocksize interval s) (hs : s.ctl.Between)
    (ht : t.ctl.Between) (hrest : t.rest = s.rest) (hsent : t.sent = s.sent)
    (herror : t.error = s.error)
    (hpaced : s.slept.length + s.ctl.due = t.slept.length + t.ctl.due)
    (hintervals : ∀ x ∈ t.slept, x = interval ∨ x ∈ t.feedbacks)
    (hcurrent : t.packetIntervalMs = interval ∨ t.packetIntervalMs ∈ t.feedbacks) :
    SendInv file blocksize interval t where
  data := hsent ▸ h.data
  rest _ := by
    have hdata := h.rest (by
      intro status hctl
      rw [hctl] at hs
      exact hs)
    rw [hs.pending] at hdata
    rw [ht.pending, hsent, hrest, hdata]
  pending block hctl := by
    rw [hctl] at ht
    exact ht.elim
  bounded := by
    rw [ht.pending, hsent]
    exact h.bounded_nil
  whole hnone := by
    obtain ⟨n, k, hwhole⟩ := h.whole (herror ▸ hnone)
    refine ⟨n, k, hwhole.blocks_le, hwhole.eofs_le, hsent ▸ hwhole.sent, hwhole.all, ?_⟩
    rw [ht.atCtl, hrest]
    exact hs.atCtl.mp hwhole.atCtl
  broken hsome := by
    refine ⟨hsent ▸ (h.broken (herror ▸ hsome)).noEof, fun i => ⟨?_, ?_, ?_⟩⟩ <;>
    · intro hctl
      rw [hctl] at ht
      exact ht
  paced := by
    have hpaced' := h.paced
    rw [hs.missed] at hpaced'
    rw [ht.missed, blocksSent, hsent, ← hpaced]
    exact hpaced'
  intervals := hintervals
  current := hcurrent

/-- A block is sent. -/
theorem SendInv.transmit (h : SendInv file blocksize interval s) {block : List UInt8}
    (hctl : s.ctl = .sendto block) : SendInv file blocksize interval { s with
      ctl := .logStream, sent := s.sent ++ [block] } := by
  have hdata : (s.sent ++ [block]).flatten ++ s.rest = file := by
    have hrest := h.rest (by rw [hctl]; exact nofun)
    rw [hctl] at hrest
    rw [List.flatten_append, List.flatten_singleton, List.append_assoc]
    exact hrest
  exact {
    data := ⟨s.rest, hdata⟩
    rest := fun _ => hdata
    pending := nofun
    bounded := fun data hmem => by
      have hbounded := h.bounded
      rw [hctl] at hbounded
      rcases List.mem_cons.mp hmem with rfl | hmem
      · exact Nat.zero_le _
      · exact hbounded data (List.perm_append_singleton _ _ |>.mem_iff.mp hmem)
    whole := fun herror => by
      obtain ⟨n, k, hwhole⟩ := h.whole herror
      have hat := hwhole.atCtl
      rw [hctl] at hat
      obtain ⟨rfl, hlt, rfl, hrest⟩ := hat
      refine ⟨n + 1, 0, hlt, Nat.zero_le _, ?_, nofun, rfl, hrest⟩
      rw [hwhole.sent, fileBlocks, fileBlocks, List.range_succ, List.map_append]
      simp
    broken := fun herror => by
      refine ⟨fun hmem => ?_, fun _ => ⟨nofun, nofun, nofun⟩⟩
      rcases List.mem_append.mp hmem with hmem | hmem
      · exact (h.broken herror).noEof hmem
      · exact h.pending block hctl (List.mem_singleton.mp hmem).symm
    paced := by
      have hpaced := h.paced
      rw [hctl] at hpaced
      have hone : [block].filter (· ≠ []) = [block] :=
        List.filter_cons_of_pos (decide_eq_true (h.pending block hctl))
      rw [blocksSent, List.filter_append, List.length_append, hone]
      exact ⟨Nat.add_le_add_right hpaced.1 1, Nat.add_le_add_right hpaced.2 1⟩
    intervals := h.intervals
    current := h.current }

/-- An empty datagram is sent. -/
theorem SendInv.sendEof (h : SendInv file blocksize interval s) {i : ℕ}
    (hctl : s.ctl = .sendEof i) :
    SendInv file blocksize interval { s with
      ctl := if i + 1 < eofTries then .sendEof (i + 1) else .dumpLogging
      sent := s.sent ++ [[]] } := by
  have hflatten : (s.sent ++ [[]]).flatten = s.sent.flatten := by simp
  have hpending : ∀ c : Bool, (if c then Ctl.sendEof (i + 1) else .dumpLogging).pending = [] := by
    rintro (_ | _) <;> rfl
  exact {
    data := hflatten.symm ▸ h.data
    rest := fun _ => by
      have hrest := h.rest (by rw [hctl]; exact nofun)
      rw [hctl] at hrest
      rw [hflatten]
      split_ifs <;> exact hrest
    pending := fun block => by split_ifs <;> exact nofun
    bounded := fun data hmem => by
      have hnil : data ∈ [] :: s.sent := by
        split_ifs at hmem <;>
        · simp only [Ctl.pending, List.mem_cons, List.mem_append, List.not_mem_nil] at hmem ⊢
          tauto
      exact h.bounded_nil data hnil
    whole := fun herror => by
      obtain ⟨n, k, hwhole⟩ := h.whole herror
      have hat := hwhole.atCtl
      rw [hctl] at hat
      obtain ⟨rfl, hlt, rfl⟩ := hat
      refine ⟨_, k + 1, hwhole.blocks_le, hlt, ?_, fun _ => rfl, ?_⟩
      · rw [hwhole.sent, List.replicate_succ', List.append_assoc]
      · dsimp only
        split_ifs with hnext
        · exact ⟨rfl, hnext, rfl⟩
        · exact ⟨by omega, rfl⟩
    broken := fun herror => absurd hctl ((h.broken herror).ctl i).1
    paced := by
      have hpaced := h.paced
      rw [hctl] at hpaced
      have hblocks : (s.sent ++ [[]]).filter (· ≠ []) = s.sent.filter (· ≠ []) := by
        rw [List.filter_append]
        exact List.append_nil _
      rw [blocksSent, hblocks]
      split_ifs <;> exact hpaced
    intervals := h.intervals
    current := h.current }

/-- The blocks of a file are not empty. -/
theorem nil_notMem_fileBlocks {n : ℕ} (h : n ≤ segmentCount blocksize file.length) :
    [] ∉ fileBlocks file blocksize n := by
  intro hmem
  obtain ⟨i, hi, hnil⟩ := List.mem_map.mp hmem
  have hlt := (List.mem_range.mp hi).trans_le h
  rcases Nat.eq_zero_or_pos blocksize with rfl | hpos
  · simp [segmentCount] at hlt
  · have hlen := congrArg List.length hnil
    rw [lt_segmentCount_iff hpos] at hlt
    rw [length_segment, List.length_nil] at hlen
    omega

/-- All that could be read was read. -/
theorem take_drop_of_eq_min {rest : List UInt8} {n : ℕ} (hn : n = min blocksize rest.length) :
    rest.take n = rest.take blocksize ∧ rest.drop n = rest.drop blocksize := by
  rcases Nat.le_total blocksize rest.length with hle | hle
  · rw [hn, Nat.min_eq_left hle]
    exact ⟨rfl, rfl⟩
  · rw [hn, Nat.min_eq_right hle, List.take_length, List.drop_length, List.take_of_length_le hle,
      List.drop_of_length_le hle]
    exact ⟨rfl, rfl⟩

/-- What holds in front of `fread`. -/
structure Reading (file : List UInt8) (blocksize : ℕ) (s : AudioServer) : Prop where
  data : s.sent.flatten ++ s.rest = file
  noEof : [] ∉ s.sent
  paced : s.slept.length ≤ s.blocksSent ∧ s.blocksSent ≤ s.slept.length
  whole : s.error = false → ∃ n ≤ segmentCount blocksize file.length,
    s.sent = fileBlocks file blocksize n ++ List.replicate 0 [] ∧ s.rest = file.drop (n * blocksize)

theorem SendInv.reading (h : SendInv file blocksize interval s) (hctl : s.ctl = .fread) :
    Reading file blocksize s := by
  have hwhole : s.error = false → ∃ n ≤ segmentCount blocksize file.length,
      s.sent = fileBlocks file blocksize n ++ List.replicate 0 [] ∧
        s.rest = file.drop (n * blocksize) := by
    intro herror
    obtain ⟨n, k, hwhole⟩ := h.whole herror
    have hat := hwhole.atCtl
    rw [hctl] at hat
    obtain ⟨rfl, hrest⟩ := hat
    exact ⟨n, hwhole.blocks_le, hwhole.sent, hrest⟩
  refine ⟨?_, ?_, ?_, hwhole⟩
  · have hdata := h.rest (by rw [hctl]; exact nofun)
    rwa [hctl] at hdata
  · cases herror : s.error with
    | true => exact (h.broken herror).noEof
    | false =>
      obtain ⟨n, hle, hsent, -⟩ := hwhole herror
      rw [hsent, List.replicate_zero, List.append_nil]
      exact nil_notMem_fileBlocks hle
  · have hpaced := h.paced
    rwa [hctl] at hpaced

/-- A block is read. -/
theorem SendInv.readBlock (h : SendInv file blocksize interval s) (hr : Reading file blocksize s)
    {n : ℕ} (hn : n ≤ min blocksize s.rest.length) (hpos : 0 < n) {error : Bool}
    (herror : error = false → s.error = false ∧ n = min blocksize s.rest.length) :
    SendInv file blocksize interval { s with
      rest := s.rest.drop n, error := error, ctl := .sendto (s.rest.take n) } where
  data := h.data
  rest _ := by
    simp only [Ctl.pending]
    rw [List.take_append_drop, hr.data]
  pending := by
    rintro _ ⟨⟩ hnil
    rcases List.take_eq_nil_iff.mp hnil with hzero | hempty
    · omega
    · rw [hempty, List.length_nil] at hn
      omega
  bounded data hmem := by
    rcases List.mem_cons.mp hmem with rfl | hmem
    · simp only [Ctl.pending, List.length_take]
      omega
    · exact h.bounded_nil data (List.mem_cons_of_mem _ hmem)
  whole hok := by
    obtain ⟨hok, heq⟩ := herror hok
    obtain ⟨m, hle, hsent, hrest⟩ := hr.whole hok
    obtain ⟨htake, hdrop⟩ := take_drop_of_eq_min heq
    refine ⟨m, 0, hle, Nat.zero_le _, hsent, nofun, rfl, ?_, ?_, ?_⟩
    · have hlen := congrArg List.length hrest
      rw [List.length_drop] at hlen
      rw [lt_segmentCount_iff (by omega)]
      omega
    · rw [htake, hrest]
      rfl
    · rw [hdrop, hrest, List.drop_drop, Nat.succ_mul]
  broken _ := ⟨hr.noEof, fun _ => ⟨nofun, nofun, nofun⟩⟩
  paced := hr.paced
  intervals := h.intervals
  current := h.current

/-- Nothing is left, and all blocks have been sent. -/
theorem segmentCount_of_rest {rest : List UInt8} {n : ℕ}
    (hle : n ≤ segmentCount blocksize file.length)
    (hrest : rest = file.drop (n * blocksize)) (hend : min blocksize rest.length = 0) :
    n = segmentCount blocksize file.length := by
  refine Nat.le_antisymm hle ?_
  rcases Nat.eq_zero_or_pos blocksize with rfl | hpos
  · simp [segmentCount]
  · apply segmentCount_le hpos
    rw [hrest, List.length_drop] at hend
    omega

/-- Nothing is read. -/
theorem SendInv.readEnd (h : SendInv file blocksize interval s) (hr : Reading file blocksize s)
    {error : Bool} (herror : error = false → s.error = false ∧ min blocksize s.rest.length = 0) :
    SendInv file blocksize interval { s with
      error := error, ctl := if error then .returned (-1) else .sendEof 0 } where
  data := h.data
  rest _ := by
    rw [← hr.data]
    cases error <;> rfl
  pending block := by
    cases error <;> exact nofun
  bounded := by
    cases error <;> exact h.bounded_nil
  whole := by
    rintro rfl
    obtain ⟨hok, hend⟩ := herror rfl
    obtain ⟨m, hle, hsent, hrest⟩ := hr.whole hok
    exact ⟨m, 0, hle, Nat.zero_le _, hsent, nofun, rfl, by decide,
      segmentCount_of_rest hle hrest hend⟩
  broken := by
    rintro rfl
    exact ⟨hr.noEof, fun _ => ⟨nofun, nofun, nofun⟩⟩
  paced := by
    cases error with
    | false => exact hr.paced
    | true => exact ⟨hr.paced.1, Nat.le_add_right_of_le hr.paced.2⟩
  intervals := h.intervals
  current := h.current

/-- `fread` returns. -/
theorem SendInv.read (h : SendInv file blocksize interval s) (hctl : s.ctl = .fread) {n : ℕ}
    (hn : n ≤ min blocksize s.rest.length) :
    SendInv file blocksize interval (s.read blocksize n) := by
  have hr := h.reading hctl
  have hfull : (s.error || decide (n < min blocksize s.rest.length)) = false →
      s.error = false ∧ n = min blocksize s.rest.length := by
    rw [Bool.or_eq_false_iff, decide_eq_false_iff_not]
    exact fun ⟨herror, hlt⟩ => ⟨herror, by omega⟩
  simp only [AudioServer.read]
  rcases Nat.eq_zero_or_pos n with rfl | hpos
  · exact h.readEnd hr fun herror => (hfull herror).imp_right Eq.symm
  · rw [if_pos hpos]
    exact h.readBlock hr hn hpos hfull

/-- All calls of `send_eof` have succeeded, and the log is written. -/
theorem SendInv.finish (h : SendInv file blocksize interval s) (hctl : s.ctl = .dumpLogging) :
    SendInv file blocksize interval { s with ctl := .returned 0 } where
  data := h.data
  rest hreturned := (hreturned 0 rfl).elim
  pending := nofun
  bounded := h.bounded_nil
  whole herror := by
    obtain ⟨n, k, hwhole⟩ := h.whole herror
    have hat := hwhole.atCtl
    rw [hctl] at hat
    exact ⟨n, k, hwhole.blocks_le, hwhole.eofs_le, hwhole.sent, hwhole.all, fun _ => hat⟩
  broken herror := absurd hctl ((h.broken herror).ctl 0).2.1
  paced := by
    have hpaced := h.paced
    rw [hctl] at hpaced
    exact ⟨hpaced.1, Nat.le_add_right_of_le hpaced.2⟩
  intervals := h.intervals
  current := h.current

/-- A call succeeds. -/
theorem SendInv.done (h : SendInv file blocksize interval s) (hdone : s.done = some t) :
    SendInv file blocksize interval t := by
  have hmove : ∀ ctl : Ctl, s.ctl.Between → ctl.Between → s.ctl.due = ctl.due →
      SendInv file blocksize interval { s with ctl := ctl } := fun ctl hs ht hdue =>
    h.move hs ht rfl rfl rfl (congrArg _ hdue) h.intervals h.current
  rw [AudioServer.done] at hdone
  split at hdone
  · rename_i hctl
    cases hdone
    exact hmove _ (by rw [hctl]; trivial) trivial (by rw [hctl]; rfl)
  · rename_i hctl
    cases hdone
    exact hmove _ (by rw [hctl]; trivial) trivial (by rw [hctl]; rfl)
  · rename_i hctl
    cases hdone
    exact hmove _ (by rw [hctl]; trivial) trivial (by rw [hctl]; rfl)
  · rename_i block hctl
    cases hdone
    exact h.transmit hctl
  · rename_i hctl
    cases hdone
    exact hmove _ (by rw [hctl]; trivial) trivial (by rw [hctl]; rfl)
  · rename_i hctl
    cases hdone
    refine h.move (by rw [hctl]; trivial) trivial rfl rfl rfl ?_ (fun x hx => ?_) h.current
    · rw [hctl, List.length_append]
      rfl
    · rcases List.mem_append.mp hx with hx | hx
      · exact h.intervals x hx
      · rw [List.mem_singleton.mp hx]
        exact h.current
  · rename_i i hctl
    cases hdone
    exact h.sendEof hctl
  · rename_i hctl
    cases hdone
    exact h.finish hctl
  · cases hdone
  · cases hdone
  · cases hdone

/-- **One step.** -/
theorem SendInv.step (h : SendInv file blocksize interval s) {a : AudioServer.Label}
    (hstep : exec blocksize s a = some t) : SendInv file blocksize interval t := by
  cases a with
  | call ok =>
    cases ok with
    | true => exact h.done hstep
    | false =>
      obtain ⟨u, -, rfl⟩ := Option.map_eq_some_iff.mp hstep
      exact h.fail
  | fread n =>
    simp only [exec] at hstep
    split_ifs at hstep with hread
    cases hstep
    exact h.read hread.1 hread.2
  | feedback feedback data =>
    simp only [exec] at hstep
    split_ifs at hstep with hctl
    cases hstep
    refine h.move (by rw [hctl]; trivial) trivial rfl rfl rfl (by rw [hctl]; rfl) (fun x hx => ?_)
      (.inr (List.mem_append_right _ (List.mem_singleton_self _)))
    exact (h.intervals x hx).imp_right fun hmem => List.mem_append_left _ hmem
  | recvError again =>
    simp only [exec] at hstep
    split at hstep
    · rename_i hctl
      cases hstep
      cases again with
      | true =>
        exact h.move (by rw [hctl]; trivial) trivial rfl rfl rfl (by rw [hctl]; rfl) h.intervals
          h.current
      | false => exact h.fail
    · cases hstep

/-- The logs of a child in one step. -/
structure LogsGrow (s t : AudioServer) (a : AudioServer.Label) : Prop where
  sent : s.sent <+: t.sent
  feedbacks : ∀ x ∈ t.feedbacks,
    x ∈ s.feedbacks ∨ ∃ feedback data, a = .feedback feedback data ∧ x = feedbackValue feedback data

theorem logsGrow_of_exec {a : AudioServer.Label} (hstep : exec blocksize s a = some t) :
    LogsGrow s t a := by
  cases a with
  | call ok =>
    cases ok with
    | true =>
      rw [exec, AudioServer.done] at hstep
      split at hstep <;> cases hstep <;>
        first
        | exact ⟨List.prefix_rfl, fun x hx => .inl hx⟩
        | exact ⟨List.prefix_append _ _, fun x hx => .inl hx⟩
    | false =>
      obtain ⟨u, -, rfl⟩ := Option.map_eq_some_iff.mp hstep
      exact ⟨List.prefix_rfl, fun x hx => .inl hx⟩
  | fread n =>
    simp only [exec] at hstep
    split_ifs at hstep
    cases hstep
    exact ⟨List.prefix_rfl, fun x hx => .inl hx⟩
  | feedback feedback data =>
    simp only [exec] at hstep
    split_ifs at hstep
    cases hstep
    refine ⟨List.prefix_rfl, fun x hx => ?_⟩
    rcases List.mem_append.mp hx with hx | hx
    · exact .inl hx
    · exact .inr ⟨feedback, data, rfl, List.mem_singleton.mp hx⟩
  | recvError again =>
    simp only [exec] at hstep
    split at hstep
    · cases hstep
      exact ⟨List.prefix_rfl, fun x hx => .inl hx⟩
    · cases hstep

/-- **The invariant gives the property.** -/
theorem SendInv.sendsFile (h : SendInv file blocksize interval s) :
    SendsFile file blocksize interval s where
  data := h.data
  bounded data hdata := h.bounded data (List.mem_cons_of_mem _ hdata)
  blocks herror := by
    obtain ⟨n, k, hwhole⟩ := h.whole herror
    exact ⟨n, hwhole.blocks_le, k, hwhole.eofs_le, hwhole.sent, hwhole.all⟩
  eof hmem := by
    cases herror : s.error with
    | true => exact ((h.broken herror).noEof hmem).elim
    | false => rfl
  complete hctl := by
    cases herror : s.error with
    | true => exact absurd hctl ((h.broken herror).ctl 0).2.2
    | false =>
      obtain ⟨n, k, hwhole⟩ := h.whole herror
      have hat := hwhole.atCtl
      rw [hctl] at hat
      obtain ⟨rfl, rfl⟩ := hat rfl
      exact ⟨rfl, hwhole.sent⟩
  paced := ⟨le_of_add_le_left h.paced.1,
    h.paced.2.trans (Nat.add_le_add_left s.ctl.missed_le_one _)⟩
  intervals := h.intervals

/-- **Streaming a file.** -/
theorem sendsFile_of_reachable (h : (AudioServer.system file blocksize interval).Reachable s) :
    SendsFile file blocksize interval s := by
  have hinv : SendInv file blocksize interval s := by
    apply h.invariant
    · rintro s rfl
      exact sendInv_start file blocksize interval
    · intro s a t _ hs hstep
      exact hs.step hstep
  exact hinv.sendsFile

end

/-- Three bytes in blocks of two; the second sleep has the interval of a feedback. -/
theorem sendsFile_three : ∃ s, (AudioServer.system [1, 2, 3] 2 100).Reachable s ∧
    s.ctl = .returned 0 ∧ s.slept = [100, 313] ∧ SendsFile [1, 2, 3] 2 100 s := by
  have hrun : LTS.run (exec 2) (fun _ _ => True) (start [1, 2, 3] 100)
      ([.call true, .call true, .call true, .fread 2, .call true, .call true, .call true,
        .feedback 0 [57, 1], .fread 1, .call true, .call true, .call true, .recvError true,
        .fread 0] ++ List.replicate 9 (.call true)) = some _ := rfl
  have hreach := (LTS.reachable_of_run (LTS.Reachable.init rfl) hrun).of_restrict
  exact ⟨_, hreach, by decide, by decide, sendsFile_of_reachable hreach⟩

end CS536Labs.Lab5
