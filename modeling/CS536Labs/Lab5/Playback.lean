import CS536Labs.Lab5.StreamingSafety

/-!
# Playback of one stream

When only one request gets to the server and the network keeps the order of the datagrams, what
is played is the file without some of its blocks: those that were lost, or that found the queue
full. When nothing is lost and the queue was never full, it is the file.

* `Streaming.InOrder`, `Streaming.Lossless`: the two kinds of runs.
* `played_of_inOrder`: blocks are left out, but neither cut nor reordered.
* `played_of_lossless`: the whole file.
-/

namespace CS536Labs.Lab5

open Streaming

/-- One child is forked, and its datagrams are received in the order sent, each at most once. -/
def Streaming.InOrder (s : Streaming) : Streaming.Label → Prop
  | .serve _ _ _ forks => forks = true → s.children = []
  | .recvfrom _ index _ => ∀ a ∈ s.received, a.index < index
  | _ => True

/-- The datagrams are received in the order sent, and none is left out. -/
def Streaming.Lossless (s : Streaming) : Streaming.Label → Prop
  | .serve _ _ _ forks => forks = true → s.children = []
  | .recvfrom _ index _ => index = s.received.length
  | _ => True

instance (s : Streaming) (a : Streaming.Label) : Decidable (Streaming.InOrder s a) :=
  match a with
  | .serve _ _ _ forks => inferInstanceAs (Decidable (forks = true → s.children = []))
  | .recvfrom _ index _ => inferInstanceAs (Decidable (∀ a ∈ s.received, a.index < index))
  | .request .. | .child .. | .childFeedback .. | .recvError .. | .access | .feedback ..
  | .handler .. | .drain .. => inferInstanceAs (Decidable True)

instance (s : Streaming) (a : Streaming.Label) : Decidable (Streaming.Lossless s a) :=
  match a with
  | .serve _ _ _ forks => inferInstanceAs (Decidable (forks = true → s.children = []))
  | .recvfrom _ index _ => inferInstanceAs (Decidable (index = s.received.length))
  | .request .. | .child .. | .childFeedback .. | .recvError .. | .access | .feedback ..
  | .handler .. | .drain .. => inferInstanceAs (Decidable True)

/-- Elements that stand at increasing places of a list are a sublist. -/
theorem sublist_drop_of_pairwise_lt {α : Type*} (places : List (ℕ × α)) {l : List α} (n : ℕ)
    (hlt : places.Pairwise (·.1 < ·.1)) (hget : ∀ p ∈ places, l[p.1]? = some p.2)
    (hn : ∀ p ∈ places, n ≤ p.1) : (places.map Prod.snd).Sublist (l.drop n) := by
  induction places generalizing n with
  | nil => exact List.nil_sublist _
  | cons p places ih =>
    obtain ⟨hfirst, hlt⟩ := List.pairwise_cons.mp hlt
    rw [List.forall_mem_cons] at hget hn
    obtain ⟨hi, hp⟩ := List.getElem?_eq_some_iff.mp hget.1
    have hrest := ih (p.1 + 1) hlt hget.2 fun q hq => hfirst q hq
    have hdrop : l.drop p.1 = p.2 :: l.drop (p.1 + 1) := by
      rw [List.drop_eq_getElem_cons hi, hp]
    rw [List.map_cons]
    refine (hrest.cons_cons p.2).trans ?_
    rw [← hdrop, ← Nat.add_sub_cancel' hn.1, ← List.drop_drop]
    exact List.drop_sublist _ _

/-! ## The order of the datagrams -/

/-- There is one child at most, and its datagrams have been received in order. -/
structure Ordered (s : Streaming) : Prop where
  single : s.children.length ≤ 1
  increasing : s.received.Pairwise (·.index < ·.index)

/-- What a step does to the two logs. -/
inductive LogStep (s : Streaming) : Streaming.Label → Streaming → Prop
  | same {a : Streaming.Label} {t : Streaming} : t.children.length = s.children.length →
    t.received = s.received → LogStep s a t
  | fork {i : ℕ} {request : RequestArray} {filename : FilenameArray} {t : Streaming} :
    t.children.length = s.children.length + 1 → t.received = s.received →
    LogStep s (.serve i request filename true) t
  | receive {child index : ℕ} {timer : Bool} {data : List UInt8} {t : Streaming} :
    t.children = s.children → t.received = s.received ++ [⟨child, index, data⟩] →
    LogStep s (.recvfrom child index timer) t

variable {config : StreamConfig} {files : List UInt8 → Option (List UInt8)} {interval : UInt16}
  {s t : Streaming}

theorem logStep_serve (s : Streaming) (i : ℕ) (request : RequestArray) (filename : FilenameArray)
    (data : List UInt8) (forks : Bool) :
    LogStep s (.serve i request filename forks)
      (s.serve files interval request filename data forks) := by
  simp only [Streaming.serve]
  split
  · exact .same rfl rfl
  · split
    · exact .same rfl rfl
    · cases forks with
      | false => exact .same rfl rfl
      | true => exact .fork List.length_append rfl

theorem logStep_receive (s : Streaming) (successful : Bool) (child index : ℕ) (data : List UInt8)
    (timer : Bool) :
    LogStep s (.recvfrom child index timer) (s.receive successful ⟨child, index, data⟩ timer) := by
  rw [Streaming.receive]
  split
  · exact .receive rfl rfl
  · split
    · exact .same rfl rfl
    · exact .receive rfl rfl

theorem logStep_of_exec {a : Streaming.Label}
    (hstep : Streaming.exec config files interval s a = some t) : LogStep s a t := by
  cases a with
  | serve i request filename forks =>
    obtain ⟨data, -, rfl⟩ := Option.map_eq_some_iff.mp hstep
    exact logStep_serve s i request filename data forks
  | child i a =>
    cases a with
    | feedback => cases hstep
    | call | fread | recvError =>
      obtain ⟨c, -, hstep⟩ := Option.bind_eq_some_iff.mp hstep
      obtain ⟨child, -, rfl⟩ := Option.map_eq_some_iff.mp hstep
      exact .same List.length_set rfl
  | childFeedback i j feedback =>
    obtain ⟨f, -, hstep⟩ := Option.bind_eq_some_iff.mp hstep
    split at hstep
    · obtain ⟨c, -, hstep⟩ := Option.bind_eq_some_iff.mp hstep
      obtain ⟨child, -, rfl⟩ := Option.map_eq_some_iff.mp hstep
      exact .same List.length_set rfl
    · cases hstep
  | recvfrom child index timer =>
    simp only [Streaming.exec] at hstep
    split at hstep
    · obtain ⟨datagram, -, rfl⟩ := Option.map_eq_some_iff.mp hstep
      exact logStep_receive s _ child index _ timer
    · cases hstep
  | access =>
    simp only [Streaming.exec] at hstep
    split at hstep
    · obtain ⟨writer, -, rfl⟩ := Option.map_eq_some_iff.mp hstep
      exact .same rfl rfl
    · cases hstep
  | feedback packetsPerSecond sent interrupted =>
    simp only [Streaming.exec] at hstep
    split at hstep
    · obtain ⟨x, -, rfl⟩ := Option.map_eq_some_iff.mp hstep
      split <;> exact .same rfl rfl
    · cases hstep
  | drain ok =>
    simp only [Streaming.exec] at hstep
    split at hstep
    · split at hstep <;> cases hstep <;> exact .same rfl rfl
    · cases hstep
  | request | recvError | handler =>
    simp only [Streaming.exec] at hstep
    split at hstep <;> cases hstep
    all_goals exact .same rfl rfl

theorem Ordered.step (h : Ordered s) {a : Streaming.Label} (horder : Streaming.InOrder s a)
    (hstep : LogStep s a t) : Ordered t := by
  cases hstep with
  | same hchildren hreceived => exact ⟨hchildren ▸ h.single, hreceived ▸ h.increasing⟩
  | fork hchildren hreceived =>
    refine ⟨?_, hreceived ▸ h.increasing⟩
    rw [hchildren, horder rfl]
    exact Nat.le_refl 1
  | receive hchildren hreceived =>
    refine ⟨hchildren ▸ h.single, ?_⟩
    rw [hreceived, List.pairwise_append]
    refine ⟨h.increasing, List.pairwise_singleton _ _, fun a ha b hb => ?_⟩
    rw [List.mem_singleton.mp hb]
    exact horder a ha

theorem ordered_of_reachable {buffer : ℕ → UInt8}
    (h : ((Streaming.system config files interval buffer).restrict Streaming.InOrder).Reachable s) :
    Ordered s := by
  apply h.invariant
  · rintro s rfl
    exact ⟨Nat.zero_le 1, .nil⟩
  · intro s a t _ hs hstep
    exact hs.step hstep.2 (logStep_of_exec hstep.1)

/-- What was received from the child, in the order sent. -/
theorem Ordered.sublist (h : Ordered s) (hinv : StreamInv config files interval s)
    {c : ℕ × AudioServer} (hc : c ∈ s.children) :
    (s.received.map Arrival.data).Sublist c.2.sent := by
  obtain ⟨i, hi⟩ := List.mem_iff_getElem?.mp hc
  have hsingle : ∀ (j : ℕ) (c' : ℕ × AudioServer), s.children[j]? = some c' → c' = c := by
    intro j c' hc'
    have hj := (List.getElem?_eq_some_iff.mp hc').1
    have hi' := (List.getElem?_eq_some_iff.mp hi).1
    have hle := h.single
    obtain rfl : j = i := by omega
    rw [hi] at hc'
    exact (Option.some.inj hc').symm
  have hplaces : ∀ p ∈ s.received.map fun a => (a.index, a.data), c.2.sent[p.1]? = some p.2 := by
    intro p hp
    obtain ⟨a, ha, rfl⟩ := List.mem_map.mp hp
    obtain ⟨c', hc', hsent⟩ := hinv.client.received a ha
    rwa [hsingle _ c' hc'] at hsent
  have hsub := sublist_drop_of_pairwise_lt _ 0 (List.pairwise_map.mpr h.increasing) hplaces
    fun p _ => Nat.zero_le _
  simpa [Function.comp_def] using hsub

/-! ## What is played -/

theorem flatMap_accepted (calls : List Call) :
    calls.flatMap Call.accepted = ((calls.filter (·.ret ≠ -1)).map Call.data).flatten := by
  induction calls with
  | nil => rfl
  | cons call calls ih =>
    rw [List.flatMap_cons, ih, Call.accepted, List.filter_cons]
    by_cases hret : call.ret = -1 <;> simp [hret]

/-- The data of the writes that were accepted, and of the one in progress. -/
def Writer.accepted (s : Writer) : List (List UInt8) :=
  ((s.calls.filter (·.ret ≠ -1)).map Call.data ++ [s.data]).filter (· ≠ [])

theorem Writer.accepted_sublist (s : Writer) : s.accepted.Sublist s.written :=
  ((List.filter_sublist.map _).append (List.Sublist.refl _)).filter _

theorem Writer.flatten_accepted (s : Writer) :
    s.accepted.flatten = s.calls.flatMap Call.accepted ++ s.data := by
  rw [Writer.accepted, List.flatten_filter_ne_nil, List.flatten_append, List.flatten_singleton,
    flatMap_accepted]

theorem Writer.stream_prefix (s : Writer) : s.stream <+: s.accepted.flatten := by
  rw [Writer.stream, Writer.flatten_accepted]
  exact (List.prefix_append_right_inj _).mpr (List.take_prefix _ _)

theorem Writer.stream_idle {s : Writer} (h : s.data = []) : s.stream = s.accepted.flatten := by
  rw [Writer.stream, Writer.flatten_accepted, h, List.take_nil]

theorem length_fileBlocks (file : List UInt8) (blocksize n : ℕ) :
    (fileBlocks file blocksize n).length = n := by
  rw [fileBlocks, List.length_map, List.length_range]

theorem filter_fileBlocks {file : List UInt8} {blocksize n : ℕ}
    (hn : n ≤ segmentCount blocksize file.length) :
    (fileBlocks file blocksize n).filter (· ≠ []) = fileBlocks file blocksize n := by
  apply List.filter_eq_self.mpr
  intro block hblock
  have hne : block ≠ [] := fun hnil => nil_notMem_fileBlocks hn (hnil ▸ hblock)
  exact decide_eq_true hne

/-- The blocks among the datagrams of a child without a read error. -/
theorem filter_sent {file : List UInt8} {blocksize : ℕ} {c : AudioServer}
    (h : SendsFile file blocksize interval c) (herror : c.error = false) :
    ∃ n ≤ segmentCount blocksize file.length, ∃ k,
      (0 < k → n = segmentCount blocksize file.length) ∧
      c.sent = fileBlocks file blocksize n ++ List.replicate k [] ∧
        c.sent.filter (· ≠ []) = fileBlocks file blocksize n := by
  obtain ⟨n, hn, k, -, hsent, hall⟩ := h.blocks herror
  refine ⟨n, hn, k, hall, hsent, ?_⟩
  rw [hsent, List.filter_append, filter_fileBlocks hn]
  simp

/-- The first blocks of a file are some of its blocks. -/
theorem fileBlocks_sublist {file : List UInt8} {blocksize n m : ℕ} (h : n ≤ m) :
    (fileBlocks file blocksize n).Sublist (fileBlocks file blocksize m) :=
  (List.range_sublist.mpr h).map _

/-- **Playback in order.** With one child, which reads the file without an error, and datagrams that
keep their order, what is played is the beginning of the file without some of its blocks; when 0 is
returned, it is all of that. -/
theorem played_of_inOrder {buffer : ℕ → UInt8}
    (h : ((Streaming.system config files interval buffer).restrict Streaming.InOrder).Reachable s)
    {file : List UInt8} (hfile : files config.filename.bytes = some file)
    (herror : ∀ c ∈ s.children, c.2.error = false) :
    ∃ blocks : List (List UInt8), blocks.Sublist
        (fileBlocks file config.blocksize (segmentCount config.blocksize file.length)) ∧
      s.writer.read <+: blocks.flatten ∧
      (s.phase = .returned 0 → s.writer.read = blocks.flatten) := by
  have hinv := streamInv_of_reachable h.of_restrict
  have hstreams := hinv.streams
  refine ⟨s.writer.accepted, ?_, hstreams.played.trans s.writer.stream_prefix, fun hreturned => ?_⟩
  · have hsub : s.writer.accepted.Sublist s.blocks :=
      hstreams.written.1 ▸ s.writer.accepted_sublist
    refine hsub.trans ?_
    rcases List.eq_nil_or_concat' s.received with hnil | ⟨before, a, hlast⟩
    · rw [Streaming.blocks, hnil]
      exact List.nil_sublist _
    · obtain ⟨c, hc, -⟩ :=
        hinv.client.received a (hlast ▸ List.mem_append_right _ List.mem_cons_self)
      have hmem := List.mem_of_getElem? hc
      obtain ⟨file', hfile', hsends⟩ := hstreams.sends c hmem
      obtain rfl := Option.some.inj (hfile'.symm.trans hfile)
      obtain ⟨n, hn, k, -, -, hblocks⟩ := filter_sent hsends (herror c hmem)
      have hreceived := ((ordered_of_reachable h).sublist hinv hmem).filter (· ≠ [])
      rw [hblocks] at hreceived
      exact hreceived.trans (fileBlocks_sublist hn)
  · have hidle := hinv.client.outside (by rw [hreturned]; trivial)
    rw [hstreams.finished hreturned, Writer.stream_idle (hinv.client.idle hidle)]

/-! ## Streaming without losses -/

/-- There is one child at most, and its datagrams have been received without a gap. -/
structure Gapless (s : Streaming) : Prop where
  single : s.children.length ≤ 1
  indices : s.received.map Arrival.index = List.range s.received.length

theorem Gapless.step (h : Gapless s) {a : Streaming.Label} (hlossless : Streaming.Lossless s a)
    (hstep : LogStep s a t) : Gapless t := by
  cases hstep with
  | same hchildren hreceived => exact ⟨hchildren ▸ h.single, hreceived ▸ h.indices⟩
  | fork hchildren hreceived =>
    refine ⟨?_, hreceived ▸ h.indices⟩
    rw [hchildren, hlossless rfl]
    exact Nat.le_refl 1
  | receive hchildren hreceived =>
    refine ⟨hchildren ▸ h.single, ?_⟩
    obtain rfl : _ = s.received.length := hlossless
    rw [hreceived, List.map_append, h.indices, List.length_append, List.length_singleton,
      List.range_succ]
    rfl

theorem gapless_of_reachable {buffer : ℕ → UInt8}
    (h : ((Streaming.system config files interval buffer).restrict
      Streaming.Lossless).Reachable s) :
    Gapless s := by
  apply h.invariant
  · rintro s rfl
    exact ⟨Nat.zero_le 1, rfl⟩
  · intro s a t _ hs hstep
    exact hs.step hstep.2 (logStep_of_exec hstep.1)

theorem Gapless.ordered (h : Gapless s) : Ordered s where
  single := h.single
  increasing := by
    have hlt := List.pairwise_lt_range (n := s.received.length)
    rwa [← h.indices, List.pairwise_map] at hlt

/-- The data of the datagrams that were received. -/
theorem Gapless.take_sent (h : Gapless s) (hinv : StreamInv config files interval s)
    {c : ℕ × AudioServer} (hc : s.children = [c]) :
    s.received.map Arrival.data = c.2.sent.take s.received.length := by
  apply List.ext_getElem?
  intro i
  by_cases hi : i < s.received.length
  · have hindex : s.received[i].index = i := by
      have hget := congrArg (·[i]?) h.indices
      simpa [hi] using hget
    obtain ⟨c', hc', hsent⟩ := hinv.client.received _ (List.getElem_mem hi)
    have hsame : c' = c := List.mem_singleton.mp (hc ▸ List.mem_of_getElem? hc')
    rw [List.getElem?_take_of_lt hi, ← hsame, ← hindex, hsent, hindex]
    simp [hi]
  · have hle := Nat.not_lt.mp hi
    rw [List.getElem?_eq_none (by rwa [List.length_map]),
      List.getElem?_eq_none ((List.length_take_le _ _).trans hle)]

/-- The blocks that were received, when the datagram behind them is empty. -/
theorem Gapless.blocks_eq (h : Gapless s) (hinv : StreamInv config files interval s)
    {file : List UInt8} (hfile : files config.filename.bytes = some file) {a : Arrival}
    (ha : a ∈ s.received) (hnil : a.data = []) :
    s.blocks = fileBlocks file config.blocksize (segmentCount config.blocksize file.length) := by
  obtain ⟨c, hc, hsent⟩ := hinv.client.received a ha
  have hmem := List.mem_of_getElem? hc
  have hsingle : s.children = [c] := by
    have hle := h.single
    have hpos := List.length_pos_of_mem hmem
    obtain ⟨c', hc'⟩ := List.length_eq_one_iff.mp (by omega : s.children.length = 1)
    rw [hc'] at hmem ⊢
    rw [List.mem_singleton.mp hmem]
  obtain ⟨file', hfile', hsends⟩ := hinv.streams.sends c hmem
  obtain rfl := Option.some.inj (hfile'.symm.trans hfile)
  have herror := hsends.eof (hnil ▸ List.mem_of_getElem? hsent)
  obtain ⟨n, hn, k, hall, hlog, -⟩ := filter_sent hsends herror
  have hlen := length_fileBlocks file' config.blocksize n
  have hbehind : n ≤ a.index := by
    by_contra hlt
    rw [hlog, List.getElem?_append_left (by omega), hnil] at hsent
    exact nil_notMem_fileBlocks hn (List.mem_of_getElem? hsent)
  have hpos : 0 < k := by
    have hlt := (List.getElem?_eq_some_iff.mp hsent).1
    rw [hlog, List.length_append, hlen, List.length_replicate] at hlt
    omega
  have hreceived : n ≤ s.received.length := by
    have hindex : a.index ∈ List.range s.received.length :=
      h.indices ▸ List.mem_map_of_mem ha
    exact hbehind.trans (List.mem_range.mp hindex).le
  rw [Streaming.blocks, h.take_sent hinv hsingle, hlog, List.take_append,
    List.take_of_length_le (by omega), List.filter_append, filter_fileBlocks hn, ← hall hpos]
  simp

/-- The blocks of a file are the file. -/
theorem flatten_fileBlocks (file : List UInt8) {blocksize : ℕ} (h : 0 < blocksize) :
    (fileBlocks file blocksize (segmentCount blocksize file.length)).flatten = file := by
  rw [fileBlocks, ← List.flatMap_def, flatMap_segment,
    List.take_of_length_le (le_segmentCount_mul h)]

theorem Streaming.Phase.ended.outside {phase : Phase} (h : phase.ended) : phase.outside := by
  cases phase <;> trivial

/-- **Playback without losses.** With one child, datagrams that all arrive in order and a queue that
was never full, the whole file has been written into the queue when the streaming ends, and it has
been played when 0 is returned. -/
theorem played_of_lossless {buffer : ℕ → UInt8}
    (h : ((Streaming.system config files interval buffer).restrict Streaming.Lossless).Reachable s)
    {file : List UInt8} (hfile : files config.filename.bytes = some file)
    (hended : s.phase.ended) (hcalls : ∀ call ∈ s.writer.calls, call.ret ≠ -1) :
    s.writer.stream = file ∧ (s.phase = .returned 0 → s.writer.read = file) := by
  have hinv := streamInv_of_reachable h.of_restrict
  have hstreams := hinv.streams
  obtain ⟨a, ha, hnil⟩ := hinv.client.ended hended
  have hblocks := (gapless_of_reachable h).blocks_eq hinv hfile ha hnil
  have hidle := hinv.client.idle (hinv.client.outside hended.outside)
  have haccepted : s.writer.accepted = s.blocks := by
    rw [← hstreams.written.1, Writer.accepted, Writer.written,
      List.filter_eq_self.mpr fun call hcall => decide_eq_true (hcalls call hcall)]
  have hstream : s.writer.stream = file := by
    rw [Writer.stream_idle hidle, haccepted, hblocks, flatten_fileBlocks file config.blocksize_pos]
  exact ⟨hstream, fun hreturned => (hstreams.finished hreturned).trans hstream⟩

/-! ## Two runs -/

/-- The request arrives, and the child of it sends the file of three bytes. -/
def smallSending : List Streaming.Label :=
  [.request ⟨List.replicate 10 0, rfl⟩ true true,
    .serve 0 ⟨List.replicate 10 0, rfl⟩ ⟨List.replicate 9 0, rfl⟩ true] ++
  [AudioServer.Label.call true, .call true, .call true, .fread 2, .call true, .call true,
    .call true, .recvError true, .fread 1, .call true, .call true, .call true, .recvError true,
    .fread 0, .call true].map (Streaming.Label.child 0)

/-- The first block is lost. -/
theorem played_of_inOrder_lost : ∃ s, ((Streaming.system smallStream (fun _ => some [1, 2, 3]) 100
      fun _ => 0).restrict Streaming.InOrder).Reachable s ∧ s.writer.stream = [3] ∧
    ∃ blocks : List (List UInt8), blocks.Sublist (fileBlocks [1, 2, 3] 2 2) ∧
      s.writer.read <+: blocks.flatten ∧
      (s.phase = .returned 0 → s.writer.read = blocks.flatten) := by
  have hrun : LTS.run (Streaming.exec smallStream (fun _ => some [1, 2, 3]) 100)
      Streaming.InOrder (Streaming.start smallStream fun _ => 0)
      (smallSending ++ .recvfrom 0 1 true :: List.replicate 10 .access) = some _ := rfl
  have hreach := LTS.reachable_of_run (LTS.Reachable.init rfl) hrun
  exact ⟨_, hreach, rfl, played_of_inOrder hreach rfl (by decide)⟩

/-- The runs go on with those of a child. -/
theorem reachable_child {buffer : ℕ → UInt8}
    (h : ((Streaming.system config files interval buffer).restrict Streaming.Lossless).Reachable s)
    {i : ℕ} {c : ℕ × AudioServer} (hc : s.children[i]? = some c) {labels : List AudioServer.Label}
    (hlabels : ∀ feedback data, .feedback feedback data ∉ labels) {child : AudioServer}
    (hrun : LTS.run (AudioServer.exec c.1) (fun _ _ => True) c.2 labels = some child) :
    ((Streaming.system config files interval buffer).restrict Streaming.Lossless).Reachable
      { s with children := s.children.set i (c.1, child) } := by
  induction labels generalizing s c with
  | nil =>
    obtain rfl := Option.some.inj hrun
    obtain ⟨hi, rfl⟩ := List.getElem?_eq_some_iff.mp hc
    rw [Prod.mk.eta, List.set_getElem_self]
    exact h
  | cons a labels ih =>
    cases hnext : c.2.exec c.1 a with
    | none =>
      rw [LTS.run, List.foldlM_cons, if_pos trivial, hnext] at hrun
      cases hrun
    | some child' =>
      rw [LTS.run_cons trivial hnext] at hrun
      have hexec : Streaming.exec config files interval s (.child i a) =
          some { s with children := s.children.set i (c.1, child') } := by
        cases a with
        | feedback feedback data => exact absurd List.mem_cons_self (hlabels feedback data)
        | call | fread | recvError =>
          simp only [Streaming.exec, hc, Option.bind_some, hnext, Option.map_some]
      have hi := (List.getElem?_eq_some_iff.mp hc).1
      have hrest := ih (h.next hexec trivial) (c := (c.1, child'))
        (List.getElem?_set_self hi) (fun feedback data hmem =>
          hlabels feedback data (List.mem_cons_of_mem _ hmem)) hrun
      rwa [List.set_set] at hrest

/-- The runs go on with memory accesses of the main thread. -/
theorem reachable_access {buffer : ℕ → UInt8}
    (h : ((Streaming.system config files interval buffer).restrict Streaming.Lossless).Reachable s)
    {child : ℕ} (hphase : s.phase = .write child) {writer : Writer}
    (hw : s.writer.Uninterrupted writer) :
    ((Streaming.system config files interval buffer).restrict Streaming.Lossless).Reachable
      { s with writer := writer } := by
  induction hw with
  | refl => exact h
  | tail _ hstep ih =>
    refine ih.next (a := Streaming.Label.access) ?_ trivial
    simp only [Streaming.exec, hphase, hstep, Option.map_some]

/-- The last frame is played. -/
theorem reachable_drain {buffer : ℕ → UInt8}
    (h : ((Streaming.system config files interval buffer).restrict Streaming.Lossless).Reachable s)
    (hphase : s.phase = .drain) {L : ℕ} {buf : List UInt8} (hrep : Represents L s.writer.queue buf)
    (hL : L ≤ sizeMax) (hlen : buf.length = audioFrameSize) :
    ((Streaming.system config files interval buffer).restrict Streaming.Lossless).Reachable
      { s with phase := .returned 0, writer := s.writer.handler } := by
  have hload : getQueueLoad s.writer.queue > 0 := by
    rw [getQueueLoad_eq hrep hL, hlen]
    decide
  obtain ⟨hread, hrest⟩ := readQueue_done hrep hL hlen.ge
  have hempty : ¬ getQueueLoad s.writer.handler.queue > 0 := by
    rw [Writer.handler, hread, getQueueLoad_eq hrest hL, List.length_drop, hlen]
    decide
  have hplay : Streaming.exec config files interval s (.drain true) =
      some { s with writer := s.writer.handler, phase := .drain } := by
    simp only [Streaming.exec, hphase, if_pos hload, if_true]
  refine (h.next hplay trivial).next (a := Streaming.Label.drain true) ?_ trivial
  simp only [Streaming.exec, if_neg hempty, if_true]

/-- A child that reads its file in one block, up to the first empty datagram. -/
theorem run_oneBlock {file : List UInt8} {blocksize : ℕ} (hpos : 0 < file.length)
    (hle : file.length ≤ blocksize) :
    LTS.run (AudioServer.exec blocksize) (fun _ _ => True) (AudioServer.start file interval)
      [.call true, .call true, .call true, .fread file.length, .call true, .call true, .call true,
        .recvError true, .fread 0, .call true] =
      some ⟨.sendEof 1, [], false, interval, [file, []], [interval], []⟩ := by
  simp [LTS.run, AudioServer.exec, AudioServer.done, AudioServer.start, AudioServer.read, hpos, hle,
    eofTries]

/-- A frame of zeros. -/
def frame : List UInt8 := List.replicate 4096 0

theorem length_frame : frame.length = 4096 := List.length_replicate

/-- The file `b.au` in blocks of one frame. -/
def frameStream : StreamConfig where
  filename := ⟨[0x62, 0x2e, 0x61, 0x75], by decide⟩
  blocksize := 4096
  length := 4097
  checkFilename := by decide
  blocksize_pos := by decide
  blocksize_lt := by decide
  length_pos := by decide
  length_le := by decide

/-- A file of one frame arrives and is played. -/
theorem played_of_lossless_frame :
    ∃ s, ((Streaming.system frameStream (fun _ => some frame) 100
      fun _ => 0).restrict Streaming.Lossless).Reachable s ∧ s.phase = .returned 0 ∧
    s.writer.stream = frame ∧ (s.phase = .returned 0 → s.writer.read = frame) := by
  have hrun : LTS.run (Streaming.exec frameStream (fun _ => some frame) 100)
      Streaming.Lossless (Streaming.start frameStream fun _ => 0)
      [.request ⟨List.replicate 10 0, rfl⟩ true true,
        .serve 0 ⟨List.replicate 10 0, rfl⟩ ⟨List.replicate 9 0, rfl⟩ true] =
      some ⟨.receive false, Writer.initial 4097 fun _ => 0,
        [encodeRequest frameStream.filename 4096 (List.replicate 10 0)], [],
        [(4096, AudioServer.start frame 100)], []⟩ := rfl
  have hserved := LTS.reachable_of_run (LTS.Reachable.init rfl) hrun
  have hchild := reachable_child hserved (i := 0) (c := (4096, AudioServer.start frame 100)) rfl
    (by simp) (run_oneBlock (by rw [length_frame]; decide) (by rw [length_frame]))
  have hreceive := hchild.next (a := Streaming.Label.recvfrom 0 0 true) rfl rfl
  obtain ⟨passed, n, hcall⟩ := (Writer.initial 4097 fun _ => 0).call_uninterrupted (frame.take 4096)
  have hwrite := reachable_access hreceive rfl hcall
  have hlen : (frame.take 4096).length = 4096 := by rw [List.length_take, length_frame]; rfl
  obtain ⟨queue, hqueue, hrep⟩ := writeQueue_done
    (represents_emptyQueue (by decide : 1 ≤ 4097) fun _ => 0) (frame.take 4096)
    (by rw [hlen]; decide) (by rw [hlen]; decide)
  have hstart : (Writer.initial 4097 fun _ => 0).queue = emptyQueue 4097 fun _ => 0 := rfl
  rw [hstart, hqueue] at hwrite
  have hend := (hwrite.next (a := Streaming.Label.feedback 0 true false) rfl trivial).next
    (a := Streaming.Label.recvfrom 0 1 true) rfl rfl
  have hreach := reachable_drain hend rfl hrep (by decide) hlen
  refine ⟨_, hreach, rfl, played_of_lossless hreach rfl rfl ?_⟩
  intro call hcall
  rw [List.mem_singleton.mp hcall, hlen]
  exact (by decide : toSsize 4096 ≠ -1)

end CS536Labs.Lab5
