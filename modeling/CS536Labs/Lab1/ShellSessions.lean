import CS536Labs.Lab1.CommandShell
import Mathlib.Data.Set.Basic

/-!
# Sessions of the shell

The read of the server finds whole messages. It takes the first one for its request and drops those
behind it.

* `routed_of_reachable`: the answers do not get mixed up, however the clients are interleaved. A
  client has been answered for its lines one after the other, each time with all that the program
  for this very line has written, and shows nothing else.
* `blocked_of_long` and `blocked_of_behind`: a client hangs with a line that is too long, and with a
  request that was read behind another one.

The requests that were written, not lost and not answered are `outstanding`. They belong to
different clients, which wait for their FIFO to be opened, so that the child finds the client it
looks for.
-/

namespace CS536Labs.Lab1

variable {ι : Type} [DecidableEq ι]

/-- The line that was executed was the client's, and it has printed what it has read. -/
structure Answer.Fits (a : Answer) : Prop where
  command : a.command = a.line.text ++ [0x0a]
  printed : 0 ∉ a.output → a.printed = a.received

/-- What a client shows for its answers. -/
def transcript (answers : List Answer) : List UInt8 := answers.flatMap fun a => prompt ++ a.printed

theorem transcript_concat (answers : List Answer) (a : Answer) :
    transcript (answers ++ [a]) = transcript answers ++ (prompt ++ a.printed) := by
  rw [transcript, List.flatMap_append, List.flatMap_singleton]
  rfl

namespace CommandClient

/-- The line that the client works on. -/
def Ctl.lines : CommandClient.Ctl → List InputLine
  | .write line | .openFifo line => [line]
  | .read a => [a.line]
  | _ => []

/-- What the client shows behind its answers. -/
def Ctl.shown : CommandClient.Ctl → List UInt8
  | .read a => prompt ++ a.printed
  | _ => prompt

/-- A client with this input, its FIFO, and what will still be written to that. -/
structure Session (input : List InputLine) (c : CommandClient) (fifo : List UInt8)
    (rest : Option (List UInt8)) : Prop where
  lines : input = c.answers.map Answer.line ++ (c.ctl.lines ++ c.input)
  stdout : c.stdout = transcript c.answers ++ c.ctl.shown
  answers : ∀ a ∈ c.answers, a.Fits ∧ a.received = a.output
  reading : ∀ a, c.ctl = .read a → a.Fits ∧ a.output = a.received ++ (fifo ++ rest.getD [])
  quiet : (∀ a, c.ctl ≠ .read a) → fifo = [] ∧ rest = none
  returned : ∀ ret, c.ctl = .returned ret → ret = 0 ∧ c.input = []

namespace Session

variable {input : List InputLine} {c : CommandClient} {fifo : List UInt8}
  {rest : Option (List UInt8)}

theorem start (input : List InputLine) : Session input (.start input) [] none where
  lines := rfl
  stdout := rfl
  answers a ha := absurd ha List.not_mem_nil
  reading a ha := by cases ha
  quiet _ := ⟨rfl, rfl⟩
  returned ret hret := by cases hret

theorem fgets (h : Session input c fifo rest) (hctl : c.ctl = .fgets) :
    Session input c.readLine fifo rest := by
  obtain ⟨hlines, hstdout, hanswers, -, hquiet, -⟩ := h
  rw [hctl] at hlines hstdout
  have hquiet' := hquiet fun a ha => by cases hctl.symm.trans ha
  rw [readLine]
  split
  · rename_i hinput
    rw [hinput] at hlines
    refine ⟨by rw [hlines, hinput]; rfl, hstdout, hanswers, fun a ha => ?_, fun _ => hquiet',
      fun ret hret => ?_⟩
    · cases ha
    · cases hret
      exact ⟨rfl, hinput⟩
  · rename_i line input' hinput
    rw [hinput] at hlines
    refine ⟨hlines, hstdout, hanswers, fun a ha => ?_, fun _ => hquiet', fun ret hret => ?_⟩
    · cases ha
    · cases hret

theorem write {line : InputLine} (h : Session input c fifo rest) (hctl : c.ctl = .write line) :
    Session input { c with ctl := .openFifo line } fifo rest := by
  obtain ⟨hlines, hstdout, hanswers, -, hquiet, -⟩ := h
  rw [hctl] at hlines hstdout
  have hquiet' := hquiet fun a ha => by cases hctl.symm.trans ha
  refine ⟨hlines, hstdout, hanswers, fun a ha => ?_, fun _ => hquiet', fun ret hret => ?_⟩
  · cases ha
  · cases hret

/-- The program for the line is executed. -/
theorem openFifo {line : InputLine} (h : Session input c fifo rest) (hctl : c.ctl = .openFifo line)
    {command : List UInt8} (hcommand : command = line.text ++ [0x0a]) (output : List UInt8) :
    Session input { c with ctl := .read ⟨line, command, output, [], []⟩ } fifo (some output) := by
  obtain ⟨hlines, hstdout, hanswers, -, hquiet, -⟩ := h
  rw [hctl] at hlines hstdout
  obtain ⟨rfl, -⟩ := hquiet fun a ha => by cases hctl.symm.trans ha
  refine ⟨hlines, ?_, hanswers, fun a ha => ?_, fun hnot => ?_, fun ret hret => ?_⟩
  · exact hstdout.trans (congrArg (transcript c.answers ++ ·) (List.append_nil _).symm)
  · obtain rfl := Ctl.read.inj ha
    exact ⟨⟨hcommand, fun _ => rfl⟩, rfl⟩
  · exact absurd rfl (hnot _)
  · cases hret

/-- The program writes to the FIFO. -/
theorem childWrite {rest : List UInt8} (h : Session input c fifo (some rest)) (n : ℕ) :
    Session input c (fifo ++ rest.take n) (some (rest.drop n)) := by
  refine ⟨h.lines, h.stdout, h.answers, fun a ha => ?_, fun hnot => ?_, h.returned⟩
  · obtain ⟨hfits, houtput⟩ := h.reading a ha
    refine ⟨hfits, houtput.trans ?_⟩
    rw [Option.getD_some, Option.getD_some, List.append_assoc, List.take_append_drop]
  · cases (h.quiet hnot).2

/-- The program ends. -/
theorem childExit (h : Session input c fifo (some [])) : Session input c fifo none := by
  refine ⟨h.lines, h.stdout, h.answers, h.reading, fun hnot => ?_, h.returned⟩
  cases (h.quiet hnot).2

theorem read {a : Answer} (h : Session input c fifo rest) (hctl : c.ctl = .read a) (n : ℕ) :
    Session input (c.print a (fifo.take n)) (fifo.drop n) rest := by
  obtain ⟨hlines, hstdout, hanswers, hreading, -, -⟩ := h
  obtain ⟨⟨hcommand, hprinted⟩, houtput⟩ := hreading a hctl
  rw [hctl] at hlines hstdout
  refine ⟨hlines, ?_, hanswers, fun b hb => ?_, fun hnot => absurd rfl (hnot _), fun ret hret => ?_⟩
  · show c.stdout ++ cString (fifo.take n) =
      transcript c.answers ++ (prompt ++ (a.printed ++ cString (fifo.take n)))
    rw [hstdout, List.append_assoc]
    exact congrArg (transcript c.answers ++ ·) (List.append_assoc _ _ _)
  · obtain rfl := Ctl.read.inj hb
    refine ⟨⟨hcommand, fun hnul => ?_⟩, ?_⟩
    · have hnul' : 0 ∉ fifo.take n := by
        intro hmem
        rw [houtput] at hnul
        exact hnul (List.mem_append_right _ (List.mem_append_left _ (List.mem_of_mem_take hmem)))
      show a.printed ++ cString (fifo.take n) = a.received ++ fifo.take n
      rw [hprinted hnul, cString_eq_self hnul']
    · show a.output = a.received ++ fifo.take n ++ (fifo.drop n ++ rest.getD [])
      rw [houtput, List.append_assoc, ← List.append_assoc (fifo.take n), List.take_append_drop]
  · cases hret

theorem endOfFile {a : Answer} (h : Session input c [] none) (hctl : c.ctl = .read a) :
    Session input (c.finish a) [] none := by
  obtain ⟨hlines, hstdout, hanswers, hreading, -, -⟩ := h
  obtain ⟨hfits, houtput⟩ := hreading a hctl
  rw [hctl] at hlines hstdout
  refine ⟨?_, ?_, ?_, fun b hb => ?_, fun _ => ⟨rfl, rfl⟩, fun ret hret => ?_⟩
  · rw [hlines]
    show _ = (c.answers ++ [a]).map Answer.line ++ ([] ++ c.input)
    rw [List.map_append, List.append_assoc]
    rfl
  · show c.stdout ++ prompt = transcript (c.answers ++ [a]) ++ prompt
    rw [hstdout, transcript_concat]
    rfl
  · intro b hb
    rcases List.mem_append.mp hb with hb | hb
    · exact hanswers b hb
    · rw [List.mem_singleton.mp hb]
      exact ⟨hfits, (houtput.trans (List.append_nil _)).symm⟩
  · cases hb
  · cases hret

end Session

end CommandClient

/-! ## The requests on their way -/

theorem Request.message_injective : Function.Injective Request.message := by
  intro r r' h
  have hparsed : r.parsed = r'.parsed := by
    have hparse := r.parseRequest_message
    rw [h, r'.parseRequest_message] at hparse
    exact (Option.some.inj hparse).symm
  obtain ⟨hpid, hcommand⟩ := Prod.mk.inj hparsed
  have hline := List.append_cancel_right hcommand
  cases r
  cases r'
  cases hpid
  cases hline
  rfl

/-- The messages in front of a queue are those of its first requests. -/
theorem Request.exists_append_of_flatMap {rs pending : List Request} {rest : List UInt8}
    (h : rs.flatMap Request.message ++ rest = pending.flatMap Request.message) :
    ∃ pending', pending = rs ++ pending' ∧ rest = pending'.flatMap Request.message := by
  induction rs generalizing pending with
  | nil => exact ⟨pending, rfl, h⟩
  | cons r rs ih =>
    cases pending with
    | nil =>
      rw [List.flatMap_cons, List.flatMap_nil, List.append_assoc] at h
      exact absurd (List.append_eq_nil_iff.mp h).1 (by simp [Request.message])
    | cons r' pending =>
      rw [List.flatMap_cons, List.flatMap_cons, List.append_assoc] at h
      obtain rfl := Request.message_injective (Request.message_unique h)
      obtain ⟨pending', rfl, hrest⟩ := ih (List.append_cancel_left h)
      exact ⟨pending', rfl, hrest⟩

/-- The first message that is read is handled. -/
theorem RequestServer.exec_read {s t : RequestServer} {pending : List Request} {n : ℕ} {r : Request}
    {rs : List Request} (hrunning : s.running = true)
    (hqueue : s.pipe.queue = pending.flatMap Request.message)
    (hwhole : s.pipe.queue.take n = r.message ++ rs.flatMap Request.message)
    (h : s.exec (.read n) = some t) :
    ∃ pending', pending = r :: (rs ++ pending') ∧ t.running = true ∧
      t.handled = s.handled ++ [r.parsed] ∧ t.pipe.queue = pending'.flatMap Request.message := by
  rw [exec, if_pos hrunning] at h
  obtain ⟨⟨buf, pipe⟩, hread, rfl⟩ := Option.map_eq_some_iff.mp h
  obtain ⟨-, htake, hsplit, -, -⟩ := Pipe.read_eq_some hread
  rw [hwhole] at htake
  subst htake
  have hparse : parseRequest (r.message ++ rs.flatMap Request.message) = some r.parsed :=
    (parseRequest_eq_some_iff _ _ _).mpr ⟨r.pid_ne_nil, r.pid_noNewline, by simp, 0,
      r.cString_message_append _⟩
  have hall : (r :: rs).flatMap Request.message ++ pipe.queue =
      pending.flatMap Request.message := by
    rw [List.flatMap_cons, ← hsplit, hqueue]
  obtain ⟨pending', rfl, hrest⟩ := Request.exists_append_of_flatMap hall
  refine ⟨pending', rfl, ?_⟩
  simp only [hparse]
  exact ⟨trivial, trivial, hrest⟩

/-- The request that the child opens a FIFO for. -/
def ShellChild.request : ShellChild ι → List (List UInt8 × List UInt8)
  | .opening request => [request]
  | _ => []

/-- The requests that the server has not lost, and for which nothing was executed. -/
def outstanding (child : ShellChild ι) (pending : List Request) :
    List (List UInt8 × List UInt8) := child.request ++ pending.map Request.parsed

omit [DecidableEq ι] in
theorem outstanding_concat (child : ShellChild ι) (pending : List Request) (r : Request) :
    outstanding child (pending ++ [r]) = outstanding child pending ++ [r.parsed] := by
  rw [outstanding, outstanding, List.map_append, List.append_assoc]
  rfl

namespace CommandShell

variable {clients : Clients ι} {input : ι → List InputLine} {s t : CommandShell ι}
  {pending : List Request} {lost : Set ι}

/-- The invariant of the shell, with the requests that are queued and the clients whose requests
were lost. -/
structure Inv (clients : Clients ι) (input : ι → List InputLine) (s : CommandShell ι)
    (pending : List Request) (lost : Set ι) : Prop where
  running : s.server.running = true
  queue : s.server.pipe.queue = pending.flatMap Request.message
  waiting : ∀ p ∈ outstanding s.child pending, ∃ i line, (s.client i).ctl = .openFifo line ∧
    (clients.request i line).message.length ≤ pipeBuf ∧ p = (clients.request i line).parsed
  nodup : ((outstanding s.child pending).map Prod.fst).Nodup
  asked : ∀ i line, (s.client i).ctl = .openFifo line →
    (clients.request i line).message.length ≤ pipeBuf →
      (clients.request i line).parsed ∈ outstanding s.child pending ∨ i ∈ lost
  sessions : ∀ i, (s.client i).Session (input i) (s.fifo i) (s.child.rest i)

theorem inv_start (clients : Clients ι) (input : ι → List InputLine) :
    Inv clients input (start input) [] ∅ where
  running := rfl
  queue := rfl
  waiting p hp := absurd hp List.not_mem_nil
  nodup := List.nodup_nil
  asked i line hctl := by cases hctl
  sessions i := CommandClient.Session.start (input i)

/-- A client that is not waiting for its FIFO has no request on its way. -/
theorem Inv.pid_notMem (h : Inv clients input s pending lost) {i : ι}
    (hctl : ∀ line, (s.client i).ctl ≠ .openFifo line) :
    clients.pid i ∉ (outstanding s.child pending).map Prod.fst := by
  intro hmem
  obtain ⟨p, hp, hpid⟩ := List.mem_map.mp hmem
  obtain ⟨j, line, hj, -, rfl⟩ := h.waiting p hp
  obtain rfl := clients.pid_inj hpid
  exact hctl line hj

/-- A client moves, and no request is concerned. -/
theorem Inv.client (h : Inv clients input s pending lost) {i : ι} {c : CommandClient}
    (hctl : ∀ line, (s.client i).ctl ≠ .openFifo line) (hctl' : ∀ line, c.ctl ≠ .openFifo line)
    (fifo : ι → List UInt8) (hfifo : ∀ j, j ≠ i → fifo j = s.fifo j)
    (hsession : c.Session (input i) (fifo i) (s.child.rest i)) :
    Inv clients input { s with client := Function.update s.client i c, fifo := fifo } pending
      lost where
  running := h.running
  queue := h.queue
  waiting p hp := by
    obtain ⟨j, line, hj, hlen, heq⟩ := h.waiting p hp
    have hne : j ≠ i := by
      rintro rfl
      exact hctl line hj
    exact ⟨j, line, by simpa only [Function.update_of_ne hne] using hj, hlen, heq⟩
  nodup := h.nodup
  asked j line hj := by
    rcases eq_or_ne j i with rfl | hne
    · simp only [Function.update_self] at hj
      exact absurd hj (hctl' line)
    · simp only [Function.update_of_ne hne] at hj
      exact h.asked j line hj
  sessions j := by
    rcases eq_or_ne j i with rfl | hne
    · simpa only [Function.update_self] using hsession
    · simpa only [Function.update_of_ne hne, hfifo j hne] using h.sessions j

/-- A client writes its request. -/
theorem Inv.write (h : Inv clients input s pending lost) {i : ι} {line : InputLine}
    (hctl : (s.client i).ctl = .write line)
    (hlen : (clients.request i line).message.length ≤ pipeBuf) :
    Inv clients input
      { s with
        client := Function.update s.client i { s.client i with ctl := .openFifo line }
        server := { s.server with pipe := s.server.pipe.write (clients.request i line) } }
      (pending ++ [clients.request i line]) lost := by
  have hnot : ∀ line, (s.client i).ctl ≠ .openFifo line := fun line' hline' => by
    cases hctl.symm.trans hline'
  have houtstanding := outstanding_concat s.child pending (clients.request i line)
  refine ⟨h.running, ?_, ?_, ?_, ?_, fun j => ?_⟩
  · show s.server.pipe.queue ++ _ = _
    rw [h.queue, List.flatMap_append, List.flatMap_singleton]
  · rw [houtstanding]
    intro p hp
    rcases List.mem_append.mp hp with hp | hp
    · obtain ⟨j, line', hj, hlen', heq⟩ := h.waiting p hp
      have hne : j ≠ i := by
        rintro rfl
        exact hnot line' hj
      exact ⟨j, line', by simpa only [Function.update_of_ne hne] using hj, hlen', heq⟩
    · exact ⟨i, line, by simp only [Function.update_self], hlen, List.mem_singleton.mp hp⟩
  · rw [houtstanding, List.map_append, List.nodup_append]
    refine ⟨h.nodup, List.pairwise_singleton _ _, fun pid hpid pid' hpid' => ?_⟩
    obtain rfl := List.mem_singleton.mp hpid'
    rintro rfl
    exact h.pid_notMem hnot hpid
  · rw [houtstanding]
    intro j line' hj hlen'
    rcases eq_or_ne j i with rfl | hne
    · simp only [Function.update_self] at hj
      obtain rfl := CommandClient.Ctl.openFifo.inj hj
      exact .inl (List.mem_append_right _ (List.mem_singleton_self _))
    · simp only [Function.update_of_ne hne] at hj
      exact (h.asked j line' hj hlen').imp_left (List.mem_append_left _)
  · rcases eq_or_ne j i with rfl | hne
    · simpa only [Function.update_self] using (h.sessions j).write hctl
    · simpa only [Function.update_of_ne hne] using h.sessions j

/-- A request that is too long is not written. -/
theorem Inv.notWritten (h : Inv clients input s pending lost) {i : ι} {line : InputLine}
    (hctl : (s.client i).ctl = .write line)
    (hlen : pipeBuf < (clients.request i line).message.length) :
    Inv clients input
      { s with client := Function.update s.client i { s.client i with ctl := .openFifo line } }
      pending lost := by
  refine ⟨h.running, h.queue, fun p hp => ?_, h.nodup, fun j line' hj hlen' => ?_, fun j => ?_⟩
  · obtain ⟨j, line', hj, hlen', heq⟩ := h.waiting p hp
    have hne : j ≠ i := by
      rintro rfl
      cases hctl.symm.trans hj
    exact ⟨j, line', by simpa only [Function.update_of_ne hne] using hj, hlen', heq⟩
  · rcases eq_or_ne j i with rfl | hne
    · simp only [Function.update_self] at hj
      obtain rfl := CommandClient.Ctl.openFifo.inj hj
      omega
    · simp only [Function.update_of_ne hne] at hj
      exact h.asked j line' hj hlen'
  · rcases eq_or_ne j i with rfl | hne
    · simpa only [Function.update_self] using (h.sessions j).write hctl
    · simpa only [Function.update_of_ne hne] using h.sessions j

omit [DecidableEq ι] in
theorem outstanding_absent (r : Request) (rs pending : List Request) :
    outstanding (.absent : ShellChild ι) (r :: (rs ++ pending)) =
      r.parsed :: (rs.map Request.parsed ++ pending.map Request.parsed) := by
  rw [← List.map_append]
  rfl

omit [DecidableEq ι] in
/-- The requests behind the first one are lost. -/
theorem outstanding_opening_sublist (r : Request) (rs pending : List Request) :
    (outstanding (.opening r.parsed : ShellChild ι) pending).Sublist
      (outstanding (.absent : ShellChild ι) (r :: (rs ++ pending))) := by
  rw [outstanding_absent]
  exact (List.sublist_append_right _ _).cons_cons _

/-- The server reads requests and forks for the first one. -/
theorem Inv.serve {r : Request} {rs : List Request}
    (h : Inv clients input s (r :: (rs ++ pending)) lost) {server : RequestServer}
    (hchild : s.child = .absent) (hrunning : server.running = true)
    (hqueue : server.pipe.queue = pending.flatMap Request.message) :
    Inv clients input { s with server := server, child := .opening r.parsed } pending
      (lost ∪ {i | ∃ line, (clients.request i line).parsed ∈ rs.map Request.parsed}) := by
  have hsublist := outstanding_opening_sublist (ι := ι) r rs pending
  rw [← hchild] at hsublist
  refine ⟨hrunning, hqueue, fun p hp => h.waiting p (hsublist.subset hp),
    h.nodup.sublist (hsublist.map _), fun i line hi hlen => ?_, fun i => ?_⟩
  · have hasked := h.asked i line hi hlen
    rw [hchild, outstanding_absent, List.mem_cons, List.mem_append] at hasked
    rcases hasked with (hr | hrs | hpending) | hlost
    · exact .inl (List.mem_cons.mpr (.inl hr))
    · exact .inr (.inr ⟨line, hrs⟩)
    · exact .inl (List.mem_cons_of_mem _ hpending)
    · exact .inr (.inl hlost)
  · have hsession := h.sessions i
    rw [hchild] at hsession
    exact hsession

/-- The client and the child of its request meet. -/
theorem Inv.openFifo (h : Inv clients input s pending lost) {i : ι} {line : InputLine}
    {command : List UInt8} (output : List UInt8) (hctl : (s.client i).ctl = .openFifo line)
    (hchild : s.child = .opening (clients.pid i, command)) :
    Inv clients input
      { s with
        client := Function.update s.client i
          { s.client i with ctl := .read ⟨line, command, output, [], []⟩ }
        child := .writing i output } pending lost := by
  have houtstanding : outstanding s.child pending =
      (clients.pid i, command) :: pending.map Request.parsed := by
    rw [hchild]
    rfl
  have hnodup := h.nodup
  rw [houtstanding, List.map_cons, List.nodup_cons] at hnodup
  have hcommand : command = line.text ++ [0x0a] := by
    obtain ⟨j, line', hj, -, heq⟩ := h.waiting _ (houtstanding ▸ List.mem_cons_self)
    obtain ⟨hpid, hcommand⟩ := Prod.mk.inj heq
    obtain rfl := clients.pid_inj hpid
    obtain rfl := CommandClient.Ctl.openFifo.inj (hctl.symm.trans hj)
    exact hcommand
  have hsession := h.sessions i
  refine ⟨h.running, h.queue, fun p hp => ?_, hnodup.2, fun j line' hj hlen => ?_, fun j => ?_⟩
  · obtain ⟨j, line', hj, hlen, rfl⟩ := h.waiting p (houtstanding ▸ List.mem_cons_of_mem _ hp)
    have hne : j ≠ i := by
      rintro rfl
      exact hnodup.1 (List.mem_map.mpr ⟨_, hp, rfl⟩)
    exact ⟨j, line', by simpa only [Function.update_of_ne hne] using hj, hlen, rfl⟩
  · have hne : j ≠ i := by
      rintro rfl
      simp only [Function.update_self] at hj
      cases hj
    simp only [Function.update_of_ne hne] at hj
    refine (h.asked j line' hj hlen).imp_left fun hmem => ?_
    rw [houtstanding] at hmem
    refine (List.mem_cons.mp hmem).resolve_left fun heq => hne ?_
    exact clients.pid_inj (Prod.mk.inj heq).1
  · rcases eq_or_ne j i with rfl | hne
    · simp only [Function.update_self, ShellChild.rest, if_true]
      exact hsession.openFifo hctl hcommand output
    · have hother := h.sessions j
      rw [hchild] at hother
      simpa only [Function.update_of_ne hne, ShellChild.rest, if_neg hne.symm] using hother

/-- The child goes on. -/
theorem Inv.child (h : Inv clients input s pending lost) {i : ι} {rest : List UInt8}
    {child : ShellChild ι} (hchild : s.child = .writing i rest) (hnone : child.request = [])
    (fifo : ι → List UInt8)
    (hsessions : ∀ j, (s.client j).Session (input j) (fifo j) (child.rest j)) :
    Inv clients input { s with child := child, fifo := fifo } pending lost := by
  have houtstanding : outstanding child pending = outstanding s.child pending := by
    rw [outstanding, outstanding, hnone, hchild]
    rfl
  exact ⟨h.running, h.queue, houtstanding ▸ h.waiting, houtstanding ▸ h.nodup,
    houtstanding ▸ h.asked, hsessions⟩

/-- A request is only lost behind another one, and none is sent again. -/
theorem Inv.step (h : Inv clients input s pending lost) {a : Label ι} (hstep : Step clients s a t)
    (hwhole : s.WholeMessages a) :
    ∃ pending' lost', Inv clients input t pending' lost' ∧ (s.WholeMessage a → lost' = lost) ∧
      ∀ pid ∈ (outstanding t.child pending').map Prod.fst,
        pid ∈ (outstanding s.child pending).map Prod.fst ∨
          ∃ i line, (s.client i).ctl = .write line ∧ pid = clients.pid i := by
  cases hstep with
  | @fgets i hctl =>
    refine ⟨pending, lost, h.client (fun line hline => by cases hctl.symm.trans hline) ?_ s.fifo
      (fun _ _ => rfl) ((h.sessions i).fgets hctl), fun _ => rfl, fun _ => .inl⟩
    intro line
    rw [CommandClient.readLine]
    split <;> exact CommandClient.Ctl.noConfusion
  | @write i line hctl _ hlen =>
    refine ⟨_, lost, h.write hctl hlen, fun _ => rfl, fun pid hpid => ?_⟩
    rw [outstanding_concat, List.map_append, List.mem_append] at hpid
    exact hpid.imp_right fun hnew => ⟨i, line, hctl, List.mem_singleton.mp hnew⟩
  | notWritten hctl hlen => exact ⟨_, lost, h.notWritten hctl hlen, fun _ => rfl, fun _ => .inl⟩
  | notOpened _ hrunning => cases h.running.symm.trans hrunning
  | serve hchild hserver =>
    obtain ⟨r, rs, hread⟩ := hwhole
    obtain ⟨pending', rfl, hrunning, hhandled, hqueue⟩ :=
      RequestServer.exec_read h.running h.queue hread hserver
    rw [hhandled, List.drop_left]
    refine ⟨pending', _, h.serve hchild hrunning hqueue, ?_, fun pid hpid => .inl ?_⟩
    · rintro ⟨r', hr'⟩
      have hone : rs.flatMap Request.message ++ [] = [].flatMap Request.message := by
        have hboth := hread.symm.trans hr'
        rw [← List.append_nil r'.message] at hboth
        rw [Request.message_unique hboth] at hboth
        rw [List.append_nil, List.append_cancel_left hboth]
        rfl
      obtain ⟨rest, hnil, -⟩ := Request.exists_append_of_flatMap hone
      obtain ⟨rfl, -⟩ := List.append_eq_nil_iff.mp hnil.symm
      simp
    · rw [hchild]
      exact ((outstanding_opening_sublist r rs pending').map Prod.fst).subset hpid
  | openFifo output hctl hchild =>
    refine ⟨_, lost, h.openFifo output hctl hchild, fun _ => rfl, fun pid hpid => .inl ?_⟩
    rw [hchild]
    exact List.mem_cons_of_mem _ hpid
  | @childWrite i n rest hchild =>
    refine ⟨pending, lost, h.child hchild rfl _ fun j => ?_, fun _ => rfl, fun pid hpid => .inl ?_⟩
    · have hsession := h.sessions j
      rw [hchild] at hsession
      rcases eq_or_ne j i with rfl | hne
      · simp only [ShellChild.rest, if_true] at hsession
        simpa only [Function.update_self, ShellChild.rest, if_true] using hsession.childWrite n
      · simpa only [Function.update_of_ne hne, ShellChild.rest, if_neg hne.symm] using hsession
    · rw [hchild]
      exact hpid
  | @childExit i hchild =>
    refine ⟨pending, lost, h.child hchild rfl _ fun j => ?_, fun _ => rfl, fun pid hpid => .inl ?_⟩
    · have hsession := h.sessions j
      rw [hchild] at hsession
      rcases eq_or_ne j i with rfl | hne
      · simp only [ShellChild.rest, if_true] at hsession
        exact hsession.childExit
      · simpa only [ShellChild.rest, if_neg hne.symm] using hsession
    · rw [hchild]
      exact hpid
  | @read i n a hctl =>
    refine ⟨pending, lost, h.client (fun line hline => by cases hctl.symm.trans hline)
      (fun _ => CommandClient.Ctl.noConfusion) _ (fun j hne => Function.update_of_ne hne _ _) ?_,
      fun _ => rfl, fun _ => .inl⟩
    rw [Function.update_self]
    exact (h.sessions i).read hctl n
  | @endOfFile i a hctl hempty hrest =>
    refine ⟨pending, lost, h.client (fun line hline => by cases hctl.symm.trans hline)
      (fun _ => CommandClient.Ctl.noConfusion) s.fifo (fun _ _ => rfl) ?_, fun _ => rfl,
      fun _ => .inl⟩
    have hsession := h.sessions i
    rw [hempty, hrest] at hsession ⊢
    exact hsession.endOfFile hctl

/-- **The invariant holds in every run with whole messages.** -/
theorem inv_of_reachable (h : ((system clients input).restrict WholeMessages).Reachable s) :
    ∃ pending lost, Inv clients input s pending lost := by
  refine h.invariant (I := fun s => ∃ pending lost, Inv clients input s pending lost) ?_ ?_
  · rintro s rfl
    exact ⟨[], ∅, inv_start clients input⟩
  · rintro s a t - ⟨pending, lost, hinv⟩ ⟨hexec, hwhole⟩
    obtain ⟨pending', lost', hinv', -, -⟩ := hinv.step (step_of_exec hexec) hwhole
    exact ⟨pending', lost', hinv'⟩

/-- No request is lost when each read returns one message. -/
theorem inv_of_reachable_one (h : ((system clients input).restrict WholeMessage).Reachable s) :
    ∃ pending, Inv clients input s pending ∅ := by
  refine h.invariant (I := fun s => ∃ pending, Inv clients input s pending ∅) ?_ ?_
  · rintro s rfl
    exact ⟨[], inv_start clients input⟩
  · rintro s a t - ⟨pending, hinv⟩ ⟨hexec, hwhole⟩
    obtain ⟨pending', lost', hinv', hlost, -⟩ := hinv.step (step_of_exec hexec) hwhole.wholeMessages
    obtain rfl := hlost hwhole
    exact ⟨pending', hinv'⟩

/-- What a client with this input has been answered, and shows. -/
structure Routed (input : List InputLine) (c : CommandClient) : Prop where
  lines : ∃ rest, input = c.answers.map Answer.line ++ rest ∧
    ∀ ret, c.ctl = .returned ret → ret = 0 ∧ rest = []
  answers : ∀ a ∈ c.answers, a.command = a.line.text ++ [0x0a] ∧ a.received = a.output ∧
    (0 ∉ a.output → a.printed = a.output)
  reading : ∀ a, c.ctl = .read a → a.command = a.line.text ++ [0x0a] ∧ a.received <+: a.output
  stdout : c.stdout = transcript c.answers ++ c.ctl.shown

/-- **The answers find their clients.** -/
theorem routed_of_reachable (h : ((system clients input).restrict WholeMessages).Reachable s) :
    s.server.running = true ∧ ∀ i, Routed (input i) (s.client i) := by
  obtain ⟨pending, lost, hinv⟩ := inv_of_reachable h
  refine ⟨hinv.running, fun i => ?_⟩
  obtain ⟨hlines, hstdout, hanswers, hreading, -, hreturned⟩ := hinv.sessions i
  refine ⟨⟨_, hlines, fun ret hret => ?_⟩, fun a ha => ?_, fun a ha => ?_, hstdout⟩
  · obtain ⟨hzero, hinput⟩ := hreturned ret hret
    rw [hret, hinput]
    exact ⟨hzero, rfl⟩
  · obtain ⟨hfits, hreceived⟩ := hanswers a ha
    exact ⟨hfits.command, hreceived, fun hnul => (hfits.printed hnul).trans hreceived⟩
  · obtain ⟨hfits, houtput⟩ := hreading a ha
    exact ⟨hfits.command, houtput ▸ List.prefix_append _ _⟩

/-! ## Two clients -/

/-- The clients 1 and 2. -/
def twoClients : Clients Bool where
  pid i := if i then [0x31] else [0x32]
  pid_ne_nil := by decide
  pid_noNewline := by decide
  pid_noNul := by decide
  pid_inj := by
    intro i j
    revert i j
    decide

/-- `ls -l` -/
def lsInput : InputLine where
  toLine := CommandServer.lsLine
  length_lt := by decide

/-- A read returns the request of the first client for this line, or that of the second one, or
both of them. -/
def readsRequests (line : InputLine) (s : CommandShell Bool) : Label Bool → Bool
  | .serve n =>
    let first := (twoClients.request true line).message
    let second := (twoClients.request false line).message
    s.server.pipe.queue.take n ∈ [first, second, first ++ second]
  | _ => true

theorem wholeMessages_of_readsRequests {line : InputLine} (s : CommandShell Bool) (a : Label Bool)
    (h : readsRequests line s a = true) : s.WholeMessages a := by
  cases a with
  | serve n =>
    rw [readsRequests, decide_eq_true_iff, List.mem_cons, List.mem_cons, List.mem_singleton] at h
    rcases h with h | h | h
    · exact ⟨_, [], h.trans (List.append_nil _).symm⟩
    · exact ⟨_, [], h.trans (List.append_nil _).symm⟩
    · exact ⟨_, [_], h.trans (congrArg _ (List.flatMap_singleton _ _).symm)⟩
  | fgets | write | openFifo | childWrite | childExit | read | endOfFile => trivial

/-- The second client writes its request while the child for the first one is there. -/
def twoLabels : List (Label Bool) :=
  [.fgets true, .fgets false, .write true, .serve 9, .write false, .openFifo true [0x41],
    .childWrite 1, .childExit, .serve 9, .openFifo false [0x42], .childWrite 1, .read false 1,
    .childExit, .endOfFile false, .read true 1, .endOfFile true]

/-- Each client gets its own output. -/
theorem routed_twoClients : ∃ s : CommandShell Bool,
    ((system twoClients fun _ => [lsInput]).restrict WholeMessages).Reachable s ∧
      ((s.client true).stdout = prompt ++ [0x41] ++ prompt ∧
        (s.client false).stdout = prompt ++ [0x42] ++ prompt) ∧
      s.server.running = true ∧ ∀ i, Routed [lsInput] (s.client i) := by
  have hrun : (LTS.run (exec twoClients) (fun s a => readsRequests lsInput s a = true)
      (start fun _ => [lsInput]) twoLabels).map
        (fun s => ((s.client true).stdout, (s.client false).stdout)) =
      some (prompt ++ [0x41] ++ prompt, prompt ++ [0x42] ++ prompt) := by decide +kernel
  obtain ⟨s, hrun, hs⟩ := Option.map_eq_some_iff.mp hrun
  have hreach := (LTS.reachable_of_run (LTS.Reachable.init rfl) hrun).mono
    wholeMessages_of_readsRequests
  exact ⟨s, hreach, Prod.mk.inj hs, routed_of_reachable hreach⟩

/-! ## Clients that hang -/

/-- No step opens the FIFO of a client whose request is not on its way. -/
theorem client_eq_of_step {i : ι} {line : InputLine}
    (hctl : (s.client i).ctl = .openFifo line)
    (hpid : clients.pid i ∉ (outstanding s.child pending).map Prod.fst) {a : Label ι}
    (hstep : Step clients s a t) : t.client i = s.client i := by
  cases hstep with
  | @fgets j hctl' | @write j _ hctl' | @notWritten j _ hctl' | @notOpened j _ hctl'
  | @read j _ _ hctl' | @endOfFile j _ hctl' =>
    refine Function.update_of_ne ?_ _ _
    rintro rfl
    cases hctl.symm.trans hctl'
  | serve | childWrite | childExit => rfl
  | openFifo output hctl' hchild =>
    refine Function.update_of_ne ?_ _ _
    rintro rfl
    rw [hchild] at hpid
    exact hpid List.mem_cons_self

/-- A client waits for ever when its request is not on its way. -/
theorem Inv.blocked (h : Inv clients input s pending lost) {i : ι} {line : InputLine}
    (hctl : (s.client i).ctl = .openFifo line)
    (hpid : clients.pid i ∉ (outstanding s.child pending).map Prod.fst)
    (ht : ((LTS.ofExec s (exec clients)).restrict WholeMessages).Reachable t) :
    t.client i = s.client i := by
  have hinv : (∃ pending lost, Inv clients input t pending lost ∧
      clients.pid i ∉ (outstanding t.child pending).map Prod.fst) ∧ t.client i = s.client i := by
    refine ht.invariant (I := fun t => (∃ pending lost, Inv clients input t pending lost ∧
      clients.pid i ∉ (outstanding t.child pending).map Prod.fst) ∧ t.client i = s.client i) ?_ ?_
    · rintro s rfl
      exact ⟨⟨pending, lost, h, hpid⟩, rfl⟩
    · rintro t a u - ⟨⟨pending, lost, hinv, hnot⟩, heq⟩ ⟨hexec, hwhole⟩
      have hstep := step_of_exec hexec
      have hctl' : (t.client i).ctl = .openFifo line := by rw [heq, hctl]
      obtain ⟨pending', lost', hinv', -, hsent⟩ := hinv.step hstep hwhole
      refine ⟨⟨pending', lost', hinv', fun hmem => ?_⟩,
        (client_eq_of_step hctl' hnot hstep).trans heq⟩
      rcases hsent _ hmem with hold | ⟨j, line', hj, hpid'⟩
      · exact hnot hold
      · obtain rfl := clients.pid_inj hpid'
        cases hctl'.symm.trans hj
  exact hinv.2

theorem exec_write_of_long {i : ι} {line : InputLine} (hctl : (s.client i).ctl = .write line)
    (hrunning : s.server.running = true)
    (hlen : pipeBuf < (clients.request i line).message.length) :
    exec clients s (.write i) = some
      { s with
        client := Function.update s.client i { s.client i with ctl := .openFifo line } } := by
  simp only [exec, hctl, if_pos hrunning, RequestServer.exec]
  rw [if_neg fun h => Nat.not_le_of_lt hlen h.2]
  rfl

/-- The request of a client with a line that is too long is not on its way. -/
theorem Inv.notOutstanding_of_long (h : Inv clients input s pending lost) {i : ι} {line : InputLine}
    (hctl : (s.client i).ctl = .openFifo line)
    (hlen : pipeBuf < (clients.request i line).message.length) :
    clients.pid i ∉ (outstanding s.child pending).map Prod.fst := by
  intro hmem
  obtain ⟨p, hp, hpid⟩ := List.mem_map.mp hmem
  obtain ⟨j, line', hj, hle, rfl⟩ := h.waiting p hp
  obtain rfl := clients.pid_inj hpid
  obtain rfl := CommandClient.Ctl.openFifo.inj (hctl.symm.trans hj)
  omega

/-- **A client hangs with a line that is too long.** It writes nothing and opens its FIFO, where it
waits for an answer to a request that nobody has. -/
theorem blocked_of_long (h : ((system clients input).restrict WholeMessages).Reachable s) {i : ι}
    {line : InputLine} (hctl : (s.client i).ctl = .write line)
    (hlen : pipeBuf < (clients.request i line).message.length) :
    ∃ t, exec clients s (.write i) = some t ∧ t.server = s.server ∧
      (t.client i).ctl = .openFifo line ∧
      ∀ u, ((LTS.ofExec t (exec clients)).restrict WholeMessages).Reachable u →
        u.client i = t.client i := by
  obtain ⟨pending, lost, hinv⟩ := inv_of_reachable h
  have hwrite := exec_write_of_long hctl hinv.running hlen
  obtain ⟨pending', lost', hinv'⟩ := inv_of_reachable (h.next hwrite trivial)
  have hopen : ((Function.update s.client i { s.client i with ctl := .openFifo line }) i).ctl =
      .openFifo line := by
    rw [Function.update_self]
  exact ⟨_, hwrite, rfl, hopen,
    fun u hu => hinv'.blocked hopen (hinv'.notOutstanding_of_long hopen hlen) hu⟩

/-- The message for this line has 4100 bytes. -/
def tooLong : InputLine where
  text := List.replicate 4096 0x61
  noNewline h := absurd (List.eq_of_mem_replicate h) (by decide)
  noNul h := absurd (List.eq_of_mem_replicate h) (by decide)
  length_lt := by
    rw [List.length_replicate]
    decide

theorem length_tooLong : pipeBuf < (twoClients.request true tooLong).message.length := by
  have htext : tooLong.text.length = 4096 := List.length_replicate
  simp only [Request.message, Request.text, Clients.request, List.length_append, List.length_cons,
    htext, pipeBuf]
  omega

/-- The first client hangs, and the second one comes to its end. -/
theorem blocked_tooLong : ∃ s t u : CommandShell Bool,
    ((system twoClients fun i => if i then [tooLong] else []).restrict WholeMessages).Reachable s ∧
      exec twoClients s (.write true) = some t ∧ t.server = s.server ∧
      (t.client true).ctl = .openFifo tooLong ∧
      ((LTS.ofExec t (exec twoClients)).restrict WholeMessages).Reachable u ∧
      (u.client false).ctl = .returned 0 ∧ u.client true = t.client true := by
  have hfgets : exec twoClients (start fun i => if i then [tooLong] else []) (.fgets true) =
    some _ := rfl
  have hreach := (LTS.Reachable.init rfl).next (P := WholeMessages) hfgets trivial
  obtain ⟨t, hwrite, hserver, hopen, hblocked⟩ := blocked_of_long hreach rfl length_tooLong
  have hinit : ((LTS.ofExec t (exec twoClients)).restrict WholeMessages).Reachable t := .init rfl
  have ht := hwrite
  rw [exec_write_of_long (i := true) rfl rfl length_tooLong] at ht
  obtain rfl := Option.some.inj ht
  have hend := hinit.next (a := Label.fgets false) rfl trivial
  exact ⟨_, _, _, hreach, hwrite, hserver, hopen, hend, rfl, hblocked _ hend⟩

omit [DecidableEq ι] in
theorem line_of_parsed {i j : ι} {line line' : InputLine}
    (h : (clients.request i line).parsed = (clients.request j line').parsed) :
    i = j ∧ line = line' := by
  obtain ⟨hpid, hcommand⟩ := Prod.mk.inj h
  refine ⟨clients.pid_inj hpid, ?_⟩
  have htext : line.text = line'.text := List.append_cancel_right hcommand
  obtain ⟨⟨text, _, _⟩, _⟩ := line
  obtain ⟨⟨text', _, _⟩, _⟩ := line'
  cases htext
  rfl

/-- **A client hangs when its request is read behind another one.** -/
theorem blocked_of_behind (h : ((system clients input).restrict WholeMessages).Reachable s) {n : ℕ}
    {r : Request} {rs : List Request}
    (hread : s.server.pipe.queue.take n = r.message ++ rs.flatMap Request.message) {i : ι}
    {line : InputLine} (hi : clients.request i line ∈ rs) {t u : CommandShell ι}
    (hserve : exec clients s (.serve n) = some t)
    (hu : ((LTS.ofExec t (exec clients)).restrict WholeMessages).Reachable u) :
    (u.client i).ctl = .openFifo line ∧ u.client i = s.client i := by
  obtain ⟨pending, lost, hinv⟩ := inv_of_reachable h
  cases step_of_exec hserve with
  | serve hchild hserver =>
    obtain ⟨pending', rfl, hrunning, hhandled, hqueue⟩ :=
      RequestServer.exec_read hinv.running hinv.queue hread hserver
    rw [hhandled, List.drop_left] at hu
    have houtstanding := outstanding_absent (ι := ι) r rs pending'
    rw [← hchild] at houtstanding
    have hparsed := List.mem_map_of_mem (f := Request.parsed) hi
    obtain ⟨j, line', hj, -, heq⟩ := hinv.waiting (clients.request i line).parsed (by
      rw [houtstanding]
      exact List.mem_cons_of_mem _ (List.mem_append_left _ hparsed))
    obtain ⟨rfl, rfl⟩ := line_of_parsed heq
    have hnot : clients.pid i ∉
        (outstanding (.opening r.parsed : ShellChild ι) pending').map Prod.fst := by
      have hnodup := hinv.nodup
      rw [houtstanding, List.map_cons, List.map_append, List.nodup_cons, List.nodup_append,
        List.mem_append, not_or] at hnodup
      have hmem := List.mem_map_of_mem (f := Prod.fst) hparsed
      intro hbad
      rcases List.mem_cons.mp hbad with hr | hpending
      · exact hnodup.1.1 (hr ▸ hmem)
      · exact hnodup.2.2.2 _ hmem _ hpending rfl
    have heq := (hinv.serve hchild hrunning hqueue).blocked hj hnot hu
    exact ⟨heq ▸ hj, heq⟩

/-- The requests of both clients are read at once. The first client gets its output. -/
theorem blocked_twoClients : ∃ s t u : CommandShell Bool,
    ((system twoClients fun _ => [lsInput]).restrict WholeMessages).Reachable s ∧
      exec twoClients s (.serve 18) = some t ∧
      ((LTS.ofExec t (exec twoClients)).restrict WholeMessages).Reachable u ∧
      (u.client true).stdout = prompt ++ [0x41] ++ prompt ∧
      (u.client false).ctl = .openFifo lsInput ∧ u.client false = s.client false := by
  let first := (twoClients.request true lsInput).message
  let second := (twoClients.request false lsInput).message
  have hrun : ((LTS.run (exec twoClients) (fun s a => readsRequests lsInput s a = true)
      (start fun _ => [lsInput]) [.fgets true, .write true, .fgets false, .write false]).bind
        fun s => (exec twoClients s (.serve 18)).bind
          fun t => (LTS.run (exec twoClients) (fun s a => readsRequests lsInput s a = true) t
            [.openFifo true [0x41], .childWrite 1, .childExit, .read true 1, .endOfFile true]).map
              fun u => (s.server.pipe.queue.take 18, (u.client true).stdout)) =
      some (first ++ [twoClients.request false lsInput].flatMap Request.message,
        prompt ++ [0x41] ++ prompt) := by decide +kernel
  obtain ⟨s, hs, hrun⟩ := Option.bind_eq_some_iff.mp hrun
  obtain ⟨t, ht, hrun⟩ := Option.bind_eq_some_iff.mp hrun
  obtain ⟨u, hu, heq⟩ := Option.map_eq_some_iff.mp hrun
  obtain ⟨hread, hstdout⟩ := Prod.mk.inj heq
  have hreach := (LTS.reachable_of_run (LTS.Reachable.init rfl) hs).mono
    wholeMessages_of_readsRequests
  have hreach' := (LTS.reachable_of_run (LTS.Reachable.init rfl) hu).mono
    wholeMessages_of_readsRequests
  exact ⟨s, t, u, hreach, ht, hreach', hstdout,
    blocked_of_behind hreach hread List.mem_cons_self ht hreach'⟩

end CommandShell

end CS536Labs.Lab1
