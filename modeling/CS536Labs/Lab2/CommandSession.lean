import CS536Labs.Lab2.RemoteCommand

/-!
# The session of a client

`Session` is what one client has done with its connections: it has read the lines of its input one
after the other, printed what it has received for each of them behind a prompt, and written no
command again for which it has got a byte. `Session.alone`, `Session.connected` and `Session.call`
keep it in the steps of the client.
-/

namespace CS536Labs.Lab2

namespace ClientEnd

/-- The call is over, and the client has gone on. -/
def Done (e : ClientEnd) : Prop := e.closed = true ∧ (e.status = some 0 ∨ e.status = some errGiveUp)

/-- The command was written a number of times, each time as a whole or cut off. -/
def Attempts (e : ClientEnd) (n : ℕ) : Prop :=
  ∃ counts : List ℕ, counts.length = n ∧
    e.written = counts.flatMap fun count => (commandMessage e.line).take count

theorem Attempts.write {e : ClientEnd} {n : ℕ} (h : e.Attempts n) (count : ℕ) :
    ({ e with written := e.written ++ (commandMessage e.line).take count } : ClientEnd).Attempts
      (n + 1) := by
  obtain ⟨counts, rfl, hwritten⟩ := h
  refine ⟨counts ++ [count], List.length_append, ?_⟩
  rw [List.flatMap_append, List.flatMap_singleton, hwritten]

theorem Attempts.length_le {e : ClientEnd} {n : ℕ} (h : e.Attempts n) :
    e.written.length ≤ n * (e.line.length + 1) := by
  obtain ⟨counts, rfl, hwritten⟩ := h
  have hcString : (cString e.line).length ≤ e.line.length := (List.takeWhile_prefix _).length_le
  have hle : ∀ count, ((commandMessage e.line).take count).length ≤ e.line.length + 1 := by
    intro count
    rw [List.length_take, commandMessage, List.length_append, List.length_singleton]
    omega
  rw [hwritten]
  clear hwritten
  induction counts with
  | nil => exact Nat.zero_le _
  | cons count counts ih =>
    rw [List.flatMap_cons, List.length_append, List.length_cons, Nat.succ_mul]
    have := hle count
    omega

/-- What belongs to the call that is over does not change. -/
@[simp] theorem finish_line (e : ClientEnd) (ctl : Rcommandclient.Ctl) :
    (e.finish ctl).line = e.line := by
  cases ctl <;> rfl

@[simp] theorem finish_printed (e : ClientEnd) (ctl : Rcommandclient.Ctl) :
    (e.finish ctl).printed = e.printed := by
  cases ctl <;> rfl

@[simp] theorem finish_written (e : ClientEnd) (ctl : Rcommandclient.Ctl) :
    (e.finish ctl).written = e.written := by
  cases ctl <;> rfl

@[simp] theorem finish_received (e : ClientEnd) (ctl : Rcommandclient.Ctl) :
    (e.finish ctl).received = e.received := by
  cases ctl <;> rfl

end ClientEnd

/-- What the client prints for its calls. -/
def transcript (calls : List ClientEnd) : List UInt8 := calls.flatMap fun e => prompt ++ e.printed

theorem transcript_concat (past : List ClientEnd) (e : ClientEnd) :
    transcript (past ++ [e]) = transcript past ++ (prompt ++ e.printed) := by
  rw [transcript, List.flatMap_append, List.flatMap_singleton]
  rfl

/-- The last call ended without a byte. -/
def Unanswered (calls : List ClientEnd) : Prop :=
  ∃ e, calls.getLast? = some e ∧ e.status = some 0 ∧ e.received = 0

/-- The last call is going on. -/
def Current (calls : List ClientEnd) (P : ClientEnd → Prop) : Prop :=
  ∃ past e, calls = past ++ [e] ∧ (∀ e ∈ past, e.Done) ∧ P e

theorem current_concat {past : List ClientEnd} {e : ClientEnd} {P : ClientEnd → Prop} :
    Current (past ++ [e]) P ↔ (∀ e ∈ past, e.Done) ∧ P e := by
  constructor
  · rintro ⟨past', e', heq, hover, he⟩
    obtain ⟨rfl, hsingleton⟩ := List.append_inj' heq rfl
    obtain rfl := List.singleton_inj.mp hsingleton
    exact ⟨hover, he⟩
  · rintro ⟨hover, he⟩
    exact ⟨past, e, rfl, hover, he⟩

namespace Rcommandclient

/-- The line that was read and has no connection yet. -/
def Ctl.pending : Rcommandclient.Ctl → List (List UInt8)
  | .connect line => [line]
  | _ => []

/-- The prompt behind the last call. -/
def Ctl.prompted : Rcommandclient.Ctl → List UInt8
  | .write _ _ _ | .read _ _ _ | .close _ _ => []
  | _ => prompt

/-- What the control point says about the calls. An alarm is set only as long as no byte has
come. -/
def Ctl.Phase (alarm : Bool) (stdin : List UInt8) (calls : List ClientEnd) :
    Rcommandclient.Ctl → Prop
  | .fgets => (∀ e ∈ calls, e.Done) ∧ (alarm = true → Unanswered calls)
  | .connect _ => ∀ e ∈ calls, e.Done
  | .write _ line attempt => attempt < maxAttempts ∧
    Current calls fun e => e.line = line ∧ e.Attempts attempt ∧ e.received = 0
  | .read _ line attempt => attempt < maxAttempts ∧
    Current calls fun e =>
      e.line = line ∧ e.Attempts (attempt + 1) ∧ (alarm = true → e.received = 0)
  | .close _ status => Current calls fun e => e.status = some status ∧
    (status = -1 ∨ status = 0 ∧ (alarm = true → e.received = 0) ∨
      status = errGiveUp ∧ alarm = false)
  | .returned ret => ret = 0 → (∀ e ∈ calls, e.Done) ∧ (stdin = [] ∨ Unanswered calls)

end Rcommandclient

/-- A client with this input has made these calls. -/
structure Session (stdin : List UInt8) (c : Rcommandclient) (calls : List ClientEnd) : Prop where
  lines : ∃ lost, inputLines stdin =
      calls.map (·.line) ++ (c.ctl.pending ++ lost ++ inputLines c.stdin) ∧
    (c.ctl ≠ .returned (-1) → lost = [])
  stdout : c.stdout = transcript calls ++ c.ctl.prompted ∨
    c.ctl = .returned (-1) ∧ c.stdout = transcript calls
  attempts : ∀ e ∈ calls, ∃ n ≤ maxAttempts, e.Attempts n
  phase : c.ctl.Phase c.alarm c.stdin calls

namespace Session

variable {stdin : List UInt8} {c c' : Rcommandclient} {calls past : List ClientEnd}
  {e e' : ClientEnd} {a : Rcommandclient.Label}

theorem start (stdin : List UInt8) : Session stdin (Rcommandclient.start stdin) [] where
  lines := ⟨[], rfl, fun _ => rfl⟩
  stdout := .inl rfl
  attempts := by simp
  phase := ⟨by simp, Bool.noConfusion⟩

/-- What the control point says, while `run` has not failed. -/
theorem of_ctl {ctl : Rcommandclient.Ctl} (h : Session stdin c calls) (hctl : c.ctl = ctl)
    (hne : ctl ≠ .returned (-1)) :
    inputLines stdin = calls.map (·.line) ++ (ctl.pending ++ inputLines c.stdin) ∧
      c.stdout = transcript calls ++ ctl.prompted ∧ ctl.Phase c.alarm c.stdin calls := by
  subst hctl
  obtain ⟨lost, hlines, hlost⟩ := h.lines
  rw [hlost hne, List.append_nil] at hlines
  exact ⟨hlines, h.stdout.resolve_right fun hreturned => hne hreturned.1, h.phase⟩

/-- The client ends with its input, or behind a call that has ended without a byte. -/
theorem of_returned (h : Session stdin c calls) (hctl : c.ctl = .returned 0) :
    calls.map (·.line) = inputLines stdin ∨ Unanswered calls := by
  obtain ⟨hlines, -, hphase⟩ := h.of_ctl hctl (by decide)
  obtain ⟨-, hend | hunanswered⟩ := hphase rfl
  · rw [hend, inputLines_nil] at hlines
    exact .inl (hlines.trans (List.append_nil _)).symm
  · exact .inr hunanswered

/-- The alarm expires without an effect. -/
theorem ignored (h : Session stdin c calls) : Session stdin { c with alarm := false } calls where
  lines := h.lines
  stdout := h.stdout
  attempts := h.attempts
  phase := by
    have hphase := h.phase
    show c.ctl.Phase false c.stdin calls
    cases hctl : c.ctl with
    | fgets =>
      rw [hctl] at hphase
      exact ⟨hphase.1, Bool.noConfusion⟩
    | connect | write | returned =>
      rw [hctl] at hphase
      exact hphase
    | read =>
      rw [hctl] at hphase
      obtain ⟨hattempt, past, e, hcalls, hover, hline, hattempts, -⟩ := hphase
      exact ⟨hattempt, past, e, hcalls, hover, hline, hattempts, Bool.noConfusion⟩
    | close =>
      rw [hctl] at hphase
      obtain ⟨past, e, hcalls, hover, hstatus, hcase⟩ := hphase
      refine ⟨past, e, hcalls, hover, hstatus, ?_⟩
      rcases hcase with hfailed | ⟨hzero, -⟩ | ⟨hgaveUp, -⟩
      · exact .inl hfailed
      · exact .inr (.inl ⟨hzero, Bool.noConfusion⟩)
      · exact .inr (.inr ⟨hgaveUp, rfl⟩)

/-- **A step between two calls.** -/
theorem alone (h : Session stdin c calls) (hstep : c.Step a c') (hctl : c.ctl.sockfd = none)
    (hctl' : c'.ctl.sockfd = none) : Session stdin c' calls := by
  cases hstep with
  | endOfInput hfgets hstdin =>
    obtain ⟨hlines, hstdout, hover, -⟩ := h.of_ctl hfgets Rcommandclient.Ctl.noConfusion
    exact ⟨⟨[], hlines, fun _ => rfl⟩, .inl hstdout, h.attempts, fun _ => ⟨hover, .inl hstdin⟩⟩
  | @readLine line stdin' hfgets hline =>
    obtain ⟨hlines, hstdout, hover, -⟩ := h.of_ctl hfgets Rcommandclient.Ctl.noConfusion
    rw [hline] at hlines
    exact ⟨⟨[], hlines, fun _ => rfl⟩, .inl hstdout, h.attempts, hover⟩
  | @notConnected line hconnect =>
    obtain ⟨hlines, hstdout, -⟩ := h.of_ctl hconnect Rcommandclient.Ctl.noConfusion
    refine ⟨⟨[line], hlines, fun hne => absurd rfl hne⟩, .inl hstdout, h.attempts, ?_⟩
    intro hret
    cases hret
  | inputInterrupted hfgets halarm =>
    obtain ⟨hlines, hstdout, hover, hunanswered⟩ :=
      h.of_ctl hfgets Rcommandclient.Ctl.noConfusion
    exact ⟨⟨[], hlines, fun _ => rfl⟩, .inl hstdout, h.attempts,
      fun _ => ⟨hover, .inr (hunanswered halarm)⟩⟩
  | connected | wrote | notWritten | ended | notRead | retried | gaveUp => cases hctl'
  | received hread | closed hread | stopped _ hread =>
    rw [hread] at hctl
    cases hctl
  | ignored => exact h.ignored

/-- **A connection is made.** -/
theorem connected {line : List UInt8} {sockfd : ℕ} (h : Session stdin c calls)
    (hctl : c.ctl = .connect line) :
    Session stdin { c with ctl := .write sockfd line 0 }
      (calls ++ [⟨line, [], 0, [], none, false⟩]) := by
  obtain ⟨hlines, hstdout, hover⟩ := h.of_ctl hctl Rcommandclient.Ctl.noConfusion
  refine ⟨⟨[], ?_, fun _ => rfl⟩, .inl ?_, ?_, ?_⟩
  · rw [hlines, List.map_append, List.append_assoc]
    rfl
  · rw [transcript_concat, List.append_nil]
    exact hstdout.trans (List.append_nil _).symm
  · intro e he
    rcases List.mem_append.mp he with he | he
    · exact h.attempts e he
    · rw [List.mem_singleton.mp he]
      exact ⟨0, Nat.zero_le _, [], rfl, rfl⟩
  · exact ⟨by decide, current_concat.mpr ⟨hover, rfl, ⟨[], rfl, rfl⟩, rfl⟩⟩

/-- What a step of the call has to show, when it prints some bytes for the call. -/
theorem of_call {data : List UInt8} (h : Session stdin c (past ++ [e]))
    (hctl : c.ctl.sockfd ≠ none) (hline : e'.line = e.line)
    (hprinted : e'.printed = e.printed ++ data) (hstdin : c'.stdin = c.stdin)
    (hpending : c'.ctl.pending = [])
    (hstdout : c'.stdout = c.stdout ++ data ++ c'.ctl.prompted ∨
      c'.ctl = .returned (-1) ∧ c'.stdout = c.stdout ++ data)
    (hattempts : ∃ n ≤ maxAttempts, e'.Attempts n)
    (hphase : c'.ctl.Phase c'.alarm c'.stdin (past ++ [e'])) :
    Session stdin c' (past ++ [e']) := by
  have hne : c.ctl ≠ .returned (-1) := by
    rintro hreturned
    rw [hreturned] at hctl
    exact hctl rfl
  have hnone : c.ctl.pending = [] ∧ c.ctl.prompted = [] := by
    cases hctl' : c.ctl with
    | fgets | connect | returned =>
      rw [hctl'] at hctl
      exact absurd rfl hctl
    | write | read | close => exact ⟨rfl, rfl⟩
  obtain ⟨hlines, hprompted, -⟩ := h.of_ctl rfl hne
  refine ⟨⟨[], ?_, fun _ => rfl⟩, ?_, ?_, hphase⟩
  · rw [hlines, hnone.1, hpending, hstdin, List.map_append, List.map_append, List.map_singleton,
      List.map_singleton, hline]
    rfl
  · have htranscript : transcript (past ++ [e']) = c.stdout ++ data := by
      rw [hprompted, hnone.2, List.append_nil, transcript_concat, transcript_concat, hprinted,
        List.append_assoc, List.append_assoc]
    rw [htranscript]
    exact hstdout
  · intro d hd
    rcases List.mem_append.mp hd with hd | hd
    · exact h.attempts d (List.mem_append_left _ hd)
    · rw [List.mem_singleton.mp hd]
      exact hattempts

/-- A step of the call that prints nothing. -/
theorem of_quietCall (h : Session stdin c (past ++ [e])) (hctl : c.ctl.sockfd ≠ none)
    (hctl' : c'.ctl.sockfd ≠ none) (hline : e'.line = e.line) (hprinted : e'.printed = e.printed)
    (hstdin : c'.stdin = c.stdin) (hstdout : c'.stdout = c.stdout)
    (hattempts : ∃ n ≤ maxAttempts, e'.Attempts n)
    (hphase : c'.ctl.Phase c'.alarm c'.stdin (past ++ [e'])) :
    Session stdin c' (past ++ [e']) := by
  have hnone : c'.ctl.pending = [] ∧ c'.ctl.prompted = [] := by
    cases hctl'' : c'.ctl with
    | fgets | connect | returned =>
      rw [hctl''] at hctl'
      exact absurd rfl hctl'
    | write | read | close => exact ⟨rfl, rfl⟩
  have hnothing : e'.printed = e.printed ++ [] := by rw [hprinted, List.append_nil]
  refine h.of_call hctl hline hnothing hstdin hnone.1 (.inl ?_) hattempts hphase
  rw [hstdout, hnone.2, List.append_nil, List.append_nil]

/-- **A step of the call.** -/
theorem call {output : List UInt8} {ended : Bool} (h : Session stdin c (past ++ [e]))
    (hstep : c.Step a c') (hctl : c.ctl.sockfd ≠ none) (hcall : e.call output ended a = some e')
    (hignored : a ≠ .sigalrm false) : Session stdin c' (past ++ [e'.finish c'.ctl]) := by
  have hlast := h.attempts e (List.mem_append_right _ (List.mem_singleton_self e))
  cases hstep with
  | endOfInput hfgets | readLine hfgets | connected _ hfgets | notConnected hfgets
  | inputInterrupted hfgets =>
    rw [hfgets] at hctl
    exact absurd rfl hctl
  | ignored => exact absurd rfl hignored
  | @wrote sockfd attempt count line hwrite =>
    obtain ⟨-, -, hlt, hphase⟩ := h.of_ctl hwrite Rcommandclient.Ctl.noConfusion
    obtain ⟨hover, hline, hattempts, hreceived⟩ := current_concat.mp hphase
    obtain rfl := Option.some.inj hcall
    have hattempts' := hattempts.write count
    refine h.of_quietCall hctl (Option.some_ne_none _) rfl rfl rfl rfl
      ⟨attempt + 1, hlt, hattempts'⟩ ?_
    exact ⟨hlt, current_concat.mpr ⟨hover, hline, hattempts', fun _ => hreceived⟩⟩
  | @notWritten sockfd attempt line hwrite =>
    obtain ⟨-, -, -, hphase⟩ := h.of_ctl hwrite Rcommandclient.Ctl.noConfusion
    obtain ⟨hover, -⟩ := current_concat.mp hphase
    obtain rfl := Option.some.inj hcall
    exact h.of_quietCall hctl (Option.some_ne_none _) rfl rfl rfl rfl hlast
      (current_concat.mpr ⟨hover, rfl, .inl rfl⟩)
  | @received sockfd attempt line data hread =>
    obtain ⟨-, -, hlt, hphase⟩ := h.of_ctl hread Rcommandclient.Ctl.noConfusion
    obtain ⟨hover, hline, hattempts, -⟩ := current_concat.mp hphase
    rw [ClientEnd.call] at hcall
    split at hcall
    · obtain rfl := Option.some.inj hcall
      simp only [hread]
      refine h.of_call hctl rfl rfl rfl rfl (.inl (List.append_nil _).symm) hlast ?_
      exact ⟨hlt, current_concat.mpr ⟨hover, hline, hattempts, Bool.noConfusion⟩⟩
    · cases hcall
  | @ended sockfd attempt line hread =>
    obtain ⟨-, -, -, hphase⟩ := h.of_ctl hread Rcommandclient.Ctl.noConfusion
    obtain ⟨hover, -, -, halarm⟩ := current_concat.mp hphase
    rw [ClientEnd.call] at hcall
    split at hcall
    · obtain rfl := Option.some.inj hcall
      exact h.of_quietCall hctl (Option.some_ne_none _) rfl rfl rfl rfl hlast
        (current_concat.mpr ⟨hover, rfl, .inr (.inl ⟨rfl, halarm⟩)⟩)
    · cases hcall
  | @notRead sockfd attempt line hread =>
    obtain ⟨-, -, -, hphase⟩ := h.of_ctl hread Rcommandclient.Ctl.noConfusion
    obtain ⟨hover, -⟩ := current_concat.mp hphase
    obtain rfl := Option.some.inj hcall
    exact h.of_quietCall hctl (Option.some_ne_none _) rfl rfl rfl rfl hlast
      (current_concat.mpr ⟨hover, rfl, .inl rfl⟩)
  | @closed sockfd status hclose hstatus =>
    obtain ⟨-, -, hphase⟩ := h.of_ctl hclose Rcommandclient.Ctl.noConfusion
    obtain ⟨hover, hsome, hcase⟩ := current_concat.mp hphase
    obtain rfl := Option.some.inj hcall
    refine h.of_call hctl rfl (List.append_nil _).symm rfl rfl (.inl ?_) hlast ?_
    · exact congrArg (· ++ prompt) (List.append_nil _).symm
    · rcases hcase with hfailed | ⟨rfl, halarm⟩ | ⟨rfl, halarm⟩
      · exact absurd hfailed hstatus
      · refine ⟨?_, fun hset => ⟨_, List.getLast?_concat, hsome, halarm hset⟩⟩
        simp only [List.mem_append, List.mem_singleton]
        rintro d (hd | rfl)
        · exact hover d hd
        · exact ⟨rfl, .inl hsome⟩
      · refine ⟨?_, fun hset => ?_⟩
        · simp only [List.mem_append, List.mem_singleton]
          rintro d (hd | rfl)
          · exact hover d hd
          · exact ⟨rfl, .inr hsome⟩
        · cases halarm.symm.trans hset
  | @stopped sockfd status ok hclose =>
    obtain rfl := Option.some.inj hcall
    refine h.of_call hctl rfl (List.append_nil _).symm rfl rfl (.inr ⟨rfl, ?_⟩) hlast ?_
    · exact (List.append_nil _).symm
    · intro hret
      cases hret
  | @retried sockfd attempt line hread halarm hattempt =>
    obtain ⟨-, -, -, hphase⟩ := h.of_ctl hread Rcommandclient.Ctl.noConfusion
    obtain ⟨hover, hline, hattempts, hreceived⟩ := current_concat.mp hphase
    obtain rfl := Option.some.inj hcall
    exact h.of_quietCall hctl (Option.some_ne_none _) rfl rfl rfl rfl hlast
      ⟨hattempt, current_concat.mpr ⟨hover, hline, hattempts, hreceived halarm⟩⟩
  | @gaveUp sockfd attempt line hread halarm hattempt =>
    obtain ⟨-, -, -, hphase⟩ := h.of_ctl hread Rcommandclient.Ctl.noConfusion
    obtain ⟨hover, -⟩ := current_concat.mp hphase
    obtain rfl := Option.some.inj hcall
    exact h.of_quietCall hctl (Option.some_ne_none _) rfl rfl rfl rfl hlast
      (current_concat.mpr ⟨hover, rfl, .inr (.inr ⟨rfl, rfl⟩)⟩)

end Session

end CS536Labs.Lab2
