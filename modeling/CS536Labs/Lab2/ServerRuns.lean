import CS536Labs.Lab2.Rcommandserver

/-!
# What the clients can make the remote command server do

A client chooses its address, its bytes, and how it ends the connection. For every run of the
server:

* `onlyDate_iff`: nothing else than `date` or `/bin/date` is executed, without a further argument,
  exactly when what each client sends, after the coin toss, is one of the two with or without a
  newline, or does not begin with one of them.
* `survivesClients_iff`: each accepted connection is closed again, and the server goes on, exactly
  when no client is denied, rejected, or ends the connection early.

Both come from `LTS.always_iff_forall`, with one case for each of the steps.
-/

namespace CS536Labs.Lab2

/-! ## The executed programs -/

/-- One of the two commands, with or without a newline. -/
def IsDate (text : List UInt8) : Prop :=
  (text = date ∨ text = date ++ [0x0a]) ∨ text = binDate ∨ text = binDate ++ [0x0a]

theorem withoutNewline_iff_isDate (text : List UInt8) :
    withoutNewline text = date ∨ withoutNewline text = binDate ↔ IsDate text := by
  rw [withoutNewline_eq_iff (by decide), withoutNewline_eq_iff (by decide), IsDate]

/-- What `read` returns leaves room for the terminator, and it is ignored, rejected, not executed,
or one of the two commands. -/
def Label.Harmless : Label → Prop
  | .read data rand child =>
    data.length < bufferSize ∧
      (rand % 2 = 0 ∨ (child.fork && child.dup2) = false ∨ ¬ Allowed (cString data) ∨
        IsDate (cString data))
  | _ => True

namespace Server

variable {s t : Server} {a : Label}

/-- The behaviour is defined, and every program that was executed is `date` or `/bin/date`, without
a further argument. -/
structure OnlyDate (s : Server) : Prop where
  defined : s.ctl ≠ .undefined
  execs : ∀ e ∈ s.execs, (e.file = date ∨ e.file = binDate) ∧ e.argv = [e.file]

/-- A step that executes nothing. -/
theorem OnlyDate.congr (h : s.OnlyDate) (hexecs : t.execs = s.execs) (hctl : t.ctl ≠ .undefined) :
    t.OnlyDate :=
  ⟨hctl, hexecs ▸ h.execs⟩

/-- **What a child executes.** -/
theorem onlyDate_spawn_iff (h : s.OnlyDate) (sockfdFull : ℕ) {command text : List UInt8}
    (hcommand : cString command = withoutNewline text) (child : Child) :
    (s.spawn sockfdFull command child).OnlyDate ↔
      (child.fork && child.dup2) = false ∨ IsDate text := by
  rw [← withoutNewline_iff_isDate, ← hcommand]
  cases hchild : child.fork && child.dup2 with
  | false =>
    refine iff_of_true (h.congr ?_ Ctl.noConfusion) (.inl rfl)
    simp only [spawn, hchild]
    exact List.append_nil _
  | true =>
    have hexecs : (s.spawn sockfdFull command child).execs =
        s.execs ++ [⟨cString command, [cString command]⟩] := by
      simp only [spawn, hchild, if_true]
    constructor
    · rintro ⟨-, hall⟩
      rw [hexecs] at hall
      exact .inr (hall _ (List.mem_append_right _ (List.mem_singleton_self _))).1
    · rintro (hfalse | hdate)
      · cases hfalse
      · refine ⟨Ctl.noConfusion, fun e he => ?_⟩
        rw [hexecs] at he
        rcases List.mem_append.mp he with he | he
        · exact h.execs e he
        · obtain rfl := List.mem_singleton.mp he
          exact ⟨hdate, rfl⟩

/-- **One step.** -/
theorem OnlyDate.step_iff (h : s.OnlyDate) (hstep : Step s a t) : t.OnlyDate ↔ a.Harmless := by
  cases hstep with
  | denied hctl => exact iff_of_true (h.congr rfl h.defined) trivial
  | admitted => exact iff_of_true (h.congr rfl Ctl.noConfusion) trivial
  | acceptError => exact iff_of_true h trivial
  | overflow _ hdata =>
    exact iff_of_false (fun h => h.defined rfl) fun h => absurd h.1 (Nat.not_lt.mpr hdata)
  | ignored _ hdata hrand =>
    exact iff_of_true (h.congr rfl Ctl.noConfusion) ⟨hdata, .inl hrand⟩
  | rejected _ hdata _ hallowed =>
    exact iff_of_true (h.congr rfl Ctl.noConfusion) ⟨hdata, .inr (.inr (.inl hallowed))⟩
  | spawned _ hdata hrand hallowed hcommand' =>
    rw [onlyDate_spawn_iff h _ hcommand', Label.Harmless, and_iff_right hdata,
      or_iff_right hrand, or_iff_right (not_not.mpr hallowed)]
  | endOfStream => exact iff_of_true (h.congr rfl Ctl.noConfusion) trivial
  | readError => exact iff_of_true (h.congr rfl Ctl.noConfusion) trivial

/-- **The runs in which only `date` is executed.** -/
theorem onlyDate_iff {as : List Label}
    (h : LTS.run exec (fun _ _ => True) Server.start as = some t) :
    LTS.Always exec Server.start as OnlyDate ↔ ∀ a ∈ as, a.Harmless := by
  refine LTS.always_iff_forall (I := fun s => s.OnlyDate ∧ s.CommandSized) (fun s h => h.1) ?_ ?_ h
  · rintro s a t ⟨hdate, hsized⟩ hexec
    have hstep := step_of_exec hsized hexec
    exact ⟨hdate.step_iff hstep, fun hdate' => ⟨hdate', hsized.step hstep⟩⟩
  · refine ⟨⟨Ctl.noConfusion, fun e he => absurd he List.not_mem_nil⟩, ?_⟩
    intro sockfdFull command hread
    cases hread

/-- A client with an address of the lab, and what the call of `read` returns. -/
def oneClient (uninit : List UInt8) (read : Label) : List Label := [.accept 0x800a1901 uninit, read]

/-- The server that has accepted its connection. -/
def connected (uninit : List UInt8) : Server := ⟨.read 0 uninit, 1, [0], []⟩

theorem exec_accept {uninit : List UInt8} (huninit : uninit.length = bufferSize) :
    Server.start.exec (.accept 0x800a1901 uninit) = some (connected uninit) := by
  have hip : sanitizeClientAddr 0x800a1901 = true := by decide
  show (if uninit.length = bufferSize then some (Server.start.connect 0x800a1901 uninit) else none)
    = some (connected uninit)
  rw [if_pos huninit, connect, if_pos hip]
  rfl

theorem run_oneClient {uninit : List UInt8} (huninit : uninit.length = bufferSize) {read : Label}
    (hread : (connected uninit).exec read = some t) :
    LTS.run exec (fun _ _ => True) Server.start (oneClient uninit read) = some t := by
  rw [oneClient, LTS.run_cons trivial (exec_accept huninit), LTS.run_cons trivial hread]
  rfl

theorem exec_read (uninit data : List UInt8) (hne : data ≠ [])
    (hlen : data.length ≤ bufferSize) (rand : ℕ) (child : Child) :
    (connected uninit).exec (.read data rand child) =
      some ((connected uninit).receive 0 uninit data rand child) :=
  if_pos ⟨hne, hlen⟩

/-- `date` and a newline. -/
theorem onlyDate_date :
    ∃ t, LTS.run exec (fun _ _ => True) Server.start
        (oneClient (List.replicate 1024 0) (.read (date ++ [0x0a]) 1 ⟨true, true⟩)) = some t ∧
      LTS.Always exec Server.start
        (oneClient (List.replicate 1024 0) (.read (date ++ [0x0a]) 1 ⟨true, true⟩)) OnlyDate := by
  have hrun := run_oneClient List.length_replicate (exec_read (List.replicate 1024 0)
    (date ++ [0x0a]) (by decide) (by decide) 1 ⟨true, true⟩)
  refine ⟨_, hrun, (onlyDate_iff hrun).mpr ?_⟩
  intro a ha
  rcases List.mem_pair.mp ha with rfl | rfl
  · trivial
  · exact ⟨by decide, .inr (.inr (.inr (.inl (.inr rfl))))⟩

/-- `date -u` is executed as a program of this name. -/
theorem not_onlyDate_dateU :
    ¬ LTS.Always exec Server.start (oneClient (List.replicate 1024 0)
      (.read (date ++ [0x20, 0x2d, 0x75]) 1 ⟨true, true⟩)) OnlyDate := by
  intro halways
  have hsized : (connected (List.replicate 1024 0)).CommandSized := by
    rintro sockfdFull command ⟨rfl, rfl⟩
    exact List.length_replicate
  have hexec := exec_read (List.replicate 1024 0) (date ++ [0x20, 0x2d, 0x75])
    (by decide) (by decide) 1 ⟨true, true⟩
  have hdate := halways _ List.prefix_rfl _ (run_oneClient List.length_replicate hexec)
  have hconnected : (connected (List.replicate 1024 0)).OnlyDate :=
    ⟨Ctl.noConfusion, fun e he => absurd he List.not_mem_nil⟩
  obtain ⟨-, hrand | hchild | hallowed | hdate⟩ :=
    (hconnected.step_iff (step_of_exec hsized hexec)).mp hdate
  · cases hrand
  · cases hchild
  · exact hallowed (.inl ⟨_, rfl⟩)
  · revert hdate
    unfold IsDate
    decide

/-! ## The connections -/

/-- The connections are closed in front of every call of `accept`, and the server goes on. -/
structure Survives (s : Server) : Prop where
  closed : s.ctl = .accept → s.opened = []
  running : ∀ ret, s.ctl ≠ .returned ret
  defined : s.ctl ≠ .undefined

/-- While the server reads from a connection, it is the only one that is open. -/
def OneOpened (s : Server) : Prop :=
  ∀ sockfdFull command, s.ctl = .read sockfdFull command → s.opened = [sockfdFull]

end Server

/-- The connection is admitted, and what `read` returns is a command that is ignored or executed. -/
def Label.Released : Label → Prop
  | .accept ip _ => sanitizeClientAddr ip = true
  | .acceptError => True
  | .read data rand _ => data.length < bufferSize ∧ (rand % 2 = 0 ∨ Allowed (cString data))
  | .endOfStream => False
  | .readError => False

namespace Server

variable {s t : Server} {a : Label}

theorem survives_of_read {sockfdFull : ℕ} {command : List UInt8}
    (hctl : s.ctl = .read sockfdFull command) : s.Survives := by
  refine ⟨fun haccept => ?_, fun ret hret => ?_, fun hundefined => ?_⟩
  · cases hctl.symm.trans haccept
  · cases hctl.symm.trans hret
  · cases hctl.symm.trans hundefined

/-- **One step.** -/
theorem Survives.step_iff (h : s.Survives) (hopened : s.OneOpened) (hstep : Step s a t) :
    t.Survives ↔ a.Released := by
  have hleft : ∀ {sockfdFull : ℕ} {command : List UInt8}, s.ctl = .read sockfdFull command →
      ∀ t : Server, t.ctl = .accept → t.opened = s.opened → ¬ t.Survives := by
    intro sockfdFull command hctl t haccept heq hsurvives
    have hnil := hsurvives.closed haccept
    rw [heq, hopened _ _ hctl] at hnil
    cases hnil
  cases hstep with
  | denied hctl hip =>
    refine iff_of_false (fun hsurvives => ?_) hip
    exact List.append_ne_nil_of_right_ne_nil _ (List.cons_ne_nil _ _) (hsurvives.closed hctl)
  | admitted _ hip => exact iff_of_true (survives_of_read rfl) hip
  | acceptError => exact iff_of_true h trivial
  | overflow _ hdata =>
    exact iff_of_false (fun h => h.defined rfl) fun h => absurd h.1 (Nat.not_lt.mpr hdata)
  | ignored _ hdata hrand => exact iff_of_true (survives_of_read rfl) ⟨hdata, .inl hrand⟩
  | rejected hctl _ hrand hallowed =>
    exact iff_of_false (hleft hctl _ rfl rfl) fun h => h.2.elim hrand hallowed
  | spawned hctl hdata _ hallowed =>
    refine iff_of_true ⟨fun _ => ?_, fun _ => Ctl.noConfusion, Ctl.noConfusion⟩
      ⟨hdata, .inr hallowed⟩
    show s.opened.erase _ = []
    rw [hopened _ _ hctl]
    exact List.erase_cons_head _ _
  | endOfStream hctl => exact iff_of_false (hleft hctl _ rfl rfl) id
  | readError => exact iff_of_false (fun h => h.running _ rfl) id

theorem OneOpened.step (h : s.Survives) (hopened : s.OneOpened) (hstep : Step s a t) :
    t.OneOpened := by
  intro sockfdFull command hread
  cases hstep with
  | denied hctl => cases hctl.symm.trans hread
  | admitted hctl =>
    obtain ⟨rfl, -⟩ := Ctl.read.inj hread
    rw [h.closed hctl]
    rfl
  | acceptError => exact hopened _ _ hread
  | overflow => cases hread
  | ignored hctl =>
    obtain ⟨rfl, -⟩ := Ctl.read.inj hread
    exact hopened _ _ hctl
  | rejected => cases hread
  | spawned => cases hread
  | endOfStream => cases hread
  | readError => cases hread

/-- **The runs that the server survives.** -/
theorem survivesClients_iff {as : List Label}
    (h : LTS.run exec (fun _ _ => True) Server.start as = some t) :
    LTS.Always exec Server.start as Survives ↔ ∀ a ∈ as, a.Released := by
  refine LTS.always_iff_forall
    (I := fun s => s.Survives ∧ s.CommandSized ∧ s.OneOpened) (fun s h => h.1) ?_ ?_ h
  · rintro s a t ⟨hsurvives, hsized, hopened⟩ hexec
    have hstep := step_of_exec hsized hexec
    exact ⟨hsurvives.step_iff hopened hstep, fun hsurvives' =>
      ⟨hsurvives', hsized.step hstep, hopened.step hsurvives hstep⟩⟩
  · refine ⟨⟨fun _ => rfl, fun _ => Ctl.noConfusion, Ctl.noConfusion⟩, ?_, ?_⟩
    · intro sockfdFull command hread
      cases hread
    · intro sockfdFull command hread
      cases hread

/-- A client that sends `date`. -/
theorem survives_date :
    ∃ t, LTS.run exec (fun _ _ => True) Server.start
        (oneClient (List.replicate 1024 0) (.read date 1 ⟨true, true⟩)) = some t ∧
      LTS.Always exec Server.start
        (oneClient (List.replicate 1024 0) (.read date 1 ⟨true, true⟩)) Survives := by
  have hrun := run_oneClient List.length_replicate (exec_read (List.replicate 1024 0)
    date (by decide) (by decide) 1 ⟨true, true⟩)
  refine ⟨_, hrun, (survivesClients_iff hrun).mpr ?_⟩
  intro a ha
  rcases List.mem_pair.mp ha with rfl | rfl
  · exact (by decide : sanitizeClientAddr 0x800a1901 = true)
  · exact ⟨by decide, .inr (.inl List.prefix_rfl)⟩

/-- A client that resets its connection. -/
theorem not_survives_readError :
    ¬ LTS.Always exec Server.start (oneClient (List.replicate 1024 0) .readError) Survives := by
  intro halways
  have hrun : LTS.run exec (fun _ _ => True) Server.start
      (oneClient (List.replicate 1024 0) .readError) = some ⟨.returned (-1), 1, [0], []⟩ :=
    run_oneClient List.length_replicate rfl
  exact (halways _ List.prefix_rfl _ hrun).running _ rfl

end Server

end CS536Labs.Lab2
