import CS536Labs.Lab3.ServiceSessions

/-!
# Whole transfers

`whole_of_reachable`: when no write of a child and no append of a client is cut off, a client that
reports success has the whole file of the server, or nothing, however the clients, the server and
its children are interleaved.
-/

namespace CS536Labs.Lab3

variable {server : MyftpsConfig} {config : MyftpcConfig}

def FileChild.isRunning : FileChild → Bool
  | .fopen _ | .write _ _ => true
  | .absent | .exited _ => false

namespace Link

variable {file : Option (List UInt8)} {l l' : Link} {e : Event}

/-- A write takes its whole block, and everything that is read is appended. -/
def Lossless (server : MyftpsConfig) : Event → Prop
  | .childWrite o => ∃ n, o = some n ∧ blocksize server ≤ n
  | .read (some (n, append)) => append.fopen = true ∧ n ≤ append.written
  | _ => True

/-- A client whose transfer has lost nothing, or has not begun. -/
structure Whole (server : MyftpsConfig) (config : MyftpcConfig) (file : Option (List UInt8))
    (l : Link) : Prop where
  sent : l.client.received ++ (l.response ++ l.child.rest server) = l.child.file server ∨
    l.client.received ++ (l.response ++ l.child.rest server) = []
  appended : file = none →
    l.client.file = if l.client.received = [] then none else some l.client.received
  ended : l.closed = true → l.child.isRunning = false
  returned : ∀ n : ℕ, l.client.ctl = .returned n →
    file = none ∧ (config.blocksizeByte.toNat ≠ 0 → l.response = [] ∧ l.closed = true)

theorem Whole.start (server : MyftpsConfig) (config : MyftpcConfig) (file : Option (List UInt8)) :
    Whole server config file (.start file) where
  sent := .inl rfl
  appended h := h
  ended h := by cases h
  returned n h := by cases h

/-- The control of the client changes. -/
theorem Whole.ctl (h : Whole server config file l) {ctl : Myftpc.Ctl}
    (hctl : ∀ n : ℕ, ctl ≠ .returned n) (request : List UInt8) :
    Whole server config file
      { l with client := { l.client with ctl := ctl }, request := request } :=
  ⟨h.sent, h.appended, h.ended, fun n hn => absurd hn (hctl n)⟩

theorem Whole.fail (h : Whole server config file l) : Whole server config file l.fail :=
  h.ctl (fun n hn => by
    have heq := Myftpc.Ctl.returned.inj hn
    omega) l.request

/-- A client that has returned has nothing more to expect. -/
theorem Whole.child (h : Whole server config file l) (hrunning : l.child.isRunning = true)
    {response : List UInt8} {closed : Bool} {child : FileChild}
    (hsent : l.client.received ++ (response ++ child.rest server) = child.file server ∨
      l.client.received ++ (response ++ child.rest server) = [])
    (hended : closed = true → child.isRunning = false)
    (hblock : config.blocksizeByte.toNat ≠ 0) :
    Whole server config file { l with response := response, closed := closed, child := child } := by
  refine ⟨hsent, h.appended, hended, fun n hn => ⟨(h.returned n hn).1, fun _ => ?_⟩⟩
  have hclosed := ((h.returned n hn).2 hblock).2
  exact absurd ((h.ended hclosed).symm.trans hrunning) Bool.false_ne_true

theorem Whole.read {n : ℕ} (h : Whole server config file l) (total : ℕ) (hpos : 0 < n)
    (hn : n ≤ l.response.length) {append : Append} (hopen : append.fopen = true)
    (hwritten : n ≤ append.written) :
    Whole server config file
      { l with
        client :=
          { ctl := .read (total + n)
            file := (appendFile append l.client.file (l.response.take n)).2
            received := l.client.received ++ l.response.take n }
        response := l.response.drop n } := by
  refine ⟨?_, fun hfile => ?_, h.ended, fun _ heq => by cases heq⟩
  · show l.client.received ++ l.response.take n ++ (l.response.drop n ++ _) = _ ∨
      l.client.received ++ l.response.take n ++ (l.response.drop n ++ _) = _
    rw [List.append_assoc, ← List.append_assoc (l.response.take n), List.take_append_drop]
    exact h.sent
  · have hlen : (l.response.take n).length = n := by
      rw [List.length_take, Nat.min_eq_left hn]
    have hne : l.client.received ++ l.response.take n ≠ [] := by
      intro hnil
      rw [(List.append_eq_nil_iff.mp hnil).2] at hlen
      exact absurd hlen (Nat.ne_of_lt hpos)
    have hgetD : l.client.file.getD [] = l.client.received := by
      rw [h.appended hfile]
      split
      · rename_i hnil
        exact hnil.symm
      · rfl
    show (appendFile append l.client.file (l.response.take n)).2 =
      if l.client.received ++ l.response.take n = [] then none
      else some (l.client.received ++ l.response.take n)
    rw [appendFile, hopen, hgetD, List.take_of_length_le (hlen.trans_le hwritten), if_neg hne]
    rfl

theorem Whole.step (h : Whole server config file l) (hsession : Session server config file l)
    (hstep : Step server config l e l') (hlossless : Lossless server e)
    (hsize : blocksize server ≠ 0) (hblock : config.blocksizeByte.toNat ≠ 0) :
    Whole server config file l' := by
  cases hstep with
  | notWritten | «exists» | readError => exact h.fail
  | write | killed | fetch => exact h.ctl (fun _ => Myftpc.Ctl.noConfusion) _
  | read _ hpos hn => exact h.read _ hpos hn hlossless.1 hlossless.2
  | endOfFile hctl hend =>
    exact ⟨h.sent, h.appended, h.ended, fun _ _ =>
      ⟨hsession.reading _ hctl, fun hne => hend.resolve_left hne⟩⟩
  | fopen hchild hfile =>
    refine h.child (congrArg FileChild.isRunning hchild) ?_ (fun hclosed => ?_) hblock
    · have hsent := h.sent
      rw [hchild, FileChild.rest, hfile] at hsent
      exact hsent
    · have hended := h.ended hclosed
      rw [hchild] at hended
      cases hended
  | @notOpened t _ hchild =>
    refine h.child (congrArg FileChild.isRunning hchild) (.inr ?_) (fun _ => rfl) hblock
    have hnil : l.client.received ++ l.response = [] := by
      rcases h.sent with hsent | hsent
      · rw [hchild, ← List.append_assoc] at hsent
        exact List.append_left_eq_self.mp hsent
      · rw [← List.append_assoc] at hsent
        exact (List.append_eq_nil_iff.mp hsent).1
    rw [← List.append_assoc, hnil]
    rfl
  | @childWrite t rest n hchild hpos =>
    obtain ⟨m, hm, hle⟩ := hlossless
    obtain rfl := Option.some.inj hm
    refine h.child (congrArg FileChild.isRunning hchild) ?_ (fun hclosed => ?_) hblock
    · have hsent := h.sent
      rw [hchild] at hsent
      have htake : (rest.take (blocksize server)).take n = rest.take (blocksize server) := by
        rw [List.take_take, Nat.min_eq_right hle]
      rw [htake, List.append_assoc]
      show _ ++ (_ ++ (rest.take _ ++ rest.drop _)) = _ ∨
        _ ++ (_ ++ (rest.take _ ++ rest.drop _)) = _
      rw [List.take_append_drop]
      exact hsent
    · have hended := h.ended hclosed
      rw [hchild] at hended
      cases hended
  | childWriteError =>
    obtain ⟨m, hm, -⟩ := hlossless
    cases hm
  | @childExit t rest hchild hpos =>
    refine h.child (congrArg FileChild.isRunning hchild) ?_ (fun _ => rfl) hblock
    have hnil : rest = [] := by
      rw [List.length_take] at hpos
      rw [← List.length_eq_zero_iff]
      omega
    have hsent := h.sent
    rw [hchild, hnil] at hsent
    exact hsent

/-- The server closes the connection. -/
theorem Whole.close (h : Whole server config file l) (habsent : l.child = .absent)
    (request : List UInt8) :
    Whole server config file { l with request := request, closed := true } := by
  refine ⟨h.sent, h.appended, fun _ => ?_, fun n hn => ?_⟩
  · rw [habsent]
    rfl
  · obtain ⟨hfile, hend⟩ := h.returned n hn
    exact ⟨hfile, fun hblock => ⟨(hend hblock).1, rfl⟩⟩

/-- The server is done with the request. -/
theorem Whole.serve (h : Whole server config file l) (habsent : l.child = .absent)
    (hclosed : l.closed = false) (hblock : config.blocksizeByte.toNat ≠ 0) (buffer : List UInt8)
    (n rand : ℕ) (fork : Bool) :
    Whole server config file (l.serve server config buffer n rand fork) := by
  rw [Link.serve]
  split
  · exact h.close habsent _
  · have hnil : l.client.received ++ (l.response ++ []) = [] := by
      have hsent := h.sent
      rw [habsent] at hsent
      exact hsent.elim id id
    obtain ⟨hreceived, hresponse⟩ := List.append_eq_nil_iff.mp hnil
    refine ⟨.inl ?_, h.appended, fun hend => ?_, fun m hm => ?_⟩
    · rw [hreceived, (List.append_eq_nil_iff.mp hresponse).1]
      rfl
    · exact absurd (hclosed.symm.trans hend) Bool.false_ne_true
    · have hend := ((h.returned m hm).2 hblock).2
      exact absurd (hclosed.symm.trans hend) Bool.false_ne_true

/-- A client that reports success has received the whole file that its child has sent, if it has
received anything. -/
theorem Whole.complete (h : Whole server config file l) (hblock : config.blocksizeByte.toNat ≠ 0)
    {n : ℕ} (hreturned : l.client.ctl = .returned n) :
    (l.client.file = if l.client.received = [] then none else some l.client.received) ∧
      (l.client.received = l.child.file server ∨ l.client.received = []) := by
  obtain ⟨hnone, hend⟩ := h.returned n hreturned
  obtain ⟨hresponse, hclosed⟩ := hend hblock
  refine ⟨h.appended hnone, ?_⟩
  have hrest : l.child.rest server = [] := by
    have hrunning := h.ended hclosed
    cases hchild : l.child with
    | absent | exited => rfl
    | fopen | write =>
      rw [hchild] at hrunning
      cases hrunning
  have hsent := h.sent
  rwa [hresponse, hrest, List.append_nil, List.append_nil] at hsent

end Link

namespace FileService

variable {ι : Type} [DecidableEq ι] {clients : ι → MyftpcConfig}
  {file : ι → Option (List UInt8)} {s t : FileService ι}

/-- The server reads whole requests, and no write and no append is cut off. -/
def Lossless (server : MyftpsConfig) (s : FileService ι) : Label ι → Prop
  | .event _ e => Link.Lossless server e
  | a => s.WholeRequests a

omit [DecidableEq ι] in
theorem Lossless.wholeRequests {a : Label ι} (h : s.Lossless server a) : s.WholeRequests a := by
  cases a with
  | event => trivial
  | connect | accept | readRequest => exact h

/-- One link changes. -/
theorem whole_update {i : ι} (h : (s.link i).Whole server (clients i) (file i)) {j : ι} {l : Link}
    (hl : j = i → l.Whole server (clients i) (file i)) :
    (Function.update s.link j l i).Whole server (clients i) (file i) := by
  rcases eq_or_ne i j with rfl | hne
  · rw [Function.update_self]
    exact hl rfl
  · rwa [Function.update_of_ne hne]

theorem whole_of_step {i : ι} (hsize : Link.blocksize server ≠ 0)
    (hblock : (clients i).blocksizeByte.toNat ≠ 0) (hordered : s.Ordered)
    (hsession : (s.link i).Session server (clients i) (file i))
    (h : (s.link i).Whole server (clients i) (file i)) {a : Label ι}
    (hstep : Step server clients s a t) (hlossless : s.Lossless server a) :
    (t.link i).Whole server (clients i) (file i) := by
  cases hstep with
  | connect hctl =>
    refine whole_update h ?_
    rintro rfl
    exact h.ctl (fun _ => Myftpc.Ctl.noConfusion) _
  | notConnected =>
    refine whole_update h ?_
    rintro rfl
    exact h.fail
  | event hstep =>
    refine whole_update h ?_
    rintro rfl
    exact h.step hsession hstep hlossless hsize hblock
  | accept => exact h
  | @denied j backlog hserver hbacklog =>
    refine whole_update h ?_
    rintro rfl
    refine h.close ((hordered.links j).queued ?_).1 _
    rw [waiting, hserver, hbacklog]
    exact List.mem_cons_self
  | @readError j _ _ _ hserver =>
    refine whole_update h ?_
    rintro rfl
    refine h.close ((hordered.links j).queued ?_).1 _
    rw [waiting, hserver]
    exact List.mem_cons_self
  | @readRequest j _ _ _ _ hserver =>
    refine whole_update h ?_
    rintro rfl
    have hwaiting : j ∈ s.waiting := by
      rw [waiting, hserver]
      exact List.mem_cons_self
    obtain ⟨habsent, hclosed, -⟩ := (hordered.links j).queued hwaiting
    exact h.serve habsent hclosed hblock _ _ _ _

/-- No transfer has lost anything, in every run in which nothing is cut off. -/
theorem whole_of_run (hsize : Link.blocksize server ≠ 0)
    (h : ((system server clients file).restrict (Lossless server)).Reachable s) {i : ι}
    (hblock : (clients i).blocksizeByte.toNat ≠ 0) :
    (s.link i).Whole server (clients i) (file i) := by
  refine h.invariant (I := fun s => (s.link i).Whole server (clients i) (file i)) ?_ ?_
  · rintro s rfl
    exact .start server (clients i) (file i)
  · rintro s a t hs hinv ⟨hexec, hlossless⟩
    exact whole_of_step hsize hblock (ordered_of_reachable hs.of_restrict)
      (sessions_of_reachable (hs.mono fun _ _ => Lossless.wholeRequests) i) hinv
      (step_of_exec hexec) hlossless

/-- **A client gets the whole file, or nothing.** -/
theorem whole_of_reachable (hsize : Link.blocksize server ≠ 0)
    (h : ((system server clients file).restrict (Lossless server)).Reachable s) {i : ι}
    (hblock : (clients i).blocksizeByte.toNat ≠ 0) {n : ℕ}
    (hreturned : (s.link i).client.ctl = .returned n) :
    n = 0 ∧ (s.link i).client.file = none ∨
      ∃ content, server.files (clients i).filename.bytes = some content ∧
        sanitizeClientAddr (clients i).ip = true ∧
        (clients i).secretKey = server.secretKey ∧
        n = content.length ∧ (s.link i).client.file = some content := by
  have hsession := sessions_of_reachable (h.mono fun _ _ => Lossless.wholeRequests) i
  obtain ⟨hfile, hreceived⟩ := (whole_of_run hsize h hblock).complete hblock hreturned
  have hcount : (s.link i).client.received.length = n := hsession.counted n (by
    rw [hreturned]
    rfl)
  by_cases hnil : (s.link i).client.received = []
  · rw [if_pos hnil] at hfile
    rw [hnil] at hcount
    exact .inl ⟨hcount.symm, hfile⟩
  · rw [if_neg hnil] at hfile
    have heq := hreceived.resolve_right hnil
    obtain ⟨content, hcontent, hsent, hip, hkey⟩ := hsession.exists_content (heq ▸ hnil)
    rw [heq, hsent] at hcount hfile
    exact .inr ⟨content, hcontent, hip, hkey, hcount.symm, hfile⟩

def isLossless (_ : FileService Bool) : Label Bool → Bool
  | .event _ (.childWrite o) => o.any (Link.blocksize oneFile ≤ ·)
  | .event _ (.read (some (n, append))) => append.fopen && n ≤ append.written
  | .readRequest _ (some n) _ _ => n == requestSize
  | _ => true

theorem lossless_of_isLossless (s : FileService Bool) (a : Label Bool)
    (h : isLossless s a = true) : s.Lossless oneFile a := by
  cases a with
  | connect | accept => trivial
  | readRequest _ o =>
    cases o with
    | none => trivial
    | some n => exact beq_iff_eq.mp h
  | event i e =>
    cases e with
    | childWrite o =>
      cases o with
      | none => cases h
      | some n => exact ⟨n, rfl, of_decide_eq_true h⟩
    | read o =>
      cases o with
      | none => trivial
      | some o =>
        obtain ⟨hopen, hle⟩ := Bool.and_eq_true_iff.mp h
        exact ⟨hopen, of_decide_eq_true hle⟩
    | write | access | endOfFile | fopen | childExit => trivial

/-- The first client returns 3. -/
theorem whole_twoClients : ∃ s : FileService Bool,
    ((system oneFile twoClients fun _ => none).restrict (Lossless oneFile)).Reachable s ∧
      (s.link true).client.ctl = .returned 3 ∧
      (3 = 0 ∧ (s.link true).client.file = none ∨
        ∃ content, oneFile.files (twoClients true).filename.bytes = some content ∧
          sanitizeClientAddr (twoClients true).ip = true ∧
          (twoClients true).secretKey = oneFile.secretKey ∧
          3 = content.length ∧ (s.link true).client.file = some content) := by
  have hrun : (LTS.run (exec oneFile twoClients) (fun s a => isLossless s a = true)
      (start fun _ => none) twoLabels).map (fun s => (s.link true).client.ctl) =
      some (.returned 3) := by decide +kernel
  obtain ⟨s, hrun, hctl⟩ := Option.map_eq_some_iff.mp hrun
  have hreach := (LTS.reachable_of_run (LTS.Reachable.init rfl) hrun).mono lossless_of_isLossless
  exact ⟨s, hreach, hctl, whole_of_reachable (by decide) hreach (by decide) hctl⟩

end FileService

end CS536Labs.Lab3
