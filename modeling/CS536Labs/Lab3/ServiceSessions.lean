import CS536Labs.Lab3.FileService

/-!
# What the clients of the file server get

* `received_of_reachable`: when the server reads whole requests, a client gets bytes only for the
  right key, from an allowed address, and in the order of the file that it has named.
-/

namespace CS536Labs.Lab3

variable {server : MyftpsConfig} {config : MyftpcConfig}

/-- A transfer that a client may have. -/
structure Granted (server : MyftpsConfig) (config : MyftpcConfig) (t : Transfer) : Prop where
  ip : sanitizeClientAddr config.ip = true
  secretKey : config.secretKey = server.secretKey
  filename : t.filename = config.filename.bytes
  file : (server.files config.filename.bytes).isSome = true

/-! ## Requests -/

theorem Link.message_eq (config : MyftpcConfig) :
    message config =
      storeLE 2 config.secretKey.toNat ++ strncpy config.filename.bytes maxFilenameLen :=
  encodeKeyed_eq config.filename config.secretKey.toNat List.length_replicate

theorem Link.length_message (config : MyftpcConfig) : (message config).length = requestSize := by
  rw [message_eq, List.length_append, length_storeLE, length_strncpy]
  rfl

theorem MyftpcConfig.length_filename_le (config : MyftpcConfig) :
    config.filename.bytes.length ≤ maxFilenameLen := by
  by_contra hlen
  have hcheck := config.checkFilename
  rw [CS536Labs.checkFilename, cString_eq_self config.filename.noNul] at hcheck
  rw [if_pos (Nat.lt_of_not_le hlen)] at hcheck
  cases hcheck

/-- The request of a client is decoded to its own key and file name. -/
theorem Link.decode_message (config : MyftpcConfig) {buffer : List UInt8}
    (hbuffer : buffer.length = requestSize) :
    decodeRequest (recvInto buffer (message config)) =
      (strncpy config.filename.bytes maxFilenameLen ++ [0], config.secretKey.toNat) := by
  have hlen := length_message config
  have hrecv := recvInto_of_le (hlen.trans hbuffer.symm).le
  rw [List.drop_eq_nil_of_le (hbuffer.trans hlen.symm).le, List.append_nil] at hrecv
  rw [hrecv, message_eq]
  exact decodeKeyed_storeLE config.length_filename_le config.secretKey.toNat_lt

/-- **Access control.** A whole request starts only a transfer that is granted. -/
theorem granted_of_serve {buffer : List UInt8} (hbuffer : buffer.length = requestSize) {rand : ℕ}
    {fork : Bool} {t : Transfer}
    (h : ((myftps server.secretKey).serve buffer ⟨config.ip, some (Link.message config),
      fun filename => (server.files filename).isSome, rand, fork⟩).2 = some t) :
    Granted server config t := by
  have hname : cString (strncpy config.filename.bytes maxFilenameLen ++ [0]) =
      config.filename.bytes := by
    rw [cString_append_zero, cString_strncpy_of_le config.filename.noNul config.length_filename_le]
  rw [FileServer.serve] at h
  split at h
  · cases h
  · rename_i hip
    have hip : sanitizeClientAddr config.ip = true := by simpa [myftps] using hip
    simp only [FileServer.readRequest, FileServer.start, myftps,
      Link.decode_message config hbuffer, hname] at h
    split at h
    · cases h
    · rename_i pubkey hkey
      split_ifs at h with hcheck haccess htoss hfork
      obtain rfl := Option.some.inj h
      refine ⟨hip, ?_, rfl, Option.isSome_iff_ne_none.mpr (by simpa using haccess)⟩
      by_contra hne
      rw [if_pos fun heq => hne (UInt16.toNat_inj.mp heq.symm)] at hkey
      cases hkey

/-! ## Clients with their children -/

/-- The number of bytes that a client has counted. -/
def Myftpc.Ctl.total : Myftpc.Ctl → Option ℕ
  | .connect | .write | .access => some 0
  | .read n | .returned (.ofNat n) => some n
  | .returned (.negSucc _) | .killed => none

namespace FileChild

def transfer : FileChild → Option Transfer
  | .absent => none
  | .fopen t | .write t _ | .exited t => some t

/-- The file that is transferred. -/
def file (server : MyftpsConfig) (child : FileChild) : List UInt8 :=
  (child.transfer.bind fun t => server.files t.filename).getD []

/-- What is left of it. -/
def rest (server : MyftpsConfig) : FileChild → List UInt8
  | .fopen t => (server.files t.filename).getD []
  | .write _ rest => rest
  | .absent | .exited _ => []

end FileChild

namespace Link

variable {file : Option (List UInt8)} {l l' : Link} {e : Event}

/-- A client that may have had a file, and its child. -/
structure Session (server : MyftpsConfig) (config : MyftpcConfig) (file : Option (List UInt8))
    (l : Link) : Prop where
  request : l.request <+: message config
  granted : ∀ t ∈ l.child.transfer, Granted server config t
  sent : (l.client.received ++ (l.response ++ l.child.rest server)).Sublist (l.child.file server)
  counted : ∀ n ∈ l.client.ctl.total, l.client.received.length = n
  reading : ∀ total, l.client.ctl = .read total → file = none
  kept : file.isSome = true → l.client.file = file
  appended : file = none → (l.client.file.getD []).Sublist l.client.received

theorem Session.start (server : MyftpsConfig) (config : MyftpcConfig)
    (file : Option (List UInt8)) : Session server config file (.start file) where
  request := List.nil_prefix
  granted t ht := by cases ht
  sent := List.Sublist.refl _
  counted n hn := by
    cases hn
    rfl
  reading total h := by cases h
  kept _ := rfl
  appended h := by
    rw [Link.start, h]
    exact List.Sublist.refl _

/-- The control of the client changes. -/
theorem Session.ctl (h : Session server config file l) {ctl : Myftpc.Ctl}
    (htotal : ∀ n ∈ ctl.total, n ∈ l.client.ctl.total)
    (hreading : ∀ total, ctl = .read total → file = none) {request : List UInt8}
    (hrequest : request <+: message config) :
    Session server config file
      { l with client := { l.client with ctl := ctl }, request := request } :=
  ⟨hrequest, h.granted, h.sent, fun n hn => h.counted n (htotal n hn), hreading, h.kept, h.appended⟩

theorem Session.fail (h : Session server config file l) : Session server config file l.fail :=
  h.ctl (fun _ hn => by cases hn) (fun _ heq => by cases heq) h.request

theorem Session.close (h : Session server config file l) :
    Session server config file { l with closed := true } :=
  ⟨h.request, h.granted, h.sent, h.counted, h.reading, h.kept, h.appended⟩

/-- The child ends. -/
theorem Session.exit {t : Transfer} (h : Session server config file l)
    (hchild : l.child.transfer = some t) : Session server config file (l.exit t) := by
  refine ⟨h.request, ?_, ?_, h.counted, h.reading, h.kept, h.appended⟩
  · show ∀ t' ∈ some t, Granted server config t'
    exact hchild ▸ h.granted
  · have hfile : (FileChild.exited t).file server = l.child.file server := by
      rw [FileChild.file, FileChild.file, hchild]
      rfl
    show (l.client.received ++ (l.response ++ [])).Sublist ((FileChild.exited t).file server)
    rw [hfile]
    exact (((List.nil_sublist _).append_left _).append_left _).trans h.sent

theorem Session.read {total n : ℕ} (h : Session server config file l)
    (hctl : l.client.ctl = .read total) (hn : n ≤ l.response.length) (append : Append) :
    Session server config file
      { l with
        client :=
          { ctl := .read (total + n)
            file := (appendFile append l.client.file (l.response.take n)).2
            received := l.client.received ++ l.response.take n }
        response := l.response.drop n } := by
  have hnone := h.reading total hctl
  refine ⟨h.request, h.granted, ?_, ?_, fun _ _ => hnone, fun hsome => ?_, fun _ => ?_⟩
  · rw [List.append_assoc, ← List.append_assoc (l.response.take n), List.take_append_drop]
    exact h.sent
  · intro m hm
    obtain rfl := Option.some.inj hm
    rw [List.length_append, List.length_take, Nat.min_eq_left hn,
      h.counted total (by rw [hctl]; rfl)]
  · rw [hnone] at hsome
    cases hsome
  · have happended := h.appended hnone
    show ((appendFile append l.client.file (l.response.take n)).2.getD []).Sublist _
    rw [appendFile]
    split
    · exact happended.trans (List.sublist_append_left _ _)
    · exact happended.append (List.take_sublist _ _)

theorem Session.childWrite {t : Transfer} {rest : List UInt8} (h : Session server config file l)
    (hchild : l.child = .write t rest) (size n : ℕ) :
    Session server config file
      { l with
        response := l.response ++ (rest.take size).take n
        child := .write t (rest.drop size) } := by
  refine ⟨h.request, ?_, ?_, h.counted, h.reading, h.kept, h.appended⟩
  · have hgranted := h.granted
    rw [hchild] at hgranted
    exact hgranted
  · have hsent := h.sent
    rw [hchild] at hsent
    refine List.Sublist.trans ?_ hsent
    show (l.client.received ++ (l.response ++ (rest.take size).take n ++ rest.drop size)).Sublist
      (l.client.received ++ (l.response ++ rest))
    rw [List.append_assoc]
    refine (List.Sublist.append_left ?_ _).append_left _
    conv_rhs => rw [← List.take_append_drop size rest]
    exact (List.take_sublist _ _).append_right _

theorem Session.step (h : Session server config file l) (hstep : Step server config l e l') :
    Session server config file l' := by
  cases hstep with
  | notWritten | «exists» | readError => exact h.fail
  | write hctl hn =>
    refine h.ctl (fun n hn => ?_) (fun _ heq => by cases heq) (List.take_prefix _ _)
    rw [hctl]
    exact hn
  | killed => exact h.ctl (fun _ hn => by cases hn) (fun _ heq => by cases heq) h.request
  | fetch hctl hfile =>
    refine h.ctl (fun n hn => ?_) (fun _ _ => ?_) h.request
    · rw [hctl]
      exact hn
    · by_contra hne
      have hkept := h.kept (Option.isSome_iff_ne_none.mpr hne)
      exact hne (hkept ▸ hfile)
  | read hctl _ hn => exact h.read hctl hn _
  | endOfFile hctl =>
    refine h.ctl (fun n hn => ?_) (fun _ heq => by cases heq) h.request
    rw [hctl]
    exact hn
  | fopen hchild hfile =>
    refine ⟨h.request, ?_, ?_, h.counted, h.reading, h.kept, h.appended⟩
    · have hgranted := h.granted
      rw [hchild] at hgranted
      exact hgranted
    · have hsent := h.sent
      rw [hchild, FileChild.rest, hfile] at hsent
      exact hsent
  | notOpened _ hchild | childWriteError hchild | childExit hchild =>
    exact h.exit (congrArg FileChild.transfer hchild)
  | childWrite hchild => exact h.childWrite hchild _ _

/-- The server is done with the request. -/
theorem Session.serve (h : Session server config file l) (habsent : l.child = .absent)
    {buffer : List UInt8} (hbuffer : buffer.length = requestSize) (n rand : ℕ) (fork : Bool)
    (hread : l.request.take n = message config) :
    Session server config file (l.serve server config buffer n rand fork) := by
  have hrequest : l.request.drop n <+: message config := by
    have hlen := h.request.length_le
    have htake := congrArg List.length hread
    rw [List.length_take] at htake
    rw [List.drop_eq_nil_of_le (by omega)]
    exact List.nil_prefix
  rw [Link.serve, hread]
  split
  · exact ⟨hrequest, h.granted, h.sent, h.counted, h.reading, h.kept, h.appended⟩
  · rename_i t ht
    have hgranted := granted_of_serve hbuffer ht
    refine ⟨hrequest, fun t' ht' => ?_, ?_, h.counted, h.reading, h.kept, h.appended⟩
    · obtain rfl := Option.some.inj ht'
      exact hgranted
    · have hsent := h.sent
      rw [habsent] at hsent
      have hnil := List.sublist_nil.mp hsent
      obtain ⟨hreceived, hresponse⟩ := List.append_eq_nil_iff.mp hnil
      rw [(List.append_eq_nil_iff.mp hresponse).1, hreceived]
      exact List.Sublist.refl _

/-- What a child sends is the file that its client may have. -/
theorem Session.exists_content (h : Session server config file l)
    (hne : l.child.file server ≠ []) :
    ∃ content, server.files config.filename.bytes = some content ∧
      l.child.file server = content ∧ sanitizeClientAddr config.ip = true ∧
      config.secretKey = server.secretKey := by
  cases htransfer : l.child.transfer with
  | none =>
    rw [FileChild.file, htransfer] at hne
    exact absurd rfl hne
  | some t =>
    have hgranted := h.granted t htransfer
    obtain ⟨content, hcontent⟩ := Option.isSome_iff_exists.mp hgranted.file
    refine ⟨content, hcontent, ?_, hgranted.ip, hgranted.secretKey⟩
    rw [FileChild.file, htransfer, Option.bind_some, hgranted.filename, hcontent]
    rfl

end Link

/-! ## The server with its clients -/

namespace Link

variable {l l' : Link} {e : Event} {waiting : Prop}

/-- The server has closed the connection, or its child will. -/
def Handled (l : Link) : Prop :=
  l.closed = true ∨ ∃ t, l.child = .fopen t ∨ ∃ rest, l.child = .write t rest

/-- A client whose connection waits for the server, or does not. -/
structure Ordered (l : Link) (waiting : Prop) : Prop where
  fresh : l.client.ctl = .connect → ¬ waiting ∧ l.child = .absent ∧ l.closed = false
  queued : waiting → l.child = .absent ∧ l.closed = false ∧
    (l.client.ctl = .write ∨ l.request ≠ [] ∨ l.client.ctl.isEnded = true)
  handled : ¬ waiting → l.client.ctl ≠ .connect → l.client.ctl.isEnded = false → l.Handled

/-- The control of the client changes. -/
theorem Ordered.ctl (h : l.Ordered waiting) (hconnect : l.client.ctl ≠ .connect)
    (hended : l.client.ctl.isEnded = false) {client : Myftpc} (hclient : client.ctl ≠ .connect)
    {request response : List UInt8}
    (hrequest : waiting → request ≠ [] ∨ client.ctl.isEnded = true) :
    ({ l with client := client, request := request, response := response } : Link).Ordered
      waiting := by
  refine ⟨fun hctl => absurd hctl hclient, fun hwaiting => ?_, fun hwaiting _ _ => ?_⟩
  · obtain ⟨hchild, hclosed, -⟩ := h.queued hwaiting
    exact ⟨hchild, hclosed, .inr (hrequest hwaiting)⟩
  · exact h.handled hwaiting hconnect hended

/-- The child goes on. -/
theorem Ordered.child (h : l.Ordered waiting) (hchild : l.child ≠ .absent) {l' : Link}
    (hclient : l'.client = l.client) (hhandled : l'.Handled) : l'.Ordered waiting := by
  refine ⟨fun hctl => ?_, fun hwaiting => absurd (h.queued hwaiting).1 hchild,
    fun _ _ _ => hhandled⟩
  rw [hclient] at hctl
  exact absurd (h.fresh hctl).2.1 hchild

theorem message_take_ne_nil (config : MyftpcConfig) {n : ℕ} (hn : 0 < n) :
    (message config).take n ≠ [] := by
  rw [← List.length_pos_iff, List.length_take, length_message]
  exact lt_min hn (by decide)

theorem Ordered.step (h : l.Ordered waiting) (hstep : Step server config l e l') :
    l'.Ordered waiting := by
  cases hstep with
  | notWritten hctl | «exists» hctl | readError hctl | killed hctl | endOfFile hctl =>
    refine h.ctl ?_ ?_ Myftpc.Ctl.noConfusion fun _ => .inr rfl
    · rw [hctl]
      exact Myftpc.Ctl.noConfusion
    · rw [hctl]
      rfl
  | write hctl hn =>
    refine h.ctl ?_ ?_ Myftpc.Ctl.noConfusion fun _ => .inl (message_take_ne_nil config hn)
    · rw [hctl]
      exact Myftpc.Ctl.noConfusion
    · rw [hctl]
      rfl
  | fetch hctl | read hctl =>
    refine h.ctl ?_ ?_ Myftpc.Ctl.noConfusion fun hwaiting => .inl ?_
    · rw [hctl]
      exact Myftpc.Ctl.noConfusion
    · rw [hctl]
      rfl
    · obtain ⟨-, -, hwrite | hrequest | hended⟩ := h.queued hwaiting
      · cases hctl.symm.trans hwrite
      · exact hrequest
      · rw [hctl] at hended
        cases hended
  | fopen hchild =>
    refine h.child (fun habsent => ?_) rfl (.inr ⟨_, .inr ⟨_, rfl⟩⟩)
    cases hchild.symm.trans habsent
  | notOpened _ hchild | childWriteError hchild | childExit hchild =>
    refine h.child (fun habsent => ?_) rfl (.inl rfl)
    cases hchild.symm.trans habsent
  | childWrite hchild =>
    refine h.child (fun habsent => ?_) rfl (.inr ⟨_, .inr ⟨_, rfl⟩⟩)
    cases hchild.symm.trans habsent

end Link

namespace FileService

variable {ι : Type} {clients : ι → MyftpcConfig} {file : ι → Option (List UInt8)}
  {s t : FileService ι}

/-- The connections that the server has not handled. -/
def waiting (s : FileService ι) : List ι :=
  match s.server with
  | .accept => s.backlog
  | .read i => i :: s.backlog

/-- The server handles one connection after the other. -/
structure Ordered (s : FileService ι) : Prop where
  nodup : s.waiting.Nodup
  links : ∀ i, (s.link i).Ordered (i ∈ s.waiting)

theorem ordered_start (file : ι → Option (List UInt8)) : (start file).Ordered where
  nodup := List.nodup_nil
  links _ :=
    { fresh := fun _ => ⟨List.not_mem_nil, rfl, rfl⟩
      queued := fun hwaiting => absurd hwaiting List.not_mem_nil
      handled := fun _ hctl => absurd rfl hctl }

variable [DecidableEq ι]

/-- The server has handled the first connection. -/
theorem Ordered.handle (h : s.Ordered) {i : ι} {backlog : List ι}
    (hwaiting : s.waiting = i :: backlog) {l : Link} {t : FileService ι}
    (hlink : t.link = Function.update s.link i l) (hrest : t.waiting = backlog)
    (hclient : l.client = (s.link i).client) (hhandled : l.Handled) : t.Ordered := by
  have hnodup := h.nodup
  rw [hwaiting, List.nodup_cons] at hnodup
  refine ⟨hrest ▸ hnodup.2, fun j => ?_⟩
  rw [hlink, hrest]
  rcases eq_or_ne j i with rfl | hne
  · rw [Function.update_self]
    refine ⟨fun hconnect => ?_, fun hmem => absurd hmem hnodup.1, fun _ _ _ => hhandled⟩
    rw [hclient] at hconnect
    exact absurd (hwaiting ▸ List.mem_cons_self) ((h.links j).fresh hconnect).1
  · rw [Function.update_of_ne hne]
    have hlinks := h.links j
    rwa [hwaiting, List.mem_cons, or_iff_right hne] at hlinks

theorem Ordered.step (h : s.Ordered) {a : Label ι} (hstep : Step server clients s a t) :
    t.Ordered := by
  cases hstep with
  | @connect i hctl =>
    obtain ⟨hnot, hchild, hclosed⟩ := (h.links i).fresh hctl
    have hwaiting : waiting
        { s with
          link := Function.update s.link i
            { s.link i with client := { (s.link i).client with ctl := .write } }
          backlog := s.backlog ++ [i] } = s.waiting ++ [i] := by
      simp only [waiting]
      split <;> rfl
    refine ⟨?_, fun j => ?_⟩
    · rw [hwaiting, List.nodup_append]
      refine ⟨h.nodup, List.pairwise_singleton _ i, fun j hj j' hj' => ?_⟩
      obtain rfl := List.mem_singleton.mp hj'
      rintro rfl
      exact hnot hj
    · rw [hwaiting]
      rcases eq_or_ne j i with rfl | hne
      · simp only [Function.update_self]
        exact ⟨fun hctl => Myftpc.Ctl.noConfusion hctl, fun _ => ⟨hchild, hclosed, .inl rfl⟩,
          fun hnot => absurd (List.mem_append_right _ (List.mem_singleton_self j)) hnot⟩
      · simp only [Function.update_of_ne hne, List.mem_append, List.mem_singleton, hne, or_false]
        exact h.links j
  | @notConnected i hctl =>
    obtain ⟨hnot, -, -⟩ := (h.links i).fresh hctl
    refine ⟨h.nodup, fun j => ?_⟩
    rcases eq_or_ne j i with rfl | hne
    · simp only [Function.update_self]
      exact ⟨fun hctl => Myftpc.Ctl.noConfusion hctl, fun hwaiting => absurd hwaiting hnot,
        fun _ _ hended => Bool.noConfusion hended⟩
    · simp only [Function.update_of_ne hne]
      exact h.links j
  | @event i e l hstep =>
    refine ⟨h.nodup, fun j => ?_⟩
    rcases eq_or_ne j i with rfl | hne
    · simp only [Function.update_self]
      exact (h.links j).step hstep
    · simp only [Function.update_of_ne hne]
      exact h.links j
  | @accept i backlog hserver hbacklog =>
    have hwaiting : s.waiting = i :: backlog := by
      rw [waiting, hserver]
      exact hbacklog
    obtain ⟨hnodup, hlinks⟩ := h
    rw [hwaiting] at hnodup hlinks
    exact ⟨hnodup, hlinks⟩
  | @denied i backlog hserver hbacklog =>
    have hwaiting : s.waiting = i :: backlog := by
      rw [waiting, hserver]
      exact hbacklog
    refine h.handle hwaiting rfl ?_ rfl (.inl rfl)
    simp only [waiting, hserver]
  | @readError i _ _ _ hserver =>
    refine h.handle (i := i) ?_ rfl rfl rfl (.inl rfl)
    simp only [waiting, hserver]
  | @readRequest i _ _ _ _ hserver =>
    refine h.handle (i := i) ?_ rfl rfl ?_ ?_
    · simp only [waiting, hserver]
    · rw [Link.serve]
      split <;> rfl
    · rw [Link.serve]
      split
      · exact .inl rfl
      · exact .inr ⟨_, .inl rfl⟩

/-- The server handles one connection after the other, in every run. -/
theorem ordered_of_reachable (h : (system server clients file).Reachable s) : s.Ordered := by
  refine h.invariant (I := Ordered) ?_ fun s a t _ hs hexec => hs.step (step_of_exec hexec)
  rintro s rfl
  exact ordered_start file

/-- The server reads whole requests. -/
def WholeRequests (_ : FileService ι) : Label ι → Prop
  | .readRequest _ (some n) _ _ => n = requestSize
  | _ => True

/-- One link changes. -/
theorem sessions_update (h : ∀ i, (s.link i).Session server (clients i) (file i)) {i : ι} {l : Link}
    (hl : l.Session server (clients i) (file i)) (j : ι) :
    (Function.update s.link i l j).Session server (clients j) (file j) := by
  rcases eq_or_ne j i with rfl | hne
  · rwa [Function.update_self]
  · rw [Function.update_of_ne hne]
    exact h j

theorem sessions_of_step (hordered : s.Ordered)
    (h : ∀ i, (s.link i).Session server (clients i) (file i)) {a : Label ι}
    (hstep : Step server clients s a t) (hwhole : s.WholeRequests a) (j : ι) :
    (t.link j).Session server (clients j) (file j) := by
  cases hstep with
  | @connect i hctl =>
    refine sessions_update h
      ((h i).ctl (fun n hn => ?_) (fun _ heq => by cases heq) (h i).request) j
    rw [hctl]
    exact hn
  | notConnected => exact sessions_update h (h _).fail j
  | event hstep => exact sessions_update h ((h _).step hstep) j
  | accept => exact h j
  | denied | readError => exact sessions_update h (h _).close j
  | @readRequest i buffer n rand fork hserver hbuffer hn =>
    have hwaiting : i ∈ s.waiting := by
      rw [waiting, hserver]
      exact List.mem_cons_self
    obtain rfl : n = requestSize := hwhole
    have hread : (s.link i).request.take requestSize = Link.message (clients i) := by
      have hprefix := (h i).request
      have hlen := Link.length_message (clients i)
      rw [List.take_of_length_le (hlen ▸ hprefix.length_le)]
      exact hprefix.eq_of_length (Nat.le_antisymm hprefix.length_le (hlen ▸ hn))
    exact sessions_update h
      ((h i).serve (((hordered.links i).queued hwaiting).1) hbuffer _ rand fork hread) j

theorem sessions_of_reachable
    (h : ((system server clients file).restrict WholeRequests).Reachable s) (i : ι) :
    (s.link i).Session server (clients i) (file i) := by
  have hinv : ∀ i, (s.link i).Session server (clients i) (file i) := by
    refine h.invariant (I := fun s => ∀ i, (s.link i).Session server (clients i) (file i)) ?_ ?_
    · rintro s rfl i
      exact .start server (clients i) (file i)
    · rintro s a t hs hinv ⟨hexec, hwhole⟩
      have hordered := ordered_of_reachable hs.of_restrict
      exact sessions_of_step hordered hinv (step_of_exec hexec) hwhole
  exact hinv i

/-- What a client with this file has received of the file that it has named. -/
structure Received (server : MyftpsConfig) (config : MyftpcConfig) (file : Option (List UInt8))
    (c : Myftpc) : Prop where
  granted : c.received ≠ [] → sanitizeClientAddr config.ip = true ∧
    config.secretKey = server.secretKey
  sublist : c.received.Sublist ((server.files config.filename.bytes).getD [])
  kept : file.isSome = true → c.file = file
  appended : file = none → (c.file.getD []).Sublist c.received
  returned : ∀ n : ℕ, c.ctl = .returned n → c.received.length = n

/-- **Files go only to the clients that may have them.** -/
theorem received_of_reachable
    (h : ((system server clients file).restrict WholeRequests).Reachable s) (i : ι) :
    Received server (clients i) (file i) (s.link i).client := by
  have hsession := sessions_of_reachable h i
  have hsub : (s.link i).client.received.Sublist ((s.link i).child.file server) :=
    (List.sublist_append_left _ _).trans hsession.sent
  refine ⟨fun hne => ?_, ?_, hsession.kept, hsession.appended, fun n hn => ?_⟩
  · have hfile : (s.link i).child.file server ≠ [] := fun hnil =>
      hne (List.sublist_nil.mp (hnil ▸ hsub))
    obtain ⟨-, -, -, hip, hkey⟩ := hsession.exists_content hfile
    exact ⟨hip, hkey⟩
  · by_cases hfile : (s.link i).child.file server = []
    · rw [hfile] at hsub
      rw [List.sublist_nil.mp hsub]
      exact List.nil_sublist _
    · obtain ⟨content, hcontent, hsent, -, -⟩ := hsession.exists_content hfile
      rwa [hcontent, Option.getD_some, ← hsent]
  · refine hsession.counted n ?_
    rw [hn]
    rfl

/-- The server of the file `a`. -/
def oneFile : MyftpsConfig where
  secretKey := 7
  blocksizeByte := 2
  files name := if name = [0x61] then some [0x78, 0x79, 0x7a] else none

/-- Two clients at 128.10.25.7, the second one with the wrong key. -/
def twoClients (i : Bool) : MyftpcConfig where
  filename := ⟨[0x61], by decide⟩
  secretKey := if i then 7 else 8
  blocksizeByte := 2
  checkFilename := by decide
  ip := 0x800a1907
  stack := 1024

/-- No append fails. -/
def appended : Append := ⟨true, 2, false⟩

/-- A child serves the first client while the second one is refused. -/
def twoLabels : List (Label Bool) :=
  let zeros := List.replicate requestSize 0
  [.connect true true, .connect false true, .event true (.write (some 10)),
    .event false (.write (some 10)), .accept, .readRequest zeros (some 10) 1 true, .accept,
    .event true (.fopen true), .event true (.childWrite (some 2)),
    .readRequest zeros (some 10) 1 true, .event true .access, .event false .access,
    .event true (.read (some (1, appended))), .event true (.childWrite (some 2)),
    .event true .childExit, .event false .endOfFile, .event true (.read (some (2, appended))),
    .event true .endOfFile]

def isWhole (_ : FileService Bool) : Label Bool → Bool
  | .readRequest _ (some n) _ _ => n == requestSize
  | _ => true

theorem wholeRequests_of_isWhole (s : FileService Bool) (a : Label Bool)
    (h : isWhole s a = true) : s.WholeRequests a := by
  cases a with
  | readRequest _ o =>
    cases o with
    | none => trivial
    | some n => exact beq_iff_eq.mp h
  | connect | event | accept => trivial

/-- The first client gets the file, and the second one gets nothing. -/
theorem received_twoClients : ∃ s : FileService Bool,
    ((system oneFile twoClients fun _ => none).restrict WholeRequests).Reachable s ∧
      ((s.link true).client.file = some [0x78, 0x79, 0x7a] ∧ (s.link false).client.file = none) ∧
      ∀ i, Received oneFile (twoClients i) none (s.link i).client := by
  have hrun : (LTS.run (exec oneFile twoClients) (fun s a => isWhole s a = true)
      (start fun _ => none) twoLabels).map
        (fun s => ((s.link true).client.file, (s.link false).client.file)) =
      some (some [0x78, 0x79, 0x7a], none) := by decide +kernel
  obtain ⟨s, hrun, hs⟩ := Option.map_eq_some_iff.mp hrun
  have hreach := (LTS.reachable_of_run (LTS.Reachable.init rfl) hrun).mono
    wholeRequests_of_isWhole
  exact ⟨s, hreach, Prod.mk.inj hs, fun i => received_of_reachable hreach i⟩

end FileService

end CS536Labs.Lab3
