import CS536Labs.Lab4.WindowAgreement

/-!
# A request that is sent again

The server honours every request it receives, so that a request sent again has it fork one more
child for the same client, and the client takes datagrams from all of them. The order in which the
datagrams of each child arrive does not keep a lagging child apart from the others: its window is
taken for a later one of the same parity (`resent_request_aliasing`). `resent_request` holds for any
number of children, forked at any time, over a channel in which no datagram comes so late that every
block of the window behind its own has been delivered (`InTime`).
-/

namespace CS536Labs.Lab4

variable {config : Config} {key : Option UInt32} {file : List UInt8}
  {uninit : ℕ → ℕ → ℕ → UInt8} {s : System}

/-- The datagrams of each child are delivered in the order sent, each at most once. -/
def System.InChildOrder (s : System) : Label → Prop
  | .deliver child i _ => ∀ entry ∈ s.delivered, entry.1 = child → entry.2 < i
  | _ => True

instance (s : System) (a : Label) : Decidable (s.InChildOrder a) :=
  match a with
  | .deliver child i _ =>
    inferInstanceAs (Decidable (∀ entry ∈ s.delivered, entry.1 = child → entry.2 < i))
  | .server _ _ | .ack _ | .requestTimeout | .recvError | .fork => inferInstanceAs (Decidable True)

/-- The place in the file of the `i`-th datagram of a child: its window and its block. -/
def System.placeOf (s : System) (child i : ℕ) : Option (ℕ × ℕ) :=
  (s.children[child]?.bind fun server => server.sent[i]?).map fun d => (d.window, d.block)

/-- A datagram with this block of the window has been delivered. -/
def System.Delivered (s : System) (w j : ℕ) : Prop :=
  ∃ entry ∈ s.delivered, s.placeOf entry.1 entry.2 = some (w, j)

instance (s : System) (w j : ℕ) : Decidable (s.Delivered w j) :=
  inferInstanceAs (Decidable (∃ entry ∈ s.delivered, s.placeOf entry.1 entry.2 = some (w, j)))

/-- No datagram of a window is delivered when every block of the next window has been delivered. -/
def System.InTime (config : Config) (file : List UInt8) (s : System) : Label → Prop
  | .deliver child i _ => ∀ w ∈ s.windowOf child i, w < lastWindow config file →
      ∃ j < blockCount config file (w + 1), ¬ s.Delivered (w + 1) j
  | _ => True

instance (s : System) (a : Label) : Decidable (s.InTime config file a) :=
  match a with
  | .deliver child i _ => inferInstanceAs (Decidable (∀ w ∈ s.windowOf child i,
      w < lastWindow config file → ∃ j < blockCount config file (w + 1), ¬ s.Delivered (w + 1) j))
  | .server _ _ | .ack _ | .requestTimeout | .recvError | .fork => inferInstanceAs (Decidable True)

/-! ## What the client has been given -/

variable {t : System} {a : Label}

theorem placeOf_eq {child i : ℕ} {server : Server} {d : Datagram}
    (hget : s.children[child]? = some server) (hd : server.sent[i]? = some d) :
    s.placeOf child i = some (d.window, d.block) := by
  simp [System.placeOf, hget, hd]

/-- What has been delivered stays delivered. -/
theorem System.Step.delivered (h : s.Step config key file uninit a t) {w j : ℕ}
    (hdelivered : s.Delivered w j) : t.Delivered w j := by
  obtain ⟨entry, hentry, hplace⟩ := hdelivered
  obtain ⟨d, hd, hd_place⟩ := Option.map_eq_some_iff.mp hplace
  obtain ⟨server, hget, hd⟩ := Option.bind_eq_some_iff.mp hd
  obtain ⟨server', hget', rest, hrest⟩ := h.extends _ server hget
  have hd' : server'.sent[entry.2]? = some d := by
    rw [← hrest, List.getElem?_append_left (List.getElem?_eq_some_iff.mp hd).1, hd]
  refine ⟨entry, ?_, (placeOf_eq hget' hd').trans (congrArg some hd_place)⟩
  cases h with
  | deliver => exact List.mem_append_left _ hentry
  | server | ack | requestTimeout | recvError | fork => exact hentry

/-- **The marks of the client** are those it had and that of the datagram delivered, and it leaves
its window when all its blocks have theirs. -/
theorem SystemInv.step_marks (h : SystemInv config key file s)
    (hstep : s.Step config key file uninit a t) (hclean : s.Clean a) (halias : s.NonAliasing a) :
    (t.client.ret = none → ∀ j, t.client.received j = true →
      t.client.windows = s.client.windows ∧
        (s.client.ret = none ∧ s.client.received j = true ∨ t.Delivered s.client.windows j)) ∧
    (t.client.windows ≠ s.client.windows → t.client.windows = s.client.windows + 1 ∧
      ∀ j < blockCount config file s.client.windows,
        s.client.ret = none ∧ s.client.received j = true ∨ t.Delivered s.client.windows j) := by
  cases hstep with
  | @deliver child i o server d hget hd hret =>
    have hspec := h.receive_marks hget hd hret hclean halias uninit
    have hplace := placeOf_eq hget hd
    refine ⟨fun hnone j hj => ?_, fun hne => ⟨(hspec.left hne).1, fun j hj => ?_⟩⟩
    · obtain ⟨hwindows, hold | ⟨hw, rfl⟩⟩ := hspec.marked hnone j hj
      · exact ⟨hwindows, .inl ⟨hret, hold⟩⟩
      · exact ⟨hwindows, .inr ⟨(child, i), by simp, hw ▸ hplace⟩⟩
    · rcases (hspec.left hne).2 j hj with hold | ⟨hw, rfl⟩
      · exact .inl ⟨hret, hold⟩
      · exact .inr ⟨(child, i), by simp, hw ▸ hplace⟩
  | requestTimeout => exact ⟨fun _ j hj => Bool.noConfusion hj, fun hne => absurd rfl hne⟩
  | recvError => exact ⟨fun hret => absurd hret (Option.some_ne_none _), fun hne => absurd rfl hne⟩
  | server | ack | fork =>
    exact ⟨fun hret j hj => ⟨rfl, .inl ⟨hret, hj⟩⟩, fun hne => absurd rfl hne⟩

/-- The invariant of a transfer in time: of the windows that the client has completed every block
was delivered, and of its current window every block that it has marked. -/
structure ResentInv (config : Config) (key : Option UInt32) (file : List UInt8) (s : System) :
    Prop where
  inv : SystemInv config key file s
  completed : ∀ w < s.client.windows, ∀ j < blockCount config file w, s.Delivered w j
  marked : s.client.ret = none → ∀ j, s.client.received j = true → s.Delivered s.client.windows j

/-- A datagram in time is at most one window behind the client. -/
theorem ResentInv.nonAliasing (h : ResentInv config key file s) (ha : s.InTime config file a) :
    s.NonAliasing a := by
  cases a with
  | deliver child i o =>
    intro w hw
    obtain ⟨server, hmem, hle⟩ := h.inv.windowOf_le hw
    have hserver := h.inv.window_le server hmem
    have hclient := h.inv.client.windows_le
    by_contra haliases
    obtain ⟨j, hj, hmissing⟩ := ha w hw (by omega)
    exact hmissing (h.completed (w + 1) (by omega) j hj)
  | server child e | ack i | requestTimeout | recvError | fork => trivial

theorem ResentInv.step (h : ResentInv config key file s)
    (hstep : s.Step config key file uninit a t) (hclean : s.Clean a)
    (htime : s.InTime config file a) : ResentInv config key file t := by
  have halias := h.nonAliasing htime
  obtain ⟨hmarked, hleft⟩ := h.inv.step_marks hstep hclean halias
  have hnow : ∀ j, s.client.ret = none ∧ s.client.received j = true ∨
      t.Delivered s.client.windows j → t.Delivered s.client.windows j := by
    rintro j (⟨hret, hold⟩ | hnew)
    · exact hstep.delivered (h.marked hret j hold)
    · exact hnew
  refine ⟨h.inv.step hstep hclean halias, fun w hw j hj => ?_, fun hret j hj => ?_⟩
  · rcases Nat.lt_or_ge w s.client.windows with hlt | hge
    · exact hstep.delivered (h.completed w hlt j hj)
    · obtain ⟨hnext, hall⟩ := hleft (Nat.ne_of_gt (hge.trans_lt hw))
      obtain rfl : w = s.client.windows := by omega
      exact hnow j (hall j hj)
  · obtain ⟨hwindows, hmark⟩ := hmarked hret j hj
    rw [hwindows]
    exact hnow j hmark

theorem reachable_resentInv {n : ℕ} (h : (roadrunner config key file uninit n
    fun s a => s.Clean a ∧ s.InTime config file a).Reachable s) : ResentInv config key file s := by
  apply h.invariant
  · rintro _ rfl
    exact ⟨systemInv_initial n, fun w hw => absurd hw (Nat.not_lt_zero w),
      fun _ j hj => by cases hj⟩
  · intro s a t _ hinv hstep
    exact hinv.step (System.step_of_exec hstep.1) hstep.2.1 hstep.2.2

/-- **Any number of children.** In every run in which no datagram of a window is delivered when
every block of the next window has been, the client's file is a prefix of the server's until the
final window is appended, and every block the client has marked as received is the block of that
place in the window it is in. -/
theorem resent_request (config : Config) (key : Option UInt32) (file : List UInt8)
    (uninit : ℕ → ℕ → ℕ → UInt8) (n : ℕ) (s : System)
    (h : (roadrunner config key file uninit n
      fun s a => s.Clean a ∧ s.InTime config file a).Reachable s) :
    (s.client.windows ≤ lastWindow config file → s.client.file <+: file) ∧
      (s.client.ret = none → ∀ j, s.client.received j = true →
        fileBlock config file s.client.windows j <+: s.client.windowData j) := by
  have hinv := (reachable_resentInv h).inv
  constructor
  · intro hle
    rw [hinv.client.file_eq hle]
    exact List.take_prefix _ _
  · intro hret j hj
    exact ((hinv.client.receiving hret).rows j hj).2

/-- A second child sends the first window when the client is in the second. -/
theorem resent_request_lagging : ∃ s, (roadrunner .one none [1, 2] (fun _ _ _ => 0) 1
      fun s a => s.Clean a ∧ s.InTime .one [1, 2] a).Reachable s ∧
    s.children.length = 2 ∧ s.client.windows = 1 ∧ s.client.file <+: [1, 2] := by
  obtain ⟨s, hrun, hlen, hwindows⟩ : ∃ s, LTS.run (System.exec .one none [1, 2] fun _ _ _ => 0)
      (fun s a => s.Clean a ∧ s.InTime .one [1, 2] a)
      (System.initial .one (fun _ _ _ => 0) [Server.initial [1, 2]])
      [.requestTimeout, .fork,
        .server 0 .ok, .server 0 .ok, .server 0 .ok, .server 0 .ok, .server 0 .ok,
        .server 1 .ok, .server 1 .ok, .server 1 .ok, .server 1 .ok, .server 1 .ok,
        .deliver 0 0 .ok, .deliver 1 0 .ok] = some s ∧
      s.children.length = 2 ∧ s.client.windows = 1 := ⟨_, rfl, rfl, rfl⟩
  have hs := LTS.reachable_of_run (LTS.Reachable.init rfl) hrun
  exact ⟨s, hs, hlen, hwindows, (resent_request .one none [1, 2] _ 1 s hs).1 hwindows.le⟩

/-- The first child is two windows ahead of the second when the first datagram of the second
arrives: it is taken for the third window. -/
theorem resent_request_aliasing : ∃ s, (roadrunner .one none [1, 2, 3, 4] (fun _ _ _ => 0) 1
      fun s a => s.Clean a ∧ s.InChildOrder a).Reachable s ∧
    s.client.windows ≤ lastWindow .one [1, 2, 3, 4] ∧ ¬ s.client.file <+: [1, 2, 3, 4] := by
  obtain ⟨s, hrun, hwindows, hfile⟩ : ∃ s,
      LTS.run (System.exec .one none [1, 2, 3, 4] fun _ _ _ => 0)
        (fun s a => s.Clean a ∧ s.InChildOrder a)
        (System.initial .one (fun _ _ _ => 0) [Server.initial [1, 2, 3, 4]])
        [.requestTimeout, .fork,
          .server 0 .ok, .server 0 .ok, .server 0 .ok, .server 0 .ok, .server 0 .ok,
          .server 1 .ok, .server 1 .ok, .server 1 .ok, .server 1 .ok, .server 1 .ok,
          .deliver 0 0 .ok, .ack 0, .server 0 .ok, .server 0 .ok, .server 0 .ok,
          .deliver 0 1 .ok, .deliver 1 0 .ok] = some s ∧
      s.client.windows = 3 ∧ s.client.file = [1, 2, 1] := ⟨_, rfl, rfl, rfl⟩
  refine ⟨s, LTS.reachable_of_run (LTS.Reachable.init rfl) hrun, ?_, ?_⟩
  · rw [hwindows]
    decide
  · rw [hfile]
    decide

end CS536Labs.Lab4
