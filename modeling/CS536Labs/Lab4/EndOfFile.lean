import CS536Labs.Lab4.WindowAgreement

/-!
# The end of the file

`append_window_to_file` is given the size of the block that happened to complete the window as the
size of its last row. In the final window the last row holds the final block of the file, which can
be shorter than the others: the client's file is then right exactly when the final block is the one
that completes the window (`final_delivery_iff`). `end_of_file` is the consequence for whole
transfers, and `end_of_file_reordered` a transfer in which the two blocks of the final window
arrive in the wrong order.
-/

namespace CS536Labs.Lab4

variable {config : Config} {key : Option UInt32} {file : List UInt8}
  {uninit : ℕ → ℕ → ℕ → UInt8} {c c' : Client} {d : Datagram}

/-! ## The final window -/

/-- The final block is full exactly when the block size divides the size of the file. -/
theorem final_block_full_iff {j : ℕ}
    (hj : j + 1 = blockCount config file (lastWindow config file)) :
    (fileBlock config file (lastWindow config file) j).length = config.blocksize ↔
      config.blocksize ∣ file.length := by
  have hle := lastWindow_mul_le config file
  have hlen := length_fileWindow_last config file
  have hsplit : file.length = config.blocksize * (config.windowsize * lastWindow config file) +
      (fileWindow config file (lastWindow config file)).length := by
    rw [hlen, ← Nat.mul_assoc, ← Config.windowBytes, Nat.mul_comm config.windowBytes]
    omega
  have hdvd : config.blocksize ∣ file.length ↔
      config.blocksize ∣ (fileWindow config file (lastWindow config file)).length := by
    rw [hsplit]
    exact Nat.dvd_add_right (Nat.dvd_mul_right _ _)
  rw [hdvd, fileBlock, segment_last_full_iff config.blocksize_pos hj, ← Nat.succ_mul,
    Nat.succ_eq_add_one]
  constructor
  · intro hend
    exact ⟨j + 1, by rw [← hend, Nat.mul_comm]⟩
  · rintro ⟨q, hq⟩
    rw [blockCount, hq, Nat.mul_comm, segmentCount_of_dvd config.blocksize_pos] at hj
    rw [hq, hj, Nat.mul_comm]

/-- What is appended when every row is taken to be full. -/
theorem Receiving.length_append (h : Receiving config file c) (m : ℕ) :
    (appendWindowToFile config c.windowData m config.blocksize).length = m * config.blocksize := by
  simp [appendWindowToFile, List.length_flatMap, h.length_row]

/-- **Appending the final window**, completed by block `d.block`. -/
theorem Stored.file_iff (h : Stored config file d c c') (hd : OnWire config key file d)
    (hwindow : d.window = c.windows) (hlast : c.windows = lastWindow config file)
    (hc : c'.completed = true) {o : Outcomes} (ho : o.AppendOk) :
    (c'.complete config uninit (fileBlock config file c.windows d.block).length o).1.file = file ↔
      d.block + 1 = blockCount config file d.window ∨ config.blocksize ∣ file.length := by
  obtain ⟨hall, htarget, -⟩ := h.receiving.completed_spec hc
  have hle := h.receiving.window_le
  have hj := hd.block_lt
  rw [hwindow, ← h.windows] at hj ⊢
  rw [← h.windows] at hlast
  rw [Client.complete_file ho, h.receiving.windowsize_eq, htarget, h.inv.file_eq hle]
  have hfull : ¬ d.block + 1 = blockCount config file c'.windows →
      (fileBlock config file c'.windows d.block).length = config.blocksize := by
    intro hne
    exact length_fileBlock_of_not_last hle hj fun hend => hne hend.2
  constructor
  · intro hfile
    by_contra hcond
    obtain ⟨hne, hdvd⟩ := not_or.mp hcond
    have htake := lastWindow_mul_le config file
    have hlen := congrArg List.length hfile
    rw [hfull hne, List.length_append, h.receiving.length_append, List.length_take, hlast,
      Nat.min_eq_left htake, Config.windowBytes] at hlen
    refine hdvd ⟨lastWindow config file * config.windowsize +
      blockCount config file (lastWindow config file), ?_⟩
    rw [← hlen]
    ring
  · intro hcond
    have hsize : ∀ i, i + 1 = blockCount config file c'.windows →
        (fileBlock config file c'.windows i).length =
          (fileBlock config file c'.windows d.block).length := by
      intro i hi
      by_cases heq : d.block + 1 = blockCount config file c'.windows
      · obtain rfl : i = d.block := by omega
        rfl
      · rw [hfull heq]
        rw [hlast] at hi ⊢
        exact (final_block_full_iff hi).mpr (hcond.resolve_left heq)
    rw [h.receiving.append_eq hall hsize, fileWindow, take_append_segment, hlast]
    exact List.take_of_length_le (length_le_lastWindow config file)

/-! ## Transfers -/

/-- The client is in the final window and has all its blocks but perhaps that of the datagram. -/
def Client.FinishedBy (config : Config) (file : List UInt8) (c : Client) (d : Datagram) : Prop :=
  c.windows = lastWindow config file ∧ d.window = lastWindow config file ∧
    ∀ j < blockCount config file d.window, j ≠ d.block → c.received j = true

/-- The final window is completed by its last datagram, or all blocks of the file are full. -/
def System.FinalBlockLast (config : Config) (file : List UInt8) (s : System) : Label → Prop
  | .deliver child i _ => ∀ server ∈ s.children[child]?, ∀ d ∈ server.sent[i]?,
      s.client.FinishedBy config file d →
      d.block + 1 = blockCount config file d.window ∨ config.blocksize ∣ file.length
  | _ => True

instance (c : Client) (d : Datagram) : Decidable (c.FinishedBy config file d) :=
  inferInstanceAs (Decidable (_ ∧ _ ∧ ∀ j < blockCount config file d.window, j ≠ d.block →
    c.received j = true))

instance (s : System) (a : Label) : Decidable (s.FinalBlockLast config file a) :=
  match a with
  | .deliver child i _ => inferInstanceAs (Decidable (∀ server ∈ s.children[child]?,
      ∀ d ∈ server.sent[i]?, s.client.FinishedBy config file d →
      d.block + 1 = blockCount config file d.window ∨ config.blocksize ∣ file.length))
  | .server _ _ | .ack _ | .requestTimeout | .recvError | .fork => inferInstanceAs (Decidable True)

variable {s t : System} {a : Label}

/-- **The delivery that completes the final window** leaves the client with the file exactly when
it is the delivery of the final block, or all blocks are full. -/
theorem final_delivery_iff {child i : ℕ} {o : Outcomes} {server : Server}
    (h : SingleInv config key file s) (ha : s.SingleTransfer (.deliver child i o))
    (hget : s.children[child]? = some server) (hd : server.sent[i]? = some d)
    (hret : s.client.ret = none) (hlast : s.client.windows = lastWindow config file)
    (hgrow : (s.client.receive config key uninit d.bytes o).1.windows =
      lastWindow config file + 1) :
    s.client.FinishedBy config file d ∧
      ((s.client.receive config key uninit d.bytes o).1.file = file ↔
        d.block + 1 = blockCount config file d.window ∨ config.blocksize ∣ file.length) := by
  obtain ⟨hclean, horder, -⟩ := ha
  have hspec := h.inv.deliver hget hd hret hclean (h.nonAliasing horder) uninit
  have hwindow : d.window = s.client.windows := by
    rcases hspec.windows with heq | ⟨-, hw⟩
    · omega
    · exact hw
  have hwire := onWire_of_reachable (h.inv.children server (List.mem_of_getElem? hget))
    (List.mem_of_getElem? hd)
  obtain ⟨c', hstored, heq⟩ := h.inv.client.receive_current hret hwire hwindow uninit o
  rw [heq] at hgrow ⊢
  split_ifs at hgrow ⊢ with hc
  · refine ⟨⟨hlast, hwindow.trans hlast, fun j hj hne => ?_⟩,
      hstored.file_iff hwire hwindow hlast hc hclean⟩
    have hall := (hstored.receiving.completed_spec hc).1 j (by rwa [hstored.windows, ← hwindow])
    exact ((hstored.received j).mp hall).resolve_left hne
  · have := hstored.windows
    dsimp only at hgrow
    omega

theorem file_step (h : SingleInv config key file s)
    (hfile : s.client.windows = lastWindow config file + 1 → s.client.file = file)
    (hstep : s.Step config key file uninit a t) (ha : s.SingleTransfer a)
    (hfinal : s.FinalBlockLast config file a)
    (hgrow : t.client.windows = lastWindow config file + 1) : t.client.file = file := by
  cases hstep with
  | @deliver child i o server d hget hd hret =>
    have hlast : s.client.windows = lastWindow config file := by
      have hle := (h.inv.client.receiving hret).window_le
      have hspec := h.inv.deliver hget hd hret ha.1 (h.nonAliasing ha.2.1) uninit
      have hgrow : (s.client.receive config key uninit d.bytes o).1.windows = _ := hgrow
      rcases hspec.windows with heq | ⟨heq, -⟩ <;> omega
    obtain ⟨hfinished, hiff⟩ := final_delivery_iff h ha hget hd hret hlast hgrow
    exact hiff.mpr (hfinal server hget d hd hfinished)
  | server | ack | requestTimeout | recvError | fork => exact hfile hgrow

/-- **End-to-end equality.** In every run of one child and one client in which the final window is
completed by its last datagram, or all blocks of the file are full, a client that has returned 0
has the server's file. -/
theorem end_of_file (config : Config) (key : Option UInt32) (file : List UInt8)
    (uninit : ℕ → ℕ → ℕ → UInt8) (s : System)
    (h : (roadrunner config key file uninit 1
      fun s a => s.SingleTransfer a ∧ s.FinalBlockLast config file a).Reachable s)
    (hret : s.client.ret = some 0) : s.client.file = file := by
  have hfile : s.client.windows = lastWindow config file + 1 → s.client.file = file := by
    refine h.invariant (I := fun s => s.client.windows = lastWindow config file + 1 →
      s.client.file = file) ?_ ?_
    · rintro _ rfl hgrow
      cases hgrow
    · intro s a t hreach hfile hstep
      exact file_step (reachable_singleInv (hreach.mono fun _ _ ha => ha.1)) hfile
        (System.step_of_exec hstep.1) hstep.2.1 hstep.2.2
  exact hfile ((reachable_singleInv (h.mono fun _ _ ha => ha.1)).inv.client.done hret)

/-- Two bytes a block, two blocks a window. -/
def Config.two : Config := ⟨2, 2, by decide, by decide⟩

/-- The final block is lost at first; that of the second attempt completes the window. -/
theorem end_of_file_retransmitted : ∃ s, (roadrunner .two none [1, 2, 3] (fun _ _ _ => 0) 1
      fun s a => s.SingleTransfer a ∧ s.FinalBlockLast .two [1, 2, 3] a).Reachable s ∧
    s.client.ret = some 0 ∧ s.client.file = [1, 2, 3] := by
  obtain ⟨s, hrun, hret⟩ : ∃ s, LTS.run (System.exec .two none [1, 2, 3] fun _ _ _ => 0)
      (fun s a => s.SingleTransfer a ∧ s.FinalBlockLast .two [1, 2, 3] a)
      (System.initial .two (fun _ _ _ => 0) [Server.initial [1, 2, 3]])
      [.server 0 .ok, .server 0 .ok, .server 0 .ok, .server 0 .ok, .server 0 .ok, .server 0 .ok,
        .deliver 0 0 .ok, .server 0 .timeout, .server 0 .ok, .server 0 .ok, .server 0 .ok,
        .deliver 0 2 .ok, .deliver 0 3 .ok] = some s ∧ s.client.ret = some 0 := ⟨_, rfl, rfl⟩
  have hs := LTS.reachable_of_run (LTS.Reachable.init rfl) hrun
  exact ⟨s, hs, hret, end_of_file .two none [1, 2, 3] _ s hs hret⟩

/-- The final block, of one byte, arrives before the block in front of it: the client has written a
byte of its stack behind the file when it returns 0. -/
theorem end_of_file_reordered :
    ∃ s, (roadrunner .two none [1, 2, 3] (fun _ _ _ => 0) 1 System.SingleTransfer).Reachable s ∧
      s.client.ret = some 0 ∧ s.client.file = [1, 2, 3, 0] := by
  obtain ⟨s, hrun, hret, hfile⟩ : ∃ s, LTS.run (System.exec .two none [1, 2, 3] fun _ _ _ => 0)
      System.SingleTransfer (System.initial .two (fun _ _ _ => 0) [Server.initial [1, 2, 3]])
      [.server 0 .ok, .server 0 .ok, .server 0 .ok, .server 0 .ok, .server 0 .ok, .server 0 .ok,
        .deliver 0 1 .ok, .deliver 0 0 .ok] = some s ∧
      s.client.ret = some 0 ∧ s.client.file = [1, 2, 3, 0] := ⟨_, rfl, rfl, rfl⟩
  exact ⟨s, LTS.reachable_of_run (LTS.Reachable.init rfl) hrun, hret, hfile⟩

end CS536Labs.Lab4
