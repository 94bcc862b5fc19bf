import CS536Labs.Lab1.ShellSessions
import Mathlib.Algebra.BigOperators.Group.Finset.Basic
import Mathlib.Data.Fintype.Basic

/-!
# The shell comes to an end

The opens of a FIFO wait for each other, the parent waits for its child, and the child for its
client. `settles`: when each read of the server returns one whole message and no program writes more
than a given number of bytes, every run that goes on as long as it can ends with all clients at the
end of their inputs, but for those that hang with a line that is too long.

The rank counts what is left to do for the lines, for the requests on their way and for the bytes in
the FIFOs; each step decreases it. A client that is not done, or the child, can always move.
-/

namespace CS536Labs.Lab1

variable {ι : Type}

/-- The steps that are left for a client, for programs that write this number of bytes. -/
def CommandClient.Ctl.weight (bound : ℕ) : CommandClient.Ctl → ℕ
  | .fgets => 1
  | .write _ => 2 * bound + 6
  | .openFifo _ => 2
  | .read _ => 2
  | .returned _ => 0

def CommandClient.weight (bound : ℕ) (c : CommandClient) : ℕ :=
  c.input.length * (2 * bound + 6) + c.ctl.weight bound

/-- The steps that are left for the child. -/
def ShellChild.weight (bound : ℕ) : ShellChild ι → ℕ
  | .absent => 0
  | .opening _ => 2 * bound + 2
  | .writing _ rest => 2 * rest.length + 1

theorem CommandClient.weight_readLine_lt {c : CommandClient} (hctl : c.ctl = .fgets) (bound : ℕ) :
    c.readLine.weight bound < c.weight bound := by
  rw [readLine]
  split
  · rename_i hinput
    simp only [weight, hctl, Ctl.weight]
    omega
  · rename_i line input hinput
    simp only [weight, hctl, Ctl.weight, hinput, List.length_cons, Nat.succ_mul]
    omega

/-- One term of a sum is replaced. -/
theorem sum_add_eq_of_ne [Fintype ι] [DecidableEq ι] {f g : ι → ℕ} {i : ι}
    (h : ∀ j, j ≠ i → g j = f j) : ∑ j, g j + f i = ∑ j, f j + g i := by
  have herase : ∑ j ∈ Finset.univ.erase i, g j = ∑ j ∈ Finset.univ.erase i, f j :=
    Finset.sum_congr rfl fun j hj => h j (Finset.ne_of_mem_erase hj)
  rw [← Finset.add_sum_erase _ g (Finset.mem_univ i),
    ← Finset.add_sum_erase _ f (Finset.mem_univ i), herase]
  omega

namespace CommandShell

variable {clients : Clients ι} {input : ι → List InputLine} {s t : CommandShell ι}
  {pending : List Request} {lost : Set ι}

/-- Each read returns one whole message, and no program writes more than `bound` bytes. -/
def Bounded (bound : ℕ) (s : CommandShell ι) : Label ι → Prop
  | .openFifo _ output => output.length ≤ bound
  | a => s.WholeMessage a

theorem Bounded.wholeMessage {bound : ℕ} {a : Label ι} (h : s.Bounded bound a) :
    s.WholeMessage a := by
  cases a with
  | openFifo => trivial
  | fgets | write | serve | childWrite | childExit | read | endOfFile => exact h

/-- Each client is at the end of its input, or hangs. -/
def Settled (clients : Clients ι) (s : CommandShell ι) : Prop :=
  ∀ i, (s.client i).ctl = .returned 0 ∨
    ∃ line, (s.client i).ctl = .openFifo line ∧ pipeBuf < (clients.request i line).message.length

/-! ## Progress -/

variable [DecidableEq ι]

theorem message_of_parsed {r r' : Request} (h : r.parsed = r'.parsed) : r.message = r'.message := by
  obtain ⟨hpid, hcommand⟩ := Prod.mk.inj h
  rw [Request.message, Request.message, Request.text, Request.text, hpid, hcommand]

/-- A client that is not done can move, or the server can read its request. -/
theorem Inv.exists_step_of_absent (h : Inv clients input s pending ∅) (bound : ℕ)
    (hchild : s.child = .absent) {i : ι} (hreturned : (s.client i).ctl ≠ .returned 0)
    (hlong : ∀ line, (s.client i).ctl = .openFifo line →
      (clients.request i line).message.length ≤ pipeBuf) :
    ∃ a, (exec clients s a).isSome ∧ s.Bounded bound a := by
  cases hctl : (s.client i).ctl with
  | fgets =>
    refine ⟨.fgets i, ?_, trivial⟩
    simp only [exec, hctl, Option.isSome_some]
  | write line =>
    refine ⟨.write i, ?_, trivial⟩
    simp only [exec, hctl, h.running, if_true, RequestServer.exec, true_and]
    split <;> rfl
  | openFifo line =>
    have hmem := (h.asked i line hctl (hlong line hctl)).resolve_right (Set.notMem_empty i)
    rw [outstanding, hchild] at hmem
    cases pending with
    | nil => cases hmem
    | cons r pending =>
      have hqueue := h.queue
      rw [List.flatMap_cons] at hqueue
      obtain ⟨j, line', -, hlen, hparsed⟩ := h.waiting r.parsed (by
        rw [outstanding, hchild]
        exact List.mem_cons_self)
      rw [← message_of_parsed hparsed] at hlen
      have hne : r.message ≠ [] := by simp [Request.message]
      obtain ⟨pipe, hread, -⟩ := Pipe.exists_read_eq_some hqueue hne hlen
      refine ⟨.serve r.message.length, ?_, r, ?_⟩
      · simp only [exec, hchild, RequestServer.exec, h.running, if_true, hread, Option.map_some]
        rfl
      · rw [hqueue, List.take_left]
  | read a =>
    have hrest : s.child.rest i = none := by
      rw [hchild]
      rfl
    cases hfifo : s.fifo i with
    | nil =>
      refine ⟨.endOfFile i, ?_, trivial⟩
      simp only [exec, hctl, hfifo, hrest, and_self, if_true, Option.isSome_some]
    | cons c rest =>
      have hone : 0 < 1 ∧ 1 ≤ (s.fifo i).length ∧ 1 < pipeBuf := by
        rw [hfifo]
        exact ⟨Nat.one_pos, Nat.succ_pos _, by decide⟩
      refine ⟨.read i 1, ?_, trivial⟩
      simp only [exec, hctl, if_pos hone, Option.isSome_some]
  | returned ret =>
    obtain ⟨rfl, -⟩ := (h.sessions i).returned ret hctl
    exact absurd hctl hreturned

/-- **Progress.** -/
theorem Inv.settled_or_exists_step (h : Inv clients input s pending ∅) (bound : ℕ) :
    Settled clients s ∨ ∃ a, (exec clients s a).isSome ∧ s.Bounded bound a := by
  cases hchild : s.child with
  | absent =>
    by_cases hsettled : Settled clients s
    · exact .inl hsettled
    · obtain ⟨i, hi⟩ := not_forall.mp hsettled
      rw [not_or, not_exists] at hi
      exact .inr (h.exists_step_of_absent bound hchild hi.1 fun line hline =>
        Nat.le_of_not_lt fun hlt => hi.2 line ⟨hline, hlt⟩)
  | opening request =>
    obtain ⟨i, line, hctl, -, rfl⟩ := h.waiting request (by
      rw [outstanding, hchild]
      exact List.mem_cons_self)
    refine .inr ⟨.openFifo i [], ?_, Nat.zero_le bound⟩
    simp only [exec, hctl, hchild, Request.parsed]
    exact Option.isSome_of_eq_some (if_pos rfl)
  | writing i rest =>
    cases rest with
    | nil =>
      refine .inr ⟨.childExit, ?_, trivial⟩
      simp only [exec, hchild, Option.isSome_some]
    | cons c rest =>
      have hone : 0 < 1 ∧ 1 ≤ (c :: rest).length := ⟨Nat.one_pos, Nat.succ_pos _⟩
      refine .inr ⟨.childWrite 1, ?_, trivial⟩
      simp only [exec, hchild, if_pos hone, Option.isSome_some]

/-! ## The rank -/

theorem count_nul_flatMap (pending : List Request) :
    (pending.flatMap Request.message).count 0 = pending.length := by
  induction pending with
  | nil => rfl
  | cons r pending ih =>
    rw [List.flatMap_cons, List.count_append, ih, Request.message, List.count_append,
      List.count_eq_zero.mpr r.nul_notMem_text, List.length_cons, Nat.add_comm]
    rfl

section Rank

variable [Fintype ι]

/-- The steps that are left for a client, and the bytes that it has to read. -/
def term (bound : ℕ) (s : CommandShell ι) (i : ι) : ℕ :=
  (s.client i).weight bound + (s.fifo i).length

/-- The number of requests in the FIFO of the server. -/
def queued (s : CommandShell ι) : ℕ := s.server.pipe.queue.count 0

/-- The steps that are left. -/
def rank (bound : ℕ) (s : CommandShell ι) : ℕ :=
  ∑ i, s.term bound i + s.queued * (2 * bound + 3) + s.child.weight bound

/-- A step of one client. -/
theorem rank_lt_of_term {bound : ℕ} {i : ι} (hne : ∀ j, j ≠ i → t.term bound j = s.term bound j)
    (hlt : t.term bound i + (t.queued * (2 * bound + 3) + t.child.weight bound) <
      s.term bound i + (s.queued * (2 * bound + 3) + s.child.weight bound)) :
    t.rank bound < s.rank bound := by
  have hsum := sum_add_eq_of_ne hne
  rw [rank, rank]
  omega

theorem Inv.rank_lt (h : Inv clients input s pending lost) {bound : ℕ} {a : Label ι}
    (hstep : Step clients s a t) (hbounded : s.Bounded bound a) :
    t.rank bound < s.rank bound := by
  cases hstep with
  | @fgets i hctl =>
    refine rank_lt_of_term (i := i) (fun j hne => ?_) (Nat.add_lt_add_right ?_ _)
    · simp only [term, Function.update_of_ne hne]
    · simp only [term, Function.update_self]
      exact Nat.add_lt_add_right (CommandClient.weight_readLine_lt hctl bound) _
  | @write i line hctl =>
    refine rank_lt_of_term (i := i) (fun j hne => ?_) ?_
    · simp only [term, Function.update_of_ne hne]
    · have hcount : (clients.request i line).message.count 0 = 1 := by
        have hone := count_nul_flatMap [clients.request i line]
        rwa [List.flatMap_singleton] at hone
      simp only [term, queued, Pipe.write, Function.update_self, CommandClient.weight, hctl,
        CommandClient.Ctl.weight, List.count_append, hcount, Nat.succ_mul]
      omega
  | @notWritten i line hctl =>
    refine rank_lt_of_term (i := i) (fun j hne => ?_) (Nat.add_lt_add_right ?_ _)
    · simp only [term, Function.update_of_ne hne]
    · simp only [term, Function.update_self, CommandClient.weight, hctl, CommandClient.Ctl.weight]
      omega
  | notOpened _ hrunning => cases h.running.symm.trans hrunning
  | serve hchild hserver =>
    obtain ⟨r, hr⟩ := hbounded
    have hread := hr.trans (List.append_nil r.message).symm
    rw [← List.flatMap_nil (f := Request.message)] at hread
    obtain ⟨pending', rfl, -, hhandled, hqueue⟩ :=
      RequestServer.exec_read h.running h.queue hread hserver
    simp only [rank, term, queued, hhandled, hqueue, h.queue, hchild, List.drop_left, forked,
      ShellChild.weight, count_nul_flatMap, List.nil_append, List.length_cons, Nat.succ_mul]
    omega
  | @openFifo i line command output hctl hchild =>
    refine rank_lt_of_term (i := i) (fun j hne => ?_) ?_
    · simp only [term, Function.update_of_ne hne]
    · have houtput : output.length ≤ bound := hbounded
      simp only [term, queued, Function.update_self, CommandClient.weight, hctl, hchild,
        CommandClient.Ctl.weight, ShellChild.weight]
      omega
  | @childWrite i n rest hchild hpos hle =>
    refine rank_lt_of_term (i := i) (fun j hne => ?_) ?_
    · simp only [term, Function.update_of_ne hne]
    · simp only [term, queued, Function.update_self, hchild, ShellChild.weight, List.length_append,
        List.length_take, List.length_drop]
      omega
  | childExit hchild =>
    simp only [rank, term, queued, hchild, ShellChild.weight]
    omega
  | @read i n a hctl hpos hle =>
    refine rank_lt_of_term (i := i) (fun j hne => ?_) (Nat.add_lt_add_right ?_ _)
    · simp only [term, Function.update_of_ne hne]
    · simp only [term, Function.update_self, CommandClient.weight, CommandClient.print, hctl,
        CommandClient.Ctl.weight, List.length_drop]
      omega
  | @endOfFile i a hctl =>
    refine rank_lt_of_term (i := i) (fun j hne => ?_) (Nat.add_lt_add_right ?_ _)
    · simp only [term, Function.update_of_ne hne]
    · simp only [term, Function.update_self, CommandClient.weight, CommandClient.finish, hctl,
        CommandClient.Ctl.weight]
      omega

/-- **The shell comes to an end.** -/
theorem settles {bound : ℕ}
    (h : ((system clients input).restrict (Bounded bound)).Reachable s) :
    ((system clients input).restrict (Bounded bound)).Inevitably (Settled clients) s := by
  have hinv : ∀ s, ((system clients input).restrict (Bounded bound)).Reachable s →
      ∃ pending, Inv clients input s pending ∅ := fun s hs =>
    inv_of_reachable_one (hs.mono fun s a => Bounded.wholeMessage)
  refine h.inevitably (rank bound) (fun s hs => ?_) fun s a t hs hstep => ?_
  · obtain ⟨pending, hinv⟩ := hinv s hs
    refine (hinv.settled_or_exists_step bound).imp_right ?_
    rintro ⟨a, ha, hbounded⟩
    obtain ⟨t, ht⟩ := Option.isSome_iff_exists.mp ha
    exact ⟨a, t, ht, hbounded⟩
  · obtain ⟨pending, hinv⟩ := hinv s hs
    exact hinv.rank_lt (step_of_exec hstep.1) hstep.2

/-- Two clients with one line each come to their ends. -/
theorem settles_twoClients :
    ((system twoClients fun _ => [lsInput]).restrict (Bounded 1)).Inevitably (Settled twoClients)
      (start fun _ => [lsInput]) := settles (LTS.Reachable.init rfl)

end Rank

end CommandShell

end CS536Labs.Lab1
