import CS536Labs.Lab4.Roadrunner
import CS536Labs.Lab4.ServerWindows

/-!
# Windows that failed

`Traced` adds to a server child the windows whose call of `send_window` returned -1. The transfer is
to end with the first of them: `aborted_iff` says that it does so in exactly the runs in which the
call in the loop of `send_file`, whose return value is ignored, does not fail. Otherwise the next
window is sent with the sequence numbers of the one that failed (`failed_window_resumed`).
-/

namespace CS536Labs.Lab4

/-- A server child and its failed windows. -/
structure Traced where
  server : Server
  failed : List ℕ

namespace Traced

def start (file : List UInt8) : Traced := ⟨Server.initial file, []⟩

/-- A step of the child. A call that fails inside of `send_window` makes it return -1. -/
def exec (config : Config) (pubkey : Option UInt32) (s : Traced) (e : ServerEvent) :
    Option Traced :=
  (s.server.exec config pubkey e).map fun server =>
    { server := server
      failed := s.failed ++
        if e = .fail ∧ s.server.ctl.site.isSome then [s.server.window] else [] }

/-- `send_file` has returned -1 when a window has failed, and nothing of a later window is sent. -/
structure Aborted (s : Traced) : Prop where
  returned : s.failed ≠ [] → s.server.ctl = .returned (-1)
  sent : ∀ w ∈ s.failed, ∀ d ∈ s.server.sent, d.window ≤ w

end Traced

variable {config : Config} {key : Option UInt32} {file : List UInt8}

/-- Nothing follows the end of `send_file`. -/
theorem Server.Step.ctl_ne {s t : Server} {e : ServerEvent} (h : s.Step config key e t) (ret : ℤ) :
    s.ctl ≠ .returned ret := by
  intro hret
  cases h with
  | fopen h | readPrev h | readCurr h | socket h | sendto h | acknowledged h | ignored h
  | timeout h => cases h.symm.trans hret
  | fileFail h => rcases h with h | h | h <;> cases h.symm.trans hret
  | callFail h => rcases h with h | ⟨_, _, h⟩ | ⟨_, h⟩ <;> cases h.symm.trans hret

/-- A failure inside of `send_window`. -/
theorem Server.Step.afterCall {s t : Server} {site : Site} (h : s.Step config key .fail t)
    (hsite : s.ctl.site = some site) : t = s.afterCall key site false := by
  cases h with
  | fileFail h => rcases h with h | h | h <;> rw [h] at hsite <;> cases hsite
  | callFail h =>
    rcases h with h | ⟨_, _, h⟩ | ⟨_, h⟩ <;> rw [h] at hsite <;> obtain rfl := Option.some.inj hsite
    all_goals rfl

namespace Traced

/-- **One step.** -/
theorem Aborted.step_iff {s t : Traced} {e : ServerEvent} (h : s.Aborted)
    (hinv : ServerInv config key file s.server) (hexec : s.exec config key e = some t) :
    ServerInv config key file t.server ∧ (t.Aborted ↔ s.server.Clean e) := by
  obtain ⟨server, hserver, rfl⟩ := Option.map_eq_some_iff.mp hexec
  have hstep := Server.step_of_exec hserver
  have hnone : s.failed = [] := by
    by_contra hne
    exact hstep.ctl_ne _ (h.returned hne)
  refine ⟨hinv.step hstep, ?_⟩
  rw [hnone, List.nil_append]
  cases hsite : s.server.ctl.site with
  | none =>
    have hclean : s.server.Clean e := by
      intro _ hlookAhead
      cases hsite.symm.trans hlookAhead
    refine iff_of_true ⟨fun hne => ?_, fun w hw => ?_⟩ hclean
    · simp at hne
    · simp at hw
  | some site =>
    by_cases he : e = .fail
    · subst he
      obtain rfl := hstep.afterCall hsite
      have hsent : ∀ d ∈ s.server.sent, d.window ≤ s.server.window := fun d hd =>
        (hinv.sent d hd).window_le
      cases site with
      | lookAhead =>
        refine iff_of_false (fun haborted => ?_) fun hclean => hclean rfl hsite
        cases haborted.returned (by simp)
      | onlyPrev | prevThenCurr | lastCurr =>
        refine iff_of_true ⟨fun _ => rfl, fun w hw d hd => ?_⟩ fun _ hlookAhead => ?_
        · obtain rfl : w = s.server.window := by simpa using hw
          exact hsent d hd
        · cases hsite.symm.trans hlookAhead
    · refine iff_of_true ⟨fun hne => ?_, fun w hw => ?_⟩ fun hfail => absurd hfail he
      · simp [he] at hne
      · simp [he] at hw

/-- **The runs in which a failed window ends the transfer.** -/
theorem aborted_iff (config : Config) (key : Option UInt32) (file : List UInt8)
    {es : List ServerEvent} {t : Traced}
    (h : LTS.run (exec config key) (fun _ _ => True) (start file) es = some t) :
    LTS.Always (exec config key) (start file) es Aborted ↔
      LTS.run (exec config key) (fun s e => s.server.Clean e) (start file) es = some t := by
  refine LTS.always_iff_run (fun s e => s.server.Clean e)
    (I := fun s => s.Aborted ∧ ServerInv config key file s.server) (fun s hs => hs.1) ?_ ?_ h
  · rintro s e t ⟨haborted, hinv⟩ hexec
    obtain ⟨hinv', hiff⟩ := haborted.step_iff hinv hexec
    exact ⟨hiff, fun haborted' => ⟨haborted', hinv'⟩⟩
  · refine ⟨⟨fun hne => absurd rfl hne, fun w hw => absurd hw List.not_mem_nil⟩, ?_⟩
    exact serverInv_initial

/-- The window of a file of one byte fails. -/
theorem aborted_oneByte :
    ∃ t, LTS.run (exec .one none) (fun _ _ => True) (start [1]) [.ok, .ok, .ok, .fail] = some t ∧
      t.failed = [0] ∧
      LTS.Always (exec .one none) (start [1]) [.ok, .ok, .ok, .fail] Aborted := by
  obtain ⟨t, hrun, hfailed⟩ : ∃ t, LTS.run (exec .one none) (fun _ _ => True) (start [1])
      [.ok, .ok, .ok, .fail] = some t ∧ t.failed = [0] := ⟨_, rfl, rfl⟩
  refine ⟨t, hrun, hfailed, (aborted_iff .one none [1] hrun).mpr ?_⟩
  rw [← hrun]
  rfl

/-- The first of three windows fails, and the second one is sent with its number. -/
theorem failed_window_resumed :
    ∃ t, LTS.run (exec .one none) (fun _ _ => True) (start [1, 2, 3])
        [.ok, .ok, .ok, .fail, .ok, .ok, .ok] = some t ∧
      t.failed = [0] ∧ t.server.sent = [⟨[0, 2], 1, 1, 0⟩] ∧ ¬ t.Aborted := by
  refine ⟨_, rfl, rfl, rfl, fun h => ?_⟩
  exact absurd (h.sent 0 (by decide) ⟨[0, 2], 1, 1, 0⟩ (by decide)) (by decide)

end Traced

end CS536Labs.Lab4
