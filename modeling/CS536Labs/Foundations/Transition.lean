import Mathlib.Data.Nat.Notation
import Mathlib.Logic.Relation

/-!
# Labelled transition systems and invariants of their runs

The concurrent programs of the labs are modelled as labelled transition systems: a state holds
the parties and whatever is in flight between them, a label names the party that moves and the
outcome of the system call it makes.

* `LTS.Reachable` is the set of states of finite runs, and `LTS.Reachable.invariant` is the rule
  all safety results go through: what holds initially and is kept by every step from a reachable
  state holds in every reachable state.
* `LTS.restrict` keeps the steps that meet a condition. A state reachable in `M.restrict P` is
  the end of a run of `M` all of whose steps meet `P`.
* `LTS.ofExec` is the system of an executable step function, and `LTS.reachable_of_run` turns an
  evaluated run into a reachable state.
* `LTS.Always` says that all states of an executed run are safe, and `LTS.always_iff_forall` which
  labels keep it so.
* `LTS.EachStep` says that all steps of an executed run are safe, with `LTS.eachStep_iff_forall`.
* `LTS.Inevitably P` says that every maximal run comes to a state with `P`; it follows from progress
  and a rank that decreases (`LTS.Reachable.inevitably`). Where only some step decreases the rank,
  one run comes there (`LTS.Reachable.exists_of_rank`).
-/

namespace CS536Labs

/-- A labelled transition system. -/
structure LTS (σ ι : Type*) where
  /-- The initial states. -/
  init : σ → Prop
  /-- `step s a t`: the system can move from `s` to `t` under the label `a`. -/
  step : σ → ι → σ → Prop

namespace LTS

variable {σ ι : Type*}

/-- The states of finite runs. -/
inductive Reachable (M : LTS σ ι) : σ → Prop
  | init {s : σ} : M.init s → Reachable M s
  | step {s t : σ} {a : ι} : Reachable M s → M.step s a t → Reachable M t

/-- **The invariant rule.** -/
theorem Reachable.invariant {M : LTS σ ι} {I : σ → Prop} (hinit : ∀ s, M.init s → I s)
    (hstep : ∀ s a t, M.Reachable s → I s → M.step s a t → I t) {s : σ} (h : M.Reachable s) :
    I s := by
  induction h with
  | init h0 => exact hinit _ h0
  | step hr ht ih => exact hstep _ _ _ hr ih ht

/-- **Some step that decreases the rank**, from every state with the invariant. -/
theorem Reachable.exists_of_rank {M : LTS σ ι} {P : σ → Prop} {I : σ → ℕ → Prop}
    (hnext : ∀ s n, I s n → P s ∨ ∃ a t, M.step s a t ∧ ∃ n' < n, I t n') {s : σ} {n : ℕ}
    (h : M.Reachable s) (hI : I s n) : ∃ t, M.Reachable t ∧ P t := by
  induction n using Nat.strongRecOn generalizing s with
  | _ n ih =>
    rcases hnext s n hI with hP | ⟨a, t, hstep, n', hlt, hI'⟩
    · exact ⟨s, h, hP⟩
    · exact ih n' hlt (h.step hstep) hI'

/-- The steps of `M` that meet the condition `P`. -/
def restrict (M : LTS σ ι) (P : σ → ι → Prop) : LTS σ ι where
  init := M.init
  step s a t := M.step s a t ∧ P s a

theorem Reachable.of_restrict {M : LTS σ ι} {P : σ → ι → Prop} {s : σ}
    (h : (M.restrict P).Reachable s) : M.Reachable s := by
  induction h with
  | init h0 => exact .init h0
  | step _ ht ih => exact ih.step ht.1

theorem Reachable.mono {M : LTS σ ι} {P Q : σ → ι → Prop} (hPQ : ∀ s a, P s a → Q s a) {s : σ}
    (h : (M.restrict P).Reachable s) : (M.restrict Q).Reachable s := by
  induction h with
  | init h0 => exact .init h0
  | step _ ht ih => exact ih.step ⟨ht.1, hPQ _ _ ht.2⟩

/-- The system of an executable step function, started at `s₀`. -/
def ofExec (s₀ : σ) (exec : σ → ι → Option σ) : LTS σ ι where
  init s := s = s₀
  step s a t := exec s a = some t

/-- One executed step that meets the condition. -/
theorem Reachable.next {s₀ : σ} {exec : σ → ι → Option σ} {P : σ → ι → Prop} {s t : σ} {a : ι}
    (h : ((ofExec s₀ exec).restrict P).Reachable s) (hexec : exec s a = some t) (hP : P s a) :
    ((ofExec s₀ exec).restrict P).Reachable t := h.step ⟨hexec, hP⟩

/-- Executing a sequence of labels, as long as every step meets the condition. -/
def run (exec : σ → ι → Option σ) (P : σ → ι → Prop) [∀ s a, Decidable (P s a)] (s : σ)
    (as : List ι) : Option σ :=
  as.foldlM (fun s a => if P s a then exec s a else none) s

theorem run_cons {exec : σ → ι → Option σ} {P : σ → ι → Prop} [∀ s a, Decidable (P s a)]
    {s t : σ} {a : ι} (hP : P s a) (h : exec s a = some t) (as : List ι) :
    run exec P s (a :: as) = run exec P t as := by
  rw [run, List.foldlM_cons, if_pos hP, h]
  rfl

/-- An executed sequence of labels leads to a reachable state. -/
theorem reachable_of_run {s₀ : σ} {exec : σ → ι → Option σ} {P : σ → ι → Prop}
    [∀ s a, Decidable (P s a)] {s t : σ} {as : List ι}
    (hs : ((ofExec s₀ exec).restrict P).Reachable s) (h : run exec P s as = some t) :
    ((ofExec s₀ exec).restrict P).Reachable t := by
  induction as generalizing s with
  | nil =>
    obtain rfl : s = t := by simpa [run] using h
    exact hs
  | cons a as ih =>
    rw [run, List.foldlM_cons] at h
    obtain ⟨u, hu, h⟩ := Option.bind_eq_some_iff.mp h
    split at hu
    · rename_i hP
      exact ih (hs.next hu hP) h
    · cases hu

/-- The condition holds in all states of the executed sequence of labels. -/
def Always (exec : σ → ι → Option σ) (s : σ) (as : List ι) (safe : σ → Prop) : Prop :=
  ∀ p, p <+: as → ∀ t, run exec (fun _ _ => True) s p = some t → safe t

theorem always_nil {exec : σ → ι → Option σ} {s : σ} {safe : σ → Prop} :
    Always exec s [] safe ↔ safe s := by
  constructor
  · intro h
    exact h [] List.prefix_rfl s rfl
  · intro h p hp t ht
    rw [List.prefix_nil.mp hp] at ht
    exact Option.some.inj ht ▸ h

theorem always_cons {exec : σ → ι → Option σ} {s t : σ} {a : ι} (hexec : exec s a = some t)
    (as : List ι) {safe : σ → Prop} :
    Always exec s (a :: as) safe ↔ safe s ∧ Always exec t as safe := by
  constructor
  · intro h
    refine ⟨h [] List.nil_prefix s rfl, fun p hp u hu => ?_⟩
    apply h (a :: p) (List.cons_prefix_cons.mpr ⟨rfl, hp⟩)
    rw [run_cons trivial hexec]
    exact hu
  · rintro ⟨hs, h⟩ p hp u hu
    cases p with
    | nil => exact Option.some.inj hu ▸ hs
    | cons b p =>
      obtain ⟨rfl, hprefix⟩ := List.cons_prefix_cons.mp hp
      rw [run_cons trivial hexec] at hu
      exact h p hprefix u hu

/-- **The steps that keep a run safe.** Each step of the run leads from a safe state to a safe state
exactly when it is good. -/
theorem always_iff_run {exec : σ → ι → Option σ} {I safe : σ → Prop} (good : σ → ι → Prop)
    [∀ s a, Decidable (good s a)] (hsafe : ∀ s, I s → safe s)
    (hstep : ∀ s a t, I s → exec s a = some t → (safe t ↔ good s a) ∧ (safe t → I t)) {s t : σ}
    {as : List ι} (hI : I s) (h : run exec (fun _ _ => True) s as = some t) :
    Always exec s as safe ↔ run exec good s as = some t := by
  induction as generalizing s with
  | nil => exact iff_of_true (always_nil.mpr (hsafe s hI)) h
  | cons a as ih =>
    rw [run, List.foldlM_cons, if_pos trivial] at h
    obtain ⟨u, hu, h⟩ := Option.bind_eq_some_iff.mp h
    obtain ⟨hiff, hnext⟩ := hstep s a u hI hu
    rw [always_cons hu, and_iff_right (hsafe s hI)]
    by_cases hgood : good s a
    · rw [run_cons hgood hu]
      exact ih (hnext (hiff.mpr hgood)) h
    · refine iff_of_false (fun halways => ?_) fun hrun => ?_
      · exact hgood (hiff.mp (halways [] List.nil_prefix u rfl))
      · rw [run, List.foldlM_cons, if_neg hgood] at hrun
        cases hrun

/-- The steps are all executed when their labels are good. -/
theorem run_eq_iff_forall {exec : σ → ι → Option σ} {good : ι → Prop} [DecidablePred good]
    {s t : σ} {as : List ι} (h : run exec (fun _ _ => True) s as = some t) :
    run exec (fun _ a => good a) s as = some t ↔ ∀ a ∈ as, good a := by
  induction as generalizing s with
  | nil => exact iff_of_true h (by simp)
  | cons a as ih =>
    rw [run, List.foldlM_cons, if_pos trivial] at h
    obtain ⟨u, hu, h⟩ := Option.bind_eq_some_iff.mp h
    rw [List.forall_mem_cons]
    by_cases hgood : good a
    · rw [run_cons (P := fun _ a => good a) hgood hu, ih h, and_iff_right hgood]
    · refine iff_of_false (fun hrun => ?_) fun hall => hgood hall.1
      rw [run, List.foldlM_cons, if_neg hgood] at hrun
      cases hrun

/-- **The labels that keep a run safe.** Each label of the run takes a safe state to a safe state
exactly when it is good. -/
theorem always_iff_forall {exec : σ → ι → Option σ} {I safe : σ → Prop} {good : ι → Prop}
    (hsafe : ∀ s, I s → safe s)
    (hstep : ∀ s a t, I s → exec s a = some t → (safe t ↔ good a) ∧ (safe t → I t)) {s t : σ}
    {as : List ι} (hI : I s) (h : run exec (fun _ _ => True) s as = some t) :
    Always exec s as safe ↔ ∀ a ∈ as, good a := by
  classical
  rw [← run_eq_iff_forall h]
  exact always_iff_run _ hsafe hstep hI h

/-- Every step of the executed sequence of labels is safe. -/
def EachStep (exec : σ → ι → Option σ) (s : σ) (as : List ι) (safe : σ → ι → Prop) : Prop :=
  ∀ p a, p ++ [a] <+: as → ∀ t, run exec (fun _ _ => True) s p = some t → safe t a

theorem eachStep_nil {exec : σ → ι → Option σ} {s : σ} {safe : σ → ι → Prop} :
    EachStep exec s [] safe := by
  intro p a hp
  have hne : p ++ [a] ≠ [] := List.append_ne_nil_of_right_ne_nil p (List.cons_ne_nil a [])
  exact absurd (List.prefix_nil.mp hp) hne

theorem eachStep_cons {exec : σ → ι → Option σ} {s t : σ} {a : ι} (hexec : exec s a = some t)
    (as : List ι) {safe : σ → ι → Prop} :
    EachStep exec s (a :: as) safe ↔ safe s a ∧ EachStep exec t as safe := by
  constructor
  · intro h
    refine ⟨h [] a (List.cons_prefix_cons.mpr ⟨rfl, List.nil_prefix⟩) s rfl, fun p b hp u hu => ?_⟩
    apply h (a :: p) b (List.cons_prefix_cons.mpr ⟨rfl, hp⟩)
    rw [run_cons trivial hexec]
    exact hu
  · rintro ⟨hs, h⟩ p b hp u hu
    cases p with
    | nil =>
      obtain ⟨rfl, -⟩ := List.cons_prefix_cons.mp hp
      exact Option.some.inj hu ▸ hs
    | cons c p =>
      obtain ⟨rfl, hprefix⟩ := List.cons_prefix_cons.mp hp
      rw [run_cons trivial hexec] at hu
      exact h p b hprefix u hu

/-- **The labels of safe steps.** From the states with the invariant a step is safe exactly when its
label is good. -/
theorem eachStep_iff_forall {exec : σ → ι → Option σ} {I : σ → Prop} {safe : σ → ι → Prop}
    {good : ι → Prop}
    (hstep : ∀ s a t, I s → exec s a = some t → (safe s a ↔ good a) ∧ I t) {s t : σ} {as : List ι}
    (hI : I s) (h : run exec (fun _ _ => True) s as = some t) :
    EachStep exec s as safe ↔ ∀ a ∈ as, good a := by
  induction as generalizing s with
  | nil => exact iff_of_true eachStep_nil (by simp)
  | cons a as ih =>
    rw [run, List.foldlM_cons, if_pos trivial] at h
    obtain ⟨u, hu, h⟩ := Option.bind_eq_some_iff.mp h
    obtain ⟨hiff, hnext⟩ := hstep s a u hI hu
    rw [eachStep_cons hu, List.forall_mem_cons, hiff, ih hnext h]

/-- From the state, every run that goes on as long as there is a step comes to a state with `P`. -/
inductive Inevitably (M : LTS σ ι) (P : σ → Prop) : σ → Prop
  | now {s : σ} : P s → Inevitably M P s
  | next {s : σ} : (∃ a t, M.step s a t) → (∀ a t, M.step s a t → Inevitably M P t) →
    Inevitably M P s

/-- Where no run goes on behind `P`, every reachable state is on the way to it. -/
theorem Inevitably.of_reachable {M : LTS σ ι} {P : σ → Prop}
    (hinit : ∀ s, M.init s → M.Inevitably P s) (hend : ∀ s a t, P s → ¬ M.step s a t) {s : σ}
    (h : M.Reachable s) : M.Inevitably P s := by
  induction h with
  | init h0 => exact hinit _ h0
  | step _ ht ih =>
    cases ih with
    | now hP => exact absurd ht (hend _ _ _ hP)
    | next _ hnext => exact hnext _ _ ht

/-- **Progress and a rank.** -/
theorem Reachable.inevitably {M : LTS σ ι} {P : σ → Prop} (rank : σ → ℕ)
    (hprogress : ∀ s, M.Reachable s → P s ∨ ∃ a t, M.step s a t)
    (hrank : ∀ s a t, M.Reachable s → M.step s a t → rank t < rank s) {s : σ}
    (h : M.Reachable s) : M.Inevitably P s := by
  induction hn : rank s using Nat.strongRecOn generalizing s with
  | _ n ih =>
    rcases hprogress s h with hP | hstep
    · exact .now hP
    · apply Inevitably.next hstep
      intro a t ht
      have hlt := hrank s a t h ht
      rw [hn] at hlt
      exact ih (rank t) hlt (h.step ht) rfl

end LTS

end CS536Labs
