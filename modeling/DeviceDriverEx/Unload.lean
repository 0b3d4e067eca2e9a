import DeviceDriverEx.Machine

namespace DeviceDriverEx

/-- A module with code that the kernel runs for it later. `entry` are the steps of the functions
that others call, `callback` those of the deferred code. While an entry point is `busy` the exit
function waits; `late` says that entry points are still called while it runs. -/
structure Deferring (σ α : Type) where
  machine : Machine σ α
  entry : α → Bool
  callback : α → Bool
  busy : σ → Prop
  deferred : σ → Prop
  late : Bool
  still : ∀ {s a}, ¬ deferred s → machine.Enabled s a → entry a = false →
    callback a = false ∧ ¬ deferred (machine.next s a)
  calm : ∀ {s a}, ¬ busy s → machine.Enabled s a → entry a = false → ¬ busy (machine.next s a)
  raises : late = true → ∀ {s a}, ¬ busy s → machine.Enabled s a → entry a = true →
    ∃ as t, Run machine (machine.next s a) as t ∧ ¬ busy t ∧ deferred t

inductive Phase
  | loaded
  | leaving
  | returned
  deriving DecidableEq

structure Unloading (σ : Type) where
  phase : Phase
  st : σ

inductive UnloadAct (α : Type)
  | step (a : α)
  | exit_begin
  | exit_return

namespace Deferring

variable {σ α : Type} (m : Deferring σ α)

/-- The module with one call of its exit function, after which its entry points are gone. What is
deferred goes on. -/
def unload : Machine (Unloading σ) (UnloadAct α) where
  Enabled
    | u, .step a => m.machine.Enabled u.st a ∧
      (m.entry a = true → u.phase = .loaded ∨ u.phase = .leaving ∧ m.late = true)
    | u, .exit_begin => u.phase = .loaded ∧ ¬ m.busy u.st
    | u, .exit_return => u.phase = .leaving ∧ ¬ m.busy u.st
  next
    | u, .step a => { u with st := m.machine.next u.st a }
    | u, .exit_begin => { u with phase := .leaving }
    | u, .exit_return => { u with phase := .returned }

instance [∀ s a, Decidable (m.machine.Enabled s a)] [∀ s, Decidable (m.busy s)] :
    ∀ u a, Decidable (m.unload.Enabled u a)
  | u, .step a => inferInstanceAs (Decidable (m.machine.Enabled u.st a ∧
      (m.entry a = true → u.phase = .loaded ∨ u.phase = .leaving ∧ m.late = true)))
  | u, .exit_begin => inferInstanceAs (Decidable (u.phase = .loaded ∧ ¬ m.busy u.st))
  | u, .exit_return => inferInstanceAs (Decidable (u.phase = .leaving ∧ ¬ m.busy u.st))

/-- Once the exit function has returned, nothing of the module is queued or running. -/
def Gone (u : Unloading σ) : Prop := u.phase = .returned → ¬ m.deferred u.st

/-- No step of deferred code after the exit function has returned. -/
def NoneRuns (u : Unloading σ) : UnloadAct α → Prop
  | .step a => u.phase = .returned → m.callback a = false
  | _ => True

/-- The exit function finds nothing queued or running, and no entry point is called after that. -/
def Quiet (u : Unloading σ) : UnloadAct α → Prop
  | .exit_begin => ¬ m.deferred u.st
  | .step a => u.phase = .leaving → m.entry a = false
  | .exit_return => True

instance [∀ s, Decidable (m.deferred s)] : ∀ u a, Decidable (m.Quiet u a)
  | u, .exit_begin => inferInstanceAs (Decidable (¬ m.deferred u.st))
  | u, .step a => inferInstanceAs (Decidable (u.phase = .leaving → m.entry a = false))
  | _, .exit_return => isTrue trivial

variable {m}

/-- The module's own steps in a run with its unloading. -/
def own : UnloadAct α → Option α
  | .step a => some a
  | _ => none

theorem run_own {initial : σ} {as : List (UnloadAct α)} {u : Unloading σ}
    (h : Run m.unload ⟨.loaded, initial⟩ as u) : Run m.machine initial (as.filterMap own) u.st := by
  induction h with
  | start => exact Run.start
  | @next as u a _ enabled ih =>
    rw [List.filterMap_append]
    cases a with
    | step a => exact Run.next ih enabled.1
    | exit_begin | exit_return =>
      rw [List.filterMap_cons_none rfl, List.filterMap_nil, List.append_nil]
      exact ih

/-- The module's runs are runs with its unloading while its entry points may be called, and after
that if they do without them. -/
theorem run_steps {phase : Phase} {s t : σ} {as : List α} (h : Run m.machine s as t)
    (allowed : ∀ a ∈ as, m.entry a = true → phase = .loaded ∨ phase = .leaving ∧ m.late = true) :
    Run m.unload ⟨phase, s⟩ (as.map .step) ⟨phase, t⟩ := by
  induction h with
  | start => exact Run.start
  | @next as s a _ enabled ih =>
    rw [List.map_append]
    have first := ih fun b hb => allowed b (List.mem_append_left _ hb)
    exact Run.next (m := m.unload) first ⟨enabled, allowed a (by simp)⟩

/-- From the call of the exit function on there is nothing left to run. -/
def Settled (m : Deferring σ α) (u : Unloading σ) : Prop :=
  u.phase ≠ .loaded → ¬ m.busy u.st ∧ ¬ m.deferred u.st

theorem entry_early {u : Unloading σ} {a : α} (left : u.phase ≠ .loaded)
    (enabled : m.unload.Enabled u (.step a)) (quiet : m.Quiet u (.step a)) : m.entry a = false := by
  cases entered : m.entry a with
  | false => rfl
  | true =>
    obtain loaded | leaving := enabled.2 entered
    · exact absurd loaded left
    · rw [quiet leaving.1] at entered
      cases entered

theorem settled_next {u : Unloading σ} {a : UnloadAct α} (h : Settled m u)
    (enabled : m.unload.Enabled u a) (quiet : m.Quiet u a) : Settled m (m.unload.next u a) := by
  intro left
  cases a with
  | step a =>
    have before : u.phase ≠ .loaded := left
    obtain ⟨calm, still⟩ := h before
    have outside := entry_early before enabled quiet
    exact ⟨m.calm calm enabled.1 outside, (m.still still enabled.1 outside).2⟩
  | exit_begin => exact ⟨enabled.2, quiet⟩
  | exit_return => exact h (by rw [enabled.1]; decide)

theorem settled_run {initial : σ} {as : List (UnloadAct α)} {u : Unloading σ}
    (h : Run m.unload ⟨.loaded, initial⟩ as u)
    (quiet : Meets m.unload m.Quiet ⟨.loaded, initial⟩ as) : Settled m u :=
  run_invariant_of_meets (I := Settled m) (fun left => absurd rfl left)
    (fun _ _ inv enabled ok => settled_next inv enabled ok) h quiet

/-- A module whose exit function finds nothing deferred leaves nothing behind and never runs
again. -/
theorem gone_of_quiet {initial : σ} {as : List (UnloadAct α)} {u : Unloading σ}
    (h : Run m.unload ⟨.loaded, initial⟩ as u)
    (quiet : Meets m.unload m.Quiet ⟨.loaded, initial⟩ as) :
    Always m.unload (fun _ v => m.Gone v) ⟨.loaded, initial⟩ as ∧
      Meets m.unload m.NoneRuns ⟨.loaded, initial⟩ as := by
  constructor
  · intro pre post v split run returned
    refine (settled_run run (meets_before (split ▸ quiet)) ?_).2
    rw [returned]
    decide
  · intro pre a post v split run
    cases a with
    | step a =>
      intro returned
      have left : v.phase ≠ .loaded := by
        rw [returned]
        decide
      have settled := settled_run run (meets_before (split ▸ quiet)) left
      obtain ⟨w, before, enabled⟩ := run_before (split ▸ h)
      cases run_unique run before
      exact (m.still settled.2 enabled.1
        (entry_early left enabled (quiet pre _ post v split run))).1
    | _ => trivial

/-- A step that is not quiet lets the exit function return with something deferred. -/
theorem deferred_of_noise {u : Unloading σ} {a : UnloadAct α} (settled : Settled m u)
    (enabled : m.unload.Enabled u a) (noise : ¬ m.Quiet u a) :
    ∃ bs v, Run m.unload (m.unload.next u a) bs v ∧ ¬ m.Gone v := by
  have leave : ∀ {t}, ¬ m.busy t → m.deferred t →
      Run m.unload ⟨.leaving, t⟩ [.exit_return] ⟨.returned, t⟩ ∧ ¬ m.Gone ⟨.returned, t⟩ := by
    intro t calm deferred
    exact ⟨Run.next (m := m.unload) (a := .exit_return) Run.start ⟨rfl, calm⟩,
      fun gone => gone rfl deferred⟩
  cases a with
  | exit_begin =>
    obtain ⟨run, left⟩ := leave enabled.2 (not_not.mp noise)
    exact ⟨_, _, run, left⟩
  | exit_return => exact absurd trivial noise
  | step a =>
    simp only [Quiet, Classical.not_imp, Bool.not_eq_false] at noise
    obtain ⟨leaving, entered⟩ := noise
    have late : m.late = true := by
      obtain loaded | late := enabled.2 entered
      · rw [leaving] at loaded
        cases loaded
      · exact late.2
    have calm := (settled (by rw [leaving]; decide)).1
    obtain ⟨as, t, run, calm', deferred⟩ := m.raises late calm enabled.1 entered
    obtain ⟨returns, left⟩ := leave calm' deferred
    have next : m.unload.next u (.step a) = ⟨.leaving, m.machine.next u.st a⟩ := by
      rw [← leaving]
      rfl
    rw [next]
    have raised : Run m.unload ⟨.leaving, m.machine.next u.st a⟩ (as.map .step) ⟨.leaving, t⟩ :=
      run_steps run fun _ _ _ => Or.inr ⟨rfl, late⟩
    exact ⟨_, _, run_append raised returns, left⟩

/-- The exit function called and returning at once, between the steps `before` and `later`. -/
def unloaded (before later : List α) : List (UnloadAct α) :=
  before.map .step ++ [.exit_begin, .exit_return] ++ later.map .step

theorem run_unloaded {initial s t : σ} {before later : List α} (h : Run m.machine initial before s)
    (calm : ¬ m.busy s) (rest : Run m.machine s later t)
    (outside : ∀ a ∈ later, m.entry a = false) :
    Run m.unload ⟨.loaded, initial⟩ (unloaded before later) ⟨.returned, t⟩ := by
  have loaded : Run m.unload ⟨.loaded, initial⟩ (before.map .step) ⟨.loaded, s⟩ :=
    run_steps h fun _ _ _ => Or.inl rfl
  have returns : Run m.unload ⟨.loaded, s⟩ [.exit_begin, .exit_return] ⟨.returned, s⟩ :=
    run_cons (m := m.unload) ⟨rfl, calm⟩ (Run.next (m := m.unload) (a := .exit_return) Run.start
      ⟨rfl, calm⟩)
  refine run_append (run_append loaded returns) (run_steps rest fun a ha entered => ?_)
  rw [outside a ha] at entered
  cases entered

/-- The steps `later`, taken after the exit function has returned, are some of deferred code. -/
def RunsAfterExit (m : Deferring σ α) (initial : σ) (before later : List α) : Prop :=
  ∃ u, Run m.unload ⟨.loaded, initial⟩ (unloaded before later) u ∧
    ¬ Meets m.unload m.NoneRuns ⟨.loaded, initial⟩ (unloaded before later)

theorem runs_after_exit {initial s t : σ} {before later : List α} {a : α}
    (h : Run m.machine initial before s) (calm : ¬ m.busy s) (rest : Run m.machine s later t)
    (outside : ∀ b ∈ later ++ [a], m.entry b = false) (enabled : m.machine.Enabled t a)
    (callback : m.callback a = true) : m.RunsAfterExit initial before (later ++ [a]) := by
  refine ⟨_, run_unloaded h calm (Run.next rest enabled) outside, fun noneRuns => ?_⟩
  have reached := run_unloaded h calm rest fun b hb => outside b (List.mem_append_left _ hb)
  have last : unloaded before (later ++ [a]) = unloaded before later ++ [.step a] := by
    simp [unloaded]
  rw [last] at noneRuns
  have none := meets_last noneRuns reached rfl
  rw [callback] at none
  cases none

theorem quiet_steps {initial s : σ} {as : List α} (h : Run m.machine initial as s) :
    Meets m.unload m.Quiet ⟨.loaded, initial⟩ (as.map .step) := by
  induction h with
  | start => exact meets_nil
  | next previous _ ih =>
    rw [List.map_append]
    exact meets_concat ih (run_steps previous fun _ _ _ => Or.inl rfl)
      (fun leaving => by cases leaving)

theorem quiet_unloaded {initial s : σ} {as : List α} (h : Run m.machine initial as s)
    (calm : ¬ m.busy s) (still : ¬ m.deferred s) :
    Meets m.unload m.Quiet ⟨.loaded, initial⟩ (unloaded as []) := by
  have loaded : Run m.unload ⟨.loaded, initial⟩ (as.map .step) ⟨.loaded, s⟩ :=
    run_steps h fun _ _ _ => Or.inl rfl
  have idle : m.Quiet ⟨.loaded, s⟩ .exit_begin := still
  have begun := meets_concat (quiet_steps h) loaded idle
  have leaving := Run.next (m := m.unload) (a := .exit_begin) loaded ⟨rfl, calm⟩
  have returned := meets_concat begun leaving (show m.Quiet _ .exit_return from trivial)
  simpa [unloaded] using returned

end Deferring

end DeviceDriverEx
