import DeviceDriverEx.MKtimerOutstanding
import DeviceDriverEx.StaticTimer
import DeviceDriverEx.TaskletSmart
import DeviceDriverEx.Unload
import DeviceDriverEx.Workqueue

namespace DeviceDriverEx.MKtimer

section
variable {ι : Type} [DecidableEq ι]

def Act.entry : Act ι → Bool
  | .kzalloc _ => true
  | .list_add_tail _ => true
  | .add_timer _ => true
  | _ => false

def Act.callback : Act ι → Bool
  | .expire => true
  | .timer_func => true
  | _ => false

/-- `MKtimer_exit` only deregisters the device, and starts when no file is open. -/
def deferring (HZ : Nat) : Deferring (State ι) (Act ι) where
  machine := machine HZ
  entry := Act.entry
  callback := Act.callback
  busy s := ∃ i, s.pc i ≠ .kzalloc ∧ s.pc i ≠ .returned
  deferred s := s.queue ≠ [] ∨ s.running ≠ none
  late := false
  still := by
    intro s a idle enabled outside
    obtain ⟨queue, running⟩ := not_or.mp idle
    rw [not_not] at queue running
    cases a with
    | tick => exact ⟨rfl, idle⟩
    | expire =>
      obtain ⟨_, t, first, _⟩ := enabled
      rw [queue] at first
      cases first
    | timer_func => exact absurd running enabled
    | kzalloc i | list_add_tail i | add_timer i => cases outside
  calm := by
    intro s a calm enabled outside
    cases a with
    | tick => exact calm
    | expire => exact calm
    | timer_func =>
      simp only [machine, next]
      split <;> exact calm
    | kzalloc i | list_add_tail i | add_timer i => cases outside
  raises late := by cases late

/-- Every entry that was allocated has been freed, and the list is empty. -/
def NoneLeft (s : State ι) : Prop :=
  s.head = [] ∧ ∀ i, s.pc i ≠ .kzalloc → some i ∈ s.log.map Prod.snd

theorem none_left {HZ jiffies : Nat} {as : List (Act ι)} {s : State ι}
    (h : Run (machine HZ) (init jiffies) as s) (calm : ¬ (deferring HZ).busy s)
    (still : ¬ (deferring HZ).deferred s) : NoneLeft s := by
  obtain ⟨waiting, inv⟩ := outstanding_run h
  obtain ⟨queue, running⟩ := not_or.mp still
  rw [not_not] at queue running
  have returned : ∀ i, s.pc i ≠ .kzalloc → s.pc i = .returned := by
    intro i begun
    by_contra waits
    exact calm ⟨i, begun, waits⟩
  have none_waits : waiting = [] := by
    refine List.eq_nil_iff_forall_not_mem.mpr fun i hi => ?_
    have begun : s.pc i ≠ .kzalloc := by
      intro hpc
      have listed := ((inv.waits i).mp hi).1
      rw [hpc] at listed
      cases listed
    obtain queued | runs := (inv.queued i).mp ⟨hi, returned i begun⟩
    · rw [queue] at queued
      cases queued
    · rw [running] at runs
      cases runs
  have empty : s.head = [] := by
    rw [← List.length_eq_zero_iff, inv.length, none_waits]
    rfl
  refine ⟨empty, fun i begun => ?_⟩
  by_contra kept
  have listed : (s.pc i).listed = true := by
    rw [returned i begun]
    rfl
  have inHead := (inv.listed i).mpr ⟨listed, kept⟩
  rw [empty] at inHead
  cases inHead

end

end DeviceDriverEx.MKtimer

namespace DeviceDriverEx.StaticTimer

section
variable {ι : Type} [DecidableEq ι]

omit [DecidableEq ι] in
def Act.entry : Act ι → Bool
  | .init_timer _ => true
  | .expires _ => true
  | .add_timer _ => true
  | _ => false

omit [DecidableEq ι] in
def Act.callback : Act ι → Bool
  | .expire => true
  | .timer_func => true
  | _ => false

theorem next_pc {lab : Lab} {HZ : Nat} {s : State ι} {a : Act ι} (outside : a.entry = false) :
    (next lab HZ s a).pc = s.pc := by
  cases a with
  | tick | expire => rfl
  | timer_func => cases lab <;> rfl
  | init_timer i | expires i | add_timer i => cases outside

/-- The module of 11_LAB3, whose writes interleave. `timers_exit` only deregisters the device. -/
def deferring (HZ : Nat) : Deferring (State ι) (Act ι) where
  machine := machine false .PKtimers HZ
  entry := Act.entry
  callback := Act.callback
  busy s := ∃ i, (s.pc i).writing = true
  deferred s := s.queue ≠ [] ∨ s.running = true
  late := false
  still := by
    intro s a idle enabled outside
    obtain ⟨queue, running⟩ := not_or.mp idle
    rw [not_not] at queue
    cases a with
    | tick => exact ⟨rfl, idle⟩
    | expire =>
      obtain ⟨_, e, first, _⟩ := enabled
      rw [queue] at first
      cases first
    | timer_func => exact absurd enabled running
    | init_timer i | expires i | add_timer i => cases outside
  calm := by
    intro s a calm _ outside writing
    change ∃ i, ((next .PKtimers HZ s a).pc i).writing = true at writing
    rw [next_pc outside] at writing
    exact calm writing
  raises late := by cases late

theorem returned_update {s : State ι} {j : ι} {pc : Pc} (waits : s.pc j ≠ .returned)
    (begun : pc ≠ .returned) : (∃ i, Function.update s.pc j pc i = .returned) ↔
      ∃ i, s.pc i = .returned := by
  have neither : (pc = .returned) = (s.pc j = .returned) := by rw [eq_false begun, eq_false waits]
  exact exists_congr fun i => iff_of_eq (update_tells (fun pc => pc = Pc.returned) neither i)

/-- From the first write on, the timer of 11_LAB3 is pending or its function runs, for ever. -/
theorem deferred_iff_returned {HZ jiffies : Nat} {as : List (Act ι)} {s : State ι}
    (h : Run (machine false .PKtimers HZ) (init jiffies) as s) :
    (deferring HZ).deferred s ↔ ∃ i, s.pc i = .returned := by
  refine run_invariant (I := fun s : State ι => (deferring HZ).deferred s ↔ ∃ i, s.pc i = .returned)
    ⟨?_, ?_⟩ (fun s a inv enabled => ?_) h
  · rintro (queue | running)
    · exact absurd rfl queue
    · cases running
  · rintro ⟨i, hi⟩
    cases hi
  cases a with
  | init_timer j =>
    have waits : s.pc j ≠ .returned := by
      rw [show s.pc j = .init_timer from enabled.1]
      decide
    exact inv.trans (returned_update waits (by decide)).symm
  | expires j =>
    have waits : s.pc j ≠ .returned := by
      rw [show s.pc j = .expires from enabled]
      decide
    exact inv.trans (returned_update waits (by decide)).symm
  | add_timer j => exact ⟨fun _ => ⟨j, Function.update_self ..⟩, fun _ => Or.inl enqueue_ne_nil⟩
  | tick => exact inv
  | expire =>
    obtain ⟨_, e, first, _⟩ := enabled
    have queued : s.queue ≠ [] := by
      intro empty
      rw [empty] at first
      cases first
    exact ⟨fun _ => inv.mp (Or.inl queued), fun _ => Or.inr rfl⟩
  | timer_func => exact ⟨fun _ => inv.mp (Or.inr enabled), fun _ => Or.inl enqueue_ne_nil⟩

end

end DeviceDriverEx.StaticTimer

namespace DeviceDriverEx.Workqueue

section
variable {ι : Type} [DecidableEq ι]

omit [DecidableEq ι] in
def Act.entry : Act ι → Bool
  | .copy_from_user _ => true
  | .schedule_work _ => true
  | _ => false

omit [DecidableEq ι] in
def Act.callback : Act ι → Bool
  | .start => true
  | .finish => true
  | _ => false

/-- `mydev_exit` only deregisters the device. -/
def deferring (call : ι → Write) : Deferring (State ι) (Act ι) where
  machine := machine call
  entry := Act.entry
  callback := Act.callback
  busy s := ∃ i, s.pc i = .schedule_work
  deferred s := s.pending = true ∨ s.running = true
  late := false
  still := by
    intro s a idle enabled outside
    obtain ⟨pending, running⟩ := not_or.mp idle
    cases a with
    | start => exact absurd enabled.1 pending
    | finish => exact absurd enabled running
    | copy_from_user i | schedule_work i => cases outside
  calm := by
    intro s a calm _ outside
    cases a with
    | start | finish => exact calm
    | copy_from_user i | schedule_work i => cases outside
  raises late := by cases late

end

end DeviceDriverEx.Workqueue

namespace DeviceDriverEx.TaskletSmart

section
variable {ι : Type} [DecidableEq ι]

omit [DecidableEq ι] in
def Act.entry : Act ι → Bool
  | .incTodo _ => true
  | .incN_th _ => true
  | .tasklet_schedule _ => true
  | _ => false

omit [DecidableEq ι] in
def Act.callback (a : Act ι) : Bool := !a.entry

/-- An interrupt that begins while no handler runs is handled and leaves the tasklet scheduled. -/
theorem run_isr_top {s : State ι} {i : ι} (calm : ¬ ∃ j, (s.top j).inProgress = true) :
    ∃ t, Run machine (next s (.incTodo i)) [.incN_th i, .tasklet_schedule i] t ∧
      (¬ ∃ j, (t.top j).inProgress = true) ∧ t.scheduled = true := by
  have second : Enabled (next s (.incTodo i)) (.incN_th i) := Function.update_self ..
  have third : Enabled (next (next s (.incTodo i)) (.incN_th i)) (.tasklet_schedule i) :=
    Function.update_self ..
  refine ⟨_, run_cons (m := machine) second (run_cons (m := machine) third Run.start), ?_, rfl⟩
  rintro ⟨j, hj⟩
  by_cases hji : j = i
  · subst hji
    simp only [machine, next, Function.update_self] at hj
    cases hj
  · simp only [machine, next, Function.update_of_ne hji] at hj
    exact calm ⟨j, hj⟩

/-- `Nirq_exit` has waited for the handlers in `synchronize_irq`, and waits for those of later
interrupts in `free_irq`. -/
def deferring : Deferring (State ι) (Act ι) where
  machine := machine
  entry := Act.entry
  callback := Act.callback
  busy s := ∃ i, (s.top i).inProgress = true
  deferred s := s.scheduled = true ∨ s.bottom ≠ .idle
  late := true
  still := by
    intro s a idle enabled outside
    obtain ⟨scheduled, bottom⟩ := not_or.mp idle
    rw [not_not] at bottom
    cases a with
    | start => exact absurd enabled.1 scheduled
    | test | incDone | decTodo | leave => cases bottom.symm.trans enabled
    | incTodo i | incN_th i | tasklet_schedule i => cases outside
  calm := by
    intro s a calm _ outside
    cases a with
    | start | test | incDone | decTodo | leave => exact calm
    | incTodo i | incN_th i | tasklet_schedule i => cases outside
  raises := by
    intro _ s a calm enabled entered
    have idle : ∀ {i pc}, s.top i = pc → pc.inProgress = false := by
      intro i pc hi
      rw [← hi]
      exact Bool.eq_false_iff.mpr fun busy => calm ⟨i, busy⟩
    cases a with
    | incTodo i =>
      obtain ⟨t, run, calm', scheduled⟩ := run_isr_top (i := i) calm
      exact ⟨_, t, run, calm', Or.inl scheduled⟩
    | incN_th i => cases idle (show s.top i = .second from enabled)
    | tasklet_schedule i => cases idle (show s.top i = .third from enabled)
    | start | test | incDone | decTodo | leave => cases entered

end

end DeviceDriverEx.TaskletSmart

namespace DeviceDriverEx

variable {σ α : Type}

/-- After the exit function has returned nothing of the module is queued, running or, by `empty`,
left in memory, and no deferred code runs. -/
def Clean (m : Deferring σ α) (empty : σ → Prop) (initial : σ) (as : List (UnloadAct α)) : Prop :=
  Always m.unload (fun _ v => m.Gone v ∧ (v.phase = .returned → empty v.st)) ⟨.loaded, initial⟩ as ∧
    Meets m.unload m.NoneRuns ⟨.loaded, initial⟩ as

/-- The exit function is clean in the run, and from a step that is not quiet some run goes on in
which it is not. -/
def CleanWhileQuiet (m : Deferring σ α) (empty : σ → Prop) (initial : σ) : Prop :=
  ∀ as u, Run m.unload ⟨.loaded, initial⟩ as u → Meets m.unload m.Quiet ⟨.loaded, initial⟩ as →
    Clean m empty initial as ∧ ∀ a, m.unload.Enabled u a → ¬ m.Quiet u a →
      ∃ bs v, Run m.unload ⟨.loaded, initial⟩ (as ++ a :: bs) v ∧
        ¬ Clean m empty initial (as ++ a :: bs)

theorem cleanWhileQuiet {m : Deferring σ α} {empty : σ → Prop} {initial : σ}
    (emptied : ∀ {as s}, Run m.machine initial as s → ¬ m.busy s → ¬ m.deferred s → empty s) :
    CleanWhileQuiet m empty initial := by
  intro as u h quiet
  obtain ⟨gone, noneRuns⟩ := Deferring.gone_of_quiet h quiet
  refine ⟨⟨fun pre post v split run => ⟨gone pre post v split run, fun returned => ?_⟩, noneRuns⟩,
    fun a enabled noise => ?_⟩
  · have left : v.phase ≠ .loaded := by
      rw [returned]
      decide
    obtain ⟨calm, still⟩ := Deferring.settled_run run (meets_before (split ▸ quiet)) left
    exact emptied (Deferring.run_own run) calm still
  · obtain ⟨bs, v, run, left⟩ :=
      Deferring.deferred_of_noise (Deferring.settled_run h quiet) enabled noise
    have reached := run_append h (run_cons enabled run)
    exact ⟨bs, v, reached, fun clean => left (clean.1 _ [] v (List.append_nil _).symm reached).1⟩

section
variable {ι : Type} [DecidableEq ι]

/-- In each of the four drivers, whatever the interleaving, an exit function that finds nothing
pending or running, and that no interrupt meets half-way, leaves nothing behind, and nothing of the
module runs after it. Any other call of it may return with deferred code still to run. The exit
function of 11_LAB3 finds nothing only if the device was never written. -/
theorem exit_leaves_nothing (HZ jiffies : Nat) (call : ι → Workqueue.Write) (buf : Bytes) :
    CleanWhileQuiet (MKtimer.deferring HZ) MKtimer.NoneLeft
        (MKtimer.init jiffies : MKtimer.State ι) ∧
      CleanWhileQuiet (StaticTimer.deferring HZ) (fun _ => True)
        (StaticTimer.init jiffies : StaticTimer.State ι) ∧
      CleanWhileQuiet (Workqueue.deferring call) (fun _ => True) (Workqueue.init buf) ∧
      CleanWhileQuiet TaskletSmart.deferring (fun _ => True)
        (TaskletSmart.init : TaskletSmart.State ι) ∧
      ∀ as s, Run (StaticTimer.machine false .PKtimers HZ) (StaticTimer.init jiffies) as s →
        ((StaticTimer.deferring HZ).deferred s ↔ ∃ i : ι, s.pc i = .returned) :=
  ⟨cleanWhileQuiet MKtimer.none_left, cleanWhileQuiet fun _ _ _ => trivial,
    cleanWhileQuiet fun _ _ _ => trivial, cleanWhileQuiet fun _ _ _ => trivial,
    fun _ _ h => StaticTimer.deferred_iff_returned h⟩

end

/-- One write or interrupt, its callbacks, and then the exit function; the timer of 11_LAB3 is never
written. -/
theorem exit_leaves_nothing_idle :
    let as : List (MKtimer.Act (Fin 1)) := [.kzalloc 0, .list_add_tail 0, .add_timer 0] ++
      List.replicate 10 .tick ++ [.expire, .timer_func]
    Clean (MKtimer.deferring 1) MKtimer.NoneLeft (MKtimer.init 0) (Deferring.unloaded as []) ∧
      Clean (StaticTimer.deferring 1) (fun _ => True) (StaticTimer.init 0 : StaticTimer.State (Fin 1))
        (Deferring.unloaded [.tick] []) ∧
      Clean (Workqueue.deferring fun _ => ⟨fun _ => 7, 1, none⟩) (fun _ => True)
        (Workqueue.init fun _ => 0 : Workqueue.State (Fin 1))
        (Deferring.unloaded [.copy_from_user 0, .schedule_work 0, .start, .finish] []) ∧
      Clean TaskletSmart.deferring (fun _ => True) (TaskletSmart.init : TaskletSmart.State (Fin 1))
        (Deferring.unloaded [.incTodo 0, .incN_th 0, .tasklet_schedule 0, .start, .test, .incDone,
          .decTodo, .leave] []) := by
  intro as
  obtain ⟨mk, static, work, tasklet, _⟩ :=
    @exit_leaves_nothing (Fin 1) _ 1 0 (fun _ => ⟨fun _ => 7, 1, none⟩) fun _ => 0
  have each : ∀ {σ α : Type} {m : Deferring σ α} {empty : σ → Prop} {initial s : σ} {as : List α},
      CleanWhileQuiet m empty initial → Run m.machine initial as s → ¬ m.busy s → ¬ m.deferred s →
      Clean m empty initial (Deferring.unloaded as []) := by
    intro σ α m empty initial s as clean run calm still
    exact (clean _ _ (Deferring.run_unloaded run calm Run.start fun _ ha => by cases ha)
      (Deferring.quiet_unloaded run calm still)).1
  refine ⟨each mk (s := (MKtimer.machine 1).replay (MKtimer.init 0) as)
      (run_of_admits (m := MKtimer.machine 1) (by decide))
      ?_ ?_, each static (s := (StaticTimer.machine false .PKtimers 1).replay _ _)
      (run_of_admits (m := StaticTimer.machine false .PKtimers 1) (by decide)) ?_ ?_,
    each work (s := (Workqueue.machine _).replay _ _)
      (run_of_admits (m := Workqueue.machine _) (by decide)) ?_ ?_,
    each tasklet (s := TaskletSmart.machine.replay _ _)
      (run_of_admits (m := TaskletSmart.machine) (by decide)) ?_ ?_⟩
  · change ¬ ∃ i, _
    decide
  · change ¬ (_ ∨ _)
    decide
  · change ¬ ∃ i, _
    decide
  · change ¬ (_ ∨ _)
    decide
  · change ¬ ∃ i, _
    decide
  · change ¬ (_ ∨ _)
    decide
  · change ¬ ∃ i, _
    decide
  · change ¬ (_ ∨ _)
    decide

/-- The exit function is called with a timer pending, the work item queued or the tasklet scheduled,
and returns at once. Then the timers fire, and the work and the tasklet are run. -/
theorem callbacks_after_exit :
    (MKtimer.deferring 100).RunsAfterExit (MKtimer.init 0 : MKtimer.State (Fin 1))
        [.kzalloc 0, .list_add_tail 0, .add_timer 0] (List.replicate 1000 .tick ++ [.expire]) ∧
      (StaticTimer.deferring 100).RunsAfterExit (StaticTimer.init 0 : StaticTimer.State (Fin 1))
        [.init_timer 0, .expires 0, .add_timer 0] (List.replicate 100 .tick ++ [.expire]) ∧
      (Workqueue.deferring fun _ => ⟨fun _ => 7, 1, none⟩).RunsAfterExit
        (Workqueue.init fun _ => 0 : Workqueue.State (Fin 1))
        [.copy_from_user 0, .schedule_work 0] [.start] ∧
      TaskletSmart.deferring.RunsAfterExit (TaskletSmart.init : TaskletSmart.State (Fin 1))
        [.incTodo 0, .incN_th 0, .tasklet_schedule 0] [.start] := by
  have outside : ∀ {α : Type} {entry : α → Bool} {tick a : α} {n : Nat}, entry tick = false →
      entry a = false → ∀ b ∈ List.replicate n tick ++ [a], entry b = false := by
    intro α entry tick a n ht ha b hb
    obtain hb | hb := List.mem_append.mp hb
    · rwa [List.eq_of_mem_replicate hb]
    · rwa [List.mem_singleton.mp hb]
  refine ⟨Deferring.runs_after_exit
      (s := (MKtimer.machine 100).replay (MKtimer.init 0)
        [.kzalloc 0, .list_add_tail 0, .add_timer 0])
      (run_of_admits (m := MKtimer.machine 100) (by decide)) ?_
      ((MKtimer.clock 100).run_ticks _ 1000) (outside rfl rfl) ?_ rfl,
    Deferring.runs_after_exit
      (s := (StaticTimer.machine false .PKtimers 100).replay (StaticTimer.init 0)
        [.init_timer 0, .expires 0, .add_timer 0])
      (run_of_admits (m := StaticTimer.machine false .PKtimers 100) (by decide)) ?_
      ((StaticTimer.clock false .PKtimers 100).run_ticks _ 100) (outside rfl rfl) ?_ rfl,
    Deferring.runs_after_exit (a := Workqueue.Act.start)
      (s := (Workqueue.machine fun _ => ⟨fun _ => 7, 1, none⟩).replay (Workqueue.init fun _ => 0)
        [.copy_from_user 0, .schedule_work 0])
      (run_of_admits (m := Workqueue.machine _) (by decide)) ?_ Run.start
      (by decide) ?_ rfl,
    Deferring.runs_after_exit (a := TaskletSmart.Act.start)
      (s := TaskletSmart.machine.replay TaskletSmart.init
        [.incTodo 0, .incN_th 0, .tasklet_schedule 0])
      (run_of_admits (m := TaskletSmart.machine) (by decide)) ?_ Run.start
      (by decide) ?_ rfl⟩
  · change ¬ ∃ i, _
    decide
  · exact ⟨rfl, 0, rfl, by decide⟩
  · change ¬ ∃ i, _
    decide
  · exact ⟨rfl, 100, rfl, by decide⟩
  · change ¬ ∃ i, _
    decide
  · exact ⟨rfl, rfl⟩
  · change ¬ ∃ i, _
    decide
  · exact ⟨rfl, rfl⟩

end DeviceDriverEx
