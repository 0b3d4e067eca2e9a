import DeviceDriverEx.KthreadSmart

namespace DeviceDriverEx.KthreadSmart

/-- What `kthread_run` gives back. -/
inductive Created
  | null
  | task
  | error
  deriving DecidableEq

/-- What `Nirq_init` leaves: its value, whether the thread runs, whether `isr_top` is registered. -/
structure Loaded where
  rval : Int32
  running : Bool
  registered : Bool

def Nirq_init (kthread_run : Created) (request_irq : Int32) : Loaded :=
  if kthread_run = .null then ⟨-1, false, false⟩
  else if request_irq ≠ 0 then ⟨-1, kthread_run = .task, false⟩
  else ⟨0, kthread_run = .task, true⟩

/-- A failed load leaves nothing behind. -/
def Loaded.Clean (l : Loaded) : Prop := l.rval ≠ 0 → l.running = false ∧ l.registered = false

theorem Nirq_init_clean_iff {kthread_run : Created} (created : kthread_run ≠ .null)
    (request_irq : Int32) : (Nirq_init kthread_run request_irq).Clean ↔
      ¬ (kthread_run = .task ∧ request_irq ≠ 0) := by
  rw [Nirq_init, if_neg created, Loaded.Clean]
  split
  next failed => simp [failed]
  next granted => simp_all

def ExitPc.pastJoin : ExitPc → Bool
  | joined | synced | freed => true
  | _ => false

section
variable {ι : Type} [DecidableEq ι] [Fintype ι] {as : List (Act ι)} {s : State ι} {a : Act ι}
  {i : ι}

/-- The thread heeds the stop flag only when nothing is left to do, and no interrupt comes behind
its return. -/
def LeavesNothing (s : State ι) : Act ι → Prop
  | .testStop | .loopTest => s.should_stop = true → s.counters.todo = 0
  | .incTodo _ => s.thread ≠ .exited
  | _ => True

instance (s : State ι) : ∀ a : Act ι, Decidable (LeavesNothing s a)
  | .testStop | .loopTest => inferInstanceAs
      (Decidable (s.should_stop = true → s.counters.todo = 0))
  | .incTodo _ => inferInstanceAs (Decidable (s.thread ≠ .exited))
  | .incN_th _ | .wake_up _ | .enqueue | .testCond | .wakened | .spurious | .signal | .testTodo
  | .incDone | .decTodo | .kthread_stop | .join | .synchronize_irq | .free_irq => isTrue trivial

/-- The counters, as far as an `int` tells, and what `Nirq_exit` has waited for. -/
structure Shut (s : State ι) : Prop where
  N_th : s.counters.N_th = Int32.ofNat (occupancy TopPc.pastFirst s.top)
  served : s.counters.done + s.counters.todo =
    Int32.ofNat (occupancy TopPc.pastSecond s.top) + if s.thread = .decTodo then 1 else 0
  joined : s.exit.pastJoin = true → s.thread = .exited
  idle : s.exit = .freed → ∀ i, (s.top i).inProgress = false

omit [DecidableEq ι] in
theorem shut_init : Shut (init : State ι) := by
  refine ⟨?_, ?_, nofun, nofun⟩
  · rw [occupancy_eq_zero fun _ => rfl]
    rfl
  · rw [occupancy_eq_zero fun _ => rfl]
    rfl

/-- A handler takes a step, which it cannot when `free_irq` has returned. -/
theorem shut_handler {c : Counters} {q : WaitQueue Unit} {k : TopPc} (h : Shut s)
    (N_th : c.N_th = Int32.ofNat (occupancy TopPc.pastFirst (Function.update s.top i k)))
    (served : c.done + c.todo =
      Int32.ofNat (occupancy TopPc.pastSecond (Function.update s.top i k)) +
        if s.thread = .decTodo then 1 else 0)
    (there : s.exit ≠ .freed) :
    Shut { s with counters := c, top := Function.update s.top i k, wq := q } :=
  ⟨N_th, served, h.joined, fun freed => absurd freed there⟩

theorem shut_incN_th (h : Shut s) (enabled : Enabled s (.incN_th i)) :
    Shut (next s (.incN_th i)) := by
  obtain ⟨first, there⟩ := enabled
  refine shut_handler h ?_ ?_ there
  · rw [Counters.incN_th, h.N_th, atomic_inc_ofNat, occupancy_enter (by rw [first]; rfl) rfl]
  · rw [occupancy_stay (by rw [first]; rfl)]
    exact h.served

omit [DecidableEq ι] [Fintype ι] in
theorem inProgress_there (idle : s.exit = .freed → ∀ i, (s.top i).inProgress = false)
    (busy : (s.top i).inProgress = true) : s.exit ≠ .freed := by
  intro freed
  rw [idle freed i] at busy
  cases busy

theorem shut_incTodo (h : Shut s) (enabled : Enabled s (.incTodo i)) :
    Shut (next s (.incTodo i)) := by
  have second : s.top i = .second := enabled
  refine shut_handler h ?_ ?_ (inProgress_there h.idle (by rw [second]; rfl))
  · rw [occupancy_stay (by rw [second]; rfl)]
    exact h.N_th
  · rw [occupancy_enter (by rw [second]; rfl) rfl, Int32.ofNat_add, Int32.add_assoc,
      Int32.add_comm (Int32.ofNat 1), ← Int32.add_assoc, ← h.served, Int32.add_assoc]
    rfl

theorem shut_wake_up (h : Shut s) (enabled : Enabled s (.wake_up i)) :
    Shut (next s (.wake_up i)) := by
  have third : s.top i = .third := enabled
  refine shut_handler h ?_ ?_ (inProgress_there h.idle (by rw [third]; rfl))
  · rw [occupancy_stay (by rw [third]; rfl)]
    exact h.N_th
  · rw [occupancy_stay (by rw [third]; rfl)]
    exact h.served

omit [DecidableEq ι] in
/-- The thread goes on without a look at the counters. -/
theorem shut_thread {here pc : ThreadPc} {q : WaitQueue Unit} (h : Shut s) (at_ : s.thread = here)
    (running : here ≠ .exited) (before : here ≠ .decTodo) (after : pc ≠ .decTodo) :
    Shut { s with wq := q, thread := pc } := by
  have served := h.served
  rw [at_, if_neg before] at served
  refine ⟨h.N_th, ?_, fun past => absurd (at_.symm.trans (h.joined past)) running, h.idle⟩
  rw [if_neg after]
  exact served

omit [DecidableEq ι] in
theorem shut_exit {q : WaitQueue Unit} {stop : Bool} {exit : ExitPc} (h : Shut s)
    (joined : exit.pastJoin = true → s.thread = .exited)
    (idle : exit = .freed → ∀ i, (s.top i).inProgress = false) :
    Shut { s with wq := q, should_stop := stop, exit := exit } :=
  ⟨h.N_th, h.served, joined, idle⟩

omit [DecidableEq ι] in
theorem shut_incDone (h : Shut s) (here : s.thread = .incDone) :
    Shut { s with counters := s.counters.incDone, thread := .decTodo } := by
  have served := h.served
  rw [here, if_neg ThreadPc.noConfusion] at served
  refine ⟨h.N_th, ?_, fun past => ?_, h.idle⟩
  · rw [if_pos rfl]
    dsimp only [Counters.incDone, atomic_inc]
    grind
  · cases here.symm.trans (h.joined past)

omit [DecidableEq ι] in
theorem shut_decTodo {pc : ThreadPc} (h : Shut s) (here : s.thread = .decTodo)
    (after : pc ≠ .decTodo) :
    Shut { s with counters := s.counters.decTodo, thread := pc } := by
  have served := h.served
  rw [here, if_pos rfl] at served
  refine ⟨h.N_th, ?_, fun past => ?_, h.idle⟩
  · rw [if_neg after]
    dsimp only [Counters.decTodo, atomic_dec]
    grind
  · cases here.symm.trans (h.joined past)

theorem shut_step (h : Shut s) (enabled : Enabled s a) : Shut (next s a) := by
  cases a with
  | incN_th i => exact shut_incN_th h enabled
  | incTodo i => exact shut_incTodo h enabled
  | wake_up i => exact shut_wake_up h enabled
  | enqueue => exact shut_thread h enabled (by decide) (by decide) (by decide)
  | testCond =>
    dsimp only [next]
    split <;> exact shut_thread h enabled (by decide) (by decide) (by decide)
  | wakened => exact shut_thread h enabled.1 (by decide) (by decide) (by decide)
  | spurious => exact shut_exit h h.joined h.idle
  | signal => exact shut_thread h enabled (by decide) (by decide) (by decide)
  | testStop => exact shut_thread h enabled (by decide) (by decide) (by split <;> decide)
  | testTodo => exact shut_thread h enabled (by decide) (by decide) (by split <;> decide)
  | incDone => exact shut_incDone h enabled
  | decTodo => exact shut_decTodo h enabled (by split <;> decide)
  | loopTest => exact shut_thread h enabled (by decide) (by decide) (by split <;> decide)
  | kthread_stop => exact shut_exit h nofun nofun
  | join => exact shut_exit h (fun _ => enabled.2) nofun
  | synchronize_irq => exact shut_exit h (fun _ => h.joined (by rw [enabled.1]; rfl)) nofun
  | free_irq => exact shut_exit h (fun _ => h.joined (by rw [enabled.1]; rfl)) fun _ => enabled.2

theorem shut_run (h : Run machine init as s) : Shut s :=
  run_invariant shut_init (fun _ _ => shut_step) h

/-- A thread that has returned has left nothing. -/
def Drained (s : State ι) : Prop := s.thread = .exited → s.counters.todo = 0

theorem heeded {stop : Bool} {pc : ThreadPc} (on : pc ≠ .exited)
    (out : (if stop then .exited else pc) = ThreadPc.exited) : stop = true := by
  split at out
  next stopped => exact stopped
  next => exact absurd out on

omit [Fintype ι] in
theorem drained_step (h : Drained s) (ok : LeavesNothing s a) : Drained (next s a) := by
  cases a with
  | incN_th i => exact h
  | incTodo i => exact fun out => absurd out ok
  | wake_up i => exact h
  | enqueue => exact nofun
  | testCond =>
    dsimp only [next]
    split <;> exact nofun
  | wakened => exact nofun
  | spurious => exact h
  | signal => exact nofun
  | testStop => exact fun out => ok (heeded (by decide) out)
  | testTodo =>
    dsimp only [next, Drained]
    split <;> exact nofun
  | incDone => exact nofun
  | decTodo =>
    dsimp only [next, Drained]
    split <;> exact nofun
  | loopTest => exact fun out => ok (heeded (by decide) out)
  | kthread_stop => exact h
  | join => exact h
  | synchronize_irq => exact h
  | free_irq => exact h

omit [Fintype ι] in
theorem drained_run (h : Run machine init as s) (ok : Meets machine LeavesNothing init as) :
    Drained s :=
  run_invariant_of_meets (fun out => by cases out) (fun _ _ drained _ => drained_step drained) h ok

omit [DecidableEq ι] in
/-- When `Nirq_exit` has returned nobody counts any more. -/
theorem Shut.served_all (h : Shut s) (drained : Drained s) (returned : s.exit = .freed) :
    s.counters.todo = 0 ∧ s.counters.done = s.counters.N_th := by
  have out := h.joined (by rw [returned]; rfl)
  have todo := drained out
  have served := h.served
  rw [out, if_neg ThreadPc.noConfusion, todo, Int32.add_zero, Int32.add_zero,
    ← TopPc.pastFirst_eq_pastSecond (h.idle returned), ← h.N_th] at served
  exact ⟨todo, served⟩

/-- The thread has returned and something is left that nobody will serve. -/
def Lost (s : State ι) : Prop := s.thread = .exited ∧ 0 < s.counters.todo

omit [DecidableEq ι] [Fintype ι] in
theorem int32_pos {v : Int32} (nonneg : 0 ≤ v) (some : v ≠ 0) : 0 < v := by
  have apart : v.toInt ≠ 0 := fun zero => some (Int32.toInt_inj.mp zero)
  rw [Int32.le_iff_toInt_le, Int32.toInt_zero] at nonneg
  rw [Int32.lt_iff_toInt_lt, Int32.toInt_zero]
  omega

omit [DecidableEq ι] [Fintype ι] in
theorem atomic_inc_pos {v : Int32} (nonneg : 0 ≤ v) (after : 0 ≤ atomic_inc v) :
    0 < atomic_inc v := by
  refine int32_pos after fun zero => ?_
  have wrapped : v = -1 := by
    rw [atomic_inc] at zero
    grind
  rw [wrapped] at nonneg
  exact absurd nonneg (by decide)

omit [Fintype ι] in
theorem lost_step (h : Lost s) (enabled : Enabled s a) (after : 0 ≤ (next s a).counters.todo) :
    Lost (next s a) := by
  obtain ⟨out, left⟩ := h
  have elsewhere {pc : ThreadPc} (at_ : s.thread = pc) (other : pc ≠ .exited) : False :=
    other (at_.symm.trans out)
  cases a with
  | incN_th i => exact ⟨out, left⟩
  | incTodo i => exact ⟨out, atomic_inc_pos (Int32.le_of_lt left) after⟩
  | wake_up i => exact ⟨out, left⟩
  | enqueue => exact (elsewhere enabled (by decide)).elim
  | testCond => exact (elsewhere enabled (by decide)).elim
  | wakened => exact (elsewhere enabled.1 (by decide)).elim
  | spurious => exact ⟨out, left⟩
  | signal => exact (elsewhere enabled (by decide)).elim
  | testStop => exact (elsewhere enabled (by decide)).elim
  | testTodo => exact (elsewhere enabled (by decide)).elim
  | incDone => exact (elsewhere enabled (by decide)).elim
  | decTodo => exact (elsewhere enabled (by decide)).elim
  | loopTest => exact (elsewhere enabled (by decide)).elim
  | kthread_stop => exact ⟨out, left⟩
  | join => exact ⟨out, left⟩
  | synchronize_irq => exact ⟨out, left⟩
  | free_irq => exact ⟨out, left⟩

omit [Fintype ι] in
/-- A step that is not allowed loses something. -/
theorem lost_begin (before : 0 ≤ s.counters.todo) (bad : ¬ LeavesNothing s a)
    (after : 0 ≤ (next s a).counters.todo) : Lost (next s a) := by
  cases a with
  | testStop =>
    obtain ⟨stop, left⟩ := Classical.not_imp.mp bad
    exact ⟨if_pos stop, int32_pos before left⟩
  | loopTest =>
    obtain ⟨stop, left⟩ := Classical.not_imp.mp bad
    exact ⟨if_pos stop, int32_pos before left⟩
  | incTodo i => exact ⟨not_not.mp bad, atomic_inc_pos before after⟩
  | _ => exact absurd trivial bad

theorem meets_or_lost (few : Fintype.card ι < 2 ^ 31) (h : Run machine init as s) :
    Meets machine LeavesNothing init as ∨ Lost s := by
  have nonneg {bs : List (Act ι)} {t : State ι} (run : Run machine init bs t) :
      0 ≤ t.counters.todo := by
    obtain ⟨l, inv⟩ := inv_run few run
    exact inv.books.todo_nonneg
  induction h with
  | start => exact Or.inl meets_nil
  | @next as s a previous enabled ih =>
    have after := nonneg (Run.next previous enabled)
    rcases ih with meets | lost
    · by_cases ok : LeavesNothing s a
      · exact Or.inl (meets_concat meets previous ok)
      · exact Or.inr (lost_begin (nonneg previous) ok after)
    · exact Or.inr (lost_step lost enabled after)

/-- When `Nirq_exit` has returned, everything counted has been served if the stop flag was heeded
with nothing left to do and no interrupt came behind that; fewer than `2^31` interrupts are
served in no other run. A failed load leaves nothing unless it is `request_irq` that failed. -/
theorem shutdown_loses_nothing (h : Run machine init as s) (returned : s.exit = .freed) :
    (Meets machine LeavesNothing init as →
      s.counters.todo = 0 ∧ s.counters.done = s.counters.N_th) ∧
    (Fintype.card ι < 2 ^ 31 → s.counters.todo = 0 → Meets machine LeavesNothing init as) ∧
    ∀ (kthread_run : Created) (request_irq : Int32), kthread_run ≠ .null →
      ((Nirq_init kthread_run request_irq).Clean ↔ ¬ (kthread_run = .task ∧ request_irq ≠ 0)) := by
  refine ⟨fun ok => (shut_run h).served_all (drained_run h ok) returned, fun few rest => ?_,
    fun _ request_irq created => Nirq_init_clean_iff created request_irq⟩
  refine (meets_or_lost few h).resolve_right fun lost => ?_
  have left := lost.2
  rw [rest] at left
  exact absurd left (by decide)

/-- The stop flag is set when the thread has served its interrupt. -/
theorem shutdown_loses_nothing_served :
    let as : List (Act (Fin 1)) := [.enqueue, .testCond, .incN_th 0, .incTodo 0, .wake_up 0,
      .wakened, .enqueue, .testCond, .testStop, .testTodo, .incDone, .decTodo, .kthread_stop,
      .loopTest, .join, .synchronize_irq, .free_irq]
    (machine.replay init as).counters.todo = 0 ∧
      (machine.replay init as).counters.done = (machine.replay init as).counters.N_th := by
  intro as
  have run : Run machine init as (machine.replay init as) := run_of_admits (by decide)
  exact (shutdown_loses_nothing run (by decide)).1 (meets_of_replay (by decide))

/-- The flag wakes the thread together with an interrupt, which is not served; and a load whose
`request_irq` fails leaves the thread running. -/
theorem shutdown_loses_interrupt :
    let as : List (Act (Fin 1)) := [.enqueue, .testCond, .incN_th 0, .incTodo 0, .wake_up 0,
      .kthread_stop, .wakened, .enqueue, .testCond, .testStop, .join, .synchronize_irq, .free_irq]
    (∃ s, Run machine init as s ∧ s.exit = .freed ∧ s.counters.todo = 1 ∧ s.counters.done = 0 ∧
      s.counters.N_th = 1) ∧
    (Nirq_init .task (-16)).rval = -1 ∧ (Nirq_init .task (-16)).running = true := by
  intro as
  have run : Run machine init as (machine.replay init as) := run_of_admits (by decide)
  exact ⟨⟨_, run, by decide, by decide, by decide, by decide⟩, by decide, by decide⟩

end

end DeviceDriverEx.KthreadSmart
