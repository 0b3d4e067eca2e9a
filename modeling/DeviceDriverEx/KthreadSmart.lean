import DeviceDriverEx.Machine
import DeviceDriverEx.TopHalf
import DeviceDriverEx.WaitQueue

namespace DeviceDriverEx.KthreadSmart

/-- What `isr_bottom` executes next. The first three are the loop of `wait_event_interruptible`. -/
inductive ThreadPc
  | enqueue
  | testCond
  | sleep
  | testStop
  | testTodo
  | incDone
  | decTodo
  | loopTest
  | exited
  deriving DecidableEq

/-- How far `Nirq_exit` has come. -/
inductive ExitPc
  | loaded
  | stopping
  | joined
  | synced
  | freed
  deriving DecidableEq

structure State (ι : Type) where
  counters : Counters
  top : ι → TopPc
  wq : WaitQueue Unit
  thread : ThreadPc
  should_stop : Bool
  exit : ExitPc

inductive Act (ι : Type)
  | incN_th (i : ι)
  | incTodo (i : ι)
  | wake_up (i : ι)
  | enqueue
  | testCond
  | wakened
  | spurious
  | signal
  | testStop
  | testTodo
  | incDone
  | decTodo
  | loopTest
  | kthread_stop
  | join
  | synchronize_irq
  | free_irq

def Act.isIncTodo {ι : Type} : Act ι → Bool
  | incTodo _ => true
  | _ => false

def init {ι : Type} : State ι :=
  ⟨Counters.init, fun _ => .first, WaitQueue.empty, .enqueue, false, .loaded⟩

section
variable {ι : Type} [DecidableEq ι] [Fintype ι]

def Enabled (s : State ι) : Act ι → Prop
  | .incN_th i => s.top i = .first ∧ s.exit ≠ .freed
  | .incTodo i => s.top i = .second
  | .wake_up i => s.top i = .third
  | .enqueue => s.thread = .enqueue
  | .testCond => s.thread = .testCond
  | .wakened => s.thread = .sleep ∧ s.wq.state () = .running
  | .spurious => True
  -- the comment in the source: the wait may also be ended by a signal
  | .signal => s.thread = .sleep
  | .testStop => s.thread = .testStop
  | .testTodo => s.thread = .testTodo
  | .incDone => s.thread = .incDone
  | .decTodo => s.thread = .decTodo
  | .loopTest => s.thread = .loopTest
  | .kthread_stop => s.exit = .loaded
  | .join => s.exit = .stopping ∧ s.thread = .exited
  | .synchronize_irq => s.exit = .joined ∧ ∀ i, (s.top i).inProgress = false
  | .free_irq => s.exit = .synced ∧ ∀ i, (s.top i).inProgress = false

instance (s : State ι) (a : Act ι) : Decidable (Enabled s a) := by
  cases a <;> dsimp only [Enabled] <;> infer_instance

/-- `isr_top`, the thread's `isr_bottom` and `Nirq_exit`, one atomic step at a time. -/
def next (s : State ι) : Act ι → State ι
  | .incN_th i => { s with counters := s.counters.incN_th, top := Function.update s.top i .second }
  | .incTodo i => { s with counters := s.counters.incTodo, top := Function.update s.top i .third }
  | .wake_up i => { s with
      wq := s.wq.wake maskInterruptible 1
      top := Function.update s.top i .returned }
  | .enqueue => { s with wq := s.wq.prepare () false .interruptible, thread := .testCond }
  | .testCond =>
    if s.counters.todo ≠ 0 ∨ s.should_stop = true then
      { s with wq := s.wq.finish (), thread := .testStop }
    else { s with thread := .sleep }
  | .wakened => { s with thread := .enqueue }
  | .spurious => { s with wq := s.wq.rouse () }
  | .signal => { s with wq := s.wq.finish (), thread := .testStop }
  | .testStop => { s with thread := if s.should_stop then .exited else .testTodo }
  | .testTodo => { s with thread := if s.counters.todo ≤ 0 then .loopTest else .incDone }
  | .incDone => { s with counters := s.counters.incDone, thread := .decTodo }
  | .decTodo => { s with
      counters := s.counters.decTodo
      thread := if atomic_dec_and_test s.counters.todo then .loopTest else .incDone }
  | .loopTest => { s with thread := if s.should_stop then .exited else .enqueue }
  | .kthread_stop => { s with should_stop := true, wq := s.wq.rouse (), exit := .stopping }
  | .join => { s with exit := .joined }
  | .synchronize_irq => { s with exit := .synced }
  | .free_irq => { s with exit := .freed }

def machine : Machine (State ι) (Act ι) := ⟨Enabled, next⟩

instance (s : State ι) (a : Act ι) : Decidable (machine.Enabled s a) :=
  inferInstanceAs (Decidable (Enabled s a))

/-- A sleeping thread that nobody has woken. -/
def Asleep (s : State ι) : Prop := s.thread = .sleep ∧ s.wq.state () ≠ .running

structure Inv (as : List (Act ι)) (s : State ι) (l : Ledger) : Prop where
  books : Books TopPc.pastSecond TopPc.pastFirst s.counters s.top l
  counted : l.raised = as.countP Act.isIncTodo
  midway : l.midway = decide (s.thread = .decTodo)
  pending : s.thread = .incDone → 0 < l.todo
  shared : s.wq.Shared
  covered : s.wq.state () ≠ .running → maskInterruptible (s.wq.state ()) = true
  roused : Asleep s → 0 < l.todo → ∃ i, s.top i = .third

omit [DecidableEq ι] in
theorem inv_init : Inv ([] : List (Act ι)) init Ledger.empty := by
  refine ⟨books_init rfl rfl, rfl, rfl, ?_, WaitQueue.shared_empty, ?_, ?_⟩
  · intro h; cases h
  · intro h; exact absurd rfl h
  · intro h; cases h.1

theorem inv_top (few : Fintype.card ι < 2 ^ 31) {as : List (Act ι)} {s : State ι} {l : Ledger}
    {a : Act ι} {i : ι} (h : Inv as s l) (enabled : Enabled s a)
    (handler : a = .incN_th i ∨ a = .incTodo i ∨ a = .wake_up i) :
    ∃ l', Inv (as ++ [a]) (next s a) l' := by
  rcases handler with rfl | rfl | rfl
  · have hi : s.top i = .first := enabled.1
    refine ⟨l, ?_, ?_, h.midway, h.pending, h.shared, h.covered, fun asleep hl => ?_⟩
    · exact books_incN_th few h.books (by rw [hi]; rfl) rfl (by rw [hi]; rfl)
    · rw [count_other rfl, ← h.counted]
    · obtain ⟨j, hj⟩ := h.roused asleep hl
      have hne : j ≠ i := by
        rintro rfl
        rw [hi] at hj
        cases hj
      exact ⟨j, by simpa [next, hne] using hj⟩
  · have hi : s.top i = .second := enabled
    refine ⟨l.raise, ?_, ?_, h.midway, fun _ => Nat.succ_pos _, h.shared, h.covered, ?_⟩
    · exact books_incTodo few h.books (by rw [hi]; rfl) rfl (by rw [hi]; rfl)
    · rw [count_one rfl, ← h.counted]; rfl
    · intro _ _
      exact ⟨i, by simp [next]⟩
  · have hi : s.top i = .third := enabled
    have running : (s.wq.wake maskInterruptible 1).state () = .running :=
      WaitQueue.wake_running h.shared h.covered 1
    refine ⟨l, ?_, ?_, h.midway, h.pending, WaitQueue.shared_wake h.shared _ _, ?_, ?_⟩
    · exact books_move h.books (by rw [hi]; rfl) (by rw [hi]; rfl)
    · rw [count_other rfl, ← h.counted]
    · intro awake; exact absurd running awake
    · intro asleep; exact absurd running asleep.2

omit [DecidableEq ι] in
/-- The steps that leave the counters and the handlers alone. -/
theorem inv_moved {as : List (Act ι)} {s : State ι} {l : Ledger} {a : Act ι} {pc : ThreadPc}
    {q : WaitQueue Unit} {stop : Bool} {exit : ExitPc} (h : Inv as s l) (ha : a.isIncTodo = false)
    (shared : q.Shared) (covered : q.state () ≠ .running → maskInterruptible (q.state ()) = true)
    (midway : l.midway = decide (pc = .decTodo)) (pending : pc = .incDone → 0 < l.todo)
    (roused : pc = .sleep → q.state () ≠ .running → 0 < l.todo → ∃ i, s.top i = .third) :
    ∃ l', Inv (as ++ [a])
      { s with wq := q, thread := pc, should_stop := stop, exit := exit } l' := by
  refine ⟨l, h.books, ?_, midway, pending, shared, covered, fun asleep => roused asleep.1 asleep.2⟩
  rw [count_other ha, ← h.counted]

theorem inv_wait {as : List (Act ι)} {s : State ι} {l : Ledger} {a : Act ι} (h : Inv as s l)
    (enabled : Enabled s a)
    (wait : a = .enqueue ∨ a = .testCond ∨ a = .wakened ∨ a = .spurious ∨ a = .signal) :
    ∃ l', Inv (as ++ [a]) (next s a) l' := by
  have finished := WaitQueue.shared_finish h.shared ()
  rcases wait with rfl | rfl | rfl | rfl | rfl
  · have hm := h.midway
    rw [show s.thread = .enqueue from enabled] at hm
    exact inv_moved h rfl (WaitQueue.shared_prepare h.shared () _) (fun _ => rfl) hm
      (by intro hp; cases hp) (by intro hp; cases hp)
  · have hm := h.midway
    rw [show s.thread = .testCond from enabled] at hm
    by_cases hc : s.counters.todo ≠ 0 ∨ s.should_stop = true
    · rw [show next s .testCond = { s with wq := s.wq.finish (), thread := .testStop } from if_pos hc]
      exact inv_moved h rfl finished (fun awake => absurd rfl awake) hm (by intro hp; cases hp)
        (by intro hp; cases hp)
    · rw [show next s .testCond = { s with thread := .sleep } from if_neg hc]
      -- the test failed, so there is nothing for this sleep to miss
      have hz : s.counters.todo = 0 := not_not.mp fun hne => hc (Or.inl hne)
      have hl := h.books.tracks.todo_zero.mp hz
      exact inv_moved h rfl h.shared h.covered hm (by intro hp; cases hp) (fun _ _ hpos => by omega)
  · have hm := h.midway
    rw [show s.thread = .sleep from enabled.1] at hm
    exact inv_moved h rfl h.shared h.covered hm (by intro hp; cases hp) (by intro hp; cases hp)
  · exact inv_moved h rfl h.shared (fun awake => absurd rfl awake) h.midway h.pending
      (fun _ awake => absurd rfl awake)
  · have hm := h.midway
    rw [show s.thread = .sleep from enabled] at hm
    exact inv_moved h rfl finished (fun awake => absurd rfl awake) hm (by intro hp; cases hp)
      (by intro hp; cases hp)

theorem inv_drain {as : List (Act ι)} {s : State ι} {l : Ledger} {a : Act ι} (h : Inv as s l)
    (enabled : Enabled s a)
    (drain : a = .testStop ∨ a = .testTodo ∨ a = .incDone ∨ a = .decTodo ∨ a = .loopTest) :
    ∃ l', Inv (as ++ [a]) (next s a) l' := by
  have still : a.isIncTodo = false → l.raised = (as ++ [a]).countP Act.isIncTodo := by
    intro ha
    rw [count_other ha, ← h.counted]
  rcases drain with rfl | rfl | rfl | rfl | rfl
  · have hm := h.midway
    rw [show s.thread = .testStop from enabled] at hm
    by_cases hs : s.should_stop = true
    · rw [show next s .testStop = { s with thread := .exited } by simp [next, hs]]
      exact inv_moved h rfl h.shared h.covered hm (by intro hp; cases hp) (by intro hp; cases hp)
    · rw [show next s .testStop = { s with thread := .testTodo } by simp [next, hs]]
      exact inv_moved h rfl h.shared h.covered hm (by intro hp; cases hp) (by intro hp; cases hp)
  · have hm := h.midway
    rw [show s.thread = .testTodo from enabled] at hm
    by_cases hz : s.counters.todo ≤ 0
    · rw [show next s .testTodo = { s with thread := .loopTest } by simp [next, hz]]
      exact inv_moved h rfl h.shared h.covered hm (by intro hp; cases hp) (by intro hp; cases hp)
    · rw [show next s .testTodo = { s with thread := .incDone } by simp [next, hz]]
      have hl : l.todo ≠ 0 := fun he => hz (h.books.tracks.todo_nonpos.mpr he)
      exact inv_moved h rfl h.shared h.covered hm (fun _ => by omega) (by intro hp; cases hp)
  · have hb : s.thread = .incDone := enabled
    have hm : l.midway = false := by rw [h.midway, hb]; rfl
    exact ⟨l.serve (h.pending hb) hm, books_serve h.books (h.pending hb) hm, still rfl, rfl,
      (by intro hp; cases hp), h.shared, h.covered, fun asleep => by cases asleep.1⟩
  · have hb : s.thread = .decTodo := enabled
    have hm : l.midway = true := by rw [h.midway, hb]; rfl
    have hlast := h.books.tracks.dec_and_test hm
    by_cases hz : atomic_dec_and_test s.counters.todo = true
    · rw [show next s .decTodo = { s with counters := s.counters.decTodo, thread := .loopTest } by
        simp [next, hz]]
      exact ⟨l.settle hm, books_settle h.books hm, still rfl, rfl, (by intro hp; cases hp),
        h.shared, h.covered, fun asleep => by cases asleep.1⟩
    · rw [show next s .decTodo = { s with counters := s.counters.decTodo, thread := .incDone } by
        simp [next, hz]]
      have hl : (l.settle hm).todo ≠ 0 := fun he => hz (hlast.mpr he)
      exact ⟨l.settle hm, books_settle h.books hm, still rfl, rfl, fun _ => by omega,
        h.shared, h.covered, fun asleep => by cases asleep.1⟩
  · have hm := h.midway
    rw [show s.thread = .loopTest from enabled] at hm
    by_cases hs : s.should_stop = true
    · rw [show next s .loopTest = { s with thread := .exited } by simp [next, hs]]
      exact inv_moved h rfl h.shared h.covered hm (by intro hp; cases hp) (by intro hp; cases hp)
    · rw [show next s .loopTest = { s with thread := .enqueue } by simp [next, hs]]
      exact inv_moved h rfl h.shared h.covered hm (by intro hp; cases hp) (by intro hp; cases hp)

theorem inv_run (few : Fintype.card ι < 2 ^ 31) {as : List (Act ι)} {s : State ι}
    (h : Run machine init as s) : ∃ l, Inv as s l := by
  induction h with
  | start => exact ⟨_, inv_init⟩
  | @next as s a _ enabled ih =>
    obtain ⟨l, hl⟩ := ih
    have roused := fun h1 h2 => hl.roused ⟨h1, h2⟩
    cases a with
    | incN_th i => exact inv_top few hl enabled (Or.inl rfl)
    | incTodo i => exact inv_top few hl enabled (Or.inr (Or.inl rfl))
    | wake_up i => exact inv_top few hl enabled (Or.inr (Or.inr rfl))
    | enqueue => exact inv_wait hl enabled (by simp)
    | testCond => exact inv_wait hl enabled (by simp)
    | wakened => exact inv_wait hl enabled (by simp)
    | spurious => exact inv_wait hl enabled (by simp)
    | signal => exact inv_wait hl enabled (by simp)
    | testStop => exact inv_drain hl enabled (by simp)
    | testTodo => exact inv_drain hl enabled (by simp)
    | incDone => exact inv_drain hl enabled (by simp)
    | decTodo => exact inv_drain hl enabled (by simp)
    | loopTest => exact inv_drain hl enabled (by simp)
    | kthread_stop =>
      exact inv_moved hl rfl hl.shared (fun awake => absurd rfl awake) hl.midway hl.pending
        (fun _ awake => absurd rfl awake)
    | join => exact inv_moved hl rfl hl.shared hl.covered hl.midway hl.pending roused
    | synchronize_irq => exact inv_moved hl rfl hl.shared hl.covered hl.midway hl.pending roused
    | free_irq => exact inv_moved hl rfl hl.shared hl.covered hl.midway hl.pending roused

/-- In every reachable state, and so before `kthread_stop`, with handlers, spurious wake-ups and
signals falling anywhere between the thread's steps: the counters add up, and a sleep that nobody
has ended has nothing to wait for. -/
theorem no_interrupt_lost_while_loaded (few : Fintype.card ι < 2 ^ 31) {as : List (Act ι)}
    {s : State ι} (h : Run machine init as s) :
    0 ≤ s.counters.todo ∧
    s.counters.done ≤ s.counters.N_th ∧
    s.counters.done.toInt + s.counters.todo.toInt =
      as.countP Act.isIncTodo + (if s.thread = .decTodo then 1 else 0) ∧
    (Asleep s → (∀ i, s.top i ≠ .third) →
      s.counters.todo = 0 ∧
      ((∀ i, (s.top i).inProgress = false) → s.counters.done = s.counters.N_th)) := by
  obtain ⟨l, inv⟩ := inv_run few h
  refine ⟨inv.books.todo_nonneg, ?_, ?_, ?_⟩
  · have hd := inv.books.tracks.done
    have hs := l.served_le
    have hle := TopPc.pastSecond_le_pastFirst s.top
    rw [Int32.le_iff_toInt_le, hd, inv.books.N_th]
    rw [inv.books.raised] at hs
    omega
  · rw [← inv.counted]
    exact inv.books.balance inv.midway
  · intro asleep between
    have rest : l.todo = 0 := by
      by_contra hne
      obtain ⟨i, hi⟩ := inv.roused asleep (by omega)
      exact between i hi
    refine ⟨inv.books.tracks.todo_zero.mpr rest, fun idle => ?_⟩
    have hm : l.midway = false := by rw [inv.midway, asleep.1]; rfl
    exact (inv.books.at_rest hm rest (TopPc.pastFirst_eq_pastSecond idle).symm).2

/-- The interrupt lands between the thread's test and its sleep, and a spurious wake-up and a
second interrupt follow; the thread is back asleep with everything served. -/
theorem no_interrupt_lost_while_loaded_race :
    let as : List (Act (Fin 2)) := [.enqueue, .testCond, .incN_th 0, .incTodo 0, .wake_up 0,
      .wakened, .enqueue, .testCond, .testStop, .testTodo, .incDone, .incN_th 1, .incTodo 1,
      .decTodo, .incDone, .decTodo, .wake_up 1, .loopTest, .enqueue, .testCond, .spurious,
      .wakened, .enqueue, .testCond]
    (machine.replay init as).counters.todo = 0 ∧
      (machine.replay init as).counters.done = (machine.replay init as).counters.N_th := by
  intro as
  have run : Run machine init as (machine.replay init as) := run_of_admits (by decide)
  obtain ⟨todo, rest⟩ := (no_interrupt_lost_while_loaded (by decide) run).2.2.2
    ⟨by decide, by decide⟩ (by decide)
  exact ⟨todo, rest (by decide)⟩

end

end DeviceDriverEx.KthreadSmart
