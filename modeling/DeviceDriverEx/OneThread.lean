import DeviceDriverEx.KthreadSmart

namespace DeviceDriverEx.OneThread

open KthreadSmart (ExitPc)

/-- What `my_interrupt` executes next. -/
inductive HandlerPc
  | incNevents
  | incCounter_th
  | setCond
  | wakeUp
  | returned
  deriving DecidableEq

/-- Counted in `nevents`, and `cond` still to be set for it. -/
def HandlerPc.announcing : HandlerPc → Bool
  | incCounter_th => true
  | setCond => true
  | _ => false

/-- The steps that count, among the three of a top half. -/
def HandlerPc.top : HandlerPc → TopPc
  | incNevents => .first
  | incCounter_th => .second
  | setCond => .third
  | wakeUp => .third
  | returned => .returned

/-- What `thr_fun` executes next. The first is the head of its `do` loop, the next three are the loop
of `wait_event_interruptible`. -/
inductive ThreadPc
  | clearCond
  | enqueue
  | testCond
  | sleep
  | testStop
  | testNevents
  | incCounter_bh
  | decNevents
  | incCatchup
  | loopTest
  | exited
  deriving DecidableEq

/-- Past the wait and not yet through with the events. -/
def ThreadPc.attending : ThreadPc → Bool
  | testStop => true
  | testNevents => true
  | incCounter_bh => true
  | decNevents => true
  | incCatchup => true
  | _ => false

/-- Inside the `for` loop, so that there is an event to take. -/
def ThreadPc.draining : ThreadPc → Bool
  | incCounter_bh => true
  | decNevents => true
  | incCatchup => true
  | _ => false

/-- `counters` holds `counter_th`, `nevents` (as `todo`) and `counter_bh` (as `done`). -/
structure State (ι : Type) where
  counters : Counters
  catchup : Int32
  cond : Int32
  handler : ι → HandlerPc
  wq : WaitQueue Unit
  thread : ThreadPc
  should_stop : Bool
  exit : ExitPc

inductive Act (ι : Type)
  | incNevents (i : ι)
  | incCounter_th (i : ι)
  | setCond (i : ι)
  | wake_up (i : ι)
  | clearCond
  | enqueue
  | testCond
  | wakened
  | spurious
  | signal
  | testStop
  | testNevents
  | incCounter_bh
  | decNevents
  | incCatchup
  | loopTest
  | kthread_stop
  | join
  | synchronize_irq
  | free_irq

def Act.isIncNevents {ι : Type} : Act ι → Bool
  | incNevents _ => true
  | _ => false

/-- As `my_init` leaves it, `cond` set. -/
def init {ι : Type} : State ι :=
  ⟨Counters.init, 0, 1, fun _ => .incNevents, WaitQueue.empty, .clearCond, false, .loaded⟩

section
variable {ι : Type} [DecidableEq ι] [Fintype ι]

def State.top (s : State ι) (i : ι) : TopPc := (s.handler i).top

def Enabled (s : State ι) : Act ι → Prop
  | .incNevents i => s.handler i = .incNevents ∧ s.exit ≠ .freed
  | .incCounter_th i => s.handler i = .incCounter_th
  | .setCond i => s.handler i = .setCond
  | .wake_up i => s.handler i = .wakeUp
  | .clearCond => s.thread = .clearCond
  | .enqueue => s.thread = .enqueue
  | .testCond => s.thread = .testCond
  | .wakened => s.thread = .sleep ∧ s.wq.state () = .running
  | .spurious => True
  -- the comment in the source: the wait may also be ended by a signal
  | .signal => s.thread = .sleep
  | .testStop => s.thread = .testStop
  | .testNevents => s.thread = .testNevents
  | .incCounter_bh => s.thread = .incCounter_bh
  | .decNevents => s.thread = .decNevents
  | .incCatchup => s.thread = .incCatchup
  | .loopTest => s.thread = .loopTest
  | .kthread_stop => s.exit = .loaded
  | .join => s.exit = .stopping ∧ s.thread = .exited
  | .synchronize_irq => s.exit = .joined ∧ ∀ i, (s.top i).inProgress = false
  | .free_irq => s.exit = .synced ∧ ∀ i, (s.top i).inProgress = false

instance (s : State ι) (a : Act ι) : Decidable (Enabled s a) := by
  cases a <;> dsimp only [Enabled] <;> infer_instance

def State.handle (s : State ι) (i : ι) (k : HandlerPc) : State ι :=
  { s with handler := Function.update s.handler i k }

/-- `my_interrupt`, the thread's `thr_fun` and `my_exit`, one atomic step at a time. -/
def next (s : State ι) : Act ι → State ι
  | .incNevents i => { s.handle i .incCounter_th with counters := s.counters.incTodo }
  | .incCounter_th i => { s.handle i .setCond with counters := s.counters.incN_th }
  | .setCond i => { s.handle i .wakeUp with cond := 1 }
  | .wake_up i => { s.handle i .returned with wq := s.wq.wake maskInterruptible 1 }
  | .clearCond => { s with cond := 0, thread := .enqueue }
  | .enqueue => { s with wq := s.wq.prepare () false .interruptible, thread := .testCond }
  | .testCond =>
    if s.should_stop = true ∨ s.cond ≠ 0 then
      { s with wq := s.wq.finish (), thread := .testStop }
    else { s with thread := .sleep }
  | .wakened => { s with thread := .enqueue }
  | .spurious => { s with wq := s.wq.rouse () }
  | .signal => { s with wq := s.wq.finish (), thread := .testStop }
  | .testStop => { s with thread := if s.should_stop then .exited else .testNevents }
  | .testNevents => { s with thread := if s.counters.todo ≤ 0 then .loopTest else .incCounter_bh }
  | .incCounter_bh => { s with counters := s.counters.incDone, thread := .decNevents }
  | .decNevents => { s with
      counters := s.counters.decTodo
      thread := if atomic_dec_and_test s.counters.todo then .loopTest else .incCatchup }
  | .incCatchup => { s with catchup := atomic_inc s.catchup, thread := .incCounter_bh }
  | .loopTest => { s with thread := if s.should_stop then .exited else .clearCond }
  | .kthread_stop => { s with should_stop := true, wq := s.wq.rouse (), exit := .stopping }
  | .join => { s with exit := .joined }
  | .synchronize_irq => { s with exit := .synced }
  | .free_irq => { s with exit := .freed }

def machine : Machine (State ι) (Act ι) := ⟨Enabled, next⟩

instance (s : State ι) (a : Act ι) : Decidable (machine.Enabled s a) :=
  inferInstanceAs (Decidable (Enabled s a))

/-- A sleeping thread that nobody has woken. -/
def Asleep (s : State ι) : Prop := s.thread = .sleep ∧ s.wq.state () ≠ .running

/-- While events are left, `cond` says so, or a handler is about to set it, or the thread has
noticed; it may also be gone. -/
def Announced (s : State ι) : Prop :=
  s.counters.todo ≠ 0 → s.cond ≠ 0 ∨ (∃ i, (s.handler i).announcing = true) ∨
    s.thread.attending = true ∨ s.thread = .exited

/-- The thread puts `cond` back to 0 before it waits only if no event is left, or if some handler
has still to set it. -/
def ClearsInTime (s : State ι) : Act ι → Prop
  | .clearCond => s.counters.todo ≠ 0 → ∃ i, (s.handler i).announcing = true
  | _ => True

/-- The counters and their ledger. -/
structure Booked (as : List (Act ι)) (s : State ι) (l : Ledger) : Prop where
  books : Books TopPc.pastFirst TopPc.pastSecond s.counters s.top l
  counted : l.raised = as.countP Act.isIncNevents
  midway : l.midway = decide (s.thread = .decNevents)
  pending : s.thread.draining = true → 0 < l.todo

/-- Who waits on `wq`, and who is about to wake him. -/
structure Waits (s : State ι) : Prop where
  uniform : s.wq.Uniform .interruptible
  roused : Asleep s → s.cond ≠ 0 → ∃ i, s.handler i = .wakeUp

variable {as : List (Act ι)} {s t : State ι} {l : Ledger} {a : Act ι} {i : ι}

omit [Fintype ι] in
theorem handle_top (s : State ι) (i : ι) (k : HandlerPc) :
    (s.handle i k).top = Function.update s.top i k.top := by
  funext j
  exact Function.apply_update (fun _ => HandlerPc.top) s.handler i k j

omit [DecidableEq ι] in
theorem booked_init : Booked ([] : List (Act ι)) init Ledger.empty :=
  ⟨books_init rfl rfl, rfl, rfl, nofun⟩

omit [DecidableEq ι] in
/-- A step that neither counts nor enters or leaves the `for` loop. -/
theorem booked_moved (h : Booked as s l) (ha : a.isIncNevents = false)
    (counters : t.counters = s.counters) (top : t.top = s.top)
    (outside : s.thread.draining = false ∧ t.thread.draining = false ∨ t.thread = s.thread) :
    ∃ l', Booked (as ++ [a]) t l' := by
  have midway : l.midway = decide (t.thread = .decNevents) := by
    rw [h.midway]
    rcases outside with ⟨before, after⟩ | same
    · cases hs : s.thread <;> cases ht : t.thread <;> simp_all [ThreadPc.draining]
    · rw [same]
  refine ⟨l, ?_, ?_, midway, fun draining => ?_⟩
  · rw [counters, top]
    exact h.books
  · rw [count_other ha, ← h.counted]
  · rcases outside with ⟨_, after⟩ | same
    · rw [after] at draining
      cases draining
    · exact h.pending (same ▸ draining)

theorem booked_handler (few : Fintype.card ι < 2 ^ 31) (h : Booked as s l) (enabled : Enabled s a)
    (handler : a = .incNevents i ∨ a = .incCounter_th i ∨ a = .setCond i ∨ a = .wake_up i) :
    ∃ l', Booked (as ++ [a]) (next s a) l' := by
  rcases handler with rfl | rfl | rfl | rfl
  · have hi : s.top i = .first := congrArg HandlerPc.top enabled.1
    refine ⟨l.raise, ?_, ?_, h.midway, fun _ => Nat.succ_pos _⟩
    · rw [show (next s (.incNevents i)).top = _ from handle_top s i .incCounter_th]
      exact books_incTodo few h.books (by rw [hi]; rfl) rfl (by rw [hi]; rfl)
    · rw [count_one rfl, ← h.counted]; rfl
  · have hi : s.top i = .second := congrArg HandlerPc.top enabled
    refine ⟨l, ?_, ?_, h.midway, h.pending⟩
    · rw [show (next s (.incCounter_th i)).top = _ from handle_top s i .setCond]
      exact books_incN_th few h.books (by rw [hi]; rfl) rfl (by rw [hi]; rfl)
    · rw [count_other rfl, ← h.counted]
  · have hi : s.top i = .third := congrArg HandlerPc.top enabled
    refine booked_moved h rfl rfl ?_ (Or.inr rfl)
    rw [show (next s (.setCond i)).top = _ from handle_top s i .wakeUp,
      show HandlerPc.wakeUp.top = s.top i from hi.symm, Function.update_eq_self]
  · have hi : s.top i = .third := congrArg HandlerPc.top enabled
    refine ⟨l, ?_, ?_, h.midway, h.pending⟩
    · rw [show (next s (.wake_up i)).top = _ from handle_top s i .returned]
      exact books_move h.books (by rw [hi]; rfl) (by rw [hi]; rfl)
    · rw [count_other rfl, ← h.counted]

/-- The `for` loop: an event is first counted as served and then taken off `nevents`. -/
theorem booked_drain (h : Booked as s l) (enabled : Enabled s a)
    (drain : a = .testNevents ∨ a = .incCounter_bh ∨ a = .decNevents ∨ a = .incCatchup) :
    ∃ l', Booked (as ++ [a]) (next s a) l' := by
  have still : a.isIncNevents = false → l.raised = (as ++ [a]).countP Act.isIncNevents := by
    intro ha
    rw [count_other ha, ← h.counted]
  have midway := h.midway
  have pending := h.pending
  rcases drain with rfl | rfl | rfl | rfl
  · rw [show s.thread = .testNevents from enabled] at midway
    refine ⟨l, h.books, still rfl, ?_, ?_⟩ <;> simp only [next] <;> split_ifs with none
    · exact midway
    · exact midway
    · exact nofun
    · have left : l.todo ≠ 0 := fun he => none (h.books.tracks.todo_nonpos.mpr he)
      exact fun _ => by omega
  · rw [show s.thread = .incCounter_bh from enabled] at midway pending
    exact ⟨l.serve (pending rfl) midway, books_serve h.books (pending rfl) midway, still rfl, rfl,
      fun _ => pending rfl⟩
  · rw [show s.thread = .decNevents from enabled] at midway
    have last := h.books.tracks.dec_and_test midway
    refine ⟨l.settle midway, books_settle h.books midway, still rfl, ?_, ?_⟩ <;>
      simp only [next] <;> split_ifs with done
    · rfl
    · rfl
    · exact nofun
    · have left : (l.settle midway).todo ≠ 0 := fun he => done (last.mpr he)
      exact fun _ => by omega
  · rw [show s.thread = .incCatchup from enabled] at midway pending
    exact ⟨l, h.books, still rfl, midway, fun _ => pending rfl⟩

theorem booked_next (few : Fintype.card ι < 2 ^ 31) (h : Booked as s l) (enabled : Enabled s a) :
    ∃ l', Booked (as ++ [a]) (next s a) l' := by
  have outside : ∀ {pc pc' : ThreadPc}, s.thread = pc → pc.draining = false →
      pc'.draining = false → s.thread.draining = false ∧ pc'.draining = false := by
    rintro pc pc' rfl before after
    exact ⟨before, after⟩
  cases a with
  | incNevents i => exact booked_handler few h enabled (Or.inl rfl)
  | incCounter_th i => exact booked_handler few h enabled (Or.inr (Or.inl rfl))
  | setCond i => exact booked_handler few h enabled (Or.inr (Or.inr (Or.inl rfl)))
  | wake_up i => exact booked_handler few h enabled (Or.inr (Or.inr (Or.inr rfl)))
  | clearCond => exact booked_moved h rfl rfl rfl (Or.inl (outside enabled rfl rfl))
  | enqueue => exact booked_moved h rfl rfl rfl (Or.inl (outside enabled rfl rfl))
  | testCond =>
    simp only [next]
    split_ifs
    · exact booked_moved h rfl rfl rfl (Or.inl (outside enabled rfl rfl))
    · exact booked_moved h rfl rfl rfl (Or.inl (outside enabled rfl rfl))
  | wakened => exact booked_moved h rfl rfl rfl (Or.inl (outside enabled.1 rfl rfl))
  | spurious => exact booked_moved h rfl rfl rfl (Or.inr rfl)
  | signal => exact booked_moved h rfl rfl rfl (Or.inl (outside enabled rfl rfl))
  | testStop =>
    refine booked_moved h rfl rfl rfl (Or.inl (outside enabled rfl ?_))
    simp only [next]
    split_ifs <;> rfl
  | testNevents => exact booked_drain h enabled (Or.inl rfl)
  | incCounter_bh => exact booked_drain h enabled (Or.inr (Or.inl rfl))
  | decNevents => exact booked_drain h enabled (Or.inr (Or.inr (Or.inl rfl)))
  | incCatchup => exact booked_drain h enabled (Or.inr (Or.inr (Or.inr rfl)))
  | loopTest =>
    refine booked_moved h rfl rfl rfl (Or.inl (outside enabled rfl ?_))
    simp only [next]
    split_ifs <;> rfl
  | kthread_stop => exact booked_moved h rfl rfl rfl (Or.inr rfl)
  | join => exact booked_moved h rfl rfl rfl (Or.inr rfl)
  | synchronize_irq => exact booked_moved h rfl rfl rfl (Or.inr rfl)
  | free_irq => exact booked_moved h rfl rfl rfl (Or.inr rfl)

omit [Fintype ι] in
theorem handled (s : State ι) (i : ι) (k : HandlerPc) : (s.handle i k).handler i = k :=
  Function.update_self ..

omit [Fintype ι] in
/-- Another handler's step leaves one where it stands. -/
theorem handler_stays {j : ι} {k here : HandlerPc} (at_ : s.handler i = here)
    (other : s.handler j ≠ here) : (s.handle i k).handler j = s.handler j := by
  refine Function.update_of_ne ?_ ..
  rintro rfl
  exact other at_

omit [DecidableEq ι] [Fintype ι] in
theorem waits_init : Waits (init : State ι) :=
  ⟨WaitQueue.Uniform.empty _, nofun⟩

omit [Fintype ι] in
theorem waits_handler {k here : HandlerPc} {c : Counters} (h : Waits s) (at_ : s.handler i = here)
    (other : here ≠ .wakeUp) : Waits { s.handle i k with counters := c } := by
  refine ⟨h.uniform, fun asleep set => ?_⟩
  obtain ⟨j, waking⟩ := h.roused asleep set
  exact ⟨j, (handler_stays at_ (by rw [waking]; exact other.symm)).trans waking⟩

omit [DecidableEq ι] [Fintype ι] in
theorem waits_thread {pc : ThreadPc} {q : WaitQueue Unit} {c : Counters} {missed flag : Int32}
    (h : q.Uniform .interruptible)
    (roused : pc = .sleep → q.state () ≠ .running → flag ≠ 0 → ∃ i, s.handler i = .wakeUp) :
    Waits { s with counters := c, catchup := missed, cond := flag, wq := q, thread := pc } :=
  ⟨h, fun asleep => roused asleep.1 asleep.2⟩

omit [Fintype ι] in
theorem waits_next (h : Waits s) (enabled : Enabled s a) : Waits (next s a) := by
  cases a with
  | incNevents i => exact waits_handler h enabled.1 nofun
  | incCounter_th i => exact waits_handler h enabled nofun
  | setCond i => exact ⟨h.uniform, fun _ _ => ⟨i, handled s i _⟩⟩
  | wake_up i =>
    exact ⟨h.uniform.wake _ _, fun asleep => absurd (h.uniform.woken rfl 1 ()) asleep.2⟩
  | clearCond => exact waits_thread h.uniform (fun _ _ set => absurd rfl set)
  | enqueue => exact waits_thread (h.uniform.prepare ()) nofun
  | testCond =>
    simp only [next]
    split_ifs with through
    · exact waits_thread (h.uniform.finish ()) nofun
    · -- the test failed, so there is nothing for this sleep to miss
      exact waits_thread h.uniform (fun _ _ set => absurd (Or.inr set) through)
  | wakened => exact waits_thread h.uniform nofun
  | spurious => exact ⟨h.uniform.rouse (), fun asleep => absurd rfl asleep.2⟩
  | signal => exact waits_thread (h.uniform.finish ()) nofun
  | testStop =>
    refine waits_thread h.uniform ?_
    split_ifs <;> exact nofun
  | testNevents =>
    refine waits_thread h.uniform ?_
    split_ifs <;> exact nofun
  | incCounter_bh => exact waits_thread h.uniform nofun
  | decNevents =>
    refine waits_thread h.uniform ?_
    split_ifs <;> exact nofun
  | incCatchup => exact waits_thread h.uniform nofun
  | loopTest =>
    refine waits_thread h.uniform ?_
    split_ifs <;> exact nofun
  | kthread_stop => exact ⟨h.uniform.rouse (), fun asleep => absurd rfl asleep.2⟩
  | join => exact ⟨h.uniform, h.roused⟩
  | synchronize_irq => exact ⟨h.uniform, h.roused⟩
  | free_irq => exact ⟨h.uniform, h.roused⟩

omit [DecidableEq ι] [Fintype ι] in
theorem announced_coming {k : HandlerPc} (at_ : t.handler i = k) (coming : k.announcing = true) :
    Announced t :=
  fun _ => Or.inr (Or.inl ⟨i, at_ ▸ coming⟩)

omit [DecidableEq ι] [Fintype ι] in
theorem announced_moved (h : Announced s) (away : s.thread.attending = false)
    (on : s.thread ≠ .exited) (counters : t.counters = s.counters) (cond : t.cond = s.cond)
    (handler : t.handler = s.handler) : Announced t := by
  intro left
  rw [counters] at left
  rw [cond, handler]
  rcases h left with set | coming | attending | gone
  · exact Or.inl set
  · exact Or.inr (Or.inl coming)
  · rw [away] at attending
    cases attending
  · exact absurd gone on

omit [Fintype ι] in
theorem announced_waking (h : Announced s) (at_ : s.handler i = .wakeUp) {q : WaitQueue Unit} :
    Announced { s.handle i .returned with wq := q } := by
  intro left
  rcases h left with set | ⟨j, coming⟩ | attending
  · exact Or.inl set
  · have other : s.handler j ≠ .wakeUp := fun hj => by rw [hj] at coming; cases coming
    exact Or.inr (Or.inl ⟨j, by rw [← coming]; exact congrArg _ (handler_stays at_ other)⟩)
  · exact Or.inr (Or.inr attending)

omit [DecidableEq ι] [Fintype ι] in
theorem announced_attending (attending : t.thread.attending = true) : Announced t :=
  fun _ => Or.inr (Or.inr (Or.inl attending))

omit [DecidableEq ι] [Fintype ι] in
theorem announced_exited (gone : t.thread = .exited) : Announced t :=
  fun _ => Or.inr (Or.inr (Or.inr gone))

omit [Fintype ι] in
theorem announced_next (h : Announced s) (nonneg : 0 ≤ s.counters.todo) (enabled : Enabled s a)
    (ok : ClearsInTime s a) : Announced (next s a) := by
  have away : ∀ {pc : ThreadPc}, s.thread = pc → pc.attending = false → pc ≠ .exited →
      s.thread.attending = false ∧ s.thread ≠ .exited := by
    rintro pc rfl before on
    exact ⟨before, on⟩
  cases a with
  | incNevents i => exact announced_coming (handled s i _) rfl
  | incCounter_th i => exact announced_coming (handled s i _) rfl
  | setCond i => exact fun _ => Or.inl (by decide : (1 : Int32) ≠ 0)
  | wake_up i => exact announced_waking h enabled
  | clearCond => exact fun left => Or.inr (Or.inl (ok left))
  | enqueue =>
    obtain ⟨off, on⟩ := away enabled rfl nofun
    exact announced_moved h off on rfl rfl rfl
  | testCond =>
    obtain ⟨off, on⟩ := away enabled rfl nofun
    simp only [next]
    split_ifs
    · exact announced_attending rfl
    · exact announced_moved h off on rfl rfl rfl
  | wakened =>
    obtain ⟨off, on⟩ := away enabled.1 rfl nofun
    exact announced_moved h off on rfl rfl rfl
  | signal => exact announced_attending rfl
  | testStop =>
    simp only [next]
    split_ifs
    · exact announced_exited rfl
    · exact announced_attending rfl
  | testNevents =>
    simp only [next]
    split_ifs with none
    · exact fun left => absurd (Int32.le_antisymm none nonneg) left
    · exact announced_attending rfl
  | incCounter_bh => exact announced_attending rfl
  | decNevents =>
    simp only [next]
    split_ifs with done
    · exact fun left => absurd (atomic_dec_and_test_eq.mp done) left
    · exact announced_attending rfl
  | incCatchup => exact announced_attending rfl
  | loopTest =>
    obtain ⟨off, on⟩ := away enabled rfl nofun
    exact announced_moved h off on rfl rfl rfl
  | _ => exact h

omit [Fintype ι] in
/-- A `cond` put back too late leaves the events unannounced at once. -/
theorem unannounced_of_late (late : ¬ ClearsInTime s a) : ¬ Announced (next s a) := by
  intro announced
  cases a with
  | clearCond =>
    obtain ⟨left, none⟩ := Classical.not_imp.mp late
    rcases announced left with set | coming | attending | gone
    · exact set rfl
    · exact none coming
    · cases attending
    · cases gone
  | _ => exact late trivial

theorem booked_run (few : Fintype.card ι < 2 ^ 31) (h : Run machine init as s) :
    ∃ l, Booked as s l := by
  induction h with
  | start => exact ⟨_, booked_init⟩
  | next _ enabled ih =>
    obtain ⟨l, booked⟩ := ih
    exact booked_next few booked enabled

/-- Throughout a run every pending event is announced exactly if the thread never puts `cond` back
behind the only handlers that set it. No event is lost from the count or served twice in any run;
and a sleep that nobody has ended, with every handler back, finds nothing left to do if what was
left was announced. -/
theorem events_announced_iff (few : Fintype.card ι < 2 ^ 31) (h : Run machine init as s) :
    (Always machine (fun _ => Announced) init as ↔ Meets machine ClearsInTime init as) ∧
    0 ≤ s.counters.todo ∧
    s.counters.done.toInt + s.counters.todo.toInt =
      as.countP Act.isIncNevents + (if s.thread = .decNevents then 1 else 0) ∧
    (Announced s → Asleep s → (∀ i, s.handler i = .incNevents ∨ s.handler i = .returned) →
      s.counters.todo = 0 ∧ s.counters.done = s.counters.N_th) := by
  obtain ⟨l, booked⟩ := booked_run few h
  refine ⟨?_, booked.books.todo_nonneg, ?_, fun announced asleep back => ?_⟩
  · refine always_iff_meets (I := fun as t => (∃ l, Booked as t l) ∧ Announced t)
      ⟨⟨_, booked_init⟩, fun left => absurd rfl left⟩ ?_ (fun _ _ inv => inv.2)
      (fun _ _ _ _ _ late => unannounced_of_late late) h
    rintro as t a ⟨⟨l, booked⟩, announced⟩ enabled ok
    exact ⟨booked_next few booked enabled,
      announced_next announced booked.books.todo_nonneg enabled ok⟩
  · rw [← booked.counted]
    exact booked.books.balance booked.midway
  · have waits : Waits s := run_invariant waits_init (fun _ _ => waits_next) h
    have idle : ∀ i, (s.top i).inProgress = false ∧ (s.handler i).announcing = false ∧
        s.handler i ≠ .wakeUp := by
      intro i
      rcases back i with hi | hi <;> rw [State.top, hi] <;> exact ⟨rfl, rfl, nofun⟩
    have zero : s.counters.todo = 0 := by
      by_contra left
      rcases announced left with set | ⟨i, coming⟩ | attending | gone
      · obtain ⟨i, waking⟩ := waits.roused asleep set
        exact (idle i).2.2 waking
      · rw [(idle i).2.1] at coming
        cases coming
      · rw [asleep.1] at attending
        cases attending
      · exact ThreadPc.noConfusion (asleep.1.symm.trans gone)
    have midway : l.midway = false := by rw [booked.midway, asleep.1]; rfl
    have rest := booked.books.tracks.todo_zero.mp zero
    exact booked.books.at_rest midway rest
      (TopPc.pastFirst_eq_pastSecond fun i => (idle i).1)

/-- The second interrupt comes when the last event has been taken and before the thread goes round
its loop: it is counted, nobody serves it, and the thread sleeps. -/
theorem events_announced_iff_stranded :
    let as : List (Act (Fin 2)) := [.clearCond, .incNevents 0, .incCounter_th 0, .setCond 0,
      .wake_up 0, .enqueue, .testCond, .testStop, .testNevents, .incCounter_bh, .decNevents,
      .incNevents 1, .incCounter_th 1, .setCond 1, .wake_up 1, .loopTest, .clearCond, .enqueue,
      .testCond]
    (machine.replay init as).counters.todo = 1 ∧ Asleep (machine.replay init as) ∧
      ¬ Meets machine ClearsInTime init as := by
  intro as
  have run : Run machine init as (machine.replay init as) := run_of_admits (by decide)
  obtain ⟨iff, _, _, nothing⟩ := events_announced_iff (by decide) run
  have asleep : Asleep (machine.replay init as) := ⟨by decide, by decide⟩
  refine ⟨by decide, asleep, fun meets => ?_⟩
  have announced := iff.mpr meets as [] _ (List.append_nil as).symm run
  exact absurd (nothing announced asleep (by decide)).1 (by decide)

end

end DeviceDriverEx.OneThread
