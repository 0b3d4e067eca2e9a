import DeviceDriverEx.LabChar
import DeviceDriverEx.NirqCounters
import DeviceDriverEx.Occupancy
import DeviceDriverEx.WaitQueue

namespace DeviceDriverEx.ExclWait

inductive Call
  | read (fault : Option Fault) (buf : Bytes) (lbuf : UInt64) (ppos : Int64)
  | write (fault : Option Fault) (buf : Bytes) (lbuf : UInt64) (ppos : Int64)

/-- What a call executes next. From `check` to `sleep` it is in
`wait_event_interruptible_exclusive`. -/
inductive Pc
  | incSleepers
  | check
  | enqueue
  | test
  | sleep
  | lock
  | decSleepers
  | clear
  | unlock
  | generic
  | wake (rval : Int64)
  | set (rval : Int64)
  | returned (rval : Int64)
  deriving DecidableEq

namespace Pc

/-- A reader that `nsleepers` counts. -/
def inside : Pc → Bool
  | check | enqueue | test | sleep | lock | decSleepers => true
  | _ => false

def isTest : Pc → Bool
  | test => true
  | _ => false

def isSleep : Pc → Bool
  | sleep => true
  | _ => false

end Pc

structure State (ι : Type) where
  data_ready : Int32
  nsleepers : Int32
  nsleepers_lock : Option ι
  wq : WaitQueue ι
  ramdisk : Bytes
  got : ι → Bytes
  signalled : ι → Bool
  pc : ι → Pc

inductive Act (ι : Type)
  | incSleepers (i : ι)
  | check (i : ι)
  | enqueue (i : ι)
  | test (i : ι)
  | wakened (i : ι)
  | spurious (i : ι)
  | signal (i : ι)
  | lock (i : ι)
  | decSleepers (i : ι)
  | clear (i : ι)
  | unlock (i : ι)
  | generic (i : ι)
  | wake (i : ι)
  | set (i : ι)

namespace Act

variable {ι : Type}

def caller : Act ι → ι
  | incSleepers i | check i | enqueue i | test i | wakened i | spurious i | signal i | lock i
  | decSleepers i | clear i | unlock i | generic i | wake i | set i => i

/-- A call of `wake_up_interruptible`, or a wake-up of one task that does not come from it. -/
def rouses : Act ι → Bool
  | wake _ | signal _ | spurious _ => true
  | _ => false

end Act

def Call.enter : Call → Pc
  | .read .. => .incSleepers
  | .write .. => .generic

section
variable {ι : Type} [DecidableEq ι] (ramdisk_size : UInt64) (call : ι → Call)

/-- A reader that a signal has woken leaves the queue; if a wake call had already taken it off, it
passes that on to the next. -/
def abort_exclusive_wait (q : WaitQueue ι) (i : ι) : WaitQueue ι :=
  if ∃ w ∈ q.waiters, w.task = i then q.finish i else (q.finish i).wake maskInterruptible 1

omit [DecidableEq ι] in
def init (ramdisk : Bytes) : State ι :=
  ⟨0, 0, none, WaitQueue.empty, ramdisk, fun _ _ => 0, fun _ => false, fun i => (call i).enter⟩

def State.go (s : State ι) (i : ι) (k : Pc) : State ι := { s with pc := Function.update s.pc i k }

omit [DecidableEq ι] in
def Enabled (s : State ι) : Act ι → Prop
  | .incSleepers i => s.pc i = .incSleepers
  | .check i => s.pc i = .check
  | .enqueue i => s.pc i = .enqueue
  | .test i => s.pc i = .test
  | .wakened i => s.pc i = .sleep ∧ s.wq.state i = .running
  | .spurious _ => True
  | .signal _ => True
  | .lock i => s.pc i = .lock ∧ s.nsleepers_lock = none
  | .decSleepers i => s.pc i = .decSleepers
  | .clear i => s.pc i = .clear
  | .unlock i => s.pc i = .unlock
  | .generic i => s.pc i = .generic
  | .wake i => ∃ rval, s.pc i = .wake rval
  | .set i => ∃ rval, s.pc i = .set rval

def next (s : State ι) : Act ι → State ι
  | .incSleepers i => { s.go i .check with nsleepers := atomic_inc s.nsleepers }
  | .check i => s.go i (if s.data_ready ≠ 0 then .lock else .enqueue)
  | .enqueue i => { s.go i .test with wq := s.wq.prepare i true .interruptible }
  | .test i =>
    if s.data_ready ≠ 0 then { s.go i .lock with wq := s.wq.finish i }
    -- what the macro returns is not looked at
    else if s.signalled i then { s.go i .lock with wq := abort_exclusive_wait s.wq i }
    else s.go i .sleep
  | .wakened i => s.go i .enqueue
  | .spurious i => { s with wq := s.wq.rouse i }
  | .signal i => { s with signalled := Function.update s.signalled i true, wq := s.wq.rouse i }
  | .lock i => { s.go i .decSleepers with nsleepers_lock := some i }
  | .decSleepers i =>
    { s.go i (if atomic_dec_and_test s.nsleepers then .clear else .unlock) with
      nsleepers := atomic_dec s.nsleepers }
  | .clear i => { s.go i .unlock with data_ready := 0 }
  | .unlock i => { s.go i .generic with nsleepers_lock := none }
  | .generic i => match call i with
    | .read fault buf lbuf ppos =>
      let r := LabChar.mycdrv_generic_read ramdisk_size fault s.ramdisk buf lbuf ppos
      { s.go i (.returned r.rval) with got := Function.update s.got i r.bytes }
    | .write fault buf lbuf ppos =>
      let r := LabChar.mycdrv_generic_write ramdisk_size fault s.ramdisk buf lbuf ppos
      { s.go i (.wake r.rval) with ramdisk := r.bytes }
  | .wake i => match s.pc i with
    | .wake rval => { s.go i (.set rval) with wq := s.wq.wake maskInterruptible 1 }
    | _ => s
  | .set i => match s.pc i with
    | .set rval => { s.go i (.returned rval) with data_ready := 1 }
    | _ => s

def machine : Machine (State ι) (Act ι) := ⟨Enabled, next ramdisk_size call⟩

end

section
variable {ι : Type} [DecidableEq ι] {ramdisk_size : UInt64} {call : ι → Call} {s t : State ι}
  {i j : ι}

/-- What a step does to the queue. -/
inductive Queued (q : WaitQueue ι) : Act ι → WaitQueue ι → Prop
  | same (a : Act ι) : Queued q a q
  | prepare (k : ι) : Queued q (.enqueue k) (q.prepare k true .interruptible)
  | finish (k : ι) : Queued q (.test k) (q.finish k)
  | pass (k : ι) : Queued q (.test k) ((q.finish k).wake maskInterruptible 1)
  | spurious (k : ι) : Queued q (.spurious k) (q.rouse k)
  | signal (k : ι) : Queued q (.signal k) (q.rouse k)
  | wake (k : ι) : Queued q (.wake k) (q.wake maskInterruptible 1)

theorem queued_next (ramdisk_size : UInt64) (call : ι → Call) (s : State ι) (a : Act ι) :
    Queued s.wq a (next ramdisk_size call s a).wq := by
  cases a with
  | enqueue i => exact .prepare i
  | test i =>
    simp only [next, abort_exclusive_wait]
    split_ifs
    · exact .finish i
    · exact .finish i
    · exact .pass i
    · exact .same _
  | spurious i => exact .spurious i
  | signal i => exact .signal i
  | generic i =>
    simp only [next]
    split <;> exact .same _
  | wake i =>
    simp only [next]
    split
    · exact .wake i
    · exact .same _
  | set i =>
    simp only [next]
    split <;> exact .same _
  | _ => exact .same _

theorem Queued.exclusive {q q' : WaitQueue ι} {a : Act ι} (move : Queued q a q')
    (h : q.Exclusive .interruptible) : q'.Exclusive .interruptible := by
  cases move with
  | same => exact h
  | prepare i => exact h.prepare i
  | finish i => exact h.finish i
  | pass i => exact (h.finish i).wake _ _
  | spurious k => exact h.rouse k
  | signal k => exact h.rouse k
  | wake i => exact h.wake _ _

/-- Whoever is behind a sleeper is not woken before him. -/
theorem Queued.ahead {q q' : WaitQueue ι} {a : Act ι} (move : Queued q a q')
    (all : q.Exclusive .interruptible) (h : q.Ahead i j) (asleep : q'.state i ≠ .running) :
    q'.Ahead i j ∧ (a.caller = j ∨ q'.state j = q.state j) := by
  have others : ∀ {k st}, k = j ∨ Function.update q.state k st j = q.state j := by
    intro k st
    by_cases hk : k = j
    · exact Or.inl hk
    · exact Or.inr (Function.update_of_ne (Ne.symm hk) ..)
  have left : ∀ {k}, (q.finish k).state i ≠ .running → i ≠ k := by
    rintro k still rfl
    exact still (Function.update_self ..)
  cases move with
  | same => exact ⟨h, Or.inr rfl⟩
  | prepare k => exact ⟨h.prepare k _, others⟩
  | finish k => exact ⟨h.finish (left asleep), others⟩
  | pass k =>
    have before : (q.finish k).state i ≠ .running := by
      rcases wakeWalk_state maskInterruptible 1 (q.finish k).waiters (q.finish k).state i with
        same | up
      · exact fun awake => asleep (same.trans awake)
      · exact absurd up asleep
    obtain ⟨ahead, same⟩ := (h.finish (left before)).wake (all.finish k) rfl rfl asleep
    rw [same]
    exact ⟨ahead, others⟩
  | spurious k => exact ⟨h, others⟩
  | signal k => exact ⟨h, others⟩
  | wake k =>
    obtain ⟨ahead, same⟩ := h.wake all rfl rfl asleep
    exact ⟨ahead, Or.inr same⟩

theorem run_exclusive {ramdisk : Bytes} {as : List (Act ι)}
    (h : Run (machine ramdisk_size call) (init call ramdisk) as s) :
    s.wq.Exclusive .interruptible :=
  run_invariant (I := fun t : State ι => t.wq.Exclusive .interruptible)
    (WaitQueue.Exclusive.empty _)
    (fun t a all _ => (queued_next ramdisk_size call t a).exclusive all) h

/-- Readers are woken in the order in which they have gone to sleep: while `i` sleeps on, no wake
call, and no reader that passes one on, changes anything for a reader that has come to the queue
behind it. Only the reader's own steps, a signal and a wake-up that nobody asked for do. -/
theorem woken_in_order {ramdisk : Bytes} {as bs : List (Act ι)}
    (h : Run (machine ramdisk_size call) (init call ramdisk) as s)
    (absent : ∀ w ∈ s.wq.waiters, w.task ≠ j) (rest : Run (machine ramdisk_size call) s bs t)
    (asleep : Always (machine ramdisk_size call) (fun _ u => u.wq.state i ≠ .running) s bs) :
    Meets (machine ramdisk_size call) (fun u a => a.caller = j ∨
      (next ramdisk_size call u a).wq.state j = u.wq.state j) s bs := by
  suffices kept : t.wq.Exclusive .interruptible ∧ t.wq.Ahead i j ∧ Meets _ _ s bs from kept.2.2
  induction rest with
  | start =>
    have start : s.wq.state i ≠ .running := always_last asleep Run.start
    exact ⟨run_exclusive h, WaitQueue.Ahead.of_absent start absent, meets_nil⟩
  | @next bs u a previous enabled ih =>
    obtain ⟨all, ahead, meets⟩ := ih (always_before asleep)
    have move := queued_next ramdisk_size call u a
    have still := always_last asleep (Run.next previous enabled)
    obtain ⟨behind, same⟩ := move.ahead all ahead still
    exact ⟨move.exclusive all, behind, meets_concat meets previous same⟩

/-- What the queue and a reader's place in the code say of it; the last is whether it is listed. -/
abbrev Seat : Type := Pc × TaskState × Bool

namespace Seat

def asleep (v : Seat) : Bool := v.1.isSleep && v.2.1 ≠ .running

/-- Taken off the queue by a wake call between its enlisting and its look for a signal. -/
def passing (v : Seat) : Bool := v.1.isTest && !v.2.2

/-- Only in the wait macro is a task not running. -/
def Proper (v : Seat) : Prop := v.2.1 ≠ .running → v.1.isTest = true ∨ v.1.isSleep = true

end Seat

def listed (q : WaitQueue ι) (i : ι) : Bool := decide (∃ w ∈ q.waiters, w.task = i)

def seats (pc : ι → Pc) (q : WaitQueue ι) (i : ι) : Seat := (pc i, q.state i, listed q i)

/-- One reader's place in the code, its state and its listing, after a step that changes no
other's. -/
theorem seats_update {pc pc' : ι → Pc} {q q' : WaitQueue ι} {v : Seat}
    (here : seats pc' q' i = v) (others : ∀ k, k ≠ i → seats pc' q' k = seats pc q k) :
    seats pc' q' = Function.update (seats pc q) i v := by
  funext k
  by_cases hk : k = i
  · subst hk
    rw [Function.update_self, here]
  · rw [Function.update_of_ne hk, others k hk]

theorem listed_iff {q : WaitQueue ι} : listed q i = true ↔ ∃ w ∈ q.waiters, w.task = i :=
  decide_eq_true_iff

theorem listed_congr {q q' : WaitQueue ι}
    (same : (∃ w ∈ q.waiters, w.task = i) ↔ ∃ w ∈ q'.waiters, w.task = i) :
    listed q i = listed q' i :=
  decide_eq_decide.mpr same

theorem seats_go (pc : ι → Pc) (q : WaitQueue ι) (i : ι) (k : Pc) :
    seats (Function.update pc i k) q =
      Function.update (seats pc q) i (k, q.state i, listed q i) := by
  refine seats_update ?_ fun j hj => ?_
  · rw [seats, Function.update_self]
  · rw [seats, Function.update_of_ne hj, seats]

theorem seats_rouse (pc : ι → Pc) (q : WaitQueue ι) (i : ι) :
    seats pc (q.rouse i) = Function.update (seats pc q) i (pc i, .running, listed q i) := by
  refine seats_update ?_ fun j hj => ?_
  · rw [seats, show (q.rouse i).state i = .running from Function.update_self ..]
    rfl
  · rw [seats, show (q.rouse i).state j = q.state j from Function.update_of_ne hj ..]
    rfl

theorem seats_prepare (pc : ι → Pc) (q : WaitQueue ι) (i : ι) (k : Pc) (st : TaskState) :
    seats (Function.update pc i k) (q.prepare i true st) =
      Function.update (seats pc q) i (k, st, true) := by
  refine seats_update ?_ fun j hj => ?_
  · have enlisted : listed (q.prepare i true st) i = true := by
      rw [listed_iff]
      simp only [WaitQueue.prepare, if_true]
      split
      next here => exact here
      next => exact ⟨⟨i, true⟩, by simp, rfl⟩
    rw [seats, Function.update_self, enlisted,
      show (q.prepare i true st).state i = st from Function.update_self ..]
  · have same : listed (q.prepare i true st) j = listed q j := by
      refine listed_congr ?_
      simp only [WaitQueue.prepare, if_true]
      split
      next => exact Iff.rfl
      next => simp [or_and_right, exists_or, Ne.symm hj]
    rw [seats, Function.update_of_ne hj, same,
      show (q.prepare i true st).state j = q.state j from Function.update_of_ne hj .., seats]

theorem seats_finish (pc : ι → Pc) (q : WaitQueue ι) (i : ι) (k : Pc) :
    seats (Function.update pc i k) (q.finish i) =
      Function.update (seats pc q) i (k, .running, false) := by
  refine seats_update ?_ fun j hj => ?_
  · have gone : listed (q.finish i) i = false := by
      refine decide_eq_false ?_
      rintro ⟨w, hw, task⟩
      simp [WaitQueue.finish, task] at hw
    rw [seats, Function.update_self, gone,
      show (q.finish i).state i = .running from Function.update_self ..]
  · have same : listed (q.finish i) j = listed q j := by
      refine listed_congr ⟨?_, ?_⟩ <;> rintro ⟨w, hw, task⟩
      · exact ⟨w, (List.mem_filter.mp hw).1, task⟩
      · exact ⟨w, List.mem_filter.mpr ⟨hw, by simp [task, hj]⟩, task⟩
    rw [seats, Function.update_of_ne hj, same,
      show (q.finish i).state j = q.state j from Function.update_of_ne hj .., seats]

/-- A wake call takes at most one sleeper off the queue. -/
theorem seats_wake (pc : ι → Pc) {q : WaitQueue ι} (all : q.Exclusive .interruptible) :
    seats pc (q.wake maskInterruptible 1) = seats pc q ∨
      ∃ k, q.state k ≠ .running ∧ listed q k = true ∧
        seats pc (q.wake maskInterruptible 1) =
          Function.update (seats pc q) k (pc k, .running, false) := by
  have one := all.wake_one (show maskInterruptible .interruptible = true from rfl) rfl
  rcases one with
    ⟨_, waiters, state⟩ | ⟨pre, w, post, here, _, sleeper, waiters, state⟩
  · left
    funext k
    rw [seats, seats, state, listed, waiters, listed]
  · have once := all.once
    rw [here, List.map_append, List.map_cons, List.nodup_middle, List.nodup_cons,
      ← List.map_append] at once
    refine Or.inr ⟨w.task, sleeper, ?_, seats_update ?_ fun j hj => ?_⟩
    · exact listed_iff.mpr ⟨w, by simp [here], rfl⟩
    · have gone : listed (q.wake maskInterruptible 1) w.task = false := by
        refine decide_eq_false ?_
        rintro ⟨v, hv, task⟩
        rw [waiters] at hv
        exact once.1 (task ▸ List.mem_map_of_mem hv)
      rw [seats, state, gone, Function.update_self]
    · have same : listed (q.wake maskInterruptible 1) j = listed q j := by
        refine listed_congr ?_
        rw [waiters, here]
        simp [or_and_right, exists_or, Ne.symm hj]
      rw [seats, state, same, Function.update_of_ne hj, seats]

variable [Fintype ι]

/-- The readers asleep on the queue. -/
def sleepers (s : State ι) : Nat := occupancy Seat.asleep (seats s.pc s.wq)

/-- The readers a wake call has reached before they have gone to sleep. -/
def passing (s : State ι) : Nat := occupancy Seat.passing (seats s.pc s.wq)

/-- The readers asleep at places `p` and not at places `p'`. -/
def woken (p p' : ι → Seat) : Nat :=
  occupancy (fun v : Seat × Seat => v.1.asleep && !v.2.asleep) fun i => (p i, p' i)

omit [DecidableEq ι] in
theorem woken_self (p : ι → Seat) : woken p p = 0 :=
  occupancy_eq_zero fun _ => Bool.and_not_self _

/-- Who is woken on the way is woken on one of its two parts. -/
theorem woken_trans (p p' p'' : ι → Seat) : woken p p'' ≤ woken p p' + woken p' p'' := by
  refine Nat.le_trans (Finset.card_le_card fun i hi => ?_) (Finset.card_union_le _ _)
  rw [Finset.mem_union, Finset.mem_filter_univ, Finset.mem_filter_univ]
  rw [Finset.mem_filter_univ] at hi
  cases mid : (p' i).asleep
  · exact Or.inl (by simpa [mid] using And.left (Bool.and_eq_true_iff.mp hi))
  · exact Or.inr (by simpa [mid] using And.right (Bool.and_eq_true_iff.mp hi))

theorem woken_update (p : ι → Seat) (i : ι) (v : Seat) :
    woken p (Function.update p i v) = ((p i).asleep && !v.asleep).toNat := by
  have moved : (fun j => (p j, Function.update p i v j)) =
      Function.update (fun j => (p j, p j)) i (p i, v) := by
    funext j
    by_cases hj : j = i
    · subst hj
      rw [Function.update_self, Function.update_self]
    · rw [Function.update_of_ne hj, Function.update_of_ne hj]
  have count := occupancy_update (fun v : Seat × Seat => v.1.asleep && !v.2.asleep)
    (fun j => (p j, p j)) i (p i, v)
  have before : occupancy (fun v : Seat × Seat => v.1.asleep && !v.2.asleep)
    (fun j => (p j, p j)) = 0 := woken_self p
  rw [before, Bool.and_not_self] at count
  rw [woken, moved]
  simpa using count

/-- From places `p` to places `p'` no more than `b` sleepers are woken, and `a` readers that a wake
call had reached have gone on. -/
structure Shift (p p' : ι → Seat) (a b : Nat) : Prop where
  proper : ∀ i, (p' i).Proper
  balance : woken p p' + occupancy Seat.passing p' + a ≤ occupancy Seat.passing p + b

namespace Shift

variable {p p' p'' : ι → Seat} {a b c d : Nat} {v : Seat}

omit [DecidableEq ι] in
theorem refl (proper : ∀ i, (p i).Proper) : Shift p p 0 b := by
  refine ⟨proper, ?_⟩
  rw [woken_self]
  omega

theorem trans (h : Shift p p' a b) (h' : Shift p' p'' c d) : Shift p p'' (a + c) (b + d) := by
  have first := h.balance
  have second := h'.balance
  have both := woken_trans p p' p''
  exact ⟨h'.proper, by omega⟩

omit [DecidableEq ι] in
theorem cancel (h : Shift p p' 1 1) : Shift p p' 0 0 := by
  have balance := h.balance
  exact ⟨h.proper, by omega⟩

/-- A step of one reader. -/
theorem one (proper : ∀ i, (p i).Proper) (here : v.Proper)
    (balance : ((p i).asleep && !v.asleep).toNat + v.passing.toNat + a ≤
      (p i).passing.toNat + b) : Shift p (Function.update p i v) a b := by
  refine ⟨fun j => ?_, ?_⟩
  · by_cases hj : j = i
    · subst hj
      rwa [Function.update_self]
    · rw [Function.update_of_ne hj]
      exact proper j
  · have passing := occupancy_update Seat.passing p i v
    rw [woken_update]
    omega

end Shift

/-- A step between two places at neither of which a reader can be asleep. -/
theorem shift_awake {k : Pc} (proper : ∀ i, (seats s.pc s.wq i).Proper)
    (start : (s.pc i).isTest = false ∧ (s.pc i).isSleep = false)
    (goal : k.isTest = false ∧ k.isSleep = false) :
    Shift (seats s.pc s.wq) (seats (Function.update s.pc i k) s.wq) 0 0 := by
  have running : s.wq.state i = .running := by
    by_contra asleep
    rcases proper i asleep with h | h
    · exact Bool.false_ne_true (start.1.symm.trans h)
    · exact Bool.false_ne_true (start.2.symm.trans h)
  rw [seats_go]
  refine Shift.one proper (fun asleep => absurd running asleep) ?_
  simp [Seat.asleep, Seat.passing, seats, start.1, start.2, goal.1, goal.2]

theorem shift_wake {pc : ι → Pc} {q : WaitQueue ι} (all : q.Exclusive .interruptible)
    (proper : ∀ i, (seats pc q i).Proper) :
    Shift (seats pc q) (seats pc (q.wake maskInterruptible 1)) 0 1 := by
  rcases seats_wake pc all with same | ⟨k, asleep, on, moved⟩
  · rw [same]
    exact Shift.refl proper
  · rw [moved]
    refine Shift.one proper (fun up => absurd rfl up) ?_
    rcases proper k asleep with h | h <;> cases here : pc k <;>
      simp [Seat.asleep, Seat.passing, seats, here, Pc.isTest, Pc.isSleep, on, Bool.toNat_le] at h ⊢

theorem shift_rouse (proper : ∀ i, (seats s.pc s.wq i).Proper) :
    Shift (seats s.pc s.wq) (seats s.pc (s.wq.rouse i)) 0 1 := by
  rw [seats_rouse]
  refine Shift.one proper (fun up => absurd rfl up) ?_
  cases here : s.pc i <;>
    simp [Seat.asleep, Seat.passing, seats, here, Pc.isTest, Pc.isSleep, Bool.toNat_le]

theorem shift_test (ramdisk_size : UInt64) (call : ι → Call)
    (all : s.wq.Exclusive .interruptible) (proper : ∀ i, (seats s.pc s.wq i).Proper)
    (here : s.pc i = .test) : let t := next ramdisk_size call s (.test i)
    Shift (seats s.pc s.wq) (seats t.pc t.wq) 0 0 := by
  have finished : Shift (seats s.pc s.wq) (seats (Function.update s.pc i .lock) (s.wq.finish i))
      (listed s.wq i).not.toNat 0 := by
    rw [seats_finish]
    refine Shift.one proper (fun up => absurd rfl up) ?_
    simp [Seat.asleep, Seat.passing, seats, here, Pc.isTest, Pc.isSleep]
  have off : Shift (seats s.pc s.wq) (seats (Function.update s.pc i .lock) (s.wq.finish i)) 0 0 :=
    ⟨finished.proper, by have balance := finished.balance; omega⟩
  simp only [next, abort_exclusive_wait, State.go]
  split_ifs with ready signalled on
  · exact off
  · exact off
  · have gone : listed s.wq i = false := decide_eq_false on
    rw [gone] at finished
    exact (finished.trans (shift_wake (all.finish i) finished.proper)).cancel
  · rw [seats_go]
    refine Shift.one proper (fun _ => Or.inr rfl) ?_
    simp [Seat.asleep, Seat.passing, seats, here, Pc.isTest, Pc.isSleep]

theorem shift_next (ramdisk_size : UInt64) (call : ι → Call) {a : Act ι}
    (all : s.wq.Exclusive .interruptible)
    (proper : ∀ i, (seats s.pc s.wq i).Proper) (enabled : Enabled s a) :
    let t := next ramdisk_size call s a
    Shift (seats s.pc s.wq) (seats t.pc t.wq) 0 a.rouses.toNat := by
  have awake : ∀ {i k l}, s.pc i = k → k.isTest = false ∧ k.isSleep = false →
      l.isTest = false ∧ l.isSleep = false →
      Shift (seats s.pc s.wq) (seats (Function.update s.pc i l) s.wq) 0 0 := by
    rintro i k l rfl start goal
    exact shift_awake proper start goal
  cases a with
  | incSleepers i => exact awake enabled ⟨rfl, rfl⟩ ⟨rfl, rfl⟩
  | check i =>
    simp only [next]
    split
    · exact awake enabled ⟨rfl, rfl⟩ ⟨rfl, rfl⟩
    · exact awake enabled ⟨rfl, rfl⟩ ⟨rfl, rfl⟩
  | enqueue i =>
    have here : s.pc i = .enqueue := enabled
    simp only [next, State.go, seats_prepare]
    refine Shift.one proper (fun _ => Or.inl rfl) ?_
    simp [Seat.asleep, Seat.passing, seats, here, Pc.isTest, Pc.isSleep]
  | test i => exact shift_test ramdisk_size call all proper enabled
  | wakened i =>
    obtain ⟨here, up⟩ := enabled
    simp only [next, State.go, seats_go]
    refine Shift.one proper (fun asleep => absurd up asleep) ?_
    simp [Seat.asleep, Seat.passing, seats, here, up, Pc.isTest, Pc.isSleep]
  | spurious i => exact shift_rouse proper
  | signal i => exact shift_rouse proper
  | lock i => exact awake enabled.1 ⟨rfl, rfl⟩ ⟨rfl, rfl⟩
  | decSleepers i =>
    simp only [next]
    split
    · exact awake enabled ⟨rfl, rfl⟩ ⟨rfl, rfl⟩
    · exact awake enabled ⟨rfl, rfl⟩ ⟨rfl, rfl⟩
  | clear i => exact awake enabled ⟨rfl, rfl⟩ ⟨rfl, rfl⟩
  | unlock i => exact awake enabled ⟨rfl, rfl⟩ ⟨rfl, rfl⟩
  | generic i =>
    simp only [next]
    split
    · exact awake enabled ⟨rfl, rfl⟩ ⟨rfl, rfl⟩
    · exact awake enabled ⟨rfl, rfl⟩ ⟨rfl, rfl⟩
  | wake i =>
    obtain ⟨rval, waking⟩ := enabled
    simp only [next, waking, State.go]
    have moved := awake (l := .set rval) waking ⟨rfl, rfl⟩ ⟨rfl, rfl⟩
    exact moved.trans (shift_wake all moved.proper)
  | set i =>
    obtain ⟨rval, setting⟩ := enabled
    simp only [next, setting, State.go]
    exact awake setting ⟨rfl, rfl⟩ ⟨rfl, rfl⟩

theorem run_proper {ramdisk : Bytes} {as : List (Act ι)}
    (h : Run (machine ramdisk_size call) (init call ramdisk) as s) :
    s.wq.Exclusive .interruptible ∧ ∀ i, (seats s.pc s.wq i).Proper := by
  refine run_invariant (I := fun t : State ι => t.wq.Exclusive .interruptible ∧
    ∀ i, (seats t.pc t.wq i).Proper) ⟨WaitQueue.Exclusive.empty _, fun _ up => absurd rfl up⟩ ?_ h
  rintro t a ⟨all, proper⟩ enabled
  exact ⟨(queued_next ramdisk_size call t a).exclusive all,
    (shift_next ramdisk_size call all proper enabled).proper⟩

/-- The readers that a step gets out of their sleep. -/
def gotUp (s t : State ι) : Nat := woken (seats s.pc s.wq) (seats t.pc t.wq)

/-- How often a reader is got out of its sleep in these steps. -/
def awakenings (m : Machine (State ι) (Act ι)) : State ι → List (Act ι) → Nat
  | _, [] => 0
  | s, a :: as => gotUp s (m.next s a) + awakenings m (m.next s a) as

theorem awakenings_concat (m : Machine (State ι) (Act ι)) (s : State ι) (as : List (Act ι))
    (a : Act ι) : awakenings m s (as ++ [a]) =
      awakenings m s as + gotUp (m.replay s as) (m.next (m.replay s as) a) := by
  induction as generalizing s with
  | nil => exact Nat.add_comm _ _
  | cons b as ih =>
    change gotUp s _ + awakenings m (m.next s b) (as ++ [a]) = _
    rw [ih, ← Nat.add_assoc]
    rfl

/-- One write wakes one reader: readers are got out of their sleep no more often than there are
calls of `wake_up_interruptible`, signals and wake-ups that nobody asked for, beyond those that
readers already on their way out pass on. -/
theorem one_write_one_reader {ramdisk : Bytes} {as bs : List (Act ι)}
    (h : Run (machine ramdisk_size call) (init call ramdisk) as s)
    (rest : Run (machine ramdisk_size call) s bs t) :
    awakenings (machine ramdisk_size call) s bs + passing t ≤
      passing s + bs.countP Act.rouses := by
  induction rest with
  | start => exact Nat.le_of_eq (Nat.zero_add _)
  | @next bs u a previous enabled ih =>
    obtain ⟨all, proper⟩ := run_proper (run_append h previous)
    have step : gotUp u (next ramdisk_size call u a) + passing (next ramdisk_size call u a) + 0 ≤
      passing u + a.rouses.toNat := (shift_next ramdisk_size call all proper enabled).balance
    have counted : (bs ++ [a]).countP Act.rouses = bs.countP Act.rouses + a.rouses.toNat := by
      cases hr : a.rouses with
      | true => exact count_one hr
      | false => exact count_other hr
    rw [awakenings_concat, ← run_replay previous, counted]
    change _ + gotUp u (next ramdisk_size call u a) + passing (next ramdisk_size call u a) ≤ _
    omega

/-- `nsleepers` counts the readers that have not come to their `atomic_dec_and_test`. -/
def Counted (s : State ι) : Prop := s.nsleepers = Int32.ofNat (occupancy Pc.inside s.pc)

omit [DecidableEq ι] in
theorem counted_init (ramdisk : Bytes) : Counted (init call ramdisk) := by
  have none : occupancy Pc.inside (init call ramdisk).pc = 0 := by
    refine occupancy_eq_zero fun i => ?_
    cases here : call i <;> simp [init, here, Call.enter, Pc.inside]
  rw [Counted, none]
  rfl

theorem counted_go {k : Pc} (h : Counted s) (nsleepers : t.nsleepers = s.nsleepers)
    (pc : t.pc = Function.update s.pc i k) (same : k.inside = (s.pc i).inside) : Counted t := by
  rw [Counted, nsleepers, pc, occupancy_stay same]
  exact h

theorem occupancy_leave {k : Pc} (here : (s.pc i).inside = true) (out : k.inside = false) :
    occupancy Pc.inside s.pc = occupancy Pc.inside (Function.update s.pc i k) + 1 := by
  have moved := occupancy_update Pc.inside s.pc i k
  rw [here, out] at moved
  exact moved.symm

theorem counted_next {a : Act ι} (h : Counted s) (enabled : Enabled s a) :
    Counted (next ramdisk_size call s a) := by
  have go : ∀ {i k l} {t : State ι}, s.pc i = k → t.nsleepers = s.nsleepers →
      t.pc = Function.update s.pc i l → l.inside = k.inside → Counted t := by
    rintro i k l t rfl nsleepers pc same
    exact counted_go h nsleepers pc same
  cases a with
  | incSleepers i =>
    have here : s.pc i = .incSleepers := enabled
    have entered : occupancy Pc.inside (Function.update s.pc i .check) =
        occupancy Pc.inside s.pc + 1 := occupancy_enter (by rw [here]; rfl) rfl
    show atomic_inc s.nsleepers = Int32.ofNat (occupancy Pc.inside (Function.update s.pc i .check))
    rw [entered, show s.nsleepers = _ from h, atomic_inc_ofNat]
  | check i =>
    refine go enabled rfl rfl ?_
    split <;> rfl
  | enqueue i => exact go (l := .test) enabled rfl rfl rfl
  | test i =>
    simp only [next]
    split_ifs
    · exact go (l := .lock) enabled rfl rfl rfl
    · exact go (l := .lock) enabled rfl rfl rfl
    · exact go (l := .sleep) enabled rfl rfl rfl
  | wakened i => exact go (l := .enqueue) enabled.1 rfl rfl rfl
  | spurious i => exact h
  | signal i => exact h
  | lock i => exact go (l := .decSleepers) enabled.1 rfl rfl rfl
  | decSleepers i =>
    have here : s.pc i = .decSleepers := enabled
    have left := occupancy_leave (k := if atomic_dec_and_test s.nsleepers then .clear else .unlock)
      (by rw [here]; rfl) (by split <;> rfl)
    have count : s.nsleepers = Int32.ofNat _ := h
    rw [left] at count
    exact (congrArg atomic_dec count).trans (atomic_dec_ofNat _)
  | clear i => exact go (l := .unlock) enabled rfl rfl rfl
  | unlock i => exact go (l := .generic) enabled rfl rfl rfl
  | generic i =>
    simp only [next]
    split
    · exact go (l := .returned _) enabled rfl rfl rfl
    · exact go (l := .wake _) enabled rfl rfl rfl
  | wake i =>
    obtain ⟨rval, waking⟩ := enabled
    simp only [next, waking]
    exact go (l := .set rval) waking rfl rfl rfl
  | set i =>
    obtain ⟨rval, setting⟩ := enabled
    simp only [next, setting]
    exact go (l := .returned rval) setting rfl rfl rfl

/-- The flag is up, and no reader is about to put it down. -/
def GateOpen (s : State ι) : Prop := s.data_ready ≠ 0 ∧ ∀ k, s.pc k ≠ .clear

omit [Fintype ι] in
theorem gate_go {k : Pc} (h : GateOpen s) (flag : t.data_ready ≠ 0)
    (pc : t.pc = Function.update s.pc i k) (busy : k ≠ .clear) : GateOpen t := by
  refine ⟨flag, fun j here => ?_⟩
  rw [pc] at here
  by_cases hj : j = i
  · subst hj
    exact busy ((Function.update_self ..).symm.trans here)
  · exact h.2 j ((Function.update_of_ne hj ..).symm.trans here)

/-- The reader that finds itself the last one is not: another has stayed. -/
theorem not_last (few : occupancy Pc.inside s.pc < 2 ^ 31) (h : Counted s)
    (here : (s.pc i).inside = true) (other : i ≠ j) (stays : (s.pc j).inside = true) :
    atomic_dec_and_test s.nsleepers = false := by
  have left := occupancy_leave (k := .unlock) here rfl
  have pos : 0 < occupancy Pc.inside (Function.update s.pc i .unlock) := by
    refine Finset.card_pos.mpr ⟨j, ?_⟩
    simpa [Function.update_of_ne other.symm] using stays
  have small : occupancy Pc.inside (Function.update s.pc i .unlock) < 2 ^ 31 := by omega
  refine Bool.eq_false_iff.mpr fun last => ?_
  have zero := atomic_dec_and_test_eq.mp last
  rw [show s.nsleepers = _ from h, left, atomic_dec_ofNat, ← Int32.toInt_inj,
    Int32.toInt_ofNat_of_lt small] at zero
  change (_ : Int) = 0 at zero
  omega

theorem gate_next (few : occupancy Pc.inside s.pc < 2 ^ 31) {a : Act ι} (count : Counted s)
    (h : GateOpen s) (enabled : Enabled s a) (here : (s.pc i).inside = true)
    (stays : ((next ramdisk_size call s a).pc i).inside = true) :
    GateOpen (next ramdisk_size call s a) := by
  cases a with
  | decSleepers k =>
    have leaving : s.pc k = .decSleepers := enabled
    have other : k ≠ i := by
      rintro rfl
      rw [show (next ramdisk_size call s (.decSleepers k)).pc k = _ from
        Function.update_self ..] at stays
      split at stays <;> cases stays
    have kept := not_last few count (by rw [leaving]; rfl) other here
    simp only [next, kept]
    exact gate_go (k := .unlock) h h.1 rfl nofun
  | clear k => exact absurd enabled (h.2 k)
  | check k =>
    refine gate_go h h.1 rfl ?_
    split <;> exact nofun
  | test k =>
    simp only [next]
    split_ifs
    · exact gate_go (k := .lock) h h.1 rfl nofun
    · exact gate_go (k := .lock) h h.1 rfl nofun
    · exact gate_go (k := .sleep) h h.1 rfl nofun
  | generic k =>
    simp only [next]
    split
    · exact gate_go (k := .returned _) h h.1 rfl nofun
    · exact gate_go (k := .wake _) h h.1 rfl nofun
  | wake k =>
    obtain ⟨rval, waking⟩ := enabled
    simp only [next, waking]
    exact gate_go (k := .set rval) h h.1 rfl nofun
  | set k =>
    obtain ⟨rval, setting⟩ := enabled
    simp only [next, setting]
    exact gate_go (k := .returned rval) h (show (1 : Int32) ≠ 0 by decide) rfl nofun
  | incSleepers k => exact gate_go (k := .check) h h.1 rfl nofun
  | enqueue k => exact gate_go (k := .test) h h.1 rfl nofun
  | wakened k => exact gate_go (k := .enqueue) h h.1 rfl nofun
  | lock k => exact gate_go (k := .decSleepers) h h.1 rfl nofun
  | unlock k => exact gate_go (k := .generic) h h.1 rfl nofun
  | spurious k => exact h
  | signal k => exact h

/-- A reader that is not let through holds the gate open for all that come later: from a state with
the flag up, as long as it stays inside, nobody puts the flag down, and who comes does not wait.
`nsleepers` must be able to hold the readers that are inside. -/
theorem gate_held_open {ramdisk : Bytes} {as bs : List (Act ι)}
    (h : Run (machine ramdisk_size call) (init call ramdisk) as s) (up : GateOpen s)
    (rest : Run (machine ramdisk_size call) s bs t)
    (few : Always (machine ramdisk_size call)
      (fun _ u => occupancy Pc.inside u.pc < 2 ^ 31) s bs)
    (stays : Always (machine ramdisk_size call) (fun _ u => (u.pc i).inside = true) s bs) :
    t.data_ready ≠ 0 ∧ Meets (machine ramdisk_size call)
      (fun u a => ∀ k, a = .check k → (next ramdisk_size call u a).pc k = .lock) s bs := by
  suffices kept : Counted t ∧ GateOpen t ∧ Meets _ _ s bs from ⟨kept.2.1.1, kept.2.2⟩
  have count : Counted s := run_invariant (I := fun t : State ι => Counted t)
    (counted_init ramdisk) (fun _ _ inv enabled => counted_next inv enabled) h
  induction rest with
  | start => exact ⟨count, up, meets_nil⟩
  | @next bs u a previous enabled ih =>
    obtain ⟨counted, open_, meets⟩ := ih (always_before few) (always_before stays)
    have held := always_last (always_before few) previous
    have here := always_last (always_before stays) previous
    have still := always_last stays (Run.next previous enabled)
    refine ⟨counted_next counted enabled, gate_next held counted open_ enabled here still,
      meets_concat meets previous ?_⟩
    rintro k rfl
    simp only [next, if_pos open_.1]
    exact Function.update_self ..

end

/-- Three readers go to sleep one after the other, and one write is made. -/
theorem woken_in_order_three :
    let call : Fin 4 → Call := fun i =>
      if i = 3 then .write none (fun _ => 7) 4 0 else .read none (fun _ => 0) 4 0
    let first : List (Act (Fin 4)) := [.incSleepers 0, .check 0, .enqueue 0, .test 0,
      .incSleepers 1, .check 1, .enqueue 1, .test 1]
    let later : List (Act (Fin 4)) := [.incSleepers 2, .check 2, .enqueue 2, .test 2, .generic 3]
    let m := machine 65536 call
    let s := m.replay (init call fun _ => 0) first
    (m.replay s (later ++ [.wake 3])).wq.state 2 = (m.replay s later).wq.state 2 := by
  intro call first later m s
  have before : Run m (init call fun _ => 0) first s :=
    run_of_admits ⟨rfl, rfl, rfl, rfl, rfl, rfl, rfl, rfl, trivial⟩
  have rest : Run m s (later ++ [.wake 3]) _ :=
    run_of_admits ⟨rfl, rfl, rfl, rfl, rfl, ⟨_, rfl⟩, trivial⟩
  have asleep : Always m (fun _ u => u.wq.state 1 ≠ .running) s (later ++ [.wake 3]) :=
    always_of_replay (by decide)
  have inOrder := woken_in_order (j := 2) before (by decide) rest asleep
  have until_ : Run m s later _ := run_of_admits ⟨rfl, rfl, rfl, rfl, rfl, trivial⟩
  exact (meets_last inOrder until_).resolve_left (by decide)

/-- Two readers sleep; one of them is woken by a write and, the flag not being set yet, sleeps
again. -/
theorem one_write_one_reader_two :
    let call : Fin 3 → Call := fun i =>
      if i = 2 then .write none (fun _ => 7) 4 0 else .read none (fun _ => 0) 4 0
    let first : List (Act (Fin 3)) := [.incSleepers 0, .check 0, .enqueue 0, .test 0,
      .incSleepers 1, .check 1, .enqueue 1, .test 1]
    let later : List (Act (Fin 3)) := [.generic 2, .wake 2, .wakened 0, .enqueue 0, .test 0, .set 2]
    let m := machine 65536 call
    let s := m.replay (init call fun _ => 0) first
    sleepers s = 2 ∧ sleepers (m.replay s later) = 2 ∧ awakenings m s later ≤ 1 := by
  intro call first later m s
  have before : Run m (init call fun _ => 0) first s :=
    run_of_admits ⟨rfl, rfl, rfl, rfl, rfl, rfl, rfl, rfl, trivial⟩
  have rest : Run m s later _ :=
    run_of_admits ⟨rfl, ⟨_, rfl⟩, ⟨rfl, rfl⟩, rfl, rfl, ⟨_, rfl⟩, trivial⟩
  have bound := one_write_one_reader before rest
  have none : passing s = 0 := by decide
  rw [none, Nat.zero_add] at bound
  exact ⟨by decide, by decide, Nat.le_of_add_right_le bound⟩

/-- The reader is woken before the flag is set and sleeps again; the next one passes. -/
theorem gate_held_open_passed :
    let call : Fin 3 → Call := fun i =>
      if i = 2 then .write none (fun _ => 7) 4 0 else .read none (fun _ => 0) 4 0
    let first : List (Act (Fin 3)) := [.incSleepers 0, .check 0, .enqueue 0, .test 0, .generic 2,
      .wake 2, .wakened 0, .enqueue 0, .test 0, .set 2]
    let later : List (Act (Fin 3)) := [.incSleepers 1, .check 1, .lock 1, .decSleepers 1, .unlock 1]
    let m := machine 65536 call
    let s := m.replay (init call fun _ => 0) first
    (m.replay s later).data_ready ≠ 0 := by
  intro call first later m s
  have before : Run m (init call fun _ => 0) first s :=
    run_of_admits ⟨rfl, rfl, rfl, rfl, rfl, ⟨_, rfl⟩, ⟨rfl, rfl⟩, rfl, rfl, ⟨_, rfl⟩, trivial⟩
  have notLast : (m.replay s (later.take 4)).pc 1 = .unlock := by decide
  have rest : Run m s later _ := run_of_admits ⟨rfl, rfl, ⟨rfl, rfl⟩, rfl, notLast, trivial⟩
  have up : GateOpen s := by
    refine ⟨by decide, fun k => ?_⟩
    match k with
    | 0 => exact nofun
    | 1 => exact nofun
    | 2 => exact nofun
  have stays : Always m (fun _ u => (u.pc 0).inside = true) s later :=
    always_of_replay (by decide)
  have few : Always m (fun _ u => occupancy Pc.inside u.pc < 2 ^ 31) s later :=
    always_of_replay (by decide)
  exact (gate_held_open before up rest few stays).1

end DeviceDriverEx.ExclWait
