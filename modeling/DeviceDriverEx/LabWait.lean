import DeviceDriverEx.LabChar
import DeviceDriverEx.WaitQueue

namespace DeviceDriverEx.LabWait

/-- The three solutions whose readers wait on `wq` for `data_ready`. -/
inductive Lab
  | wait_event
  | killable
  | poll
  deriving DecidableEq

/-- `wait_event_interruptible`, or `wait_event_killable` in lab2_killable. -/
def Lab.sleepState : Lab → TaskState
  | killable => .killable
  | _ => .interruptible

/-- A reader takes `data_ready` back, but not in lab1_wait_event. -/
def Lab.clears : Lab → Bool
  | wait_event => false
  | _ => true

/-- A writer calls `wake_up_interruptible` before it sets `data_ready`, in lab3_poll. -/
def Lab.wakesFirst : Lab → Bool
  | poll => true
  | _ => false

/-- `poll(2)` waits on the same queue and for the same flag, where there is a `mycdrv_poll`. -/
inductive Call
  | read (fault : Option Fault) (buf : Bytes) (lbuf : UInt64) (ppos : Int64)
  | write (fault : Option Fault) (buf : Bytes) (lbuf : UInt64) (ppos : Int64)
  | poll

def POLLIN : Int64 := 1
def POLLRDNORM : Int64 := 0x40
def EINTR : Int64 := 4

/-- What a call executes next; the first three are the loop of the wait macro. -/
inductive Pc
  | enqueue
  | test
  | sleep
  | clear
  | generic
  | wake (rval : Int64)
  | set (rval : Int64)
  | returned (rval : Int64)

structure State (ι : Type) where
  data_ready : Int32
  wq : WaitQueue ι
  ramdisk : Bytes
  got : ι → Bytes
  signalled : ι → Bool
  pc : ι → Pc

inductive Act (ι : Type)
  | enqueue (i : ι)
  | test (i : ι)
  | wakened (i : ι)
  | spurious (i : ι)
  | signal (i : ι)
  | clear (i : ι)
  | generic (i : ι)
  | wake (i : ι)
  | set (i : ι)

def Call.enter (lab : Lab) : Call → Pc
  | .read .. => .enqueue
  | .write .. => .generic
  | .poll => if lab = .poll then .enqueue else .returned (POLLIN ||| POLLRDNORM)

/-- Where a call goes on that has waited, for the flag or until a signal: the readers do not look at
what the macro returned. -/
def Call.waited (lab : Lab) (rval : Int64) : Call → Pc
  | .poll => .returned rval
  | _ => if lab.clears then .clear else .generic

section
variable {ι : Type} [DecidableEq ι] (lab : Lab) (ramdisk_size : UInt64) (call : ι → Call)

omit [DecidableEq ι] in
def init (ramdisk : Bytes) : State ι :=
  ⟨0, WaitQueue.empty, ramdisk, fun _ _ => 0, fun _ => false, fun i => (call i).enter lab⟩

def State.go (s : State ι) (i : ι) (k : Pc) : State ι := { s with pc := Function.update s.pc i k }

omit [DecidableEq ι] in
/-- In lab2_killable only a fatal signal is one. -/
def Enabled (s : State ι) : Act ι → Prop
  | .enqueue i => s.pc i = .enqueue
  | .test i => s.pc i = .test
  | .wakened i => s.pc i = .sleep ∧ s.wq.state i = .running
  | .spurious _ => True
  | .signal _ => True
  | .clear i => s.pc i = .clear
  | .generic i => s.pc i = .generic
  | .wake i => ∃ rval, s.pc i = .wake rval
  | .set i => ∃ rval, s.pc i = .set rval

def next (s : State ι) : Act ι → State ι
  | .enqueue i => { s.go i .test with wq := s.wq.prepare i false lab.sleepState }
  | .test i =>
    if s.data_ready ≠ 0 then
      { s.go i ((call i).waited lab (POLLIN ||| POLLRDNORM)) with wq := s.wq.finish i }
    else if s.signalled i then { s.go i ((call i).waited lab (-EINTR)) with wq := s.wq.finish i }
    else s.go i .sleep
  | .wakened i => s.go i .enqueue
  | .spurious i => { s with wq := s.wq.rouse i }
  | .signal i => { s with signalled := Function.update s.signalled i true, wq := s.wq.rouse i }
  | .clear i => { s.go i .generic with data_ready := 0 }
  | .generic i => match call i with
    | .read fault buf lbuf ppos =>
      let r := LabChar.mycdrv_generic_read ramdisk_size fault s.ramdisk buf lbuf ppos
      { s.go i (.returned r.rval) with got := Function.update s.got i r.bytes }
    | .write fault buf lbuf ppos =>
      let r := LabChar.mycdrv_generic_write ramdisk_size fault s.ramdisk buf lbuf ppos
      { s.go i (if lab.wakesFirst then .wake r.rval else .set r.rval) with ramdisk := r.bytes }
    | .poll => s
  | .wake i => match s.pc i with
    | .wake rval => { s.go i (if lab.wakesFirst then .set rval else .returned rval) with
        wq := s.wq.wake maskInterruptible 1 }
    | _ => s
  | .set i => match s.pc i with
    | .set rval => { s.go i (if lab.wakesFirst then .returned rval else .wake rval) with
        data_ready := 1 }
    | _ => s

def machine : Machine (State ι) (Act ι) := ⟨Enabled, next lab ramdisk_size call⟩

end

section
variable {ι : Type}

/-- Asleep on `wq`, and nobody has woken it. -/
def Asleep (s : State ι) (i : ι) : Prop := s.pc i = .sleep ∧ s.wq.state i ≠ .running

/-- A writer that is about to call `wake_up_interruptible`. -/
def Waking (s : State ι) (w : ι) : Prop := ∃ rval, s.pc w = .wake rval

/-- Somebody sleeps though there is data, and no writer is on its way to wake him. -/
def Stranded (s : State ι) : Prop := s.data_ready ≠ 0 ∧ (∃ i, Asleep s i) ∧ ∀ w, ¬ Waking s w

/-- Where the waking comes first, the flag is set while nobody sleeps, or some other writer is still
to wake him. -/
def InTime (lab : Lab) (s : State ι) : Act ι → Prop
  | .set _ => lab.wakesFirst = true → (∃ i, Asleep s i) → ∃ w, Waking s w
  | _ => True

variable [DecidableEq ι] {lab : Lab} {ramdisk_size : UInt64} {call : ι → Call} {s t : State ι} {i : ι}

omit [DecidableEq ι] in
theorem not_waking {k : Pc} (pc : s.pc i = k) (other : ∀ rval, k ≠ .wake rval) : ¬ Waking s i := by
  rintro ⟨rval, waking⟩
  exact other rval (pc.symm.trans waking)

theorem go_sleeps {k : Pc} {j : ι} (awake : k ≠ .sleep) (sleeps : (s.go i k).pc j = .sleep) :
    s.pc j = .sleep := by
  by_cases hj : j = i
  · subst hj
    exact absurd ((Function.update_self ..).symm.trans sleeps) awake
  · exact (Function.update_of_ne hj ..).symm.trans sleeps

theorem uniform_next (h : s.wq.Uniform lab.sleepState) (a : Act ι) :
    (next lab ramdisk_size call s a).wq.Uniform lab.sleepState := by
  cases a with
  | enqueue i => exact h.prepare i
  | test i =>
    simp only [next]
    split_ifs
    · exact h.finish i
    · exact h.finish i
    · exact h
  | spurious i => exact h.rouse i
  | signal i => exact h.rouse i
  | generic i =>
    simp only [next]
    split <;> exact h
  | wake i =>
    simp only [next]
    split
    · exact h.wake _ _
    · exact h
  | set i =>
    simp only [next]
    split <;> exact h
  | _ => exact h

/-- Whoever sleeps though there is data has a writer on its way to wake him. -/
structure Inv (lab : Lab) (s : State ι) : Prop where
  uniform : s.wq.Uniform lab.sleepState
  roused : s.data_ready ≠ 0 → ∀ i, Asleep s i → ∃ w, Waking s w

omit [DecidableEq ι] in
theorem inv_init (lab : Lab) (call : ι → Call) (ramdisk : Bytes) : Inv lab (init lab call ramdisk) :=
  ⟨WaitQueue.Uniform.empty _, fun set => absurd rfl set⟩

/-- A step of a call that is not about to wake, and that goes to sleep only while there is no
data. -/
theorem roused_moved {k : Pc} (h : Inv lab s) (pc : t.pc = Function.update s.pc i k)
    (calm : ¬ Waking s i) (others : ∀ j ≠ i, t.wq.state j = s.wq.state j)
    (own : t.wq.state i ≠ .running → k = .sleep → t.data_ready = 0)
    (flag : t.data_ready ≠ 0 → s.data_ready ≠ 0) :
    t.data_ready ≠ 0 → ∀ j, Asleep t j → ∃ w, Waking t w := by
  intro set j asleep
  obtain ⟨sleeps, state⟩ := asleep
  by_cases hj : j = i
  · subst hj
    rw [pc, Function.update_self] at sleeps
    exact absurd (own state sleeps) set
  · rw [pc, Function.update_of_ne hj] at sleeps
    rw [others j hj] at state
    obtain ⟨w, rval, waking⟩ := h.roused (flag set) j ⟨sleeps, state⟩
    have hw : w ≠ i := by
      rintro rfl
      exact calm ⟨rval, waking⟩
    exact ⟨w, rval, by rw [pc, Function.update_of_ne hw, waking]⟩

/-- A wake-up that does not come through the queue. -/
theorem roused_rouse (h : Inv lab s) (pc : t.pc = s.pc) (queue : t.wq = s.wq.rouse i)
    (flag : t.data_ready = s.data_ready) :
    t.data_ready ≠ 0 → ∀ j, Asleep t j → ∃ w, Waking t w := by
  intro set j asleep
  obtain ⟨sleeps, state⟩ := asleep
  have hj : j ≠ i := by
    rintro rfl
    rw [queue] at state
    exact state (Function.update_self ..)
  rw [pc] at sleeps
  rw [queue, show (s.wq.rouse i).state j = _ from Function.update_of_ne hj ..] at state
  obtain ⟨w, rval, waking⟩ := h.roused (flag ▸ set) j ⟨sleeps, state⟩
  exact ⟨w, rval, by rw [pc, waking]⟩

theorem roused_next (reached : maskInterruptible lab.sleepState = true) {a : Act ι} (h : Inv lab s)
    (enabled : Enabled s a) (ok : InTime lab s a) :
    let t := next lab ramdisk_size call s a
    t.data_ready ≠ 0 → ∀ j, Asleep t j → ∃ w, Waking t w := by
  have elsewhere : ∀ {i j : ι} {st}, j ≠ i →
      Function.update s.wq.state i st j = s.wq.state j := fun hj => Function.update_of_ne hj ..
  cases a with
  | enqueue i =>
    exact roused_moved h rfl (not_waking enabled nofun) (fun _ hj => elsewhere hj) (fun _ => nofun) id
  | test i =>
    have calm := not_waking enabled nofun
    simp only [next]
    split_ifs with set signalled
    · exact roused_moved h rfl calm (fun _ hj => elsewhere hj)
        (fun asleep => absurd (Function.update_self ..) asleep) id
    · exact roused_moved h rfl calm (fun _ hj => elsewhere hj)
        (fun asleep => absurd (Function.update_self ..) asleep) id
    · exact roused_moved h rfl calm (fun _ _ => rfl) (fun _ _ => not_not.mp set) id
  | wakened i =>
    exact roused_moved h rfl (not_waking enabled.1 nofun) (fun _ _ => rfl) (fun _ => nofun) id
  | spurious i => exact roused_rouse h rfl rfl rfl
  | signal i => exact roused_rouse h rfl rfl rfl
  | clear i => exact fun set => absurd rfl set
  | generic i =>
    have calm := not_waking enabled nofun
    simp only [next]
    split
    · exact roused_moved h rfl calm (fun _ _ => rfl) (fun _ => nofun) id
    · refine roused_moved h rfl calm (fun _ _ => rfl) (fun _ => ?_) id
      split <;> exact nofun
    · exact h.roused
  | wake i =>
    obtain ⟨rval, waking⟩ := enabled
    have running := h.uniform.woken reached 1
    simp only [next, waking]
    exact fun _ j asleep => absurd (running j) asleep.2
  | set i =>
    obtain ⟨rval, setting⟩ := enabled
    simp only [next, setting]
    intro _ j asleep
    obtain ⟨sleeps, state⟩ := asleep
    cases first : lab.wakesFirst with
    | false => exact ⟨i, rval, by simp [State.go]⟩
    | true =>
      have slept := go_sleeps (by rw [first]; exact nofun) sleeps
      obtain ⟨w, rval', waking⟩ := ok first ⟨j, slept, state⟩
      have hw : w ≠ i := by
        rintro rfl
        exact Pc.noConfusion (setting.symm.trans waking)
      exact ⟨w, rval', (Function.update_of_ne hw ..).trans waking⟩

theorem inv_next (reached : maskInterruptible lab.sleepState = true) {a : Act ι} (h : Inv lab s)
    (enabled : Enabled s a) (ok : InTime lab s a) : Inv lab (next lab ramdisk_size call s a) :=
  ⟨uniform_next h.uniform a, roused_next reached h enabled ok⟩

/-- A flag that is set too late strands at once whoever sleeps. -/
theorem stranded_of_late {a : Act ι} (enabled : Enabled s a) (late : ¬ InTime lab s a) :
    Stranded (next lab ramdisk_size call s a) := by
  cases a with
  | set i =>
    obtain ⟨rval, setting⟩ := enabled
    obtain ⟨first, slept⟩ := Classical.not_imp.mp late
    obtain ⟨⟨j, sleeps, state⟩, alone⟩ := Classical.not_imp.mp slept
    simp only [next, setting, first, if_true]
    refine ⟨(by decide : (1 : Int32) ≠ 0), ⟨j, ?_, state⟩, ?_⟩
    · have hj : j ≠ i := by
        rintro rfl
        exact Pc.noConfusion (setting.symm.trans sleeps)
      exact (Function.update_of_ne hj ..).trans sleeps
    · rintro w ⟨rval', waking⟩
      by_cases hw : w = i
      · subst hw
        exact Pc.noConfusion ((Function.update_self ..).symm.trans waking)
      · exact alone ⟨w, rval', (Function.update_of_ne hw ..).symm.trans waking⟩
  | _ => exact absurd trivial late

omit [DecidableEq ι] in
theorem Inv.not_stranded (h : Inv lab s) : ¬ Stranded s := by
  rintro ⟨set, ⟨i, asleep⟩, alone⟩
  obtain ⟨w, waking⟩ := h.roused set i asleep
  exact alone w waking

/-- lab1_wait_event never leaves anybody asleep beside data that is ready, whatever the
interleaving of its readers and writers. In lab3_poll readers and pollers are stranded in the very
runs in which some writer sets the flag, after its own call of `wake_up_interruptible`, while
somebody sleeps and no other writer is about to make that call. -/
theorem never_stranded_iff (signals : lab ≠ .killable) {ramdisk : Bytes} {as : List (Act ι)}
    (h : Run (machine lab ramdisk_size call) (init lab call ramdisk) as s) :
    (Always (machine lab ramdisk_size call) (fun _ t => ¬ Stranded t) (init lab call ramdisk) as ↔
      Meets (machine lab ramdisk_size call) (InTime lab) (init lab call ramdisk) as) ∧
        (lab = .wait_event → ¬ Stranded s) := by
  have reached : maskInterruptible lab.sleepState = true := by
    cases lab with
    | killable => exact absurd rfl signals
    | _ => rfl
  refine ⟨always_iff_meets (I := fun _ t => Inv lab t) (inv_init lab call ramdisk)
    (fun _ _ _ inv enabled ok => inv_next reached inv enabled ok) (fun _ _ inv => inv.not_stranded)
    (fun _ _ _ _ enabled late => not_not_intro (stranded_of_late enabled late)) h, fun first => ?_⟩
  subst first
  have inv : Inv .wait_event s := by
    refine run_invariant (inv_init .wait_event call ramdisk)
      (fun t a inv enabled => inv_next reached inv enabled ?_) h
    cases a with
    | set i => exact nofun
    | _ => trivial
  exact inv.not_stranded

/-- What the wake calls of lab2_killable do to a reader that sleeps: nothing. -/
theorem sleeps_on {a : Act ι} (asleep : Asleep s i) (killable : s.wq.state i = .killable)
    (enabled : Enabled s a) (left : a ≠ .signal i ∧ a ≠ .spurious i) :
    Asleep (next .killable ramdisk_size call s a) i ∧
      (next .killable ramdisk_size call s a).wq.state i = .killable := by
  obtain ⟨sleeps, _⟩ := asleep
  suffices kept : (next .killable ramdisk_size call s a).pc i = .sleep ∧
      (next .killable ramdisk_size call s a).wq.state i = .killable from
    ⟨⟨kept.1, by rw [kept.2]; exact nofun⟩, kept.2⟩
  have other : ∀ {j k}, s.pc j = k → k ≠ .sleep → i ≠ j := by
    rintro j k pc busy rfl
    exact busy (pc.symm.trans sleeps)
  have pc : ∀ {j} (_ : i ≠ j) (k : Pc), Function.update s.pc j k i = .sleep :=
    fun hj k => (Function.update_of_ne hj ..).trans sleeps
  have state : ∀ {j} (_ : i ≠ j) (st : TaskState),
      Function.update s.wq.state j st i = .killable :=
    fun hj st => (Function.update_of_ne hj ..).trans killable
  cases a with
  | enqueue j =>
    have hj := other enabled nofun
    exact ⟨pc hj _, state hj _⟩
  | test j =>
    have hj := other enabled nofun
    simp only [next]
    split_ifs
    · exact ⟨pc hj _, state hj _⟩
    · exact ⟨pc hj _, state hj _⟩
    · exact ⟨pc hj _, killable⟩
  | wakened j =>
    have hj : i ≠ j := by
      rintro rfl
      exact TaskState.noConfusion (killable.symm.trans enabled.2)
    exact ⟨pc hj _, killable⟩
  | spurious j => exact ⟨sleeps, state (fun same => left.2 (same ▸ rfl)) _⟩
  | signal j => exact ⟨sleeps, state (fun same => left.1 (same ▸ rfl)) _⟩
  | clear j => exact ⟨pc (other enabled nofun) _, killable⟩
  | generic j =>
    have hj := other enabled nofun
    simp only [next]
    split
    · exact ⟨pc hj _, killable⟩
    · exact ⟨pc hj _, killable⟩
    · exact ⟨sleeps, killable⟩
  | wake j =>
    obtain ⟨rval, waking⟩ := enabled
    simp only [next, waking]
    refine ⟨pc (other waking nofun) _, ?_⟩
    exact (wakeWalk_skips (by rw [killable]; rfl)).trans killable
  | set j =>
    obtain ⟨rval, setting⟩ := enabled
    simp only [next, setting]
    exact ⟨pc (other setting nofun) _, killable⟩

/-- In lab2_killable a reader that has gone to sleep is not woken by any write, ever: only a fatal
signal, or a wake-up that nobody asked for, ends its sleep. -/
theorem killable_sleeps_on {ramdisk : Bytes} {as : List (Act ι)}
    (h : Run (machine .killable ramdisk_size call) (init .killable call ramdisk) as s)
    (asleep : Asleep s i) {bs : List (Act ι)} (rest : Run (machine .killable ramdisk_size call) s bs t)
    (left : ∀ a ∈ bs, a ≠ .signal i ∧ a ≠ .spurious i) : Asleep t i := by
  have uniform : s.wq.Uniform (Lab.sleepState .killable) :=
    run_invariant (I := fun t : State ι => t.wq.Uniform (Lab.sleepState .killable))
      (WaitQueue.Uniform.empty _) (fun _ a inv _ => uniform_next inv a) h
  suffices kept : Asleep t i ∧ t.wq.state i = .killable from kept.1
  induction rest with
  | start => exact ⟨asleep, uniform.covered i asleep.2⟩
  | next _ enabled ih =>
    obtain ⟨still, killable⟩ := ih fun a ha => left a (List.mem_append_left _ ha)
    exact sleeps_on still killable enabled (left _ (List.mem_append_right _ List.mem_cons_self))

end

/-- In lab3_poll the reader is woken before the flag is set, finds it down and sleeps again. -/
theorem never_stranded_iff_poll :
    let call : Fin 2 → Call := fun i =>
      if i = 0 then .read none (fun _ => 0) 4 0 else .write none (fun _ => 7) 4 0
    let as : List (Act (Fin 2)) := [.enqueue 0, .test 0, .generic 1, .wake 1, .wakened 0, .enqueue 0,
      .test 0, .set 1]
    ¬ Always (machine .poll 65536 call) (fun _ t => ¬ Stranded t) (init .poll call fun _ => 0) as := by
  intro call as
  have run : Run (machine .poll 65536 call) (init .poll call fun _ => 0) as _ :=
    run_of_admits ⟨rfl, rfl, rfl, ⟨_, rfl⟩, ⟨rfl, rfl⟩, rfl, rfl, ⟨_, rfl⟩, trivial⟩
  intro always
  have inTime := (never_stranded_iff (by decide) run).1.mp always
  have before : Run (machine .poll 65536 call) (init .poll call fun _ => 0) (as.take 7) _ :=
    run_of_admits ⟨rfl, rfl, rfl, ⟨_, rfl⟩, ⟨rfl, rfl⟩, rfl, rfl, trivial⟩
  obtain ⟨w, rval, waking⟩ := inTime (as.take 7) (.set 1) [] _ rfl before rfl ⟨0, rfl, nofun⟩
  match w with
  | 0 => cases waking
  | 1 => cases waking

/-- The reader sleeps before the write and behind it. -/
theorem killable_sleeps_on_written :
    let call : Fin 2 → Call := fun i =>
      if i = 0 then .read none (fun _ => 0) 4 0 else .write none (fun _ => 7) 4 0
    let s := (machine .killable 65536 call).replay (init .killable call fun _ => 0)
      [.enqueue 0, .test 0]
    Asleep ((machine .killable 65536 call).replay s [.generic 1, .set 1, .wake 1]) 0 := by
  intro call s
  have run : Run (machine .killable 65536 call) (init .killable call fun _ => 0)
      [.enqueue 0, .test 0] s := run_of_admits ⟨rfl, rfl, trivial⟩
  have rest : Run (machine .killable 65536 call) s [.generic 1, .set 1, .wake 1] _ :=
    run_of_admits ⟨rfl, ⟨_, rfl⟩, ⟨_, rfl⟩, trivial⟩
  refine killable_sleeps_on run ⟨rfl, nofun⟩ rest fun a ha => ?_
  simp only [List.mem_cons, List.not_mem_nil, or_false] at ha
  rcases ha with rfl | rfl | rfl <;> exact ⟨nofun, nofun⟩

end DeviceDriverEx.LabWait
