import DeviceDriverEx.Decimal
import DeviceDriverEx.Machine
import DeviceDriverEx.NirqCounters
import DeviceDriverEx.WaitQueue
import Mathlib.Algebra.Order.BigOperators.Group.List
import Mathlib.Algebra.Ring.Int.Defs

namespace DeviceDriverEx.Uio

def EIO : Int64 := 5
def ERESTARTSYS : Int64 := 512

/-- What a call of `mycdrv_read` executes next; the first three are the loop of the wait macro. It
keeps `nev`. -/
inductive Pc
  | enqueue
  | test
  | sleep
  | check
  | load
  | sub (nev : Int32)
  | copy (nev : Int32)
  | returned (rval : Int64) (ret_str : List UInt8) (nev : Option Int32)

/-- A reader that has taken some events has taken one at least, and tells its user how many. -/
def Pc.Told : Pc → Prop
  | sub nev | copy nev => 0 < nev.toInt
  | returned rval ret_str (some nev) =>
    0 < nev.toInt ∧ ret_str = decimal nev.toInt ∧ rval = Int64.ofNat ret_str.length
  | _ => True

/-- `loaded`: `my_init` has come past `atomic_set`. `waking`: `my_interrupt` has counted its
interrupt and is about to wake the readers. `taken` is what has been subtracted from `nevents`. -/
structure State (ι : Type) where
  loaded : Bool
  nevents : Int32
  waking : Bool
  wq : WaitQueue ι
  signalled : ι → Bool
  pc : ι → Pc
  taken : List Int32

inductive Act (ι : Type)
  | atomic_set
  | interrupt
  | wake
  | enqueue (i : ι)
  | test (i : ι)
  | wakened (i : ι)
  | spurious (i : ι)
  | signal (i : ι)
  | check (i : ι)
  | load (i : ι)
  | sub (i : ι)
  | copy (i : ι) (fault : Bool)
  | again (i : ι)

def Act.isInterrupt {ι : Type} : Act ι → Bool
  | interrupt => true
  | _ => false

/-- `my_init` behind its `request_irq`. -/
def init {ι : Type} : State ι :=
  ⟨false, 0, false, WaitQueue.empty, fun _ => false, fun _ => .enqueue, []⟩

section
variable {ι : Type} [DecidableEq ι]

def State.go (s : State ι) (i : ι) (k : Pc) : State ι := { s with pc := Function.update s.pc i k }

omit [DecidableEq ι] in
/-- The device is registered behind `atomic_set`. The handler of one interrupt is not called again
before it has returned. -/
def Enabled (s : State ι) : Act ι → Prop
  | .atomic_set => s.loaded = false
  | .interrupt => s.waking = false
  | .wake => s.waking = true
  | .enqueue i => s.pc i = .enqueue ∧ s.loaded = true
  | .test i => s.pc i = .test
  | .wakened i => s.pc i = .sleep ∧ s.wq.state i = .running
  | .spurious _ => True
  | .signal _ => True
  | .check i => s.pc i = .check
  | .load i => s.pc i = .load
  | .sub i => ∃ nev, s.pc i = .sub nev
  | .copy i _ => ∃ nev, s.pc i = .copy nev
  | .again i => ∃ rval ret_str nev, s.pc i = .returned rval ret_str nev

/-- `copy_to_user` is asked for as many bytes as the number has, whatever `lbuf` is. A process that
reads again has handled its signals. -/
def next (s : State ι) : Act ι → State ι
  | .atomic_set => { s with nevents := 0, loaded := true }
  | .interrupt => { s with nevents := atomic_inc s.nevents, waking := true }
  | .wake => { s with wq := s.wq.wake maskInterruptible 1, waking := false }
  | .enqueue i => { s.go i .test with wq := s.wq.prepare i false .interruptible }
  | .test i =>
    if s.nevents > 0 ∨ s.signalled i = true then { s.go i .check with wq := s.wq.finish i }
    else s.go i .sleep
  | .wakened i => s.go i .enqueue
  | .spurious i => { s with wq := s.wq.rouse i }
  | .signal i => { s with signalled := Function.update s.signalled i true, wq := s.wq.rouse i }
  | .check i => s.go i (if s.signalled i then .returned (-ERESTARTSYS) [] none else .load)
  | .load i => s.go i (.sub s.nevents)
  | .sub i => match s.pc i with
    | .sub nev => { s.go i (.copy nev) with nevents := s.nevents - nev, taken := nev :: s.taken }
    | _ => s
  | .copy i fault => match s.pc i with
    | .copy nev =>
      let ret_str := decimal nev.toInt
      s.go i (if fault then .returned (- EIO) [] (some nev)
        else .returned (Int64.ofNat ret_str.length) ret_str (some nev))
    | _ => s
  | .again i => { s.go i .enqueue with signalled := Function.update s.signalled i false }

def machine : Machine (State ι) (Act ι) := ⟨Enabled, next⟩

omit [DecidableEq ι] in
def Asleep (s : State ι) (i : ι) : Prop := s.pc i = .sleep ∧ s.wq.state i ≠ .running

omit [DecidableEq ι] in
/-- Each event has been taken by one reader or is still counted; who takes events tells its user of
them; and nobody sleeps beside an event unless the handler is about to wake him. -/
structure Accounted (as : List (Act ι)) (s : State ι) : Prop where
  sum : (s.taken.map Int32.toInt).sum + s.nevents.toInt = as.countP Act.isInterrupt
  nonneg : 0 ≤ s.nevents.toInt
  taken : ∀ v ∈ s.taken, 0 < v.toInt
  told : ∀ i, (s.pc i).Told
  roused : 0 < s.nevents.toInt → (∃ i, Asleep s i) → s.waking = true

/-- `my_init` finds nothing counted, the counter does not run over, a reader finds an event when it
loads `nevents` and subtracts no more than is there, and its copy does not fault. -/
def InTurn (s : State ι) : Act ι → Prop
  | .atomic_set => s.nevents = 0
  | .interrupt => s.nevents.toInt < 2 ^ 31 - 1
  | .load _ => 0 < s.nevents.toInt
  | .sub i => ∀ v, s.pc i = .sub v → v.toInt ≤ s.nevents.toInt
  | .copy _ fault => fault = false
  | _ => True

/-- What a single reader has to be spared. -/
def Spared (s : State ι) : Act ι → Prop
  | .atomic_set => s.nevents = 0
  | .copy _ fault => fault = false
  | _ => True

omit [DecidableEq ι] in
instance (s : State ι) : ∀ a, Decidable (Spared s a)
  | .atomic_set => inferInstanceAs (Decidable (s.nevents = 0))
  | .copy _ fault => inferInstanceAs (Decidable (fault = false))
  | .interrupt | .wake | .enqueue _ | .test _ | .wakened _ | .spurious _ | .signal _ | .check _
  | .load _ | .sub _ | .again _ => isTrue trivial

variable {as : List (Act ι)} {s t : State ι} {i : ι}

omit [DecidableEq ι] in
theorem accounted_init : Accounted ([] : List (Act ι)) init := by
  refine ⟨rfl, Int.le_refl 0, nofun, fun _ => trivial, fun pending => ?_⟩
  exact absurd pending (Int.lt_irrefl 0)

theorem uniform_next (h : s.wq.Uniform .interruptible) (a : Act ι) :
    (next s a).wq.Uniform .interruptible := by
  cases a with
  | wake => exact h.wake _ _
  | enqueue i => exact h.prepare i
  | test i =>
    simp only [next]
    split_ifs
    · exact h.finish i
    · exact h
  | spurious i => exact h.rouse i
  | signal i => exact h.rouse i
  | sub i =>
    simp only [next]
    split <;> exact h
  | copy i fault =>
    simp only [next]
    split <;> exact h
  | _ => exact h

/-- Nobody sleeps behind a step of call `i` who did not sleep before it. -/
theorem asleep_before {k : Pc} (pc : t.pc = Function.update s.pc i k)
    (others : ∀ j ≠ i, t.wq.state j = s.wq.state j) (awake : k ≠ .sleep)
    (h : ∃ j, Asleep t j) : ∃ j, Asleep s j := by
  obtain ⟨j, sleeps, state⟩ := h
  rw [pc] at sleeps
  have hj : j ≠ i := by
    rintro rfl
    exact awake ((Function.update_self ..).symm.trans sleeps)
  rw [Function.update_of_ne hj] at sleeps
  exact ⟨j, sleeps, others j hj ▸ state⟩

theorem Accounted.told_go {k : Pc} (h : Accounted as s) (pc : t.pc = Function.update s.pc i k)
    (told : k.Told) (j : ι) : (t.pc j).Told := by
  rw [pc]
  by_cases hj : j = i
  · subst hj
    rw [Function.update_self]
    exact told
  · rw [Function.update_of_ne hj]
    exact h.told j

/-- A step that changes neither what is counted nor what has been taken. -/
theorem Accounted.moved {a : Act ι} {k : Pc} (h : Accounted as s) (quiet : a.isInterrupt = false)
    (pc : t.pc = Function.update s.pc i k) (told : k.Told) (awake : k ≠ .sleep)
    (others : ∀ j ≠ i, t.wq.state j = s.wq.state j) (nevents : t.nevents = s.nevents)
    (taken : t.taken = s.taken) (waking : t.waking = s.waking) : Accounted (as ++ [a]) t := by
  refine ⟨?_, nevents ▸ h.nonneg, taken ▸ h.taken, h.told_go pc told, fun pending sleepers => ?_⟩
  · rw [taken, nevents, h.sum, count_other quiet]
  · rw [waking]
    exact h.roused (nevents ▸ pending) (asleep_before pc others awake sleepers)

/-- A wake-up that does not come through the queue. -/
theorem Accounted.roused_by {a : Act ι} (h : Accounted as s) (quiet : a.isInterrupt = false)
    (pc : t.pc = s.pc) (queue : t.wq = s.wq.rouse i) (nevents : t.nevents = s.nevents)
    (taken : t.taken = s.taken) (waking : t.waking = s.waking) : Accounted (as ++ [a]) t := by
  refine ⟨?_, nevents ▸ h.nonneg, taken ▸ h.taken, pc ▸ h.told, fun pending sleepers => ?_⟩
  · rw [taken, nevents, h.sum, count_other quiet]
  · obtain ⟨j, sleeps, state⟩ := sleepers
    rw [queue] at state
    have hj : j ≠ i := by
      rintro rfl
      exact state (Function.update_self ..)
    rw [show (s.wq.rouse i).state j = _ from Function.update_of_ne hj ..] at state
    rw [waking]
    exact h.roused (nevents ▸ pending) ⟨j, pc ▸ sleeps, state⟩

theorem atomic_sub_toInt {m n : Int32} (nonneg : 0 ≤ m.toInt) (pos : 0 < n.toInt) :
    (m - n).toInt = m.toInt - n.toInt := by
  have hm := Int32.toInt_lt m
  have hn := Int32.toInt_lt n
  rw [Int32.toInt_sub]
  exact Int.bmod_eq_of_le (by simp; omega) (by simp; omega)

theorem accounted_next {a : Act ι} (h : Accounted as s) (uniform : s.wq.Uniform .interruptible)
    (enabled : Enabled s a) (ok : InTurn s a) : Accounted (as ++ [a]) (next s a) := by
  have elsewhere : ∀ {i j : ι} {st}, j ≠ i →
      Function.update s.wq.state i st j = s.wq.state j := fun hj => Function.update_of_ne hj ..
  cases a with
  | atomic_set =>
    have zero : s.nevents = 0 := ok
    have sum := h.sum
    rw [zero] at sum
    exact ⟨by rw [count_other rfl]; exact sum, Int.le_refl 0, h.taken, h.told,
      fun pending => absurd pending (Int.lt_irrefl 0)⟩
  | interrupt =>
    have more := atomic_inc_toInt (v := s.nevents) (by exact ok)
    refine ⟨?_, ?_, h.taken, h.told, fun _ _ => rfl⟩
    · rw [count_one rfl]
      have sum := h.sum
      simp only [next, more]
      omega
    · have nonneg := h.nonneg
      simp only [next, more]
      omega
  | wake =>
    refine ⟨by rw [count_other rfl]; exact h.sum, h.nonneg, h.taken, h.told, fun _ sleepers => ?_⟩
    obtain ⟨j, _, state⟩ := sleepers
    exact absurd (uniform.woken rfl 1 j) state
  | enqueue i => exact h.moved rfl rfl trivial nofun (fun _ hj => elsewhere hj) rfl rfl rfl
  | test i =>
    simp only [next]
    split_ifs with found
    · exact h.moved rfl rfl trivial nofun (fun _ hj => elsewhere hj) rfl rfl rfl
    · have empty : ¬ 0 < s.nevents.toInt := fun pending =>
        found (Or.inl (Int32.lt_iff_toInt_lt.mpr pending))
      exact ⟨by rw [count_other rfl]; exact h.sum, h.nonneg, h.taken, h.told_go rfl trivial,
        fun pending => absurd pending empty⟩
  | wakened i => exact h.moved rfl rfl trivial nofun (fun _ _ => rfl) rfl rfl rfl
  | spurious i => exact h.roused_by rfl rfl rfl rfl rfl rfl
  | signal i => exact h.roused_by rfl rfl rfl rfl rfl rfl
  | check i =>
    refine h.moved rfl rfl ?_ ?_ (fun _ _ => rfl) rfl rfl rfl
    · split <;> exact trivial
    · split <;> exact nofun
  | load i => exact h.moved rfl rfl ok nofun (fun _ _ => rfl) rfl rfl rfl
  | sub i =>
    obtain ⟨nev, subs⟩ := enabled
    have told := h.told i
    rw [subs] at told
    have pos : 0 < nev.toInt := told
    have fewer := atomic_sub_toInt h.nonneg pos
    have enough : nev.toInt ≤ s.nevents.toInt := ok nev subs
    have sum := h.sum
    simp only [next, subs]
    refine ⟨?_, ?_, List.forall_mem_cons.mpr ⟨pos, h.taken⟩, h.told_go rfl pos,
      fun pending sleepers => ?_⟩
    · rw [count_other rfl]
      simp only [List.map_cons, List.sum_cons, fewer]
      omega
    · rw [fewer]
      omega
    · simp only [fewer] at pending
      refine h.roused (by omega) (asleep_before (i := i) (k := .copy nev) ?_ ?_ ?_ sleepers)
      · rfl
      · exact fun _ _ => rfl
      · exact nofun
  | copy i fault =>
    obtain ⟨nev, copies⟩ := enabled
    have told := h.told i
    rw [copies] at told
    have whole : fault = false := ok
    simp only [next, copies, whole]
    exact h.moved rfl rfl ⟨told, rfl, rfl⟩ nofun (fun _ _ => rfl) rfl rfl rfl
  | again i => exact h.moved rfl rfl trivial nofun (fun _ _ => rfl) rfl rfl rfl

/-- A step out of turn shows at once. -/
theorem not_accounted {a : Act ι} (h : Accounted as s) (enabled : Enabled s a)
    (bad : ¬ InTurn s a) : ¬ Accounted (as ++ [a]) (next s a) := by
  intro after
  cases a with
  | atomic_set =>
    have before := h.sum
    have now := after.sum
    rw [count_other rfl] at now
    change (s.taken.map Int32.toInt).sum + 0 = _ at now
    have zero : s.nevents.toInt = 0 := by omega
    exact bad (Int32.toInt_inj.mp zero)
  | interrupt =>
    have top : s.nevents.toInt = 2 ^ 31 - 1 := by
      have le := Int32.toInt_lt s.nevents
      have full : ¬ s.nevents.toInt < 2 ^ 31 - 1 := bad
      omega
    have wrapped : (atomic_inc s.nevents).toInt = -2 ^ 31 := by
      rw [atomic_inc, Int32.toInt_add, top]
      rfl
    have nonneg : 0 ≤ (atomic_inc s.nevents).toInt := after.nonneg
    rw [wrapped] at nonneg
    exact absurd nonneg (by decide)
  | load i =>
    have told := after.told i
    rw [show (next s (.load i)).pc i = .sub s.nevents from Function.update_self ..] at told
    exact bad told
  | sub i =>
    obtain ⟨nev, subs⟩ := enabled
    have told := h.told i
    rw [subs] at told
    have fewer := atomic_sub_toInt h.nonneg told
    have nonneg := after.nonneg
    simp only [next, subs] at nonneg
    rw [fewer] at nonneg
    refine bad fun v hv => ?_
    obtain rfl := Pc.sub.inj (subs.symm.trans hv)
    omega
  | copy i fault =>
    -- the user of a reader whose copy faults is told nothing of what it has taken
    obtain ⟨nev, copies⟩ := enabled
    have faults : fault = true := Bool.eq_true_of_not_eq_false bad
    have told := after.told i
    have here : (next s (.copy i fault)).pc i = .returned (- EIO) [] (some nev) := by
      simp only [next, copies, faults, if_true]
      exact Function.update_self ..
    rw [here] at told
    exact absurd told.2.2 (by decide)
  | _ => exact bad trivial

structure Inv (as : List (Act ι)) (s : State ι) : Prop where
  accounted : Accounted as s
  uniform : s.wq.Uniform .interruptible

/-- The events are accounted for in the very runs in which `my_init` finds none counted, each reader
finds one when it loads `nevents` and subtracts no more than is there, no copy faults, and the
counter does not run over. -/
theorem events_told_once_iff {as : List (Act ι)} {s : State ι} (h : Run machine init as s) :
    Always machine Accounted (init : State ι) as ↔ Meets machine InTurn (init : State ι) as :=
  always_iff_meets (I := Inv) ⟨accounted_init, WaitQueue.Uniform.empty _⟩
    (fun _ _ a inv enabled ok =>
      ⟨accounted_next inv.accounted inv.uniform enabled ok, uniform_next inv.uniform a⟩)
    (fun _ _ inv => inv.accounted)
    (fun _ _ _ inv enabled bad => not_accounted inv.accounted enabled bad) h

/-- What a reader knows that has no rival. -/
structure Alone (s : State ι) : Prop where
  found : ∀ i, s.pc i = .check → s.signalled i = false → 0 < s.nevents.toInt
  loads : ∀ i, s.pc i = .load → 0 < s.nevents.toInt
  subs : ∀ i v, s.pc i = .sub v → v.toInt ≤ s.nevents.toInt

omit [DecidableEq ι] in
theorem Alone.inTurn {a : Act ι} (h : Alone s) (enabled : Enabled s a) (spared : Spared s a)
    (room : a.isInterrupt = true → s.nevents.toInt < 2 ^ 31 - 1) : InTurn s a := by
  cases a with
  | atomic_set => exact spared
  | copy i fault => exact spared
  | interrupt => exact room rfl
  | load i => exact h.loads i enabled
  | sub i =>
    exact fun v subs => h.subs i v subs
  | _ => trivial

/-- A step of the reader, which leaves the counter to the handler. -/
theorem Alone.moved [Subsingleton ι] {k : Pc} (pc : t.pc = Function.update s.pc i k)
    (found : k = .check → t.signalled i = false → 0 < t.nevents.toInt)
    (loads : k = .load → 0 < t.nevents.toInt)
    (subs : ∀ v, k = .sub v → v.toInt ≤ t.nevents.toInt) : Alone t := by
  have own : ∀ j, t.pc j = k := by
    intro j
    rw [pc, Subsingleton.elim j i, Function.update_self]
  refine ⟨fun j checks => ?_, fun j loading => loads ((own j).symm.trans loading),
    fun j v subtracts => subs v ((own j).symm.trans subtracts)⟩
  rw [Subsingleton.elim j i]
  exact found ((own j).symm.trans checks)

theorem alone_next [Subsingleton ι] {a : Act ι} (h : Alone s) (enabled : Enabled s a)
    (spared : Spared s a) (room : a.isInterrupt = true → s.nevents.toInt < 2 ^ 31 - 1) :
    Alone (next s a) := by
  cases a with
  | atomic_set =>
    have same : (next s .atomic_set).nevents = s.nevents := spared.symm
    exact ⟨same ▸ h.found, same ▸ h.loads, same ▸ h.subs⟩
  | interrupt =>
    have more : (next s .interrupt).nevents.toInt = s.nevents.toInt + 1 :=
      atomic_inc_toInt (room rfl)
    refine ⟨fun i checks calm => ?_, fun i loading => ?_, fun i v subtracts => ?_⟩ <;> rw [more]
    · have found := h.found i checks calm
      omega
    · have loads := h.loads i loading
      omega
    · have subs := h.subs i v subtracts
      omega
  | wake => exact ⟨h.found, h.loads, h.subs⟩
  | enqueue i => exact Alone.moved (i := i) (k := .test) rfl nofun nofun nofun
  | test i =>
    simp only [next]
    split_ifs with found
    · refine Alone.moved (i := i) (k := .check) rfl (fun _ calm => ?_) nofun nofun
      rcases found with pending | signalled
      · exact Int32.lt_iff_toInt_lt.mp pending
      · exact absurd (calm.symm.trans signalled) Bool.false_ne_true
    · exact Alone.moved (i := i) (k := .sleep) rfl nofun nofun nofun
  | wakened i => exact Alone.moved (i := i) (k := .enqueue) rfl nofun nofun nofun
  | spurious i => exact ⟨h.found, h.loads, h.subs⟩
  | signal i =>
    refine ⟨fun j checks calm => ?_, h.loads, h.subs⟩
    rw [Subsingleton.elim j i] at calm
    exact absurd ((Function.update_self ..).symm.trans calm) nofun
  | check i =>
    cases signalled : s.signalled i with
    | true =>
      simp only [next, signalled, if_true]
      exact Alone.moved (i := i) rfl nofun nofun nofun
    | false =>
      simp only [next, signalled]
      exact Alone.moved (i := i) (k := .load) rfl nofun (fun _ => h.found i enabled signalled) nofun
  | load i =>
    refine Alone.moved (i := i) (k := .sub s.nevents) rfl nofun nofun fun v same => ?_
    obtain rfl := Pc.sub.inj same
    exact Int.le_refl _
  | sub i =>
    obtain ⟨nev, subs⟩ := enabled
    simp only [next, subs]
    exact Alone.moved (i := i) (k := .copy nev) rfl nofun nofun nofun
  | copy i fault =>
    obtain ⟨nev, copies⟩ := enabled
    simp only [next, copies]
    refine Alone.moved (i := i) (s := s) rfl ?_ ?_ ?_ <;> split <;> exact nofun
  | again i => exact Alone.moved (i := i) (k := .enqueue) rfl nofun nofun nofun

theorem alone_run [Subsingleton ι] {as : List (Act ι)} {s : State ι}
    (few : as.countP Act.isInterrupt < 2 ^ 31) (h : Run machine init as s)
    (spared : Meets machine Spared (init : State ι) as) :
    Inv as s ∧ Alone s ∧ Meets machine InTurn (init : State ι) as := by
  induction h with
  | start =>
    exact ⟨⟨accounted_init, WaitQueue.Uniform.empty _⟩, ⟨nofun, nofun, nofun⟩, meets_nil⟩
  | @next as s a previous enabled ih =>
    have fewer : as.countP Act.isInterrupt ≤ (as ++ [a]).countP Act.isInterrupt := by
      rw [List.countP_append]
      exact Nat.le_add_right ..
    obtain ⟨inv, alone, turns⟩ := ih (Nat.lt_of_le_of_lt fewer few) (meets_before spared)
    have room : a.isInterrupt = true → s.nevents.toInt < 2 ^ 31 - 1 := by
      intro counts
      have sum := inv.accounted.sum
      have taken : 0 ≤ (s.taken.map Int32.toInt).sum := by
        refine List.sum_nonneg fun v hv => ?_
        obtain ⟨n, hn, rfl⟩ := List.mem_map.mp hv
        exact Int.le_of_lt (inv.accounted.taken n hn)
      rw [count_one counts] at few
      omega
    have sparedNow := meets_last spared previous
    have ok := alone.inTurn enabled sparedNow room
    exact ⟨⟨accounted_next inv.accounted inv.uniform enabled ok, uniform_next inv.uniform a⟩,
      alone_next alone enabled sparedNow room, meets_concat turns previous ok⟩

/-- A single reader is told of each interrupt once and does not sleep through any, exactly if none is
counted before `my_init` stores 0 and no copy faults. -/
theorem single_reader_told_once [Subsingleton ι] {as : List (Act ι)} {s : State ι}
    (few : as.countP Act.isInterrupt < 2 ^ 31) (h : Run machine init as s) :
    Always machine Accounted (init : State ι) as ↔ Meets machine Spared (init : State ι) as := by
  rw [events_told_once_iff h]
  refine ⟨fun turns pre a post t split run => ?_, fun spared => (alone_run few h spared).2.2⟩
  have ok := turns pre a post t split run
  cases a with
  | atomic_set => exact ok
  | copy i fault => exact ok
  | _ => trivial

end

/-- Two readers are told of the same event, and the next one is told to nobody. -/
theorem events_told_once_iff_twice :
    let as : List (Act (Fin 2)) := [.atomic_set, .interrupt, .wake, .enqueue 0, .test 0, .check 0,
      .load 0, .enqueue 1, .test 1, .check 1, .load 1, .sub 0, .sub 1]
    ¬ Always machine Accounted init as := by
  intro as
  have run : Run machine init as _ := run_of_admits ⟨rfl, rfl, rfl, ⟨rfl, rfl⟩, rfl, rfl, rfl,
    ⟨rfl, rfl⟩, rfl, rfl, rfl, ⟨_, rfl⟩, ⟨_, rfl⟩, trivial⟩
  intro always
  have before : Run machine init (as.take 12) _ := run_of_admits ⟨rfl, rfl, rfl, ⟨rfl, rfl⟩, rfl,
    rfl, rfl, ⟨rfl, rfl⟩, rfl, rfl, rfl, ⟨_, rfl⟩, trivial⟩
  have inTurn := (events_told_once_iff run).mp always (as.take 12) (.sub 1) [] _ rfl before 1 rfl
  exact absurd inTurn (by decide)

/-- Two interrupts come before the reader, who is told of both, and of a third when it reads again. -/
theorem single_reader_told_once_again :
    let as : List (Act (Fin 1)) := [.atomic_set, .interrupt, .wake, .interrupt, .wake, .enqueue 0,
      .test 0, .check 0, .load 0, .sub 0, .interrupt, .copy 0 false, .wake, .again 0, .enqueue 0,
      .test 0, .check 0, .load 0, .sub 0]
    let s := machine.replay init as
    Accounted as s ∧ s.taken = [1, 2] := by
  intro as s
  have run : Run machine init as s := run_of_admits ⟨rfl, rfl, rfl, rfl, rfl, ⟨rfl, rfl⟩, rfl, rfl,
    rfl, ⟨_, rfl⟩, rfl, ⟨_, rfl⟩, rfl, ⟨_, _, _, rfl⟩, ⟨rfl, rfl⟩, rfl, rfl, rfl, ⟨_, rfl⟩, trivial⟩
  have spared : Meets machine Spared init as := meets_of_replay (by decide)
  exact ⟨always_last ((single_reader_told_once (by decide) run).mpr spared) run, rfl⟩

end DeviceDriverEx.Uio
