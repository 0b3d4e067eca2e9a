import DeviceDriverEx.ExclWait

namespace DeviceDriverEx.LabComplete

/-- What a call executes next. Whoever is `queued` is in `wait_for_completion`, asleep or woken. -/
inductive Pc
  | wait
  | queued (asleep : Bool)
  | generic
  | complete (rval : Int64)
  | returned (rval : Int64)
  deriving DecidableEq

namespace Pc

def asleep : Pc → Bool
  | queued true => true
  | _ => false

def woken : Pc → Bool
  | queued false => true
  | _ => false

/-- A reader that has come through `wait_for_completion`. -/
def past : Pc → Bool
  | generic | returned _ => true
  | _ => false

/-- A writer that has called `complete`. -/
def isReturned : Pc → Bool
  | returned _ => true
  | _ => false

/-- Where a reader can be, or a writer. -/
def suits (reads : Bool) : Pc → Bool
  | wait | queued _ => reads
  | complete _ => !reads
  | generic | returned _ => true

end Pc

/-- The callers of `s_19/lab1_complete.c`. `done` and `waiters` make up the completion `my_wait`,
its queue from the head on. -/
structure State (ι : Type) where
  done : Nat
  waiters : List ι
  ramdisk : Bytes
  got : ι → Bytes
  pc : ι → Pc

inductive Act (ι : Type)
  | wait (i : ι)
  | wakened (i : ι)
  | spurious (i : ι)
  | generic (i : ι)
  | complete (i : ι)

def enter : ExclWait.Call → Pc
  | .read .. => .wait
  | .write .. => .generic

def isRead : ExclWait.Call → Bool
  | .read .. => true
  | .write .. => false

section
variable {ι : Type} [DecidableEq ι] (ramdisk_size : UInt64) (call : ι → ExclWait.Call)

omit [DecidableEq ι] in
def init (ramdisk : Bytes) : State ι := ⟨0, [], ramdisk, fun _ _ => 0, fun i => enter (call i)⟩

def State.go (s : State ι) (i : ι) (k : Pc) : State ι := { s with pc := Function.update s.pc i k }

omit [DecidableEq ι] in
def Enabled (s : State ι) : Act ι → Prop
  | .wait i => s.pc i = .wait
  | .wakened i => s.pc i = .queued false
  | .spurious i => s.pc i = .queued true
  | .generic i => s.pc i = .generic
  | .complete i => ∃ rval, s.pc i = .complete rval

/-- `complete` wakes the first of those asleep; whoever finds `done` first uses it up. -/
def next (s : State ι) : Act ι → State ι
  | .wait i =>
    if s.done ≠ 0 then { s.go i .generic with done := s.done - 1 }
    else { s.go i (.queued true) with waiters := s.waiters ++ [i] }
  | .wakened i =>
    if s.done ≠ 0 then
      { s.go i .generic with done := s.done - 1, waiters := s.waiters.filter (· ≠ i) }
    else s.go i (.queued true)
  | .spurious i => s.go i (.queued false)
  | .generic i => match call i with
    | .read fault buf lbuf ppos =>
      let r := LabChar.mycdrv_generic_read ramdisk_size fault s.ramdisk buf lbuf ppos
      { s.go i (.returned r.rval) with got := Function.update s.got i r.bytes }
    | .write fault buf lbuf ppos =>
      let r := LabChar.mycdrv_generic_write ramdisk_size fault s.ramdisk buf lbuf ppos
      { s.go i (.complete r.rval) with ramdisk := r.bytes }
  | .complete i => match s.pc i with
    | .complete rval =>
      let posted := { s.go i (.returned rval) with done := s.done + 1 }
      match s.waiters.find? fun j => (s.pc j).asleep with
      | none => posted
      | some j => posted.go j (.queued false)
    | _ => s

def machine : Machine (State ι) (Act ι) := ⟨Enabled, next ramdisk_size call⟩

end

/-- Nobody has anything left to do but those who sleep. -/
def Resting {ι : Type} (s : State ι) : Prop :=
  ∀ i, s.pc i = .queued true ∨ ∃ rval, s.pc i = .returned rval

section
variable {ι : Type} [DecidableEq ι] [Fintype ι] {ramdisk_size : UInt64} {call : ι → ExclWait.Call}

omit [DecidableEq ι] in
/-- How many calls read, or write. -/
def callers (call : ι → ExclWait.Call) (reads : Bool) : Nat :=
  tally (fun i => isRead (call i)) reads (fun _ => true) call

omit [DecidableEq ι] in
/-- The readers that have come through the wait. -/
def passed (call : ι → ExclWait.Call) (s : State ι) : Nat :=
  tally (fun i => isRead (call i)) true Pc.past s.pc

omit [DecidableEq ι] in
/-- The callers of one kind that have returned. -/
def returned (call : ι → ExclWait.Call) (reads : Bool) (s : State ι) : Nat :=
  tally (fun i => isRead (call i)) reads Pc.isReturned s.pc

omit [DecidableEq ι] in
def asleep (s : State ι) : Nat := occupancy Pc.asleep s.pc

omit [DecidableEq ι] in
def woken (s : State ι) : Nat := occupancy Pc.woken s.pc

/-- While anyone sleeps there are no more completions left than callers awake to use them. -/
structure Inv (call : ι → ExclWait.Call) (s : State ι) : Prop where
  role : ∀ i, (s.pc i).suits (isRead (call i)) = true
  listed : ∀ i b, s.pc i = .queued b → i ∈ s.waiters
  balance : 0 < asleep s → s.done ≤ woken s
  posted : passed call s + s.done = returned call false s

omit [DecidableEq ι] in
theorem inv_init (ramdisk : Bytes) : Inv call (init call ramdisk) := by
  have start : ∀ i, (enter (call i)).asleep = false ∧ (enter (call i)).isReturned = false ∧
      (enter (call i)).suits (isRead (call i)) = true ∧
      (isRead (call i) = true → (enter (call i)).past = false) ∧
      ∀ b, enter (call i) ≠ .queued b := by
    intro i
    cases call i <;> simp [enter, Pc.asleep, Pc.isReturned, Pc.suits, isRead, Pc.past]
  refine ⟨fun i => (start i).2.2.1, fun i b here => absurd here ((start i).2.2.2.2 b), ?_, ?_⟩
  · intro some_
    have none : asleep (init call ramdisk) = 0 := occupancy_eq_zero fun i => (start i).1
    omega
  · have none : passed call (init call ramdisk) = 0 :=
      tally_zero fun i reads => (start i).2.2.2.1 reads
    have none' : returned call false (init call ramdisk) = 0 :=
      tally_zero fun i _ => (start i).2.1
    rw [none, none']
    rfl

/-- How one caller's move changes what the invariant counts. -/
theorem counts_go (call : ι → ExclWait.Call) (s : State ι) (i : ι) (k : Pc) :
    asleep (s.go i k) + (s.pc i).asleep.toNat = asleep s + k.asleep.toNat ∧
      woken (s.go i k) + (s.pc i).woken.toNat = woken s + k.woken.toNat ∧
      passed call (s.go i k) + (decide (isRead (call i) = true) && (s.pc i).past).toNat =
        passed call s + (decide (isRead (call i) = true) && k.past).toNat ∧
      returned call false (s.go i k) +
          (decide (isRead (call i) = false) && (s.pc i).isReturned).toNat =
        returned call false s + (decide (isRead (call i) = false) && k.isReturned).toNat :=
  ⟨occupancy_update .., occupancy_update .., tally_update .., tally_update ..⟩

omit [Fintype ι] in
theorem role_go {s : State ι} {i : ι} {k : Pc}
    (role : ∀ j, (s.pc j).suits (isRead (call j)) = true)
    (fits : k.suits (isRead (call i)) = true) :
    ∀ j, ((s.go i k).pc j).suits (isRead (call j)) = true :=
  (Function.forall_update_iff s.pc fun j k => k.suits (isRead (call j)) = true).mpr
    ⟨fits, fun j _ => role j⟩

omit [Fintype ι] in
theorem queued_go {s : State ι} {i j : ι} {k : Pc} {b : Bool}
    (there : (s.go i k).pc j = .queued b) : j = i ∧ k = .queued b ∨ j ≠ i ∧ s.pc j = .queued b := by
  change Function.update s.pc i k j = _ at there
  by_cases same : j = i
  · rw [same, Function.update_self] at there
    exact Or.inl ⟨same, there⟩
  · rw [Function.update_of_ne same] at there
    exact Or.inr ⟨same, there⟩

/-- A reader that finds a completion left uses it up. -/
theorem inv_take {s : State ι} {i : ι} {waiters : List ι} (h : Inv call s)
    (here : s.pc i = .wait ∨ s.pc i = .queued false) (some_ : s.done ≠ 0)
    (others : ∀ j ≠ i, j ∈ s.waiters → j ∈ waiters) :
    Inv call { s.go i .generic with done := s.done - 1, waiters := waiters } := by
  have reads : isRead (call i) = true := by
    have role := h.role i
    rcases here with here | here <;> rwa [here] at role
  obtain ⟨a, w, p, r⟩ := counts_go call s i .generic
  have balance := h.balance
  have posted := h.posted
  refine ⟨role_go h.role rfl, fun j b there => ?_, ?_, ?_⟩
  · rcases queued_go there with ⟨_, generic⟩ | ⟨differs, there⟩
    · cases generic
    · exact others j differs (h.listed j b there)
  · change 0 < asleep (s.go i .generic) → s.done - 1 ≤ woken (s.go i .generic)
    rcases here with here | here <;>
      simp only [here, Pc.asleep, Pc.woken, Bool.toNat_false, Bool.toNat_true] at a w <;> omega
  · change passed call (s.go i .generic) + (s.done - 1) = returned call false (s.go i .generic)
    have out : (s.pc i).past = false := by rcases here with here | here <;> rw [here] <;> rfl
    have into : Pc.generic.past = true := rfl
    simp only [reads, out, into, decide_true, Bool.and_false, Bool.and_true, Bool.toNat_false,
      Bool.toNat_true, Bool.true_eq_false, decide_false, Bool.false_and] at p r
    omega

/-- A reader that finds none goes to sleep. -/
theorem inv_sleep {s : State ι} {i : ι} {waiters : List ι} (h : Inv call s)
    (here : s.pc i = .wait ∨ s.pc i = .queued false) (none : s.done = 0) (own : i ∈ waiters)
    (others : ∀ j, j ∈ s.waiters → j ∈ waiters) :
    Inv call { s.go i (.queued true) with waiters := waiters } := by
  have reads : isRead (call i) = true := by
    have role := h.role i
    rcases here with here | here <;> rwa [here] at role
  obtain ⟨_, _, p, r⟩ := counts_go call s i (.queued true)
  have posted := h.posted
  refine ⟨role_go h.role reads, fun j b there => ?_, fun _ => ?_, ?_⟩
  · rcases queued_go there with ⟨rfl, _⟩ | ⟨_, there⟩
    · exact own
    · exact others j (h.listed j b there)
  · change s.done ≤ _
    omega
  · change passed call (s.go i (.queued true)) + s.done =
      returned call false (s.go i (.queued true))
    have out : (s.pc i).past = false := by rcases here with here | here <;> rw [here] <;> rfl
    have still : (Pc.queued true).past = false := rfl
    simp only [reads, out, still, Bool.and_false, Bool.toNat_false, Bool.true_eq_false,
      decide_false, Bool.false_and] at p r
    omega

theorem inv_wake {s : State ι} {j : ι} (h : Inv call s) (sleeps : s.pc j = .queued true) :
    Inv call (s.go j (.queued false)) := by
  have reads : isRead (call j) = true := by
    have role := h.role j
    rwa [sleeps] at role
  obtain ⟨a, w, p, r⟩ := counts_go call s j (.queued false)
  have balance := h.balance
  have posted := h.posted
  rw [sleeps] at a w p r
  simp only [Pc.asleep, Pc.woken, Pc.past, Pc.isReturned, Bool.and_false, Bool.toNat_false,
    Bool.toNat_true] at a w p r
  refine ⟨role_go h.role reads, fun k b there => ?_, fun _ => ?_, ?_⟩
  · rcases queued_go there with ⟨rfl, _⟩ | ⟨_, there⟩
    · exact h.listed k true sleeps
    · exact h.listed k b there
  · change s.done ≤ _
    omega
  · change _ + s.done = _
    omega

/-- The call of the generic function moves neither readers nor writers across the wait. -/
theorem inv_stay {s t : State ι} {i : ι} {k : Pc} (h : Inv call s) (here : s.pc i = .generic)
    (away : k.asleep = false ∧ k.woken = false) (fits : k.suits (isRead (call i)) = true)
    (past : isRead (call i) = true → k.past = true)
    (home : isRead (call i) = false → k.isReturned = false) (pc : t.pc = (s.go i k).pc)
    (done : t.done = s.done) (waiters : t.waiters = s.waiters) : Inv call t := by
  obtain ⟨a, w, p, r⟩ := counts_go call s i k
  have balance := h.balance
  have posted := h.posted
  have still : Pc.generic.asleep = false ∧ Pc.generic.woken = false := ⟨rfl, rfl⟩
  rw [here] at a w p r
  simp only [away, still, Bool.toNat_false] at a w
  refine ⟨fun j => ?_, fun j b there => ?_, ?_, ?_⟩
  · rw [pc]
    exact role_go h.role fits j
  · rw [pc] at there
    rw [waiters]
    rcases queued_go there with ⟨_, rfl⟩ | ⟨_, there⟩
    · obtain ⟨awake, sleeps⟩ := away
      cases b
      · cases sleeps
      · cases awake
    · exact h.listed j b there
  · rw [asleep, woken, pc, done]
    change 0 < asleep (s.go i k) → s.done ≤ woken (s.go i k)
    omega
  · rw [passed, returned, pc, done]
    change passed call (s.go i k) + s.done = returned call false (s.go i k)
    have through : Pc.generic.past = true := rfl
    have out : Pc.generic.isReturned = false := rfl
    cases reads : isRead (call i) with
    | true =>
      simp only [reads, past reads, through] at p
      simp only [reads, Bool.true_eq_false, decide_false, Bool.false_and] at r
      omega
    | false =>
      simp only [reads, Bool.false_eq_true, decide_false, Bool.false_and] at p
      simp only [reads, home reads, out] at r
      omega

theorem inv_generic {s : State ι} {i : ι} (h : Inv call s) (here : s.pc i = .generic) :
    Inv call (next ramdisk_size call s (.generic i)) := by
  cases kind : call i with
  | read fault buf lbuf ppos =>
    have reads : isRead (call i) = true := by rw [kind]; rfl
    simp only [next, kind]
    refine inv_stay h here ⟨rfl, rfl⟩ rfl (fun _ => rfl) (fun writes => ?_) rfl rfl rfl
    rw [reads] at writes
    cases writes
  | write fault buf lbuf ppos =>
    have writes : isRead (call i) = false := by rw [kind]; rfl
    simp only [next, kind]
    refine inv_stay h here ⟨rfl, rfl⟩ (by rw [writes]; rfl) (fun reads => ?_) (fun _ => rfl)
      rfl rfl rfl
    rw [writes] at reads
    cases reads

omit [DecidableEq ι] [Fintype ι] in
theorem asleep_iff {k : Pc} : k.asleep = true ↔ k = .queued true := by
  cases k with
  | queued b => cases b <;> simp [Pc.asleep]
  | _ => simp [Pc.asleep]

/-- A completion wakes one of those asleep, if there are any. -/
theorem inv_complete {s : State ι} {i : ι} (h : Inv call s) {rval : Int64}
    (here : s.pc i = .complete rval) : Inv call (next ramdisk_size call s (.complete i)) := by
  have writes : isRead (call i) = false := by
    have role := h.role i
    rw [here] at role
    exact Bool.not_eq_true' _ ▸ role
  have balance := h.balance
  have posted := h.posted
  obtain ⟨a, w, p, n⟩ := counts_go call s i (.returned rval)
  rw [here] at a w p n
  simp only [Pc.asleep, Pc.woken, Pc.past, Pc.isReturned, writes, Bool.and_false, Bool.and_true,
    Bool.toNat_false, Bool.toNat_true, decide_true, Bool.false_eq_true, decide_false] at a w p n
  have role := role_go h.role (k := .returned rval) (i := i) rfl
  cases found : s.waiters.find? fun j => (s.pc j).asleep with
  | none =>
    have nobody : asleep s = 0 := occupancy_eq_zero fun j => by
      by_contra sleeps
      have sleeps : (s.pc j).asleep = true := by simpa using sleeps
      have listed := h.listed j true (asleep_iff.mp sleeps)
      exact List.find?_eq_none.mp found j listed sleeps
    simp only [next, here, found]
    refine ⟨role, fun j b there => ?_, fun some_ => ?_, ?_⟩
    · rcases queued_go there with ⟨_, returned⟩ | ⟨_, there⟩
      · cases returned
      · exact h.listed j b there
    · change 0 < asleep (s.go i (.returned rval)) at some_
      omega
    · change passed call (s.go i (.returned rval)) + (s.done + 1) =
        returned call false (s.go i (.returned rval))
      omega
  | some j =>
    have sleeps : s.pc j = .queued true := 
      asleep_iff.mp (List.find?_some (p := fun j => (s.pc j).asleep) found)
    have differs : j ≠ i := by
      rintro rfl
      rw [sleeps] at here
      cases here
    have still : (s.go i (.returned rval)).pc j = .queued true :=
      (Function.update_of_ne differs ..).trans sleeps
    have reads : isRead (call j) = true := by
      have role := h.role j
      rwa [sleeps] at role
    obtain ⟨a', w', p', n'⟩ := counts_go call (s.go i (.returned rval)) j (.queued false)
    rw [still] at a' w' p' n'
    simp only [Pc.asleep, Pc.woken, Pc.past, Pc.isReturned, Bool.and_false, Bool.toNat_false,
      Bool.toNat_true] at a' w' p' n'
    simp only [next, here, found]
    refine ⟨role_go (s := s.go i (.returned rval)) role reads, fun k b there => ?_, fun _ => ?_, ?_⟩
    · rcases queued_go (s := s.go i (.returned rval)) there with ⟨rfl, _⟩ | ⟨_, there⟩
      · exact h.listed k true sleeps
      · rcases queued_go there with ⟨_, returned⟩ | ⟨_, there⟩
        · cases returned
        · exact h.listed k b there
    · change s.done + 1 ≤ woken ((s.go i (.returned rval)).go j (.queued false))
      omega
    · change passed call ((s.go i (.returned rval)).go j (.queued false)) + (s.done + 1) =
        returned call false ((s.go i (.returned rval)).go j (.queued false))
      omega

theorem inv_next {s : State ι} {a : Act ι} (h : Inv call s) (enabled : Enabled s a) :
    Inv call (next ramdisk_size call s a) := by
  cases a with
  | wait i =>
    by_cases none : s.done = 0
    · simp only [next, if_neg (not_not.mpr none)]
      exact inv_sleep h (Or.inl enabled) none (List.mem_append_right _ (List.mem_singleton.mpr rfl))
        fun j listed => List.mem_append_left _ listed
    · simp only [next, if_pos (show s.done ≠ 0 from none)]
      exact inv_take h (Or.inl enabled) none fun j _ listed => listed
  | wakened i =>
    by_cases none : s.done = 0
    · simp only [next, if_neg (not_not.mpr none)]
      exact inv_sleep h (Or.inr enabled) none (h.listed i false enabled) fun j listed => listed
    · simp only [next, if_pos (show s.done ≠ 0 from none)]
      exact inv_take h (Or.inr enabled) none fun j differs listed =>
        List.mem_filter.mpr ⟨listed, by simpa using differs⟩
  | spurious i => exact inv_wake h enabled
  | generic i => exact inv_generic h enabled
  | complete i =>
    obtain ⟨rval, here⟩ := enabled
    exact inv_complete h here

end

end DeviceDriverEx.LabComplete
