import DeviceDriverEx.Globalmem
import DeviceDriverEx.Machine
import DeviceDriverEx.WaitQueue

namespace DeviceDriverEx.WaitGate

/-- The modules whose readers wait on `wq` until `atom` is set. -/
inductive Gate
  | wait
  | exwait
  | lab2
  deriving DecidableEq

def Gate.driver : Gate → Driver
  | wait => .wait
  | exwait => .exwait
  | lab2 => .lab2

/-- `wait_event_interruptible`, or `wait_event_killable` in 19_LAB2. -/
def Gate.sleepState : Gate → TaskState
  | lab2 => .killable
  | _ => .interruptible

/-- `wake_up_interruptible_nr(&wq, 1)`, or `wake_up(&wq)` in 19_LAB2, which also has `nr` 1. -/
def Gate.wakeMask : Gate → TaskState → Bool
  | lab2 => maskNormal
  | _ => maskInterruptible

theorem Gate.wakeMask_sleepState (g : Gate) : g.wakeMask g.sleepState = true := by
  cases g <;> rfl

/-- What a call executes next; the first three are the loop of the wait macro. -/
inductive Pc
  | enqueue
  | test
  | sleep
  | check
  | copy
  | set
  | wake
  | returned
  deriving DecidableEq

def Pc.waiting : Pc → Bool
  | enqueue => true
  | test => true
  | sleep => true
  | _ => false

/-- The locals of a call. `waited` is what the wait macro returned, which the code throws away. -/
structure Frame where
  pc : Pc
  signalled : Bool
  waited : Int32
  rval : Int64
  ppos : Int64
  buf : Bytes

structure State (ι δ : Type) where
  atom : Int32
  wq : WaitQueue ι
  mem : δ → Bytes
  frame : ι → Frame

inductive Act (ι : Type)
  | enqueue (i : ι)
  | test (i : ι)
  | wakened (i : ι)
  | spurious (i : ι)
  | signal (i : ι)
  | check (i : ι)
  | copy (i : ι) (fault : Option Fault)
  | set (i : ι)
  | wake (i : ι)

def Request.enter {δ : Type} : Request δ → Frame
  | .read _ buf _ ppos => ⟨.enqueue, false, 0, 0, ppos, buf⟩
  | .write _ buf _ ppos => ⟨.check, false, 0, 0, ppos, buf⟩

section
variable {ι δ : Type} [DecidableEq ι] [DecidableEq δ]

omit [DecidableEq ι] [DecidableEq δ] in
def init (call : ι → Request δ) (mem : δ → Bytes) : State ι δ :=
  ⟨0, WaitQueue.empty, mem, fun i => Request.enter (call i)⟩

def State.setFrame (s : State ι δ) (i : ι) (fr : Frame) : State ι δ :=
  { s with frame := Function.update s.frame i fr }

omit [DecidableEq δ] in
@[simp] theorem setFrame_self (s : State ι δ) (i : ι) (fr : Frame) :
    (s.setFrame i fr).frame i = fr :=
  Function.update_self ..

omit [DecidableEq δ] in
@[simp] theorem setFrame_of_ne (s : State ι δ) {i j : ι} (h : j ≠ i) (fr : Frame) :
    (s.setFrame i fr).frame j = s.frame j :=
  Function.update_of_ne h ..

def Enabled (s : State ι δ) : Act ι → Prop
  | .enqueue i => (s.frame i).pc = .enqueue
  | .test i => (s.frame i).pc = .test
  | .wakened i => (s.frame i).pc = .sleep ∧ s.wq.state i = .running
  | .spurious _ => True
  | .signal i => (s.frame i).pc.waiting = true
  | .check i => (s.frame i).pc = .check
  | .copy i _ => (s.frame i).pc = .copy
  | .set i => (s.frame i).pc = .set
  | .wake i => (s.frame i).pc = .wake

instance (s : State ι δ) (a : Act ι) : Decidable (Enabled s a) := by
  cases a <;> dsimp only [Enabled] <;> infer_instance

/-- What follows the user copy of a call; only a write goes on to release the readers. -/
def copyStep (s : State ι δ) (i : ι) (fault : Option Fault) : Request δ → State ι δ
  | .read dev buf count ppos =>
    let r := copyOut fault (s.mem dev) buf (clampCount ppos.toUInt64 count) ppos
    s.setFrame i { s.frame i with pc := .returned, rval := r.rval, ppos := r.ppos, buf := r.bytes }
  | .write dev buf count ppos =>
    let r := copyIn fault (s.mem dev) buf (clampCount ppos.toUInt64 count) ppos
    { s.setFrame i { s.frame i with pc := .set, rval := r.rval, ppos := r.ppos } with
      mem := Function.update s.mem dev r.bytes }

def next (g : Gate) (call : ι → Request δ) (s : State ι δ) : Act ι → State ι δ
  | .enqueue i =>
    { s.setFrame i { s.frame i with pc := .test } with
      wq := s.wq.prepare i false g.sleepState }
  | .test i =>
    if s.atom ≠ 0 then
      { s.setFrame i { s.frame i with pc := .check, waited := 0 } with wq := s.wq.finish i }
    else if (s.frame i).signalled then
      { s.setFrame i { s.frame i with pc := .check, waited := -ERESTARTSYS } with
        wq := s.wq.finish i }
    else s.setFrame i { s.frame i with pc := .sleep }
  | .wakened i => s.setFrame i { s.frame i with pc := .enqueue }
  | .spurious i => { s with wq := s.wq.rouse i }
  | .signal i =>
    { s.setFrame i { s.frame i with signalled := true } with wq := s.wq.rouse i }
  | .check i =>
    if ((call i).ppos).toUInt64 ≥ GLOBALMEM_SIZE then
      s.setFrame i { s.frame i with pc := .returned, rval := 0 }
    else s.setFrame i { s.frame i with pc := .copy }
  | .copy i fault => copyStep s i fault (call i)
  | .set i => { s.setFrame i { s.frame i with pc := .wake } with atom := 1 }
  | .wake i =>
    { s.setFrame i { s.frame i with pc := .returned } with wq := s.wq.wake g.wakeMask 1 }

def machine (g : Gate) (call : ι → Request δ) : Machine (State ι δ) (Act ι) :=
  ⟨Enabled, next g call⟩

instance (g : Gate) (call : ι → Request δ) (s : State ι δ) (a : Act ι) :
    Decidable ((machine g call).Enabled s a) :=
  inferInstanceAs (Decidable (Enabled s a))

/-- The call that takes the step; a spurious wake-up is charged to the task it wakes. -/
def Act.caller : Act ι → ι
  | .enqueue i => i
  | .test i => i
  | .wakened i => i
  | .spurious i => i
  | .signal i => i
  | .check i => i
  | .copy i _ => i
  | .set i => i
  | .wake i => i

theorem next_frame_other (g : Gate) (call : ι → Request δ) (s : State ι δ) (a : Act ι) {j : ι}
    (h : j ≠ a.caller) : (next g call s a).frame j = s.frame j := by
  have kept : ∀ fr, Function.update s.frame a.caller fr j = s.frame j :=
    fun fr => Function.update_of_ne h ..
  cases a with
  | spurious i => rfl
  | test i =>
    simp only [next]
    split_ifs <;> exact kept _
  | check i =>
    simp only [next]
    split <;> exact kept _
  | copy i fault =>
    simp only [next, copyStep]
    split <;> exact kept _
  | _ => exact kept _

/-- A read in progress: what it will return is what `globalmem_read` returns. -/
structure Reading (g : Gate) (buf : Bytes) (count : UInt64) (ppos : Int64) (fr : Frame) :
    Prop where
  before : fr.pc ≠ .returned → fr.ppos = ppos ∧ fr.buf = buf
  inside : fr.pc = .copy → ppos.toUInt64 < GLOBALMEM_SIZE
  releases : fr.pc ≠ .set ∧ fr.pc ≠ .wake
  after : fr.pc = .returned → ∃ fault mem,
    ⟨fr.rval, fr.ppos, fr.buf⟩ = globalmem_read g.driver fr.waited fault mem buf count ppos

/-- A write in progress; the two steps of its release follow only where `globalmem_write` has one. -/
structure Writing (buf : Bytes) (count : UInt64) (ppos : Int64) (fr : Frame) : Prop where
  unwaited : fr.pc.waiting = false ∧ fr.waited = 0
  before : fr.pc = .check ∨ fr.pc = .copy → fr.ppos = ppos
  inside : fr.pc = .copy → ppos.toUInt64 < GLOBALMEM_SIZE
  after : fr.pc ≠ .check → fr.pc ≠ .copy → ∃ fault mem,
    let r := globalmem_write fault mem buf count ppos
    fr.rval = r.rval ∧ fr.ppos = r.ppos ∧ (fr.pc ≠ .returned → r.released = true)

/-- The calls in progress are the ones that were made. -/
def Faithful (g : Gate) (call : Request δ) (fr : Frame) : Prop :=
  match call with
  | .read _ buf count ppos => Reading g buf count ppos fr
  | .write _ buf count ppos => Writing buf count ppos fr

omit [DecidableEq ι] [DecidableEq δ] in
theorem reading_early {g : Gate} {buf : Bytes} {count : UInt64} {ppos : Int64} {fr : Frame}
    (early : fr.pc.waiting = true ∨ fr.pc = .check) (hp : fr.ppos = ppos) (hb : fr.buf = buf) :
    Reading g buf count ppos fr := by
  have away : fr.pc ≠ .copy ∧ fr.pc ≠ .set ∧ fr.pc ≠ .wake ∧ fr.pc ≠ .returned := by
    rcases early with h | h
    · refine ⟨?_, ?_, ?_, ?_⟩ <;> intro hpc <;> rw [hpc] at h <;> cases h
    · rw [h]
      decide
  obtain ⟨hcopy, hset, hwake, hret⟩ := away
  exact ⟨fun _ => ⟨hp, hb⟩, fun h => absurd h hcopy, ⟨hset, hwake⟩, fun h => absurd h hret⟩

omit [DecidableEq ι] [DecidableEq δ] in
theorem reading_done {g : Gate} {buf : Bytes} {count : UInt64} {ppos : Int64} {fr : Frame}
    (done : fr.pc = .returned) (result : ∃ fault mem, ⟨fr.rval, fr.ppos, fr.buf⟩ =
      globalmem_read g.driver fr.waited fault mem buf count ppos) :
    Reading g buf count ppos fr := by
  refine ⟨fun h => absurd done h, fun h => ?_, ⟨?_, ?_⟩, fun _ => result⟩
  · rw [done] at h
    cases h
  · rw [done]
    decide
  · rw [done]
    decide

omit [DecidableEq ι] [DecidableEq δ] in
theorem writing_after {buf : Bytes} {count : UInt64} {ppos : Int64} {fr : Frame}
    (past : fr.pc = .set ∨ fr.pc = .wake ∨ fr.pc = .returned) (unwaited : fr.waited = 0)
    (result : ∃ fault mem, let r := globalmem_write fault mem buf count ppos
      fr.rval = r.rval ∧ fr.ppos = r.ppos ∧ (fr.pc ≠ .returned → r.released = true)) :
    Writing buf count ppos fr := by
  have away : fr.pc.waiting = false ∧ fr.pc ≠ .check ∧ fr.pc ≠ .copy := by
    obtain h | h | h := past <;> rw [h] <;> decide
  obtain ⟨idle, hcheck, hcopy⟩ := away
  refine ⟨⟨idle, unwaited⟩, fun h => ?_, fun h => absurd h hcopy, fun _ _ => result⟩
  obtain h | h := h
  · exact absurd h hcheck
  · exact absurd h hcopy

omit [DecidableEq ι] [DecidableEq δ] in
theorem faithful_enter (g : Gate) (call : Request δ) : Faithful g call (Request.enter call) := by
  cases call with
  | read dev buf count ppos => exact reading_early (Or.inl rfl) rfl rfl
  | write dev buf count ppos =>
    refine ⟨⟨rfl, rfl⟩, fun _ => rfl, ?_, fun h => absurd rfl h⟩
    intro h
    cases h

/-- The steps of a read add up to `globalmem_read`. -/
theorem reading_next {g : Gate} {call : ι → Request δ} {s : State ι δ} {a : Act ι} {dev : δ}
    {buf : Bytes} {count : UInt64} {ppos : Int64} (enabled : Enabled s a)
    (hc : call a.caller = .read dev buf count ppos)
    (h : Reading g buf count ppos (s.frame a.caller)) :
    Reading g buf count ppos ((next g call s a).frame a.caller) := by
  have ungated : ∀ w, ¬ (g.driver = .sem ∧ w ≠ (0 : Int32)) := by
    intro w hw
    cases g <;> cases hw.1
  have kept : ∀ pc, pc ≠ .returned → (s.frame a.caller).pc = pc →
      (s.frame a.caller).ppos = ppos ∧ (s.frame a.caller).buf = buf := by
    intro pc going hpc
    exact h.before (by rw [hpc]; exact going)
  cases a with
  | spurious i => exact h
  | enqueue i =>
    obtain ⟨hp, hb⟩ := kept .enqueue (by decide) enabled
    simp only [next, Act.caller, setFrame_self]
    exact reading_early (Or.inl rfl) hp hb
  | test i =>
    obtain ⟨hp, hb⟩ := kept .test (by decide) enabled
    simp only [next]
    split_ifs <;> simp only [Act.caller, setFrame_self]
    · exact reading_early (Or.inr rfl) hp hb
    · exact reading_early (Or.inr rfl) hp hb
    · exact reading_early (Or.inl rfl) hp hb
  | wakened i =>
    obtain ⟨hp, hb⟩ := kept .sleep (by decide) enabled.1
    simp only [next, Act.caller, setFrame_self]
    exact reading_early (Or.inl rfl) hp hb
  | signal i =>
    have waiting : (s.frame i).pc.waiting = true := enabled
    have going : (s.frame i).pc ≠ .returned := by
      intro hr
      rw [hr] at waiting
      cases waiting
    obtain ⟨hp, hb⟩ := kept _ going rfl
    simp only [next, Act.caller, setFrame_self]
    exact reading_early (Or.inl waiting) hp hb
  | check i =>
    obtain ⟨hp, hb⟩ := kept .check (by decide) enabled
    have pos : (call i).ppos = ppos := by rw [show call i = _ from hc]; rfl
    simp only [next, pos]
    split
    next past =>
      simp only [Act.caller, setFrame_self]
      refine reading_done rfl ⟨none, s.mem dev, ?_⟩
      rw [globalmem_read, if_neg (ungated _), if_pos past, ← hp, ← hb]
      rfl
    next inside =>
      simp only [Act.caller, setFrame_self]
      refine ⟨fun _ => ⟨hp, hb⟩, fun _ => UInt64.not_le.mp inside, ⟨?_, ?_⟩, ?_⟩ <;>
        · intro hr
          cases hr
  | copy i fault =>
    have inside := h.inside enabled
    simp only [next, copyStep, show call i = _ from hc, Act.caller, setFrame_self]
    refine reading_done rfl ⟨fault, s.mem dev, ?_⟩
    rw [globalmem_read, if_neg (ungated _), if_neg (UInt64.not_le.mpr inside)]
  | set i => exact absurd enabled h.releases.1
  | wake i => exact absurd enabled h.releases.2

/-- The steps of a write add up to `globalmem_write`. -/
theorem writing_next {g : Gate} {call : ι → Request δ} {s : State ι δ} {a : Act ι} {dev : δ}
    {buf : Bytes} {count : UInt64} {ppos : Int64} (enabled : Enabled s a)
    (hc : call a.caller = .write dev buf count ppos)
    (h : Writing buf count ppos (s.frame a.caller)) :
    Writing buf count ppos ((next g call s a).frame a.caller) := by
  have idle : ∀ {pc}, (s.frame a.caller).pc = pc → pc.waiting = true → False := by
    intro pc hpc waiting
    have unwaited := h.unwaited.1
    rw [hpc, waiting] at unwaited
    cases unwaited
  cases a with
  | spurious i => exact h
  | enqueue i => exact (idle enabled rfl).elim
  | test i => exact (idle enabled rfl).elim
  | wakened i => exact (idle enabled.1 rfl).elim
  | signal i => exact (idle rfl enabled).elim
  | check i =>
    have hp := h.before (Or.inl enabled)
    have pos : (call i).ppos = ppos := by rw [show call i = _ from hc]; rfl
    simp only [next, pos]
    split
    next past =>
      simp only [Act.caller, setFrame_self]
      refine writing_after (Or.inr (Or.inr rfl)) h.unwaited.2 ⟨none, s.mem dev, ?_⟩
      rw [globalmem_write, if_pos past]
      exact ⟨rfl, hp, fun hr => absurd rfl hr⟩
    next inside =>
      simp only [Act.caller, setFrame_self]
      exact ⟨⟨rfl, h.unwaited.2⟩, fun _ => hp, fun _ => UInt64.not_le.mp inside,
        fun _ hr => absurd rfl hr⟩
  | copy i fault =>
    have inside := h.inside enabled
    simp only [next, copyStep, show call i = _ from hc, Act.caller, setFrame_self]
    refine writing_after (Or.inl rfl) h.unwaited.2 ⟨fault, s.mem dev, ?_⟩
    rw [globalmem_write, if_neg (UInt64.not_le.mpr inside)]
    exact ⟨rfl, rfl, fun _ => rfl⟩
  | set i =>
    have hi : (s.frame i).pc = .set := enabled
    obtain ⟨fault, mem, rval, pos, released⟩ := h.after (by simp only [Act.caller, hi]; decide)
      (by simp only [Act.caller, hi]; decide)
    simp only [next, Act.caller, setFrame_self]
    refine writing_after (Or.inr (Or.inl rfl)) h.unwaited.2
      ⟨fault, mem, rval, pos, fun _ => released ?_⟩
    simp only [Act.caller, hi]
    decide
  | wake i =>
    have hi : (s.frame i).pc = .wake := enabled
    obtain ⟨fault, mem, rval, pos, _⟩ := h.after (by simp only [Act.caller, hi]; decide)
      (by simp only [Act.caller, hi]; decide)
    simp only [next, Act.caller, setFrame_self]
    exact writing_after (Or.inr (Or.inr rfl)) h.unwaited.2
      ⟨fault, mem, rval, pos, fun hr => absurd rfl hr⟩

theorem faithful_next {g : Gate} {call : ι → Request δ} {s : State ι δ} {a : Act ι}
    (h : ∀ i, Faithful g (call i) (s.frame i)) (enabled : Enabled s a) (i : ι) :
    Faithful g (call i) ((next g call s a).frame i) := by
  have own := h i
  by_cases hi : i = a.caller
  · subst hi
    cases hc : call a.caller with
    | read dev buf count ppos =>
      rw [hc] at own
      exact reading_next enabled hc own
    | write dev buf count ppos =>
      rw [hc] at own
      exact writing_next enabled hc own
  · rw [next_frame_other g call s a hi]
    exact own

/-- Whatever the interleaving, each call returns what its function computes from the memory its
copy found. -/
theorem faithful_run {g : Gate} {call : ι → Request δ} {mem : δ → Bytes} {as : List (Act ι)}
    {s : State ι δ} (h : Run (machine g call) (init call mem) as s) (i : ι) :
    Faithful g (call i) (s.frame i) :=
  run_invariant (I := fun t => ∀ i, Faithful g (call i) (t.frame i)) (fun _ => faithful_enter g _)
    (fun _ _ inv enabled => faithful_next inv enabled) h i

end

end DeviceDriverEx.WaitGate
