import DeviceDriverEx.Globalmem
import DeviceDriverEx.Machine

namespace DeviceDriverEx.Release

/-- The modules whose writes count up what their reads count down. -/
inductive Gate
  | sem
  | complete
  deriving DecidableEq

def Gate.driver : Gate → Driver
  | sem => .sem
  | complete => .complete

def EINTR : Int32 := 4

/-- What a call executes next. `down` is `down_interruptible(&mutex)` or
`wait_for_completion(&comp)`, `post` is `up(&mutex)` or `complete(&comp)`. -/
inductive Pc
  | down
  | check
  | copy
  | post
  | returned
  deriving DecidableEq

structure Frame where
  pc : Pc
  waited : Int32
  rval : Int64
  ppos : Int64
  buf : Bytes

structure State (ι δ : Type) where
  count : Nat
  mem : δ → Bytes
  frame : ι → Frame

inductive Act (ι : Type)
  | down (i : ι)
  | signal (i : ι)
  | check (i : ι)
  | copy (i : ι) (fault : Option Fault)
  | post (i : ι)

def Act.caller {ι : Type} : Act ι → ι
  | .down i => i
  | .signal i => i
  | .check i => i
  | .copy i _ => i
  | .post i => i

def enter {δ : Type} : Request δ → Frame
  | .read _ buf _ ppos => ⟨.down, 0, 0, ppos, buf⟩
  | .write _ buf _ ppos => ⟨.check, 0, 0, ppos, buf⟩

section
variable {ι δ : Type} [DecidableEq ι] [DecidableEq δ]

omit [DecidableEq ι] [DecidableEq δ] in
def init (call : ι → Request δ) (mem : δ → Bytes) : State ι δ :=
  ⟨0, mem, fun i => enter (call i)⟩

def State.setFrame (s : State ι δ) (i : ι) (fr : Frame) : State ι δ :=
  { s with frame := Function.update s.frame i fr }

omit [DecidableEq δ] in
@[simp] theorem setFrame_self (s : State ι δ) (i : ι) (fr : Frame) :
    (s.setFrame i fr).frame i = fr :=
  Function.update_self ..

omit [DecidableEq δ] in
@[simp] theorem setFrame_of_ne (s : State ι δ) {i j : ι} (h : j ≠ i) (fr : Frame) :
    (s.setFrame i fr).frame j = s.frame j :=
  Function.update_of_ne h ..

/-- Only the semaphore is waited for interruptibly. -/
def Enabled (g : Gate) (s : State ι δ) : Act ι → Prop
  | .down i => (s.frame i).pc = .down ∧ 0 < s.count
  | .signal i => (s.frame i).pc = .down ∧ g = .sem
  | .check i => (s.frame i).pc = .check
  | .copy i _ => (s.frame i).pc = .copy
  | .post i => (s.frame i).pc = .post

instance (g : Gate) (s : State ι δ) (a : Act ι) : Decidable (Enabled g s a) := by
  cases a <;> dsimp only [Enabled] <;> infer_instance

def copyStep (s : State ι δ) (i : ι) (fault : Option Fault) : Request δ → State ι δ
  | .read dev buf count ppos =>
    let r := copyOut fault (s.mem dev) buf (clampCount ppos.toUInt64 count) ppos
    s.setFrame i { s.frame i with pc := .returned, rval := r.rval, ppos := r.ppos, buf := r.bytes }
  | .write dev buf count ppos =>
    let r := copyIn fault (s.mem dev) buf (clampCount ppos.toUInt64 count) ppos
    { s.setFrame i { s.frame i with pc := .post, rval := r.rval, ppos := r.ppos } with
      mem := Function.update s.mem dev r.bytes }

def next (call : ι → Request δ) (s : State ι δ) : Act ι → State ι δ
  | .down i => { s.setFrame i { s.frame i with pc := .check } with count := s.count - 1 }
  | .signal i => s.setFrame i { s.frame i with
      pc := .returned
      waited := -EINTR
      rval := (-ERESTARTSYS).toInt64 }
  | .check i =>
    if (call i).ppos.toUInt64 ≥ GLOBALMEM_SIZE then
      s.setFrame i { s.frame i with pc := .returned, rval := 0 }
    else s.setFrame i { s.frame i with pc := .copy }
  | .copy i fault => copyStep s i fault (call i)
  | .post i => { s.setFrame i { s.frame i with pc := .returned } with count := s.count + 1 }

def machine (g : Gate) (call : ι → Request δ) : Machine (State ι δ) (Act ι) :=
  ⟨Enabled g, next call⟩

instance (g : Gate) (call : ι → Request δ) (s : State ι δ) (a : Act ι) :
    Decidable ((machine g call).Enabled s a) :=
  inferInstanceAs (Decidable (Enabled g s a))

theorem next_frame_other (call : ι → Request δ) (s : State ι δ) (a : Act ι) {j : ι}
    (h : j ≠ a.caller) : (next call s a).frame j = s.frame j := by
  have kept : ∀ fr, Function.update s.frame a.caller fr j = s.frame j :=
    fun fr => Function.update_of_ne h ..
  cases a with
  | check i =>
    simp only [next]
    split <;> exact kept _
  | copy i fault =>
    simp only [next, copyStep]
    split <;> exact kept _
  | _ => exact kept _

/-- A read in progress: what it will return is what `globalmem_read` returns. -/
structure Reading (g : Gate) (buf : Bytes) (count : UInt64) (ppos : Int64) (fr : Frame) :
    Prop where
  before : fr.pc ≠ .returned → fr.ppos = ppos ∧ fr.buf = buf ∧ fr.waited = 0
  inside : fr.pc = .copy → ppos.toUInt64 < GLOBALMEM_SIZE
  posts : fr.pc ≠ .post
  interrupted : fr.waited ≠ 0 → g = .sem
  after : fr.pc = .returned → ∃ fault mem,
    ⟨fr.rval, fr.ppos, fr.buf⟩ = globalmem_read g.driver fr.waited fault mem buf count ppos

/-- A write in progress; it comes to its release only where `globalmem_write` does. -/
structure Writing (buf : Bytes) (count : UInt64) (ppos : Int64) (fr : Frame) : Prop where
  waits : fr.pc ≠ .down
  before : fr.pc = .check ∨ fr.pc = .copy → fr.ppos = ppos
  inside : fr.pc = .copy ∨ fr.pc = .post → ppos.toUInt64 < GLOBALMEM_SIZE
  after : fr.pc = .post ∨ fr.pc = .returned → ∃ fault mem,
    let r := globalmem_write fault mem buf count ppos
    fr.rval = r.rval ∧ fr.ppos = r.ppos

def Faithful (g : Gate) (call : Request δ) (fr : Frame) : Prop :=
  match call with
  | .read _ buf count ppos => Reading g buf count ppos fr
  | .write _ buf count ppos => Writing buf count ppos fr

omit [DecidableEq ι] [DecidableEq δ] in
theorem reading_going {g : Gate} {buf : Bytes} {count : UInt64} {ppos : Int64} {fr : Frame}
    (going : fr.pc = .down ∨ fr.pc = .check ∨ fr.pc = .copy ∧ ppos.toUInt64 < GLOBALMEM_SIZE)
    (same : fr.ppos = ppos ∧ fr.buf = buf ∧ fr.waited = 0) : Reading g buf count ppos fr := by
  have away : fr.pc ≠ .post ∧ fr.pc ≠ .returned := by
    rcases going with h | h | h
    · rw [h]
      decide
    · rw [h]
      decide
    · rw [h.1]
      decide
  refine ⟨fun _ => same, fun h => ?_, away.1, fun h => absurd same.2.2 h, fun h => absurd h away.2⟩
  rcases going with hpc | hpc | hpc
  · cases hpc.symm.trans h
  · cases hpc.symm.trans h
  · exact hpc.2

omit [DecidableEq ι] [DecidableEq δ] in
theorem reading_done {g : Gate} {buf : Bytes} {count : UInt64} {ppos : Int64} {fr : Frame}
    (done : fr.pc = .returned) (interrupted : fr.waited ≠ 0 → g = .sem)
    (result : ∃ fault mem, ⟨fr.rval, fr.ppos, fr.buf⟩ =
      globalmem_read g.driver fr.waited fault mem buf count ppos) :
    Reading g buf count ppos fr := by
  refine ⟨fun h => absurd done h, fun h => ?_, ?_, interrupted, fun _ => result⟩
  · cases done.symm.trans h
  · rw [done]
    decide

omit [DecidableEq ι] [DecidableEq δ] in
theorem writing_after {buf : Bytes} {count : UInt64} {ppos : Int64} {fr : Frame}
    (past : fr.pc = .post ∧ ppos.toUInt64 < GLOBALMEM_SIZE ∨ fr.pc = .returned)
    (result : ∃ fault mem, let r := globalmem_write fault mem buf count ppos
      fr.rval = r.rval ∧ fr.ppos = r.ppos) : Writing buf count ppos fr := by
  have away : fr.pc ≠ .down ∧ fr.pc ≠ .check ∧ fr.pc ≠ .copy := by
    obtain h | h := past
    · rw [h.1]
      decide
    · rw [h]
      decide
  obtain ⟨hdown, hcheck, hcopy⟩ := away
  refine ⟨hdown, fun h => ?_, fun h => ?_, fun _ => result⟩
  · obtain h | h := h
    · exact absurd h hcheck
    · exact absurd h hcopy
  · obtain h | h := h
    · exact absurd h hcopy
    · obtain posting | done := past
      · exact posting.2
      · cases done.symm.trans h

omit [DecidableEq ι] [DecidableEq δ] in
theorem faithful_enter (g : Gate) (call : Request δ) : Faithful g call (enter call) := by
  cases call with
  | read dev buf count ppos => exact reading_going (Or.inl rfl) ⟨rfl, rfl, rfl⟩
  | write dev buf count ppos =>
    refine ⟨?_, fun _ => rfl, ?_, ?_⟩
    · intro h
      cases h
    · rintro (h | h) <;> cases h
    · rintro (h | h) <;> cases h

theorem reading_next {g : Gate} {call : ι → Request δ} {s : State ι δ} {a : Act ι} {dev : δ}
    {buf : Bytes} {count : UInt64} {ppos : Int64} (enabled : Enabled g s a)
    (hc : call a.caller = .read dev buf count ppos)
    (h : Reading g buf count ppos (s.frame a.caller)) :
    Reading g buf count ppos ((next call s a).frame a.caller) := by
  have kept : ∀ pc, pc ≠ .returned → (s.frame a.caller).pc = pc →
      (s.frame a.caller).ppos = ppos ∧ (s.frame a.caller).buf = buf ∧
        (s.frame a.caller).waited = 0 := by
    intro pc going hpc
    exact h.before (by rw [hpc]; exact going)
  cases a with
  | down i =>
    have same := kept .down (by decide) enabled.1
    simp only [next, Act.caller, setFrame_self]
    exact reading_going (Or.inr (Or.inl rfl)) same
  | signal i =>
    obtain ⟨hp, hb, _⟩ := kept .down (by decide) enabled.1
    simp only [next, Act.caller, setFrame_self]
    refine reading_done rfl (fun _ => enabled.2) ⟨none, s.mem dev, ?_⟩
    have interrupted : g.driver = .sem ∧ -EINTR ≠ (0 : Int32) := by
      rw [enabled.2]
      exact ⟨rfl, by decide⟩
    rw [globalmem_read, if_pos interrupted, ← hp, ← hb]
    rfl
  | check i =>
    obtain ⟨hp, hb, hw⟩ := kept .check (by decide) enabled
    have pos : (call i).ppos = ppos := by rw [show call i = _ from hc]; rfl
    simp only [next, pos]
    split
    next past =>
      simp only [Act.caller, setFrame_self]
      refine reading_done rfl (fun h => absurd hw h) ⟨none, s.mem dev, ?_⟩
      have got : ¬ (g.driver = .sem ∧ (s.frame i).waited ≠ 0) := fun h => h.2 hw
      rw [globalmem_read, if_neg got, if_pos past, ← hp, ← hb]
      rfl
    next inside =>
      simp only [Act.caller, setFrame_self]
      exact reading_going (Or.inr (Or.inr ⟨rfl, UInt64.not_le.mp inside⟩)) ⟨hp, hb, hw⟩
  | copy i fault =>
    obtain ⟨_, _, hw⟩ := kept .copy (by decide) enabled
    have inside := h.inside enabled
    simp only [next, copyStep, show call i = _ from hc, Act.caller, setFrame_self]
    refine reading_done rfl (fun h => absurd hw h) ⟨fault, s.mem dev, ?_⟩
    have got : ¬ (g.driver = .sem ∧ (s.frame i).waited ≠ 0) := fun h => h.2 hw
    rw [globalmem_read, if_neg got, if_neg (UInt64.not_le.mpr inside)]
  | post i => exact absurd enabled h.posts

theorem writing_next {g : Gate} {call : ι → Request δ} {s : State ι δ} {a : Act ι} {dev : δ}
    {buf : Bytes} {count : UInt64} {ppos : Int64} (enabled : Enabled g s a)
    (hc : call a.caller = .write dev buf count ppos)
    (h : Writing buf count ppos (s.frame a.caller)) :
    Writing buf count ppos ((next call s a).frame a.caller) := by
  cases a with
  | down i => exact absurd enabled.1 h.waits
  | signal i => exact absurd enabled.1 h.waits
  | check i =>
    have hp := h.before (Or.inl enabled)
    have pos : (call i).ppos = ppos := by rw [show call i = _ from hc]; rfl
    simp only [next, pos]
    split
    next past =>
      simp only [Act.caller, setFrame_self]
      refine writing_after (Or.inr rfl) ⟨none, s.mem dev, ?_⟩
      rw [globalmem_write, if_pos past]
      exact ⟨rfl, hp⟩
    next inside =>
      simp only [Act.caller, setFrame_self]
      exact ⟨(by intro hr; cases hr), fun _ => hp, fun _ => UInt64.not_le.mp inside,
        (by rintro (hr | hr) <;> cases hr)⟩
  | copy i fault =>
    have inside := h.inside (Or.inl enabled)
    simp only [next, copyStep, show call i = _ from hc, Act.caller, setFrame_self]
    refine writing_after (Or.inl ⟨rfl, inside⟩) ⟨fault, s.mem dev, ?_⟩
    rw [globalmem_write, if_neg (UInt64.not_le.mpr inside)]
    exact ⟨rfl, rfl⟩
  | post i =>
    have result := h.after (Or.inl enabled)
    simp only [next, Act.caller, setFrame_self]
    exact writing_after (Or.inr rfl) result

theorem faithful_next {g : Gate} {call : ι → Request δ} {s : State ι δ} {a : Act ι}
    (h : ∀ i, Faithful g (call i) (s.frame i)) (enabled : Enabled g s a) (i : ι) :
    Faithful g (call i) ((next call s a).frame i) := by
  have own := h i
  by_cases hi : i = a.caller
  · subst hi
    cases hc : call a.caller with
    | read dev buf count ppos =>
      rw [hc] at own
      exact reading_next enabled hc own
    | write dev buf count ppos =>
      rw [hc] at own
      exact writing_next enabled hc own
  · rw [next_frame_other call s a hi]
    exact own

end

end DeviceDriverEx.Release
