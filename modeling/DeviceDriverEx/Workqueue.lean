import DeviceDriverEx.Globalmem
import DeviceDriverEx.Machine

namespace DeviceDriverEx.Workqueue

/-- `#define SIZE (128)` -/
def SIZE : UInt64 := 128

/-- A call of `mydev_write`; the user's page may fault. -/
structure Write where
  buf : Bytes
  count : UInt64
  fault : Option Fault

/-- What a call of `mydev_write` executes next. -/
inductive Pc
  | copy_from_user
  | schedule_work
  | returned
  deriving DecidableEq

/-- The driver of 20_LAB1_wq: its buffer, what each write is going to return, and its one work
item. -/
structure State (ι : Type) where
  pc : ι → Pc
  n : ι → Int32
  buf : Bytes
  pending : Bool
  running : Bool

inductive Act (ι : Type)
  | copy_from_user (i : ι)
  | schedule_work (i : ι)
  | start
  | finish

section
variable {ι : Type} [DecidableEq ι]

omit [DecidableEq ι] in
def init (buf : Bytes) : State ι := ⟨fun _ => .copy_from_user, fun _ => 0, buf, false, false⟩

omit [DecidableEq ι] in
/-- One work item never runs twice at a time. -/
def Enabled (s : State ι) : Act ι → Prop
  | .copy_from_user i => s.pc i = .copy_from_user
  | .schedule_work i => s.pc i = .schedule_work
  | .start => s.pending = true ∧ s.running = false
  | .finish => s.running = true

/-- `wq_func` only prints the buffer. The kernel forgets that the item is queued as it starts a
run, and a queued item is not queued again. -/
def next (call : ι → Write) (s : State ι) : Act ι → State ι
  | .copy_from_user i =>
    let count := if (call i).count > SIZE then SIZE else (call i).count
    let moved := copied (call i).fault count.toNat
    { s with
      pc := Function.update s.pc i .schedule_work
      n := Function.update s.n i
        (count - UInt64.ofNat (count.toNat - moved)).toUInt32.toInt32
      buf := copy_from_user (call i).fault s.buf 0 (call i).buf count.toNat }
  | .schedule_work i => { s with pc := Function.update s.pc i .returned, pending := true }
  | .start => { s with pending := false, running := true }
  | .finish => { s with running := false }

def machine (call : ι → Write) : Machine (State ι) (Act ι) := ⟨Enabled, next call⟩

omit [DecidableEq ι] in
instance (s : State ι) : ∀ a, Decidable (Enabled s a)
  | .copy_from_user i => inferInstanceAs (Decidable (s.pc i = .copy_from_user))
  | .schedule_work i => inferInstanceAs (Decidable (s.pc i = .schedule_work))
  | .start => inferInstanceAs (Decidable (s.pending = true ∧ s.running = false))
  | .finish => inferInstanceAs (Decidable (s.running = true))

instance (call : ι → Write) (s : State ι) (a : Act ι) :
    Decidable ((machine call).Enabled s a) :=
  inferInstanceAs (Decidable (Enabled s a))

end

end DeviceDriverEx.Workqueue
