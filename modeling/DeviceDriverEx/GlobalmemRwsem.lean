import DeviceDriverEx.Globalmem
import DeviceDriverEx.Machine
import DeviceDriverEx.RwLock

namespace DeviceDriverEx.Rwsem

/-- A call of the module: `globalmem_read`, `globalmem_write`, or `globalmem_ioctl` with
`MEM_CLEAR`. -/
inductive Op (δ : Type)
  | read (dev : δ) (buf : Bytes) (count : UInt64) (ppos : Int64)
  | write (dev : δ) (buf : Bytes) (count : UInt64) (ppos : Int64)
  | clear (dev : δ)

/-- What a call executes next: `down_read` or `down_write`, the test of `pos`, the user copy or
the `memset` one byte at a time, `up_read` or `up_write`. -/
inductive Pc
  | down
  | check
  | copy
  | up
  | returned
  deriving DecidableEq

/-- The locals of a call; `moved` counts the bytes its copy or its `memset` has done. -/
structure Frame where
  pc : Pc
  moved : Nat
  rval : Int64
  ppos : Int64
  buf : Bytes

structure State (ι δ : Type) where
  rwsem : RwLock ι
  mem : δ → Bytes
  frame : ι → Frame

/-- `fault` is the user copy giving up on its next byte; a kernel that `pads` then clears what a
write has not copied. -/
inductive Act (ι : Type)
  | down (i : ι)
  | check (i : ι)
  | byte (i : ι)
  | fault (i : ι) (pads : Bool)
  | finish (i : ι)
  | up (i : ι)
  deriving DecidableEq

def Act.caller {ι : Type} : Act ι → ι
  | .down i => i
  | .check i => i
  | .byte i => i
  | .fault i _ => i
  | .finish i => i
  | .up i => i

namespace Op
variable {δ : Type}

def dev : Op δ → δ
  | .read dev _ _ _ => dev
  | .write dev _ _ _ => dev
  | .clear dev => dev

def ppos : Op δ → Int64
  | .read _ _ _ ppos => ppos
  | .write _ _ _ ppos => ppos
  | .clear _ => 0

/-- `globalmem_ioctl` does not take `rwsem`. -/
def mode : Op δ → Option RwMode
  | .read _ _ _ _ => some .read
  | .write _ _ _ _ => some .write
  | .clear _ => none

/-- How many bytes a call moves once it has tested its position. -/
def length : Op δ → Nat
  | .read _ _ count ppos => (clampCount ppos.toUInt64 count).toNat
  | .write _ _ count ppos => (clampCount ppos.toUInt64 count).toNat
  | .clear _ => GLOBALMEM_SIZE.toNat

def enter : Op δ → Frame
  | .read _ buf _ ppos => ⟨.down, 0, 0, ppos, buf⟩
  | .write _ buf _ ppos => ⟨.down, 0, 0, ppos, buf⟩
  | .clear _ => ⟨.copy, 0, 0, 0, fun _ => 0⟩

/-- Byte `k` of a copy: the device memories and the user's buffer after it. -/
def move [DecidableEq δ] (mem : δ → Bytes) (buf : Bytes) (k : Nat) : Op δ → (δ → Bytes) × Bytes
  | .read dev _ _ ppos => (mem, Function.update buf k (mem dev (ppos.toUInt64.toNat + k)))
  | .write dev src _ ppos =>
    (Function.update mem dev
      (Function.update (mem dev) (ppos.toUInt64.toNat + k) (src k)), buf)
  | .clear dev => (Function.update mem dev (Function.update (mem dev) k 0), buf)

/-- The device memories once the bytes of a write from `k` on have been cleared. -/
def clearRest [DecidableEq δ] (mem : δ → Bytes) (k : Nat) : Op δ → δ → Bytes
  | .write dev _ count ppos =>
    Function.update mem dev (copyBytes (mem dev) (ppos.toUInt64.toNat + k) (fun _ => 0) 0
      ((clampCount ppos.toUInt64 count).toNat - k))
  | .read _ _ _ _ | .clear _ => mem

/-- A call whose bytes have all been moved. -/
def finish (fr : Frame) : Op δ → Frame
  | .read _ _ count ppos => { fr with
      pc := .up
      rval := (clampCount ppos.toUInt64 count).toUInt32.toInt32.toInt64
      ppos := (ppos.toUInt64 + clampCount ppos.toUInt64 count).toInt64 }
  | .write _ _ count ppos => { fr with
      pc := .up
      rval := (clampCount ppos.toUInt64 count).toUInt32.toInt32.toInt64
      ppos := (ppos.toUInt64 + clampCount ppos.toUInt64 count).toInt64 }
  | .clear _ => { fr with pc := .returned, rval := 0 }

theorem length_of_unlocked {op : Op δ} (h : op.mode = none) : op.length = GLOBALMEM_SIZE.toNat := by
  cases op with
  | clear dev => rfl
  | read dev buf count ppos => cases h
  | write dev buf count ppos => cases h

end Op

section
variable {ι δ : Type} [DecidableEq ι] [DecidableEq δ]

omit [DecidableEq ι] [DecidableEq δ] in
def init (call : ι → Op δ) (mem : δ → Bytes) : State ι δ :=
  ⟨.free, mem, fun i => (call i).enter⟩

def State.setFrame (s : State ι δ) (i : ι) (fr : Frame) : State ι δ :=
  { s with frame := Function.update s.frame i fr }

omit [DecidableEq δ] in
@[simp] theorem setFrame_self (s : State ι δ) (i : ι) (fr : Frame) :
    (s.setFrame i fr).frame i = fr :=
  Function.update_self ..

omit [DecidableEq δ] in
@[simp] theorem setFrame_of_ne (s : State ι δ) {i j : ι} (h : j ≠ i) (fr : Frame) :
    (s.setFrame i fr).frame j = s.frame j :=
  Function.update_of_ne h ..

def Enabled (call : ι → Op δ) (s : State ι δ) : Act ι → Prop
  | .down i => (s.frame i).pc = .down ∧ ∀ m ∈ (call i).mode, s.rwsem.Can m
  | .check i => (s.frame i).pc = .check
  | .byte i => (s.frame i).pc = .copy ∧ (s.frame i).moved < (call i).length
  | .fault i _ => (s.frame i).pc = .copy ∧ (s.frame i).moved < (call i).length ∧
      (call i).mode ≠ none
  | .finish i => (s.frame i).pc = .copy ∧ (s.frame i).moved = (call i).length
  | .up i => (s.frame i).pc = .up

instance (call : ι → Op δ) (s : State ι δ) (a : Act ι) : Decidable (Enabled call s a) := by
  cases a <;> dsimp only [Enabled] <;> infer_instance

def next (call : ι → Op δ) (s : State ι δ) : Act ι → State ι δ
  | .down i =>
    { s.setFrame i { s.frame i with pc := .check } with
      rwsem := match (call i).mode with
        | some m => s.rwsem.down m i
        | none => s.rwsem }
  | .check i =>
    -- the early return goes past `up_read` and `up_write`
    if (call i).ppos.toUInt64 ≥ GLOBALMEM_SIZE then
      s.setFrame i { s.frame i with pc := .returned, rval := 0 }
    else s.setFrame i { s.frame i with pc := .copy }
  | .byte i =>
    let r := (call i).move s.mem (s.frame i).buf (s.frame i).moved
    { s.setFrame i { s.frame i with moved := (s.frame i).moved + 1, buf := r.2 } with mem := r.1 }
  | .fault i pads =>
    { s.setFrame i { s.frame i with pc := .up, rval := (-EFAULT).toInt64 } with
      mem := if pads then (call i).clearRest s.mem (s.frame i).moved else s.mem }
  | .finish i => s.setFrame i ((call i).finish (s.frame i))
  | .up i =>
    { s.setFrame i { s.frame i with pc := .returned } with
      rwsem := match (call i).mode with
        | some m => s.rwsem.up m i
        | none => s.rwsem }

def machine (call : ι → Op δ) : Machine (State ι δ) (Act ι) := ⟨Enabled call, next call⟩

instance (call : ι → Op δ) (s : State ι δ) (a : Act ι) :
    Decidable ((machine call).Enabled s a) :=
  inferInstanceAs (Decidable (Enabled call s a))

theorem next_frame_other (call : ι → Op δ) (s : State ι δ) (a : Act ι) {j : ι}
    (h : j ≠ a.caller) : (next call s a).frame j = s.frame j := by
  have kept : ∀ fr, Function.update s.frame a.caller fr j = s.frame j :=
    fun fr => Function.update_of_ne h ..
  cases a with
  | check i =>
    simp only [next]
    split <;> exact kept _
  | _ => exact kept _

end

end DeviceDriverEx.Rwsem
