import DeviceDriverEx.Globalmem
import DeviceDriverEx.HeapLog
import DeviceDriverEx.Machine

namespace DeviceDriverEx.Slab

def ENOMEM : Int32 := 12

/-- The driver of 17_LAB1 with `φ` open files on `δ` devices. The objects that its slab cache
hands out are `ω`; `heap` is what stands behind a pointer, and the log is kept newest first.
A file that is not open has no `private_data`. -/
structure State (φ δ ω : Type) where
  GLOBALMEM_SIZE : Int32
  ramdisk : δ → Option ω
  private_data : φ → Option δ
  heap : Option ω → Bytes
  log : List (HeapEvent ω)

/-- `N_GLOBALMEM` devices from `kzalloc`, no file open, and whatever the memory holds. -/
def init {φ δ ω : Type} (size : Int32) (heap : Option ω → Bytes) : State φ δ ω :=
  ⟨size, fun _ => none, fun _ => none, heap, []⟩

/-- The parameter as it takes part in arithmetic with a `size_t`. -/
def sizeOf (v : Int32) : UInt64 := v.toInt64.toUInt64

/-- A negative parameter is more than any object when it takes part in arithmetic with a `size_t`. -/
theorem sizeOf_negative {v : Int32} (h : v.toInt < 0) : 2 ^ 64 - 2 ^ 31 ≤ (sizeOf v).toNat := by
  have ge := v.le_toInt
  have wide : v.toInt64.toUInt64.toBitVec.toInt = v.toInt := Int32.toInt_toInt64 v
  change 2 ^ 64 - 2 ^ 31 ≤ v.toInt64.toUInt64.toBitVec.toNat
  rw [BitVec.toInt_eq_toNat_cond] at wide
  split at wide <;> omega

theorem sizeOf_nonneg {v : Int32} (h : 0 ≤ v.toInt) :
    ((sizeOf v).toNat : Int) = v.toInt ∧ (sizeOf v).toNat < 2 ^ 31 := by
  have nonneg : 0 ≤ v.toInt64 := by
    rw [Int64.le_iff_toInt_le, Int32.toInt_toInt64]
    exact h
  have lt := v.toInt_lt
  have value : (sizeOf v).toNat = v.toInt.toNat := by
    rw [sizeOf, toUInt64_toNat nonneg, Int32.toInt_toInt64]
  omega

/-- The two clamps in a row that `globalmem_read` and `globalmem_write` make. -/
def clampCount (size : Int32) (pos count : UInt64) : UInt64 :=
  let count := if count > sizeOf size then sizeOf size else count
  if pos + count > sizeOf size then sizeOf size - pos else count

/-- `rval = count - left; *ppos += rval; return rval;` -/
def afterCopy (left : Nat) (count : UInt64) (ppos : Int64) (bytes : Bytes) : CallResult :=
  let rval := (count - UInt64.ofNat left).toUInt32.toInt32
  ⟨rval.toInt64, ppos + rval.toInt64, bytes⟩

section
variable {φ δ ω : Type} [DecidableEq φ] [DecidableEq δ] [DecidableEq ω]

/-- `alloc` is what `kmem_cache_alloc` returned. -/
def globalmem_open (s : State φ δ ω) (f : φ) (d : δ) (alloc : Option ω) : State φ δ ω × Int32 :=
  let ramdisk := Function.update s.ramdisk d alloc
  match alloc with
  | none => ({ s with ramdisk := ramdisk }, -ENOMEM)
  | some o => ({ s with
      ramdisk := ramdisk
      private_data := Function.update s.private_data f (some d)
      log := .alloc o :: s.log }, 0)

def globalmem_release (s : State φ δ ω) (f : φ) (d : δ) : State φ δ ω × Int32 :=
  ({ s with
    -- the `struct file` ends with its release
    private_data := Function.update s.private_data f none
    log := .free (s.ramdisk d) :: s.log }, 0)

def globalmem_read (s : State φ δ ω) (d : δ) (fault : Option Fault) (buf : Bytes) (count : UInt64)
    (ppos : Int64) : State φ δ ω × CallResult :=
  let pos := ppos.toUInt64
  let src := s.heap (s.ramdisk d)
  let n := clampCount s.GLOBALMEM_SIZE pos count
  let moved := copied fault n.toNat
  ({ s with log := .access (s.ramdisk d) pos.toNat moved :: s.log },
    afterCopy (n.toNat - moved) n ppos (copyBytes buf 0 src pos.toNat moved))

def globalmem_write (s : State φ δ ω) (d : δ) (fault : Option Fault) (buf : Bytes) (count : UInt64)
    (ppos : Int64) : State φ δ ω × CallResult :=
  let pos := ppos.toUInt64
  let dest := s.heap (s.ramdisk d)
  let n := clampCount s.GLOBALMEM_SIZE pos count
  let bytes := copy_from_user fault dest pos.toNat buf n.toNat
  ({ s with
    heap := Function.update s.heap (s.ramdisk d) bytes
    log := .access (s.ramdisk d) pos.toNat (overwritten fault n.toNat) :: s.log },
    afterCopy (n.toNat - copied fault n.toNat) n ppos bytes)

def globalmem_ioctl (s : State φ δ ω) (d : δ) (cmd : UInt32) : State φ δ ω × Int64 :=
  if cmd = MEM_CLEAR then
    let n := (sizeOf s.GLOBALMEM_SIZE).toNat
    ({ s with
      heap := Function.update s.heap (s.ramdisk d) (memset (s.heap (s.ramdisk d)) 0 n)
      log := .access (s.ramdisk d) 0 n :: s.log }, 0)
  else (s, (-EINVAL).toInt64)

/-- The calls that files make, and writes to the module parameter. -/
inductive Call (φ δ ω : Type)
  | open_ (f : φ) (d : δ) (alloc : Option ω)
  | release (f : φ) (d : δ)
  | read (f : φ) (d : δ) (fault : Option Fault) (buf : Bytes) (count : UInt64) (ppos : Int64)
  | write (f : φ) (d : δ) (fault : Option Fault) (buf : Bytes) (count : UInt64) (ppos : Int64)
  | ioctl (f : φ) (d : δ) (cmd : UInt32)
  | setSize (v : Int32)

/-- A file is opened while it is closed, and is used and released between; what the allocator
returns is not in use. -/
def Enabled (s : State φ δ ω) : Call φ δ ω → Prop
  | .open_ f _ alloc => s.private_data f = none ∧ ∀ o ∈ alloc, live s.log o = false
  | .release f d => s.private_data f = some d
  | .read f d _ _ _ _ => s.private_data f = some d
  | .write f d _ _ _ _ => s.private_data f = some d
  | .ioctl f d _ => s.private_data f = some d
  | .setSize _ => True

instance (s : State φ δ ω) (c : Call φ δ ω) : Decidable (Enabled s c) := by
  cases c <;> dsimp only [Enabled] <;> infer_instance

def next (s : State φ δ ω) : Call φ δ ω → State φ δ ω
  | .open_ f d alloc => (globalmem_open s f d alloc).1
  | .release f d => (globalmem_release s f d).1
  | .read _ d fault buf count ppos => (globalmem_read s d fault buf count ppos).1
  | .write _ d fault buf count ppos => (globalmem_write s d fault buf count ppos).1
  | .ioctl _ d cmd => (globalmem_ioctl s d cmd).1
  | .setSize v => { s with GLOBALMEM_SIZE := v }

def machine : Machine (State φ δ ω) (Call φ δ ω) := ⟨Enabled, next⟩

instance (s : State φ δ ω) (c : Call φ δ ω) : Decidable (machine.Enabled s c) :=
  inferInstanceAs (Decidable (Enabled s c))

end

end DeviceDriverEx.Slab
