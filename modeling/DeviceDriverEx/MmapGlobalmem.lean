import DeviceDriverEx.SlabGlobalmem

namespace DeviceDriverEx.Mmap

/-- The page size of a machine. On every one it fits an `int`. -/
structure PageSize where
  bytes : UInt64
  pos : 0 < bytes
  small : bytes.toNat < 2 ^ 31

def EAGAIN : Int32 := 11

/-- `#define MEM_CLEAR 0` -/
def MEM_CLEAR : UInt32 := 0

/-- `#define GET_SIZE 1` -/
def GET_SIZE : UInt32 := 1

/-- The driver of 18_LAB3 with `δ` devices. Physical memory is kept byte by byte, and `ramdisk` is
the frame behind the pointer that `__get_free_page` returned. -/
structure State (δ : Type) where
  phys : Bytes
  ramdisk : δ → Nat

/-- Where frame `pfn` begins in physical memory. -/
def frameAt (PAGE_SIZE : PageSize) (pfn : Nat) : Nat := pfn * PAGE_SIZE.bytes.toNat

def clampCount (PAGE_SIZE : PageSize) (pos count : UInt64) : UInt64 :=
  let count := if count > PAGE_SIZE.bytes then PAGE_SIZE.bytes else count
  if pos + count > PAGE_SIZE.bytes then PAGE_SIZE.bytes - pos else count

section
variable {δ : Type} (PAGE_SIZE : PageSize) (s : State δ) (d : δ)

def globalmem_read (fault : Option Fault) (buf : Bytes) (count : UInt64) (ppos : Int64) :
    CallResult :=
  let src := frameAt PAGE_SIZE (s.ramdisk d)
  let pos := ppos.toUInt64
  let n := clampCount PAGE_SIZE pos count
  let moved := copied fault n.toNat
  Slab.afterCopy (n.toNat - moved) n ppos (copyBytes buf 0 s.phys (src + pos.toNat) moved)

def globalmem_write (fault : Option Fault) (buf : Bytes) (count : UInt64) (ppos : Int64) :
    State δ × CallResult :=
  let dest := frameAt PAGE_SIZE (s.ramdisk d)
  let pos := ppos.toUInt64
  let n := clampCount PAGE_SIZE pos count
  let bytes := copy_from_user fault s.phys (dest + pos.toNat) buf n.toNat
  ({ s with phys := bytes }, Slab.afterCopy (n.toNat - copied fault n.toNat) n ppos bytes)

/-- `arg` is the user's `int` that `put_user` stores the size in. -/
def globalmem_ioctl (cmd : UInt32) (arg : Int32) : State δ × Int64 × Int32 :=
  if cmd = MEM_CLEAR then
    let base := frameAt PAGE_SIZE (s.ramdisk d)
    ({ s with phys := copyBytes s.phys base (fun _ => 0) 0 PAGE_SIZE.bytes.toNat }, 0, arg)
  else if cmd = GET_SIZE then (s, 0, PAGE_SIZE.bytes.toUInt32.toInt32)
  else (s, (-EINVAL).toInt64, arg)

end

/-- A mapping request as `mmap` hands it to the driver: some whole pages of the address space. -/
structure Vma (PAGE_SIZE : PageSize) where
  vm_start : UInt64
  vm_end : UInt64
  vm_pgoff : UInt64
  nonempty : vm_start < vm_end
  aligned : PAGE_SIZE.bytes.toNat ∣ (vm_end - vm_start).toNat

/-- The page tables of a mapping: its `i`-th page is frame `pfn + i`. -/
structure Mapping where
  start : UInt64
  pfn : UInt64
  len : UInt64

/-- `remap_pfn_range`; `err` is what it returns. -/
def remap_pfn_range (err : Int32) (start pfn len : UInt64) : Int32 × Option Mapping :=
  if err = 0 then (0, some ⟨start, pfn, len⟩) else (err, none)

def globalmem_mmap {PAGE_SIZE : PageSize} (vma : Vma PAGE_SIZE) (err : Int32) :
    Int32 × Option Mapping :=
  let r := remap_pfn_range err vma.vm_start vma.vm_pgoff (vma.vm_end - vma.vm_start)
  if r.1 ≠ 0 then (-EAGAIN, r.2) else (0, r.2)

/-- The frame that page `i` of the mapping shows. -/
def Mapping.frame (m : Mapping) (i : Nat) : Nat := m.pfn.toNat + i

/-- How many pages the mapping has. -/
def Mapping.pages (PAGE_SIZE : PageSize) (m : Mapping) : Nat :=
  m.len.toNat / PAGE_SIZE.bytes.toNat

/-- The physical address behind offset `k` of the mapping. -/
def Mapping.address (PAGE_SIZE : PageSize) (m : Mapping) (k : Nat) : Nat :=
  frameAt PAGE_SIZE (m.frame (k / PAGE_SIZE.bytes.toNat)) + k % PAGE_SIZE.bytes.toNat

/-- What user space can do to the device while it has the mapping. -/
inductive Access
  | store (k : Nat) (v : UInt8)
  | read (fault : Option Fault) (buf : Bytes) (count : UInt64) (ppos : Int64)
  | write (fault : Option Fault) (buf : Bytes) (count : UInt64) (ppos : Int64)
  | ioctl (cmd : UInt32)

def access {δ : Type} (PAGE_SIZE : PageSize) (d : δ) (m : Mapping) (s : State δ) :
    Access → State δ
  | .store k v => { s with phys := Function.update s.phys (m.address PAGE_SIZE k) v }
  | .read _ _ _ _ => s
  | .write fault buf count ppos => (globalmem_write PAGE_SIZE s d fault buf count ppos).1
  | .ioctl cmd => (globalmem_ioctl PAGE_SIZE s d cmd 0).1

def history {δ : Type} (PAGE_SIZE : PageSize) (d : δ) (m : Mapping) (s : State δ)
    (as : List Access) : State δ :=
  as.foldl (access PAGE_SIZE d m) s

end DeviceDriverEx.Mmap
