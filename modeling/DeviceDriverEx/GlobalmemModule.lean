import DeviceDriverEx.Resources
import Mathlib.Logic.Function.Basic

namespace DeviceDriverEx.Globalmem

/-- The drivers that load and unload alike: 17_LAB1, 18_LAB2, 18_LAB3, and those of 19_LAB1 and
19_LAB2. -/
inductive Lab
  | slab
  | pages
  | mmap
  | sync
  deriving DecidableEq

/-- Whether init gives every device its ramdisk. -/
def Lab.fills : Lab → Bool
  | slab => false
  | pages => true
  | mmap => true
  | sync => false

/-- `#define order 0`; `__get_free_page` asks for no more. -/
def order : Nat := 0

def ENOMEM : Int32 := 12

def MINORBITS : UInt32 := 20

def MINORMASK : UInt32 := (1 <<< MINORBITS) - 1

def MKDEV (major minor : Int32) : UInt32 := (major.toUInt32 <<< MINORBITS) ||| minor.toUInt32

def MAJOR (dev : UInt32) : UInt32 := dev >>> MINORBITS

def MINOR (dev : UInt32) : UInt32 := dev &&& MINORMASK

/-- What the kernel answers. A pointer is `none` when it is null, an `int` negative on failure. The
array is asked for by its length, pages and `cdev_add` by the index of the device. -/
structure Kernel (ω : Type) where
  kmem_cache_create : Int32 → Option ω
  register_chrdev_region : UInt32 → Int32 → Int32
  alloc_chrdev_region : Int32 → UInt32 × Int32
  kmalloc : Int32 → Option ω
  get_free_pages : Nat → Option ω
  cdev_add : Nat → Int32
  baseminor : ∀ n, ¬ (alloc_chrdev_region n).2 < 0 → MINOR (alloc_chrdev_region n).1 = 0

/-- The calls of the kernel with their answers, and in `devp` each use of an element of the
array. Both ways of registering a range are recorded alike. -/
inductive Call (ω : Type)
  | kmem_cache_create (size : Int32) (kcache : Option ω)
  | register_chrdev_region (devno : UInt32) (count rval : Int32)
  | kmalloc (n : Int32) (devp : Option ω)
  | get_free_pages (order : Nat) (ramdisk : Option ω)
  | cdev_add (i : Nat) (devno : UInt32) (rval : Int32)
  | cdev_del (i : Nat)
  | kmem_cache_destroy (kcache : Option ω)
  | unregister_chrdev_region (devno : UInt32) (count : Int32)
  | kfree (p : Option ω)
  | free_pages (p : Option ω) (order : Nat)
  | devp (i : Nat)
  deriving DecidableEq

inductive Resource (ω : Type)
  | cache (kcache : ω)
  | region (devno : UInt32) (count : Int32)
  | object (p : ω)
  | pages (p : ω) (order : Nat)
  | cdev (i : Nat)
  deriving DecidableEq

/-- A failed call acquires nothing. -/
def Call.acquires {ω : Type} : Call ω → Option (Resource ω)
  | kmem_cache_create _ kcache => kcache.map .cache
  | register_chrdev_region devno count rval => if rval < 0 then none else some (.region devno count)
  | kmalloc _ p => p.map .object
  | get_free_pages order ramdisk => ramdisk.map (.pages · order)
  | cdev_add i _ rval => if rval < 0 then none else some (.cdev i)
  | _ => none

/-- `kfree` and `free_pages` ignore a null pointer. -/
def Call.releases {ω : Type} : Call ω → Option (Resource ω)
  | cdev_del i => some (.cdev i)
  | kmem_cache_destroy kcache => kcache.map .cache
  | unregister_chrdev_region devno count => some (.region devno count)
  | kfree p => p.map .object
  | free_pages p order => p.map (.pages · order)
  | _ => none

def effects (ω : Type) : Effects (Call ω) (Resource ω) := ⟨Call.acquires, Call.releases⟩

/-- The variables of the module and the pointers in its array. -/
structure Globals (ω : Type) where
  N_GLOBALMEM : Int32
  globalmem_major : Int32
  GLOBALMEM_SIZE : Int32
  kcache : Option ω
  devp : Option ω
  ramdisk : Nat → Option ω

section
variable {ω : Type}

/-- What `i` runs through in `for (i = 0; i < N_GLOBALMEM; i++)`. -/
def Globals.devices (g : Globals ω) : List Nat := List.range g.N_GLOBALMEM.toInt.toNat

/-- The range of device numbers that init asks for, and the answer. -/
def Globals.region (K : Kernel ω) (g : Globals ω) : UInt32 × Int32 :=
  if g.globalmem_major ≠ 0 then
    (MKDEV g.globalmem_major 0, K.register_chrdev_region (MKDEV g.globalmem_major 0) g.N_GLOBALMEM)
  else K.alloc_chrdev_region g.N_GLOBALMEM

def Globals.setMajor (K : Kernel ω) (g : Globals ω) : Globals ω :=
  if g.globalmem_major ≠ 0 then g
  else { g with globalmem_major := (MAJOR (K.alloc_chrdev_region g.N_GLOBALMEM).1).toInt32 }

/-- The answers of `cdev_add` are not looked at. -/
def globalmem_setup_cdev (K : Kernel ω) (g : Globals ω) : List (Call ω) :=
  g.devices.flatMap fun i =>
    [.devp i, .cdev_add i (MKDEV g.globalmem_major (Int32.ofNat i)) (K.cdev_add i)]

/-- The loop of 18_LAB2 and 18_LAB3 over the ramdisks. -/
def get_ramdisks (lab : Lab) (K : Kernel ω) (g : Globals ω) : List (Call ω) :=
  if lab.fills then
    g.devices.flatMap fun i => [.get_free_pages order (K.get_free_pages i), .devp i]
  else []

def Globals.setRamdisks (lab : Lab) (K : Kernel ω) (g : Globals ω) : Globals ω :=
  if lab.fills then
    { g with ramdisk := fun i => if i ∈ g.devices then K.get_free_pages i else g.ramdisk i }
  else g

/-- What a call of init returns, leaves in the variables and has called. -/
structure Loaded (ω : Type) where
  rval : Int32
  globals : Globals ω
  calls : List (Call ω)

/-- The part of init that the drivers share. -/
def load (lab : Lab) (K : Kernel ω) (g : Globals ω) : Loaded ω :=
  let devno := (g.region K).1
  let rval := (g.region K).2
  let g := g.setMajor K
  let register : Call ω := .register_chrdev_region devno g.N_GLOBALMEM rval
  if rval < 0 then ⟨rval, g, [register]⟩
  else
    let g := { g with devp := K.kmalloc g.N_GLOBALMEM }
    let allocate : Call ω := .kmalloc g.N_GLOBALMEM g.devp
    match g.devp with
    | none => ⟨-ENOMEM, g, [register, allocate, .unregister_chrdev_region devno g.N_GLOBALMEM]⟩
    | some _ => ⟨0, g.setRamdisks lab K,
        [register, allocate] ++ get_ramdisks lab K g ++ globalmem_setup_cdev K g⟩

/-- 17_LAB1 first creates its cache. -/
def globalmem_init (lab : Lab) (K : Kernel ω) (g : Globals ω) : Loaded ω :=
  match lab with
  | .slab =>
    let g := { g with kcache := K.kmem_cache_create g.GLOBALMEM_SIZE }
    let create : Call ω := .kmem_cache_create g.GLOBALMEM_SIZE g.kcache
    match g.kcache with
    | none => ⟨-ENOMEM, g, [create]⟩
    | some _ => { load .slab K g with calls := create :: (load .slab K g).calls }
  | .pages => load .pages K g
  | .mmap => load .mmap K g
  | .sync => load .sync K g

def cdev_dels (g : Globals ω) : List (Call ω) :=
  g.devices.flatMap fun i => [.devp i, .cdev_del i]

def unregister (g : Globals ω) : Call ω :=
  .unregister_chrdev_region (MKDEV g.globalmem_major 0) g.N_GLOBALMEM

def globalmem_exit (lab : Lab) (g : Globals ω) : List (Call ω) :=
  match lab with
  | .slab => cdev_dels g ++ [.kmem_cache_destroy g.kcache, .kfree g.devp, unregister g]
  | .pages => cdev_dels g ++ [unregister g] ++
      (g.devices.flatMap fun i => [.devp i, .free_pages (g.ramdisk i) order]) ++ [.kfree g.devp]
  | .mmap => cdev_dels g ++ [unregister g] ++
      (g.devices.flatMap fun i => [.devp i, .kfree (g.ramdisk i)]) ++ [.kfree g.devp]
  | .sync => cdev_dels g ++ [.kfree g.devp, unregister g]

/-- What happens to the variables while the module is loaded: its parameters are written, and files
are opened and used. -/
inductive Event (ω : Type)
  | N_GLOBALMEM (n : Int32)
  | globalmem_major (major : Int32)
  | GLOBALMEM_SIZE (size : Int32)
  | globalmem_open (i : Nat) (ramdisk : Option ω)
  | fileOperation

/-- Only 17_LAB1 allocates when a file is opened, and no other file operation assigns to a variable
of the module. -/
def Globals.event (lab : Lab) (g : Globals ω) : Event ω → Globals ω
  | .N_GLOBALMEM n => { g with N_GLOBALMEM := n }
  | .globalmem_major major => { g with globalmem_major := major }
  | .GLOBALMEM_SIZE size => { g with GLOBALMEM_SIZE := size }
  | .globalmem_open i ramdisk =>
    match lab with
    | .slab => { g with ramdisk := Function.update g.ramdisk i ramdisk }
    | _ => g
  | .fileOperation => g

def Globals.events (lab : Lab) (g : Globals ω) (es : List (Event ω)) : Globals ω :=
  es.foldl (Globals.event lab) g

end

end DeviceDriverEx.Globalmem
