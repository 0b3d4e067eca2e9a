import DeviceDriverEx.GlobalmemWindow
import DeviceDriverEx.HandedOut
import DeviceDriverEx.PinnedCopy
import DeviceDriverEx.SlabBounds

namespace DeviceDriverEx

theorem copyBytes_congr_iff {dst src src' : Bytes} {at_ from_ n : Nat} :
    copyBytes dst at_ src from_ n = copyBytes dst at_ src' from_ n ↔
      ∀ k < n, src (from_ + k) = src' (from_ + k) := by
  constructor
  · intro same k hk
    have here := congrFun same (at_ + k)
    rwa [copyBytes_inside hk, copyBytes_inside hk] at here
  · intro same
    funext k
    unfold copyBytes
    split
    next inside => exact same _ (by omega)
    next => rfl

/-- What is asked of the user copy by a call within a buffer of `size` bytes. -/
def room (size : Nat) (count : UInt64) (ppos : Int64) : Nat :=
  min count.toNat (size - ppos.toInt.toNat)

theorem room_eq {S : UInt64} {ppos : Int64} (small : S.toNat < 2 ^ 31) (nonneg : 0 ≤ ppos)
    (within : ppos.toInt ≤ S.toNat) (count : UInt64) :
    (clampTwice S ppos.toUInt64 count).toNat = room S.toNat count ppos := by
  have place := toUInt64_toNat nonneg
  rw [clampTwice_within count small (by omega), clampOnce_toNat, place]
  rfl

theorem memset_eq (dst : Bytes) (v : UInt8) (n : Nat) :
    memset dst v n = copyBytes dst 0 (fun _ => v) 0 n := by
  funext k
  unfold memset copyBytes
  simp

namespace Slab

/-- The driver with what it has done to the objects so far, the newest first. -/
structure Traced (φ δ ω : Type) where
  state : State φ δ ω
  ops : List (BufferOp (Option ω))

section
variable {φ δ ω : Type}

/-- What a call does to the objects. One that is released can hold anything from then on. -/
def bufferOps (s : State φ δ ω) : Call φ δ ω → List (BufferOp (Option ω))
  | .open_ _ _ (some o) => [.handOut (some o)]
  | .release _ d => [.handOut (s.ramdisk d)]
  | .read _ d fault _ count ppos => [.load (s.ramdisk d) ppos.toInt.toNat
      (copied fault (room s.GLOBALMEM_SIZE.toInt.toNat count ppos))]
  | .write _ d fault buf count ppos =>
    let n := room s.GLOBALMEM_SIZE.toInt.toNat count ppos
    [.store (s.ramdisk d) ppos.toInt.toNat (arriving fault buf n) (overwritten fault n)]
  | .ioctl _ d cmd => if cmd = MEM_CLEAR then
      [.store (s.ramdisk d) 0 (fun _ => 0) s.GLOBALMEM_SIZE.toInt.toNat] else []
  | .open_ _ _ none | .setSize _ => []

/-- Calls on the objects that the devices have, at positions within them. -/
def InBounds (s : State φ δ ω) : Call φ δ ω → Prop
  | .read _ d _ _ _ ppos | .write _ d _ _ _ ppos =>
    PositionWithin s.GLOBALMEM_SIZE ppos ∧ s.ramdisk d ≠ none
  | .ioctl _ d _ => s.ramdisk d ≠ none
  | .open_ _ _ _ | .release _ _ => True
  | .setSize _ => False

instance [DecidableEq ω] (s : State φ δ ω) : ∀ c : Call φ δ ω, Decidable (InBounds s c)
  | .read .. | .write .. => inferInstanceAs (Decidable (_ ∧ _))
  | .ioctl .. => inferInstanceAs (Decidable (_ ≠ _))
  | .open_ .. | .release .. => isTrue trivial
  | .setSize _ => isFalse id

end

section
variable {φ δ ω : Type} [DecidableEq φ] [DecidableEq δ] [DecidableEq ω]

/-- The `i`-th operation finds in an object that changes hands what `given i` says. -/
def handOver (given : Nat → Option ω → Bytes) (i : Nat) (s : State φ δ ω) :
    Call φ δ ω → State φ δ ω
  | .open_ _ _ (some o) =>
    { s with heap := Function.update s.heap (some o) (given i (some o)) }
  | .release _ d =>
    { s with heap := Function.update s.heap (s.ramdisk d) (given i (s.ramdisk d)) }
  | _ => s

/-- The driver on memory that holds what `given` says whenever it is handed out. -/
def handedMachine (given : Nat → Option ω → Bytes) : Machine (Traced φ δ ω) (Call φ δ ω) :=
  ⟨fun t c => Enabled t.state c ∧ InBounds t.state c, fun t c =>
    ⟨next (handOver given (t.ops.length + 1) t.state c) c, bufferOps t.state c ++ t.ops⟩⟩

instance (given : Nat → Option ω → Bytes) (t : Traced φ δ ω) (c : Call φ δ ω) :
    Decidable ((handedMachine given).Enabled t c) :=
  inferInstanceAs (Decidable (_ ∧ _))

omit [DecidableEq φ] [DecidableEq δ] [DecidableEq ω] in
def handedStart (size : Int32) (given : Nat → Option ω → Bytes) : Traced φ δ ω :=
  ⟨init size (given 0), []⟩

def delivered (t : Traced φ δ ω) : Call φ δ ω → Option CallResult
  | .read _ d fault buf count ppos => some (globalmem_read t.state d fault buf count ppos).2
  | _ => none

/-- Every byte that a read delivers has been stored since its object was handed out. -/
def DeliversStored (t : Traced φ δ ω) : Call φ δ ω → Prop
  | .read _ d fault _ count ppos =>
    ∀ k < copied fault (room t.state.GLOBALMEM_SIZE.toInt.toNat count ppos),
      stored t.ops (t.state.ramdisk d) (ppos.toInt.toNat + k) = true
  | _ => True

instance (t : Traced φ δ ω) : ∀ c : Call φ δ ω, Decidable (DeliversStored t c)
  | .read .. => inferInstanceAs (Decidable (∀ k < _, _))
  | .open_ .. | .write .. | .release .. | .ioctl .. | .setSize _ => isTrue trivial

/-- The same calls, on memory that held something else. -/
def Traced.under (t : Traced φ δ ω) (given : Nat → Option ω → Bytes) : Traced φ δ ω :=
  ⟨{ t.state with heap := contents given t.ops }, t.ops⟩

omit [DecidableEq φ] [DecidableEq δ] [DecidableEq ω] in
theorem asked_eq {s : State φ δ ω} (size : 0 < s.GLOBALMEM_SIZE) {ppos : Int64}
    (position : PositionWithin s.GLOBALMEM_SIZE ppos) (count : UInt64) :
    (clampCount s.GLOBALMEM_SIZE ppos.toUInt64 count).toNat =
      room s.GLOBALMEM_SIZE.toInt.toNat count ppos := by
  obtain ⟨value, small⟩ := sizeOf_toNat size
  obtain ⟨nonneg, within⟩ := position
  unfold objectSize at within
  rw [slab_clampCount, room_eq small nonneg (by omega), value]

/-- A call does to the objects what `bufferOps` says, whatever they held. -/
theorem next_under {t : Traced φ δ ω} {c : Call φ δ ω} (size : 0 < t.state.GLOBALMEM_SIZE)
    (bounds : InBounds t.state c) (g g' : Nat → Option ω → Bytes) :
    (handedMachine g').next (t.under g') c = ((handedMachine g).next t c).under g' := by
  cases c with
  | open_ f d alloc => cases alloc <;> rfl
  | release f d => rfl
  | read f d fault buf count ppos => rfl
  | write f d fault buf count ppos =>
    have asked := asked_eq size bounds.1 count
    have place := toUInt64_toNat bounds.1.1
    simp only [handedMachine, handOver, next, globalmem_write, copy_from_user, Traced.under,
      bufferOps, asked, place, List.singleton_append, contents]
  | ioctl f d cmd =>
    by_cases clears : cmd = MEM_CLEAR
    · simp only [handedMachine, handOver, next, globalmem_ioctl, if_pos clears, Traced.under,
        bufferOps, memset_eq, (sizeOf_toNat size).1, List.singleton_append, contents]
    · simp only [handedMachine, handOver, next, globalmem_ioctl, if_neg clears, Traced.under,
        bufferOps, List.nil_append]
  | setSize v => exact bounds.elim

/-- Nothing that decides about the calls of the driver is kept in its objects. -/
theorem sameSteps {size : Int32} (positive : 0 < size) :
    SameSteps (@handedMachine φ δ ω _ _ _) (handedStart size) Traced.under
      fun t => t.state.GLOBALMEM_SIZE = size := by
  refine ⟨fun _ => rfl, fun g t c same enabled => ?_, fun _ _ => rfl,
    fun g g' t c same enabled => ?_, fun g g' t c same enabled => ?_⟩
  · cases c with
    | open_ f d alloc => cases alloc <;> exact same
    | release | read | write => exact same
    | ioctl f d cmd =>
      by_cases clears : cmd = MEM_CLEAR
      · simpa only [handedMachine, handOver, next, globalmem_ioctl, if_pos clears] using same
      · simpa only [handedMachine, handOver, next, globalmem_ioctl, if_neg clears] using same
    | setSize v => exact enabled.2.elim
  · cases c <;> exact enabled
  · exact next_under (same ▸ positive) enabled.2 g g'

omit [DecidableEq φ] [DecidableEq δ] in
/-- A read delivers the same from any two memories exactly if it delivers stored bytes only. -/
theorem delivered_iff {size : Int32} (positive : 0 < size) {t : Traced φ δ ω} {c : Call φ δ ω}
    (same : t.state.GLOBALMEM_SIZE = size) (bounds : InBounds t.state c) :
    (∀ g g', delivered (t.under g) c = delivered (t.under g') c) ↔ DeliversStored t c := by
  cases c with
  | read f d fault buf count ppos =>
    have asked := asked_eq (same ▸ positive) bounds.1 count
    have place := toUInt64_toNat bounds.1.1
    let n := clampCount t.state.GLOBALMEM_SIZE ppos.toUInt64 count
    let moved := copied fault (room t.state.GLOBALMEM_SIZE.toInt.toNat count ppos)
    have bytes (g : Nat → Option ω → Bytes) : delivered (t.under g) (.read f d fault buf count ppos) =
        some (afterCopy (n.toNat - moved) n ppos
          (copyBytes buf 0 (contents g t.ops (t.state.ramdisk d)) ppos.toInt.toNat moved)) := by
      simp only [moved, ← asked, ← place]
      rfl
    refine Iff.trans ?_ (load_agrees_iff t.ops (t.state.ramdisk d) ppos.toInt.toNat _)
    constructor
    · intro alike g g'
      have equal := alike g g'
      rw [bytes, bytes] at equal
      exact copyBytes_congr_iff.mp (congrArg CallResult.bytes (Option.some.inj equal))
    · intro agree g g'
      rw [bytes, bytes, copyBytes_congr_iff.mpr (agree g g')]
  | open_ | release | write | ioctl | setSize => exact iff_of_true (fun _ _ => rfl) trivial

end

end Slab

namespace Pinned

/-- The ramdisks of the devices of 18_LAB2 with what has been done to them, the newest first. -/
structure Traced (δ : Type) where
  ramdisk : δ → Bytes
  ops : List (BufferOp δ)

/-- A call through a file of a device, with the caller's memory and what `get_user_pages` returned.
The open before it only finds the device. -/
inductive FileCall (δ : Type)
  | read (dev : δ) (r : Request) (rc : Int32) (user : Bytes)
  | write (dev : δ) (r : Request) (rc : Int32) (user : Bytes)

section
variable {δ : Type}

/-- The bytes of the buffer go to, or come from, the start of the ramdisk. -/
def bufferOps : FileCall δ → List (BufferOp δ)
  | .read d r _ _ => [.load d 0 r.count.toNat]
  | .write d r _ user => [.store d 0 (fun k => user (r.buf + k)) r.count.toNat]

/-- An aligned buffer whose pages are all pinned, and a count within the ramdisk. -/
def InBounds (PAGE_SIZE : UInt64) (order : Nat) : FileCall δ → Prop
  | .read _ r rc _ | .write _ r rc _ =>
    PAGE_SIZE.toNat ∣ r.buf ∧ rc.toInt = covering PAGE_SIZE r ∧
      r.count.toNat ≤ PAGE_SIZE.toNat <<< order

instance (PAGE_SIZE : UInt64) (order : Nat) : ∀ c : FileCall δ,
    Decidable (InBounds PAGE_SIZE order c)
  | .read .. | .write .. => inferInstanceAs (Decidable (_ ∧ _ ∧ _))

end

section
variable {δ : Type} [DecidableEq δ] (PAGE_SIZE : UInt64)

def next (t : Traced δ) : FileCall δ → δ → Bytes
  | .read d r rc user => Function.update t.ramdisk d
      (globalmem_read PAGE_SIZE r rc ⟨t.ramdisk d, user⟩).mem.ramdisk
  | .write d r rc user => Function.update t.ramdisk d
      (globalmem_write PAGE_SIZE r rc ⟨t.ramdisk d, user⟩).mem.ramdisk

def handedMachine (order : Nat) : Machine (Traced δ) (FileCall δ) :=
  ⟨fun _ c => InBounds PAGE_SIZE order c, fun t c => ⟨next PAGE_SIZE t c, bufferOps c ++ t.ops⟩⟩

instance (order : Nat) (t : Traced δ) (c : FileCall δ) :
    Decidable ((handedMachine PAGE_SIZE order).Enabled t c) :=
  inferInstanceAs (Decidable (InBounds PAGE_SIZE order c))

omit [DecidableEq δ] in
/-- The ramdisks as `__get_free_pages` returned them. -/
def handedStart (given : δ → Bytes) : Traced δ := ⟨given, []⟩

omit [DecidableEq δ] in
def delivered (t : Traced δ) : FileCall δ → Option (Int64 × Bytes)
  | .read d r rc user =>
    let out := globalmem_read PAGE_SIZE r rc ⟨t.ramdisk d, user⟩
    some (out.rval, out.mem.user)
  | .write _ _ _ _ => none

def DeliversStored (t : Traced δ) : FileCall δ → Prop
  | .read d r _ _ => ∀ k < r.count.toNat, stored t.ops d (0 + k) = true
  | .write _ _ _ _ => True

instance (t : Traced δ) : ∀ c : FileCall δ, Decidable (DeliversStored t c)
  | .read .. => inferInstanceAs (Decidable (∀ k < _, _))
  | .write .. => isTrue trivial

def Traced.under (t : Traced δ) (given : δ → Bytes) : Traced δ :=
  ⟨contents (fun _ => given) t.ops, t.ops⟩

variable {PAGE_SIZE}

theorem next_under (page : 0 < PAGE_SIZE) {order : Nat} {c : FileCall δ}
    (bounds : InBounds PAGE_SIZE order c) (t : Traced δ) (g : δ → Bytes) :
    (handedMachine PAGE_SIZE order).next (t.under g) c =
      ((handedMachine PAGE_SIZE order).next t c).under g := by
  cases c with
  | read d r rc user =>
    have kept : (globalmem_read PAGE_SIZE r rc ⟨contents (fun _ => g) t.ops d, user⟩).mem.ramdisk =
        contents (fun _ => g) t.ops d := by rw [globalmem_read_mem page bounds.2.1]
    simp only [handedMachine, next, Traced.under, kept, bufferOps, List.singleton_append, contents,
      Function.update_eq_self]
  | write d r rc user =>
    have wrote : (globalmem_write PAGE_SIZE r rc ⟨contents (fun _ => g) t.ops d, user⟩).mem.ramdisk =
        copyBytes (contents (fun _ => g) t.ops d) 0 (fun k => user (r.buf + k)) 0 r.count.toNat := by
      rw [globalmem_write_mem page bounds.2.1, pageStart_aligned bounds.1]
      funext k
      unfold copyBytes
      simp
    simp only [handedMachine, next, Traced.under, wrote, bufferOps, List.singleton_append, contents]

theorem sameSteps (page : 0 < PAGE_SIZE) (order : Nat) :
    SameSteps (fun _ => @handedMachine δ _ PAGE_SIZE order) handedStart Traced.under
      fun _ => True :=
  ⟨fun _ => trivial, fun _ _ _ _ _ => trivial, fun _ _ => rfl, fun _ _ _ _ _ enabled => enabled,
    fun _ g t _ _ enabled => next_under page enabled t g⟩

theorem delivered_iff (page : 0 < PAGE_SIZE) {order : Nat} {t : Traced δ} {c : FileCall δ}
    (bounds : InBounds PAGE_SIZE order c) :
    (∀ g g', delivered PAGE_SIZE (t.under g) c = delivered PAGE_SIZE (t.under g') c) ↔
      DeliversStored t c := by
  cases c with
  | read d r rc user =>
    have bytes (g : δ → Bytes) : delivered PAGE_SIZE (t.under g) (.read d r rc user) =
        some (r.count.toInt64,
          copyBytes user r.buf (contents (fun _ => g) t.ops d) 0 r.count.toNat) := by
      have memory := @globalmem_read_mem PAGE_SIZE r rc ⟨contents (fun _ => g) t.ops d, user⟩ page
        bounds.2.1
      simp only [delivered, Traced.under, memory, pageStart_aligned bounds.1]
      rfl
    constructor
    · intro alike k hk
      by_contra unknown
      obtain ⟨i, hi⟩ := contents_of_not_stored (Bool.eq_false_iff.mpr unknown)
      have equal := alike (fun _ _ => 0) (fun _ _ => 1)
      rw [bytes, bytes] at equal
      have same := copyBytes_congr_iff.mp (congrArg Prod.snd (Option.some.inj equal)) k hk
      rw [hi, hi] at same
      cases same
    · intro known g g'
      have agree : ∀ k < r.count.toNat, contents (fun _ => g) t.ops d (0 + k) =
          contents (fun _ => g') t.ops d (0 + k) :=
        fun k hk => contents_of_stored (known k hk) _ _
      rw [bytes, bytes, copyBytes_congr_iff.mpr agree]
  | write => exact iff_of_true (fun _ _ => rfl) trivial

end

end Pinned

namespace Mmap

/-- The driver of 18_LAB3 with what it has done to physical memory, the newest first. -/
structure Traced (δ : Type) where
  state : State δ
  ops : List (BufferOp Unit)

inductive FileCall (δ : Type)
  | read (dev : δ) (fault : Option Fault) (buf : Bytes) (count : UInt64) (ppos : Int64)
  | write (dev : δ) (fault : Option Fault) (buf : Bytes) (count : UInt64) (ppos : Int64)
  | ioctl (dev : δ) (cmd : UInt32) (arg : Int32)

section
variable {δ : Type} (PAGE_SIZE : PageSize)

/-- Where a position of a device stands in physical memory. -/
def address (s : State δ) (d : δ) (ppos : Int64) : Nat :=
  frameAt PAGE_SIZE (s.ramdisk d) + ppos.toInt.toNat

def bufferOps (s : State δ) : FileCall δ → List (BufferOp Unit)
  | .read d fault _ count ppos => [.load () (address PAGE_SIZE s d ppos)
      (copied fault (room PAGE_SIZE.bytes.toNat count ppos))]
  | .write d fault buf count ppos =>
    let n := room PAGE_SIZE.bytes.toNat count ppos
    [.store () (address PAGE_SIZE s d ppos) (arriving fault buf n) (overwritten fault n)]
  | .ioctl d cmd _ => if cmd = MEM_CLEAR then
      [.store () (frameAt PAGE_SIZE (s.ramdisk d)) (fun _ => 0) PAGE_SIZE.bytes.toNat] else []

def InBounds : FileCall δ → Prop
  | .read _ _ _ _ ppos | .write _ _ _ _ ppos => 0 ≤ ppos ∧ ppos.toInt ≤ PAGE_SIZE.bytes.toNat
  | .ioctl _ _ _ => True

instance : ∀ c : FileCall δ, Decidable (InBounds PAGE_SIZE c)
  | .read .. | .write .. => inferInstanceAs (Decidable (_ ∧ _))
  | .ioctl .. => isTrue trivial

def next (s : State δ) : FileCall δ → State δ
  | .read _ _ _ _ _ => s
  | .write d fault buf count ppos => (globalmem_write PAGE_SIZE s d fault buf count ppos).1
  | .ioctl d cmd arg => (globalmem_ioctl PAGE_SIZE s d cmd arg).1

def handedMachine : Machine (Traced δ) (FileCall δ) :=
  ⟨fun _ c => InBounds PAGE_SIZE c, fun t c =>
    ⟨next PAGE_SIZE t.state c, bufferOps PAGE_SIZE t.state c ++ t.ops⟩⟩

instance (t : Traced δ) (c : FileCall δ) : Decidable ((handedMachine PAGE_SIZE).Enabled t c) :=
  inferInstanceAs (Decidable (InBounds PAGE_SIZE c))

/-- Each device with the frame that `__get_free_page` returned for it, and memory as it was. -/
def handedStart (frames : δ → Nat) (phys : Bytes) : Traced δ := ⟨⟨phys, frames⟩, []⟩

def delivered (t : Traced δ) : FileCall δ → Option CallResult
  | .read d fault buf count ppos => some (globalmem_read PAGE_SIZE t.state d fault buf count ppos)
  | _ => none

def DeliversStored (t : Traced δ) : FileCall δ → Prop
  | .read d fault _ count ppos => ∀ k < copied fault (room PAGE_SIZE.bytes.toNat count ppos),
      stored t.ops () (address PAGE_SIZE t.state d ppos + k) = true
  | _ => True

instance (t : Traced δ) : ∀ c : FileCall δ, Decidable (DeliversStored PAGE_SIZE t c)
  | .read .. => inferInstanceAs (Decidable (∀ k < _, _))
  | .write .. | .ioctl .. => isTrue trivial

/-- Memory that differs in the frames of the devices at most. -/
def AlikeElsewhere (frames : δ → Nat) (phys phys' : Bytes) : Prop :=
  ∀ a, (∀ d, a / PAGE_SIZE.bytes.toNat ≠ frames d) → phys a = phys' a

def Traced.under (t : Traced δ) (phys : Bytes) : Traced δ :=
  ⟨{ t.state with phys := contents (fun _ _ => phys) t.ops () }, t.ops⟩

variable {PAGE_SIZE}

theorem asked_eq {ppos : Int64} (position : 0 ≤ ppos ∧ ppos.toInt ≤ PAGE_SIZE.bytes.toNat)
    (count : UInt64) : (clampCount PAGE_SIZE ppos.toUInt64 count).toNat =
      room PAGE_SIZE.bytes.toNat count ppos := by
  rw [mmap_clampCount]
  exact room_eq PAGE_SIZE.small position.1 position.2 count

theorem next_under {c : FileCall δ} (bounds : InBounds PAGE_SIZE c) (t : Traced δ) (g : Bytes) :
    (handedMachine PAGE_SIZE).next (t.under g) c =
      ((handedMachine PAGE_SIZE).next t c).under g := by
  cases c with
  | read => rfl
  | write d fault buf count ppos =>
    simp only [handedMachine, next, globalmem_write, copy_from_user, Traced.under, bufferOps,
      address, asked_eq bounds, toUInt64_toNat bounds.1, List.singleton_append,
      contents_store_self]
  | ioctl d cmd arg =>
    by_cases clears : cmd = MEM_CLEAR
    · simp only [handedMachine, next, globalmem_ioctl, if_pos clears, Traced.under, bufferOps,
        List.singleton_append, contents_store_self]
    · by_cases size : cmd = GET_SIZE
      · simp only [handedMachine, next, globalmem_ioctl, if_neg clears, if_pos size, Traced.under,
          bufferOps, List.nil_append]
      · simp only [handedMachine, next, globalmem_ioctl, if_neg clears, if_neg size, Traced.under,
          bufferOps, List.nil_append]

theorem next_ramdisk (s : State δ) (c : FileCall δ) : (next PAGE_SIZE s c).ramdisk = s.ramdisk := by
  cases c with
  | read | write => rfl
  | ioctl d cmd arg =>
    by_cases clears : cmd = MEM_CLEAR
    · simp only [next, globalmem_ioctl, if_pos clears]
    · by_cases size : cmd = GET_SIZE
      · simp only [next, globalmem_ioctl, if_neg clears, if_pos size]
      · simp only [next, globalmem_ioctl, if_neg clears, if_neg size]

theorem sameSteps (frames : δ → Nat) :
    SameSteps (fun _ => @handedMachine δ PAGE_SIZE) (handedStart frames) Traced.under
      fun t => t.state.ramdisk = frames :=
  ⟨fun _ => rfl, fun _ t c same _ => (next_ramdisk t.state c).trans same, fun _ _ => rfl,
    fun _ _ _ _ _ enabled => enabled, fun _ g t _ _ enabled => next_under enabled t g⟩

theorem delivered_iff {frames : δ → Nat} {t : Traced δ} {c : FileCall δ}
    (same : t.state.ramdisk = frames) (bounds : InBounds PAGE_SIZE c) :
    (∀ g g', AlikeElsewhere PAGE_SIZE frames g g' →
      delivered PAGE_SIZE (t.under g) c = delivered PAGE_SIZE (t.under g') c) ↔
      DeliversStored PAGE_SIZE t c := by
  cases c with
  | read d fault buf count ppos =>
    let n := clampCount PAGE_SIZE ppos.toUInt64 count
    let moved := copied fault (room PAGE_SIZE.bytes.toNat count ppos)
    have bytes (g : Bytes) : delivered PAGE_SIZE (t.under g) (.read d fault buf count ppos) =
        some (Slab.afterCopy (n.toNat - moved) n ppos (copyBytes buf 0
          (contents (fun _ _ => g) t.ops ()) (address PAGE_SIZE t.state d ppos) moved)) := by
      simp only [moved, address, ← asked_eq bounds, ← toUInt64_toNat bounds.1]
      rfl
    constructor
    · intro alike k hk
      by_contra unknown
      obtain ⟨i, hi⟩ := contents_of_not_stored (Bool.eq_false_iff.mpr unknown)
      -- the two memories differ in just the frames of the devices
      classical
      let ones : Bytes := fun a => if ∃ e, a / PAGE_SIZE.bytes.toNat = frames e then 1 else 0
      have elsewhere : AlikeElsewhere PAGE_SIZE frames (fun _ => 0) ones := by
        intro a outside
        exact (if_neg (not_exists.mpr outside)).symm
      have equal := alike _ ones elsewhere
      rw [bytes, bytes] at equal
      have agree := copyBytes_congr_iff.mp (congrArg CallResult.bytes (Option.some.inj equal)) k hk
      rw [hi, hi] at agree
      have inside : (address PAGE_SIZE t.state d ppos + k) / PAGE_SIZE.bytes.toNat = frames d := by
        have within := copied_le fault (room PAGE_SIZE.bytes.toNat count ppos)
        change moved ≤ min count.toNat (PAGE_SIZE.bytes.toNat - ppos.toInt.toNat) at within
        rw [address, frameAt, same, Nat.add_assoc, Nat.add_comm, Nat.add_mul_div_right _ _
          (UInt64.lt_iff_toNat_lt.mp PAGE_SIZE.pos), Nat.div_eq_of_lt (by omega), Nat.zero_add]
      have one : ones (address PAGE_SIZE t.state d ppos + k) = 1 := if_pos ⟨d, inside⟩
      rw [one] at agree
      cases agree
    · intro known g g' _
      rw [bytes, bytes, copyBytes_congr_iff.mpr fun k hk => contents_of_stored (known k hk) _ _]
  | write | ioctl => exact iff_of_true (fun _ _ _ => rfl) trivial

end

end Mmap

/-- All reads of 17_LAB1 deliver the same, whatever `kmem_cache_alloc` hands out. -/
def Slab.ReadsAlike {φ δ ω : Type} [DecidableEq φ] [DecidableEq δ] [DecidableEq ω] (size : Int32)
    (calls : List (Slab.Call φ δ ω)) : Prop :=
  ∀ g g', DeliverAlike (handedMachine g) (handedMachine g') (handedStart size g)
    (handedStart size g') delivered calls

/-- Those of 18_LAB2, whatever `__get_free_pages` does. -/
def Pinned.ReadsAlike {δ : Type} [DecidableEq δ] (PAGE_SIZE : UInt64) (order : Nat)
    (calls : List (Pinned.FileCall δ)) : Prop :=
  ∀ g g', DeliverAlike (handedMachine PAGE_SIZE order) (handedMachine PAGE_SIZE order)
    (handedStart g) (handedStart g') (delivered PAGE_SIZE) calls

/-- Those of 18_LAB3, whatever stands in the frames that `__get_free_page` hands out. -/
def Mmap.ReadsAlike {δ : Type} (PAGE_SIZE : Mmap.PageSize) (frames : δ → Nat)
    (calls : List (Mmap.FileCall δ)) : Prop :=
  ∀ g g', AlikeElsewhere PAGE_SIZE frames g g' →
    DeliverAlike (handedMachine PAGE_SIZE) (handedMachine PAGE_SIZE) (handedStart frames g)
      (handedStart frames g') (delivered PAGE_SIZE) calls

/-- The reads of a run within the bounds of the device deliver the same for all contents of the
memory that it was handed exactly if each of them delivers only bytes that were stored since. -/
theorem reads_alike_iff (φ δ ω : Type) [DecidableEq φ] [DecidableEq δ] [DecidableEq ω] :
    (∀ (size : Int32) (given : Nat → Option ω → Bytes) (calls : List (Slab.Call φ δ ω))
      (t : Slab.Traced φ δ ω), 0 < size →
      Run (Slab.handedMachine given) (Slab.handedStart size given) calls t →
      (Slab.ReadsAlike size calls ↔ Meets (Slab.handedMachine given) Slab.DeliversStored
        (Slab.handedStart size given) calls)) ∧
    (∀ (PAGE_SIZE : UInt64) (order : Nat) (given : δ → Bytes) (calls : List (Pinned.FileCall δ))
      (t : Pinned.Traced δ), 0 < PAGE_SIZE →
      Run (Pinned.handedMachine PAGE_SIZE order) (Pinned.handedStart given) calls t →
      (Pinned.ReadsAlike PAGE_SIZE order calls ↔ Meets (Pinned.handedMachine PAGE_SIZE order)
        Pinned.DeliversStored (Pinned.handedStart given) calls)) ∧
    ∀ (PAGE_SIZE : Mmap.PageSize) (frames : δ → Nat) (phys : Bytes)
      (calls : List (Mmap.FileCall δ)) (t : Mmap.Traced δ),
      Run (Mmap.handedMachine PAGE_SIZE) (Mmap.handedStart frames phys) calls t →
      (Mmap.ReadsAlike PAGE_SIZE frames calls ↔ Meets (Mmap.handedMachine PAGE_SIZE)
        (Mmap.DeliversStored PAGE_SIZE) (Mmap.handedStart frames phys) calls) := by
  refine ⟨?_, ?_, ?_⟩
  · intro size given calls t positive run
    exact (Slab.sameSteps positive).deliverAlike_iff
      (fun _ _ same enabled => Slab.delivered_iff positive same enabled.2) run
  · intro PAGE_SIZE order given calls t page run
    exact (Pinned.sameSteps page order).deliverAlike_iff
      (fun _ _ _ enabled => Pinned.delivered_iff page enabled) run
  · intro PAGE_SIZE frames phys calls t run
    exact (Mmap.sameSteps frames).related_deliverAlike_iff
      (fun _ _ same enabled => Mmap.delivered_iff same enabled) run

/-- Reads of what was written, of what was cleared, of the zeros behind a write that faulted, and
from a page that was written in part. -/
theorem reads_alike_iff_stored :
    Slab.ReadsAlike 1024 ([.open_ () () (some ()), .write () () none (fun _ => 7) 4 0,
      .read () () none (fun _ => 0) 2 1, .ioctl () () MEM_CLEAR,
      .read () () (some ⟨8, false⟩) (fun _ => 0) 2000 0] : List (Slab.Call Unit Unit Unit)) ∧
    Pinned.ReadsAlike 4096 0 ([.write () ⟨4096, 8, by decide⟩ 1 (fun _ => 7),
      .read () ⟨8192, 8, by decide⟩ 1 (fun _ => 0)] : List (Pinned.FileCall Unit)) ∧
    Mmap.ReadsAlike ⟨4096, by decide, by decide⟩ (fun _ : Unit => 3)
      [.write () none (fun _ => 7) 4 4000, .read () none (fun _ => 0) 2 4002,
        .write () (some ⟨1, true⟩) (fun _ => 7) 4 0, .read () none (fun _ => 0) 4 0] := by
  obtain ⟨slab, pinned, mmap⟩ := reads_alike_iff Unit Unit Unit
  refine ⟨?_, ?_, ?_⟩
  · exact (slab 1024 (fun _ _ _ => 0) _ _ (by decide)
      (run_of_admits (by decide))).mpr (meets_of_replay (by decide))
  · exact (pinned 4096 0 (fun _ _ => 0) _ _ (by decide)
      (run_of_admits (by decide))).mpr (meets_of_replay (by decide))
  · exact (mmap _ (fun _ => 3) (fun _ => 0) _ _
      (run_of_admits (by decide))).mpr (meets_of_replay (by decide))

/-- A read of one byte before anything was written delivers what the allocator left there. -/
theorem reads_leak :
    ¬ Slab.ReadsAlike 1024 ([.open_ () () (some ()), .read () () none (fun _ => 0) 1 0] :
      List (Slab.Call Unit Unit Unit)) ∧
    ¬ Pinned.ReadsAlike 4096 0 ([.read () ⟨8192, 1, by decide⟩ 1 (fun _ => 0)] :
      List (Pinned.FileCall Unit)) ∧
    ¬ Mmap.ReadsAlike ⟨4096, by decide, by decide⟩ (fun _ : Unit => 3)
      [.read () none (fun _ => 0) 1 0] := by
  refine ⟨fun alike => ?_, fun alike => ?_, fun alike => ?_⟩
  · have same := alike (fun _ _ _ => 0) (fun _ _ _ => 1) [.open_ () () (some ())] _ [] _ _ rfl
      (run_of_admits (by decide)) (run_of_admits (by decide))
    have first := congrArg (fun r => r.map fun c => c.bytes 0) same
    revert first
    decide
  · have same := alike (fun _ _ => 0) (fun _ _ => 1) [] _ [] _ _ rfl Run.start Run.start
    have first := congrArg (fun r => r.map fun c => c.2 8192) same
    revert first
    decide
  · let page : Bytes := fun a => if a / 4096 = 3 then 1 else 0
    have elsewhere : Mmap.AlikeElsewhere ⟨4096, by decide, by decide⟩ (fun _ : Unit => 3)
        (fun _ => 0) page := fun a outside => (if_neg (outside ())).symm
    have same := alike _ page elsewhere [] _ [] _ _ rfl Run.start Run.start
    have first := congrArg (fun r => r.map fun c => c.bytes 0) same
    revert first
    decide

end DeviceDriverEx
