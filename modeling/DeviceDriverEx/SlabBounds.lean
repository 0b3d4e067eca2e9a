import DeviceDriverEx.GlobalmemWindow

namespace DeviceDriverEx

/-- Around an end that the count cannot reach past, the two clamps keep to a smaller bound exactly
if the position is no later than the end, and the count or the end is within that bound. -/
theorem clampTwice_inside_iff {V pos count : UInt64} {bound : Nat} (small : V.toNat < 2 ^ 31)
    (admitted : bound < 2 ^ 31) (within : pos.toNat ≤ bound) :
    pos.toNat + (clampTwice V pos count).toNat ≤ bound ↔
      pos.toNat ≤ V.toNat ∧ (pos.toNat + count.toNat ≤ bound ∨ V.toNat ≤ bound) := by
  by_cases inside : pos.toNat ≤ V.toNat
  · rw [clampTwice_within count small inside, clampOnce_toNat]
    omega
  · rw [clampTwice_past pos count small (by omega) (by omega)]
    omega

/-- An end that stands for a negative number clamps nothing that is in reach. -/
theorem clampTwice_negative_iff {V pos count : UInt64} {bound : Nat}
    (negative : 2 ^ 64 - 2 ^ 31 ≤ V.toNat) (admitted : bound < 2 ^ 31)
    (within : pos.toNat ≤ bound) :
    pos.toNat + (clampTwice V pos count).toNat ≤ bound ↔ pos.toNat + count.toNat ≤ bound := by
  have first := clampFirst_toNat V count
  have sum : (pos + clampFirst V count).toNat =
      (pos.toNat + min count.toNat V.toNat) % 2 ^ 64 := by
    rw [UInt64.toNat_add, first]
  have room : (V - pos).toNat = V.toNat - pos.toNat :=
    UInt64.toNat_sub_of_le _ _ (UInt64.le_iff_toNat_le.mpr (by omega))
  have lt := count.toNat_lt_size
  unfold clampTwice
  split
  next hc =>
    rw [gt_iff_lt, UInt64.lt_iff_toNat_lt, sum] at hc
    rw [room]
    omega
  next =>
    rw [first]
    omega

namespace Slab

/-- The bytes of an object of the cache that `globalmem_init` created with this parameter. -/
def objectSize (size : Int32) : Nat := size.toInt.toNat

/-- A position between 0 and the object's size. -/
def PositionWithin (size : Int32) (ppos : Int64) : Prop :=
  0 ≤ ppos ∧ ppos.toInt ≤ objectSize size

instance (size : Int32) (ppos : Int64) : Decidable (PositionWithin size ppos) :=
  inferInstanceAs (Decidable (_ ∧ _))

/-- What a user copy of up to `count` bytes asks of the parameter `v` as it stands, if it is to
stay below `bound`: that it faults in time, or that `v` does not lie behind the position and clamps
what the count does not. -/
def CopyInside (bound : Nat) (v : Int) (fault : Option Fault) (count : UInt64) (ppos : Int64) :
    Prop :=
  (∃ f ∈ fault, ppos.toInt + f.after ≤ bound) ∨
    (v < 0 ∨ ppos.toInt ≤ v) ∧ (ppos.toInt + count.toNat ≤ bound ∨ 0 ≤ v ∧ v ≤ bound)

instance (bound : Nat) (v : Int) (count : UInt64) (ppos : Int64) :
    ∀ fault, Decidable (CopyInside bound v fault count ppos)
  | none => decidable_of_iff
      ((v < 0 ∨ ppos.toInt ≤ v) ∧ (ppos.toInt + count.toNat ≤ bound ∨ 0 ≤ v ∧ v ≤ bound))
      (by simp [CopyInside])
  | some f => decidable_of_iff (ppos.toInt + f.after ≤ bound ∨
      (v < 0 ∨ ppos.toInt ≤ v) ∧ (ppos.toInt + count.toNat ≤ bound ∨ 0 ≤ v ∧ v ≤ bound))
      (by simp [CopyInside])

/-- Every byte that the log says was touched has an index below the object's size. -/
def TouchesInside {ω : Type} (size : Int32) (log : List (HeapEvent ω)) : Prop :=
  ∀ p first n, .access p first n ∈ log → ∀ k, first ≤ k → k < first + n → k < objectSize size

section
variable {φ δ ω : Type}

/-- The calls that stay inside an object made when the parameter was `size`. A fault keeps a write
inside only if the kernel does not clear what it has not copied. -/
def KeepsInside (size : Int32) (s : State φ δ ω) : Call φ δ ω → Prop
  | .read _ _ fault _ count ppos =>
    CopyInside (objectSize size) s.GLOBALMEM_SIZE.toInt fault count ppos
  | .write _ _ fault _ count ppos =>
    CopyInside (objectSize size) s.GLOBALMEM_SIZE.toInt (fault.filter fun f => !f.pads) count ppos
  | .ioctl _ _ cmd =>
    cmd = MEM_CLEAR → 0 ≤ s.GLOBALMEM_SIZE.toInt ∧ s.GLOBALMEM_SIZE.toInt ≤ objectSize size
  | .open_ _ _ _ | .release _ _ | .setSize _ => True

instance (size : Int32) (s : State φ δ ω) : ∀ c : Call φ δ ω, Decidable (KeepsInside size s c)
  | .read .. | .write .. => inferInstanceAs (Decidable (CopyInside ..))
  | .ioctl _ _ _ => inferInstanceAs (Decidable (_ → _))
  | .open_ .. | .release .. | .setSize _ => isTrue trivial

def Positioned (size : Int32) : Call φ δ ω → Prop
  | .read _ _ _ _ _ ppos | .write _ _ _ _ _ ppos => PositionWithin size ppos
  | .open_ _ _ _ | .release _ _ | .ioctl _ _ _ | .setSize _ => True

instance (size : Int32) : ∀ c : Call φ δ ω, Decidable (Positioned size c)
  | .read .. | .write .. => inferInstanceAs (Decidable (PositionWithin ..))
  | .open_ .. | .release .. | .ioctl .. | .setSize _ => isTrue trivial

end

theorem touchesInside_access {ω : Type} {size : Int32} {log : List (HeapEvent ω)} {p : Option ω}
    {first n : Nat} : TouchesInside size (.access p first n :: log) ↔
      (n = 0 ∨ first + n ≤ objectSize size) ∧ TouchesInside size log := by
  constructor
  · intro h
    refine ⟨?_, fun q a m hm => h q a m (List.mem_cons_of_mem _ hm)⟩
    by_contra past
    have last := h p first n List.mem_cons_self (first + n - 1) (by omega) (by omega)
    omega
  · rintro ⟨inside, past⟩ q a m hm k hk hn
    rcases List.mem_cons.mp hm with he | hm
    · cases he
      omega
    · exact past q a m hm k hk hn

theorem touchesInside_other {ω : Type} {size : Int32} {log : List (HeapEvent ω)}
    {e : HeapEvent ω} (quiet : ∀ p first n, e ≠ .access p first n) :
    TouchesInside size (e :: log) ↔ TouchesInside size log := by
  constructor
  · intro h q a m hm
    exact h q a m (List.mem_cons_of_mem _ hm)
  · intro h q a m hm
    rcases List.mem_cons.mp hm with he | hm
    · exact absurd he.symm (quiet q a m)
    · exact h q a m hm

theorem copyInside_iff {size v : Int32} {ppos : Int64} (position : PositionWithin size ppos)
    (fault : Option Fault) (count : UInt64) :
    let moved := copied fault (clampCount v ppos.toUInt64 count).toNat
    (moved = 0 ∨ ppos.toUInt64.toNat + moved ≤ objectSize size) ↔
      CopyInside (objectSize size) v.toInt fault count ppos := by
  obtain ⟨nonneg, within⟩ := position
  have place := toUInt64_toNat nonneg
  have nonneg' : 0 ≤ ppos.toInt := by simpa [Int64.le_iff_toInt_le] using nonneg
  have admitted : objectSize size < 2 ^ 31 := by
    have lt := size.toInt_lt
    unfold objectSize
    omega
  have whole : ppos.toUInt64.toNat + (clampCount v ppos.toUInt64 count).toNat ≤ objectSize size ↔
      (v.toInt < 0 ∨ ppos.toInt ≤ v.toInt) ∧
        (ppos.toInt + count.toNat ≤ objectSize size ∨ 0 ≤ v.toInt ∧ v.toInt ≤ objectSize size) := by
    rw [slab_clampCount]
    by_cases negative : v.toInt < 0
    · rw [clampTwice_negative_iff (sizeOf_negative negative) admitted (by omega)]
      omega
    · obtain ⟨value, small⟩ := sizeOf_nonneg (Int.not_lt.mp negative)
      rw [clampTwice_inside_iff small admitted (by omega)]
      omega
  intro moved
  unfold CopyInside
  rw [← whole]
  cases fault with
  | none =>
    simp only [moved, copied, Option.mem_def, reduceCtorEq, false_and, exists_false, false_or]
    omega
  | some f =>
    simp only [moved, copied, Option.mem_def, Option.some.injEq, exists_eq_left']
    omega

section
variable {φ δ ω : Type} [DecidableEq φ] [DecidableEq δ] [DecidableEq ω]

/-- The driver loaded with the parameter at `size`, its files at positions within the object. -/
def boundedMachine (size : Int32) : Machine (State φ δ ω) (Call φ δ ω) :=
  ⟨fun s c => Enabled s c ∧ Positioned size c, next⟩

instance (size : Int32) (s : State φ δ ω) (c : Call φ δ ω) :
    Decidable ((boundedMachine size).Enabled s c) :=
  inferInstanceAs (Decidable (_ ∧ _))

/-- One call adds an access inside the object exactly if it meets the condition. -/
theorem touchesInside_next {size : Int32} {s : State φ δ ω} {c : Call φ δ ω}
    (position : Positioned size c) (sofar : TouchesInside size s.log) :
    TouchesInside size (next s c).log ↔ KeepsInside size s c := by
  cases c with
  | open_ f d alloc =>
    cases alloc with
    | none => exact iff_of_true sofar trivial
    | some o => exact iff_of_true ((touchesInside_other (by simp)).mpr sofar) trivial
  | release f d => exact iff_of_true ((touchesInside_other (by simp)).mpr sofar) trivial
  | read f d fault buf count ppos =>
    exact (touchesInside_access.trans (and_iff_left sofar)).trans
      (copyInside_iff position fault count)
  | write f d fault buf count ppos =>
    refine (touchesInside_access.trans (and_iff_left sofar)).trans ?_
    rw [overwritten_eq]
    exact copyInside_iff position (fault.filter fun f => !f.pads) count
  | ioctl f d cmd =>
    by_cases clears : cmd = MEM_CLEAR
    · have cleared : (next s (.ioctl f d cmd)).log =
          .access (s.ramdisk d) 0 (sizeOf s.GLOBALMEM_SIZE).toNat :: s.log := by
        simp only [next, globalmem_ioctl, if_pos clears]
      rw [cleared, touchesInside_access, and_iff_left sofar, KeepsInside, forall_prop_of_true clears]
      have bound : (objectSize size : Int) < 2 ^ 31 := by
        have lt := size.toInt_lt
        unfold objectSize
        omega
      by_cases negative : s.GLOBALMEM_SIZE.toInt < 0
      · have huge := sizeOf_negative negative
        omega
      · have value := sizeOf_nonneg (Int.not_lt.mp negative)
        omega
    · have same : (next s (.ioctl f d cmd)).log = s.log := by
        simp only [next, globalmem_ioctl, if_neg clears]
      rw [same]
      exact iff_of_true sofar fun h => absurd h clears
  | setSize v => exact iff_of_true sofar trivial

/-- Along a run that starts with the parameter at `size`, the accesses stay inside the objects of
that size exactly if each call meets the condition on the parameter as it then stands. -/
theorem accesses_inside_iff {size : Int32} {heap : Option ω → Bytes} {as : List (Call φ δ ω)}
    {s : State φ δ ω} (h : Run (boundedMachine size) (init size heap) as s) :
    Always (boundedMachine size) (fun _ t => TouchesInside size t.log) (init size heap) as ↔
      Meets (boundedMachine size) (KeepsInside size) (init size heap) as := by
  refine always_iff_meets (I := fun _ t => TouchesInside size t.log) ?_ ?_ ?_ ?_ h
  · intro p first n hm
    cases hm
  · intro _ s c sofar enabled keeps
    exact (touchesInside_next enabled.2 sofar).mpr keeps
  · exact fun _ _ sofar => sofar
  · intro _ s c sofar enabled leaves inside
    exact leaves ((touchesInside_next enabled.2 sofar).mp inside)

/-- A smaller parameter, a negative one with a count that fits, and a larger one with a read and a
write that fault in time. -/
theorem accesses_inside_iff_rewritten :
    let as : List (Call Unit Unit Unit) := [.setSize 512, .open_ () () (some ()),
      .write () () none (fun _ => 1) 600 100, .ioctl () () MEM_CLEAR, .setSize (-1),
      .read () () none (fun _ => 0) 24 1000, .setSize 4096,
      .read () () (some ⟨4, true⟩) (fun _ => 0) 9 1020,
      .write () () (some ⟨4, false⟩) (fun _ => 2) 9 1020,
      .write () () (some ⟨2, true⟩) (fun _ => 2) 4 1020, .release () ()]
    Always (boundedMachine 1024) (fun _ t => TouchesInside 1024 t.log)
      (init 1024 fun _ _ => 0) as := by
  intro as
  have run : Run (boundedMachine 1024) (init 1024 fun _ _ => 0) as _ := run_of_admits (by decide)
  exact (accesses_inside_iff run).mpr (meets_of_replay (by decide))

/-- With the parameter raised to 4096 behind an object of 1024 bytes, a clear and a read both reach
past its end; with a negative one a write does. -/
theorem accesses_leave_object :
    let raised : List (Call Unit Unit Unit) := [.setSize 4096, .open_ () () (some ()),
      .ioctl () () MEM_CLEAR]
    let negative : List (Call Unit Unit Unit) := [.setSize (-1), .open_ () () (some ()),
      .write () () none (fun _ => 1) 1025 0]
    let start : State Unit Unit Unit := init 1024 fun _ _ => 0
    (boundedMachine 1024).Admits start raised ∧ (boundedMachine 1024).Admits start negative ∧
      (((boundedMachine 1024).replay start raised).log.head? = some (.access (some ()) 0 4096)) ∧
      (((boundedMachine 1024).replay start negative).log.head? = some (.access (some ()) 0 1025)) ∧
      ¬ TouchesInside 1024 ((boundedMachine 1024).replay start raised).log ∧
      ¬ TouchesInside 1024 ((boundedMachine 1024).replay start negative).log := by
  intro raised negative start
  refine ⟨by decide, by decide, by decide, by decide, fun inside => ?_, fun inside => ?_⟩
  · have last := inside (some ()) 0 4096 (by decide) 1024 (by decide) (by decide)
    revert last
    decide
  · have last := inside (some ()) 0 1025 (by decide) 1024 (by decide) (by decide)
    revert last
    decide

end

end Slab

end DeviceDriverEx
