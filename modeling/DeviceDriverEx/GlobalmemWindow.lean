import DeviceDriverEx.MmapGlobalmem

namespace DeviceDriverEx

def clampFirst (S count : UInt64) : UInt64 := if count > S then S else count

/-- The two clamps in a row, for a buffer of `S` bytes. -/
def clampTwice (S pos count : UInt64) : UInt64 :=
  if pos + clampFirst S count > S then S - pos else clampFirst S count

/-- What the 19_LAB1 drivers ask of the user copy, for a buffer of `S` bytes: nothing from its end
on, else at most what is left of it. -/
def clampOnce (S pos count : UInt64) : UInt64 :=
  if pos ≥ S then 0 else if count > S - pos then S - pos else count

theorem slab_clampCount (size : Int32) (pos count : UInt64) :
    Slab.clampCount size pos count = clampTwice (Slab.sizeOf size) pos count := rfl

theorem mmap_clampCount (PAGE_SIZE : Mmap.PageSize) (pos count : UInt64) :
    Mmap.clampCount PAGE_SIZE pos count = clampTwice PAGE_SIZE.bytes pos count := rfl

theorem clampOnce_toNat (S pos count : UInt64) :
    (clampOnce S pos count).toNat = min count.toNat (S.toNat - pos.toNat) := by
  unfold clampOnce
  split
  next past =>
    rw [ge_iff_le, UInt64.le_iff_toNat_le] at past
    change 0 = _
    omega
  next inside =>
    have le : pos ≤ S := UInt64.le_of_lt (UInt64.not_le.mp inside)
    have room : (S - pos).toNat = S.toNat - pos.toNat := UInt64.toNat_sub_of_le _ _ le
    split
    next hc =>
      rw [gt_iff_lt, UInt64.lt_iff_toNat_lt, room] at hc
      omega
    next hc =>
      rw [gt_iff_lt, UInt64.lt_iff_toNat_lt, room] at hc
      omega

theorem clampFirst_toNat (S count : UInt64) :
    (clampFirst S count).toNat = min count.toNat S.toNat := by
  unfold clampFirst
  split
  next hc =>
    rw [gt_iff_lt, UInt64.lt_iff_toNat_lt] at hc
    omega
  next hc =>
    rw [gt_iff_lt, UInt64.lt_iff_toNat_lt] at hc
    omega

/-- The sum of the second clamp does not wrap for a position of the VFS. -/
theorem clampFirst_sum {S : UInt64} (pos count : UInt64) (small : S.toNat < 2 ^ 31)
    (admitted : pos.toNat < 2 ^ 63) :
    (pos + clampFirst S count).toNat = pos.toNat + min count.toNat S.toNat := by
  rw [UInt64.toNat_add, clampFirst_toNat]
  omega

theorem clampTwice_within {S pos : UInt64} (count : UInt64) (small : S.toNat < 2 ^ 31)
    (within : pos.toNat ≤ S.toNat) : clampTwice S pos count = clampOnce S pos count := by
  have sum := clampFirst_sum pos count small (by omega)
  have room : (S - pos).toNat = S.toNat - pos.toNat :=
    UInt64.toNat_sub_of_le _ _ (UInt64.le_iff_toNat_le.mpr within)
  rw [← UInt64.toNat_inj, clampOnce_toNat]
  unfold clampTwice
  split
  next hc =>
    rw [gt_iff_lt, UInt64.lt_iff_toNat_lt, sum] at hc
    omega
  next hc =>
    rw [gt_iff_lt, UInt64.lt_iff_toNat_lt, sum] at hc
    rw [clampFirst_toNat]
    omega

/-- Behind the end the subtraction of the second clamp wraps. -/
theorem clampTwice_past {S : UInt64} (pos count : UInt64) (small : S.toNat < 2 ^ 31)
    (admitted : pos.toNat < 2 ^ 63) (past : S.toNat < pos.toNat) :
    (clampTwice S pos count).toNat = 2 ^ 64 - (pos.toNat - S.toNat) := by
  have sum := clampFirst_sum pos count small admitted
  unfold clampTwice
  split
  next hc =>
    rw [UInt64.toNat_sub]
    omega
  next hc =>
    rw [gt_iff_lt, UInt64.lt_iff_toNat_lt, sum] at hc
    omega

/-- What a call for `count` bytes at `pos` owes to a buffer of `S` bytes, if it asks the user copy
for `asked` bytes, of which `moved` come across, and touches `touched` bytes of the buffer. -/
structure Windowed (S pos : Nat) (count asked : UInt64) (moved touched : Nat) (r : CallResult) :
    Prop where
  asks : asked.toNat = min count.toNat (S - pos)
  inside : ∀ k, pos ≤ k → k < pos + touched → k < S
  returns : r.rval.toInt = moved
  advances : r.ppos.toInt = pos + moved

/-- Within the buffer the return value counts the bytes that came across. -/
theorem windowed_afterCopy {S : UInt64} {p : FilePos} {count : UInt64} {fault : Option Fault}
    {bytes : Bytes} {touched : Nat} (small : S.toNat < 2 ^ 31) (within : p.toNat ≤ S.toNat)
    (few : touched ≤ (clampTwice S p.val.toUInt64 count).toNat) :
    let asked := clampTwice S p.val.toUInt64 count
    let moved := copied fault asked.toNat
    Windowed S.toNat p.toNat count asked moved touched
      (Slab.afterCopy (asked.toNat - moved) asked p.val bytes) := by
  intro asked moved
  have place : p.val.toUInt64.toNat = p.toNat := p.toUInt64_toNat
  have asks : asked.toNat = min count.toNat (S.toNat - p.toNat) := by
    rw [show asked = clampOnce S p.val.toUInt64 count from
      clampTwice_within count small (by omega), clampOnce_toNat, place]
  have le : moved ≤ asked.toNat := copied_le fault asked.toNat
  have left : (asked - UInt64.ofNat (asked.toNat - moved)).toNat = moved := by
    have wide : (UInt64.ofNat (asked.toNat - moved)).toNat = asked.toNat - moved :=
      UInt64.toNat_ofNat_of_lt' (Nat.lt_of_le_of_lt (Nat.sub_le _ _) asked.toNat_lt_size)
    rw [UInt64.toNat_sub_of_le _ _ (UInt64.le_iff_toNat_le.mpr (by omega)), wide]
    omega
  have rval : ((asked - UInt64.ofNat (asked.toNat - moved)).toUInt32.toInt32.toInt64).toInt =
      moved := by
    rw [narrow_toInt (by omega), left]
  have few' : touched ≤ asked.toNat := few
  refine ⟨asks, fun k _ hk => by omega, rval, ?_⟩
  change (p.val + _).toInt = _
  have hp := p.toNat_cast
  rw [Int64.toInt_add, rval, ← hp]
  exact Int.bmod_eq_of_le (by omega) (by omega)

theorem not_windowed_past {S : UInt64} {p : FilePos} {count : UInt64} {moved touched : Nat}
    {r : CallResult} (small : S.toNat < 2 ^ 31) (past : S.toNat < p.toNat) :
    ¬ Windowed S.toNat p.toNat count (clampTwice S p.val.toUInt64 count) moved touched r := by
  intro h
  have place : p.val.toUInt64.toNat = p.toNat := p.toUInt64_toNat
  have admitted : p.toNat < 2 ^ 63 := by
    have hp := p.toNat_cast
    have lt := p.val.toInt_lt
    omega
  have wraps := clampTwice_past p.val.toUInt64 count small (by omega) (by omega)
  have asks := h.asks
  omega

/-- The window is kept from exactly the positions up to the end on. -/
theorem window_iff {S : UInt64} (p : FilePos) (count : UInt64) (fault : Option Fault)
    (bytes : Bytes) {touched : Nat} (small : S.toNat < 2 ^ 31)
    (few : touched ≤ (clampTwice S p.val.toUInt64 count).toNat) :
    let asked := clampTwice S p.val.toUInt64 count
    let moved := copied fault asked.toNat
    (Windowed S.toNat p.toNat count asked moved touched
        (Slab.afterCopy (asked.toNat - moved) asked p.val bytes) ∧
      asked = clampOnce S p.val.toUInt64 count) ↔ p.toNat ≤ S.toNat := by
  intro asked moved
  have place : p.val.toUInt64.toNat = p.toNat := p.toUInt64_toNat
  constructor
  · intro h
    by_contra past
    exact not_windowed_past small (Nat.lt_of_not_le past) h.1
  · intro within
    exact ⟨windowed_afterCopy small within few, clampTwice_within count small (by omega)⟩

theorem read_window_iff {S : UInt64} {p : FilePos} {count : UInt64} {fault : Option Fault}
    {bytes : Bytes} {effect : Prop} (small : S.toNat < 2 ^ 31) (done : effect) :
    let asked := clampTwice S p.val.toUInt64 count
    let moved := copied fault asked.toNat
    (Windowed S.toNat p.toNat count asked moved moved
        (Slab.afterCopy (asked.toNat - moved) asked p.val bytes) ∧
      asked = clampOnce S p.val.toUInt64 count ∧ effect) ↔ p.toNat ≤ S.toNat := by
  refine Iff.trans ?_ (window_iff p count fault bytes small (copied_le fault _))
  exact and_congr_right fun _ => and_iff_left done

/-- The bytes of a write's window stay as they were behind those that came across, if it depends on
what the copy clears. -/
theorem write_window_iff {S : UInt64} {p : FilePos} {count : UInt64} {fault : Option Fault}
    {bytes mem : Bytes} {at_ : Nat} {effect : Prop} (small : S.toNat < 2 ^ 31)
    (done : effect ↔ ClearsNothing fault mem at_ (clampTwice S p.val.toUInt64 count).toNat) :
    let asked := clampTwice S p.val.toUInt64 count
    let moved := copied fault asked.toNat
    (Windowed S.toNat p.toNat count asked moved (overwritten fault asked.toNat)
        (Slab.afterCopy (asked.toNat - moved) asked p.val bytes) ∧
      asked = clampOnce S p.val.toUInt64 count ∧ effect) ↔
    p.toNat ≤ S.toNat ∧ ClearsNothing fault mem at_ (min count.toNat (S.toNat - p.toNat)) := by
  intro asked moved
  have windows := window_iff p count fault bytes small (overwritten_bounds fault asked.toNat).2
  constructor
  · rintro ⟨windowed, same, kept⟩
    rw [done, windowed.asks] at kept
    exact ⟨windows.mp ⟨windowed, same⟩, kept⟩
  · rintro ⟨within, zero⟩
    obtain ⟨windowed, same⟩ := windows.mpr within
    rw [← windowed.asks, ← done] at zero
    exact ⟨windowed, same, zero⟩

section
variable {φ δ ω : Type} [DecidableEq φ] [DecidableEq δ] [DecidableEq ω]

/-- The window of a read in 17_LAB1: it is computed like a 19_LAB1 one, and its bytes and no
others reach the user. -/
def Slab.ReadWindow (s : Slab.State φ δ ω) (d : δ) (fault : Option Fault) (buf : Bytes)
    (count : UInt64) (p : FilePos) : Prop :=
  let S := Slab.sizeOf s.GLOBALMEM_SIZE
  let asked := Slab.clampCount s.GLOBALMEM_SIZE p.val.toUInt64 count
  let moved := copied fault asked.toNat
  let r := Slab.globalmem_read s d fault buf count p.val
  Windowed S.toNat p.toNat count asked moved moved r.2 ∧ asked = clampOnce S p.val.toUInt64 count ∧
    r.2.bytes = copyBytes buf 0 (s.heap (s.ramdisk d)) p.toNat moved ∧ r.1.heap = s.heap

/-- The window of a write, which changes no byte but those that came across. -/
def Slab.WriteWindow (s : Slab.State φ δ ω) (d : δ) (fault : Option Fault) (buf : Bytes)
    (count : UInt64) (p : FilePos) : Prop :=
  let S := Slab.sizeOf s.GLOBALMEM_SIZE
  let asked := Slab.clampCount s.GLOBALMEM_SIZE p.val.toUInt64 count
  let moved := copied fault asked.toNat
  let r := Slab.globalmem_write s d fault buf count p.val
  Windowed S.toNat p.toNat count asked moved (overwritten fault asked.toNat) r.2 ∧
    asked = clampOnce S p.val.toUInt64 count ∧
    r.1.heap = Function.update s.heap (s.ramdisk d)
      (copyBytes (s.heap (s.ramdisk d)) p.toNat buf 0 moved)

/-- The same of 18_LAB3, whose bytes stand in physical memory. -/
def Mmap.ReadWindow (PAGE_SIZE : Mmap.PageSize) (s : Mmap.State δ) (d : δ) (fault : Option Fault)
    (buf : Bytes) (count : UInt64) (p : FilePos) : Prop :=
  let S := PAGE_SIZE.bytes
  let asked := Mmap.clampCount PAGE_SIZE p.val.toUInt64 count
  let moved := copied fault asked.toNat
  let r := Mmap.globalmem_read PAGE_SIZE s d fault buf count p.val
  Windowed S.toNat p.toNat count asked moved moved r ∧ asked = clampOnce S p.val.toUInt64 count ∧
    r.bytes = copyBytes buf 0 s.phys (Mmap.frameAt PAGE_SIZE (s.ramdisk d) + p.toNat) moved

def Mmap.WriteWindow (PAGE_SIZE : Mmap.PageSize) (s : Mmap.State δ) (d : δ) (fault : Option Fault)
    (buf : Bytes) (count : UInt64) (p : FilePos) : Prop :=
  let S := PAGE_SIZE.bytes
  let asked := Mmap.clampCount PAGE_SIZE p.val.toUInt64 count
  let moved := copied fault asked.toNat
  let r := Mmap.globalmem_write PAGE_SIZE s d fault buf count p.val
  Windowed S.toNat p.toNat count asked moved (overwritten fault asked.toNat) r.2 ∧
    asked = clampOnce S p.val.toUInt64 count ∧
    r.1.phys = copyBytes s.phys (Mmap.frameAt PAGE_SIZE (s.ramdisk d) + p.toNat) buf 0 moved

theorem sizeOf_toNat {size : Int32} (h : 0 < size) :
    (Slab.sizeOf size).toNat = size.toInt.toNat ∧ (Slab.sizeOf size).toNat < 2 ^ 31 := by
  obtain ⟨value, small⟩ := Slab.sizeOf_nonneg (Int.le_of_lt (Int32.lt_iff_toInt_lt.mp h))
  exact ⟨by omega, small⟩

omit [DecidableEq φ] [DecidableEq δ] in
theorem slab_window_iff {s : Slab.State φ δ ω} (size : 0 < s.GLOBALMEM_SIZE) (d : δ)
    (fault : Option Fault) (buf : Bytes) (count : UInt64) (p : FilePos) :
    let S := s.GLOBALMEM_SIZE.toInt.toNat
    (Slab.ReadWindow s d fault buf count p ↔ p.toNat ≤ S) ∧
      (Slab.WriteWindow s d fault buf count p ↔ p.toNat ≤ S ∧
        ClearsNothing fault (s.heap (s.ramdisk d)) p.toNat (min count.toNat (S - p.toNat))) := by
  obtain ⟨value, small⟩ := sizeOf_toNat size
  have place : p.val.toUInt64.toNat = p.toNat := p.toUInt64_toNat
  rw [← value]
  constructor
  · refine read_window_iff small ⟨?_, rfl⟩
    rw [← place]
    rfl
  · refine write_window_iff small ?_
    refine (Function.update_injective s.heap _).eq_iff.trans ?_
    rw [place]
    exact copy_from_user_eq_iff

omit [DecidableEq δ] in
theorem mmap_window_iff (PAGE_SIZE : Mmap.PageSize) (s : Mmap.State δ) (d : δ)
    (fault : Option Fault) (buf : Bytes) (count : UInt64) (p : FilePos) :
    let S := PAGE_SIZE.bytes.toNat
    let at_ := Mmap.frameAt PAGE_SIZE (s.ramdisk d) + p.toNat
    (Mmap.ReadWindow PAGE_SIZE s d fault buf count p ↔ p.toNat ≤ S) ∧
      (Mmap.WriteWindow PAGE_SIZE s d fault buf count p ↔
        p.toNat ≤ S ∧ ClearsNothing fault s.phys at_ (min count.toNat (S - p.toNat))) := by
  have place : p.val.toUInt64.toNat = p.toNat := p.toUInt64_toNat
  constructor
  · refine read_window_iff PAGE_SIZE.small ?_
    rw [← place]
    rfl
  · refine write_window_iff PAGE_SIZE.small ?_
    rw [← place]
    exact copy_from_user_eq_iff

end

/-- The reads of both drivers keep to their window from exactly the positions up to the end of the
buffer on; so do the writes, if the copy clears nothing behind the bytes that came across. -/
theorem window_kept_up_to_end (fault : Option Fault) (buf : Bytes) (count : UInt64) (p : FilePos) :
    (∀ (φ δ ω : Type) [DecidableEq φ] [DecidableEq δ] [DecidableEq ω] (s : Slab.State φ δ ω)
      (d : δ), 0 < s.GLOBALMEM_SIZE →
      let S := s.GLOBALMEM_SIZE.toInt.toNat
      (Slab.ReadWindow s d fault buf count p ↔ p.toNat ≤ S) ∧
      (Slab.WriteWindow s d fault buf count p ↔ p.toNat ≤ S ∧
        ClearsNothing fault (s.heap (s.ramdisk d)) p.toNat (min count.toNat (S - p.toNat)))) ∧
    ∀ (δ : Type) (PAGE_SIZE : Mmap.PageSize) (s : Mmap.State δ) (d : δ),
      let S := PAGE_SIZE.bytes.toNat
      let at_ := Mmap.frameAt PAGE_SIZE (s.ramdisk d) + p.toNat
      (Mmap.ReadWindow PAGE_SIZE s d fault buf count p ↔ p.toNat ≤ S) ∧
      (Mmap.WriteWindow PAGE_SIZE s d fault buf count p ↔
        p.toNat ≤ S ∧ ClearsNothing fault s.phys at_ (min count.toNat (S - p.toNat))) :=
  ⟨fun _ _ _ _ _ _ _ d size => slab_window_iff size d fault buf count p,
    fun _ PAGE_SIZE s d => mmap_window_iff PAGE_SIZE s d fault buf count p⟩

/-- A read at the last byte of a buffer of 1024 and a write that faults at its end keep to the
window; so does a write into an empty buffer that faults behind one byte. -/
theorem window_kept_up_to_end_1024 :
    let s : Slab.State Unit Unit Unit := Slab.init 1024 fun _ _ => 0
    Slab.ReadWindow s () none (fun _ => 1) 8 ⟨1023, by decide⟩ ∧
      Slab.WriteWindow s () (some ⟨0, true⟩) (fun _ => 1) 8 ⟨1024, by decide⟩ ∧
      Slab.WriteWindow s () (some ⟨1, true⟩) (fun _ => 1) 8 ⟨1000, by decide⟩ := by
  intro s
  obtain ⟨slab, _⟩ := window_kept_up_to_end none (fun _ => 1) 8 ⟨1023, by decide⟩
  obtain ⟨slab', _⟩ := window_kept_up_to_end (some ⟨0, true⟩) (fun _ => 1) 8 ⟨1024, by decide⟩
  obtain ⟨slab'', _⟩ := window_kept_up_to_end (some ⟨1, true⟩) (fun _ => 1) 8 ⟨1000, by decide⟩
  exact ⟨(slab Unit Unit Unit s () (by decide)).1.mpr (by decide),
    (slab' Unit Unit Unit s () (by decide)).2.mpr ⟨by decide, by decide⟩,
    (slab'' Unit Unit Unit s () (by decide)).2.mpr ⟨by decide, by decide⟩⟩

/-- One byte behind the end both drivers ask for all but a byte of the address space, and what
comes across before the user's page faults is returned as a success. -/
theorem window_left_past_end :
    let s : Slab.State Unit Unit Unit :=
      (Slab.globalmem_open (Slab.init 1024 fun _ _ => 0) () () (some ())).1
    let page : Mmap.PageSize := ⟨4096, by decide, by decide⟩
    let t : Mmap.State Unit := ⟨fun _ => 0, fun _ => 7⟩
    let p : FilePos := ⟨1025, by decide⟩
    let q : FilePos := ⟨4097, by decide⟩
    let fault := some ⟨1, false⟩
    let write := Slab.globalmem_write s () fault (fun _ => 1) 1 p.val
    let write' := Mmap.globalmem_write page t () fault (fun _ => 1) 1 q.val
    ((Slab.clampCount 1024 p.val.toUInt64 1).toNat = 2 ^ 64 - 1 ∧ write.2.rval = 1 ∧
      write.1.log.head? = some (.access (some ()) 1025 1) ∧
      ¬ Slab.ReadWindow s () fault (fun _ => 1) 1 p ∧
      ¬ Slab.WriteWindow s () fault (fun _ => 1) 1 p) ∧
    (Mmap.clampCount page q.val.toUInt64 1).toNat = 2 ^ 64 - 1 ∧ write'.2.rval = 1 ∧
      write'.1.phys (8 * 4096 + 1) = 1 ∧
      ¬ Mmap.ReadWindow page t () fault (fun _ => 1) 1 q ∧
      ¬ Mmap.WriteWindow page t () fault (fun _ => 1) 1 q := by
  intro s page t p q fault write write'
  have slab := slab_window_iff (s := s) (by decide) () fault (fun _ => 1) 1 p
  have mmap := mmap_window_iff page t () fault (fun _ => 1) 1 q
  have past : ¬ p.toNat ≤ s.GLOBALMEM_SIZE.toInt.toNat := by decide
  have past' : ¬ q.toNat ≤ page.bytes.toNat := by decide
  have logged : write.1.log.head? = some (.access (some ()) 1025 1) := by
    have stored : overwritten fault (Slab.clampCount s.GLOBALMEM_SIZE p.val.toUInt64 1).toNat = 1 :=
      by decide
    simp only [write, Slab.globalmem_write, stored]
    rfl
  have behind : write'.1.phys (8 * 4096 + 1) = 1 := by
    have place : 8 * 4096 + 1 = Mmap.frameAt page (t.ramdisk ()) + q.val.toUInt64.toNat + 0 := by
      decide
    have moved : 0 < copied fault (Mmap.clampCount page q.val.toUInt64 1).toNat := by decide
    rw [place]
    simp only [write', Mmap.globalmem_write]
    exact copy_from_user_copied moved
  exact ⟨⟨by decide, by decide, logged, fun h => past (slab.1.mp h), fun h => past (slab.2.mp h).1⟩,
    by decide, by decide, behind, fun h => past' (mmap.1.mp h), fun h => past' (mmap.2.mp h).1⟩

end DeviceDriverEx
