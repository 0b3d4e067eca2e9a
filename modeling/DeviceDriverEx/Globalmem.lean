import DeviceDriverEx.CInt
import DeviceDriverEx.UserCopy

namespace DeviceDriverEx

/-- `#define GLOBALMEM_SIZE (1024)`, as it takes part in the comparisons with `pos`. -/
def GLOBALMEM_SIZE : UInt64 := 1024

/-- `_IO(GLOBALMEM_MAGIC, 0)` -/
def MEM_CLEAR : UInt32 := (250 : UInt32) <<< 8 ||| 0

def EFAULT : Int32 := 14
def EINVAL : Int32 := 22
def ERESTARTSYS : Int32 := 512

/-- The modules built on the same `globalmem_read` and `globalmem_write` behind a wait. -/
inductive Driver
  | sem
  | complete
  | wait
  | exwait
  | lab2
  deriving DecidableEq

/-- What a read or a write leaves: the value returned, `*ppos`, and the buffer copied into. -/
structure CallResult where
  rval : Int64
  ppos : Int64
  bytes : Bytes

/-- A write also says whether it came to release the readers at its end. -/
structure WriteResult extends CallResult where
  released : Bool

def clampCount (pos count : UInt64) : UInt64 :=
  if count > GLOBALMEM_SIZE - pos then GLOBALMEM_SIZE - pos else count

/-- The two arms behind the user copy, which returned the number of bytes it did not move. -/
def afterCopy (left : Nat) (count : UInt64) (ppos : Int64) (bytes : Bytes) : CallResult :=
  if left ≠ 0 then ⟨(-EFAULT).toInt64, ppos, bytes⟩
  else ⟨count.toUInt32.toInt32.toInt64, (ppos.toUInt64 + count).toInt64, bytes⟩

/-- The user copy of a read inside the device, and what follows it. -/
def copyOut (fault : Option Fault) (mem buf : Bytes) (count : UInt64) (ppos : Int64) : CallResult :=
  afterCopy (count.toNat - copied fault count.toNat) count ppos
    (copyBytes buf 0 mem ppos.toUInt64.toNat (copied fault count.toNat))

/-- The same of a write. -/
def copyIn (fault : Option Fault) (mem buf : Bytes) (count : UInt64) (ppos : Int64) : CallResult :=
  afterCopy (count.toNat - copied fault count.toNat) count ppos
    (copy_from_user fault mem ppos.toUInt64.toNat buf count.toNat)

/-- `waited` is what the wait returned; only the semaphore driver looks at it. -/
def globalmem_read (drv : Driver) (waited : Int32) (fault : Option Fault) (mem buf : Bytes)
    (count : UInt64) (ppos : Int64) : CallResult :=
  let pos := ppos.toUInt64
  if drv = .sem ∧ waited ≠ 0 then ⟨(-ERESTARTSYS).toInt64, ppos, buf⟩
  else if pos ≥ GLOBALMEM_SIZE then ⟨0, ppos, buf⟩
  else copyOut fault mem buf (clampCount pos count) ppos

def globalmem_write (fault : Option Fault) (mem buf : Bytes) (count : UInt64) (ppos : Int64) :
    WriteResult :=
  let pos := ppos.toUInt64
  if pos ≥ GLOBALMEM_SIZE then ⟨⟨0, ppos, mem⟩, false⟩
  else ⟨copyIn fault mem buf (clampCount pos count) ppos, true⟩

def globalmem_ioctl (mem : Bytes) (cmd : UInt32) : Int64 × Bytes :=
  if cmd = MEM_CLEAR then (0, memset mem 0 GLOBALMEM_SIZE.toNat)
  else ((-EINVAL).toInt64, mem)

/-- A call of `globalmem_read` or `globalmem_write` on a device, with its arguments. -/
inductive Request (δ : Type)
  | read (dev : δ) (buf : Bytes) (count : UInt64) (ppos : Int64)
  | write (dev : δ) (buf : Bytes) (count : UInt64) (ppos : Int64)

def Request.ppos {δ : Type} : Request δ → Int64
  | .read _ _ _ ppos => ppos
  | .write _ _ _ ppos => ppos

/-- The positions the VFS hands to a driver. -/
structure FilePos where
  val : Int64
  nonneg : 0 ≤ val

namespace FilePos

def toNat (p : FilePos) : Nat := p.val.toInt.toNat

theorem toNat_cast (p : FilePos) : (p.toNat : Int) = p.val.toInt := by
  have hp : 0 ≤ p.val.toInt := by simpa [Int64.le_iff_toInt_le] using p.nonneg
  exact Int.toNat_of_nonneg hp

theorem toUInt64_toNat (p : FilePos) : p.val.toUInt64.toNat = p.toNat :=
  DeviceDriverEx.toUInt64_toNat p.nonneg

theorem past_end (p : FilePos) : p.val.toUInt64 ≥ GLOBALMEM_SIZE ↔ 1024 ≤ p.toNat := by
  rw [ge_iff_le, UInt64.le_iff_toNat_le, p.toUInt64_toNat]
  rfl

theorem before_end {p : FilePos} (hp : p.toNat < 1024) : p.val.toUInt64 < GLOBALMEM_SIZE :=
  UInt64.not_le.mp fun past => Nat.not_le.mpr hp (p.past_end.mp past)

end FilePos

/-- The bytes a call for `count` bytes at `pos` may move. -/
def windowLen (pos : Nat) (count : UInt64) : Nat := min count.toNat (1024 - pos)

theorem clampCount_toNat {pos count : UInt64} (h : pos < GLOBALMEM_SIZE) :
    (clampCount pos count).toNat = windowLen pos.toNat count := by
  have room : (GLOBALMEM_SIZE - pos).toNat = 1024 - pos.toNat :=
    UInt64.toNat_sub_of_le _ _ (UInt64.le_of_lt h)
  unfold clampCount windowLen
  split
  next hc =>
    rw [gt_iff_lt, UInt64.lt_iff_toNat_lt, room] at hc
    rw [room]
    omega
  next hc =>
    rw [gt_iff_lt, UInt64.lt_iff_toNat_lt, room] at hc
    omega

theorem windowLen_le (pos : Nat) (count : UInt64) : windowLen pos count ≤ 1024 - pos :=
  Nat.min_le_right _ _

theorem windowLen_past {pos : Nat} (past : 1024 ≤ pos) (count : UInt64) :
    windowLen pos count = 0 := by
  have bound := windowLen_le pos count
  omega

theorem afterCopy_fault {left : Nat} (h : left ≠ 0) (count : UInt64) (ppos : Int64)
    (bytes : Bytes) : afterCopy left count ppos bytes = ⟨(-EFAULT).toInt64, ppos, bytes⟩ :=
  if_pos h

/-- A copy that faults on nothing returns its count, which fits an `int`. -/
theorem afterCopy_count {pos : UInt64} (inside : pos < GLOBALMEM_SIZE) (count : UInt64)
    (ppos : Int64) (bytes : Bytes) :
    (afterCopy 0 (clampCount pos count) ppos bytes).rval.toInt = (clampCount pos count).toNat := by
  have window : (clampCount pos count).toNat = windowLen pos.toNat count := clampCount_toNat inside
  have bound := windowLen_le pos.toNat count
  exact narrow_toInt (by omega)

/-- Without a fault the whole window is moved and the position follows it. -/
theorem afterCopy_ok {p : FilePos} {count : UInt64} (bytes : Bytes) (hp : p.toNat < 1024)
    (hc : (clampCount p.val.toUInt64 count).toNat = windowLen p.toNat count) :
    let r := afterCopy 0 (clampCount p.val.toUInt64 count) p.val bytes
    r.rval.toInt = windowLen p.toNat count ∧
      r.ppos.toInt = p.toNat + windowLen p.toNat count ∧ r.bytes = bytes := by
  have bound := windowLen_le p.toNat count
  have hcast := p.toNat_cast
  refine ⟨?_, ?_, rfl⟩
  · rw [afterCopy_count (FilePos.before_end hp), hc]
  · simp only [afterCopy, ne_eq, not_true_eq_false, if_false]
    rw [advance_toInt p.nonneg (by omega), hc, hcast]

theorem clampCount_pos {p : FilePos} (count : UInt64) (hp : p.toNat < 1024) :
    (clampCount p.val.toUInt64 count).toNat = windowLen p.toNat count := by
  rw [clampCount_toNat (FilePos.before_end hp), p.toUInt64_toNat]

theorem globalmem_read_open (drv : Driver) (mem buf : Bytes) (count : UInt64) (p : FilePos) :
    let r := globalmem_read drv 0 none mem buf count p.val
    r.rval.toInt = windowLen p.toNat count ∧
      r.ppos.toInt = p.toNat + windowLen p.toNat count ∧
      r.bytes = copyBytes buf 0 mem p.toNat (windowLen p.toNat count) := by
  intro r
  by_cases hp : 1024 ≤ p.toNat
  · have hr : r = ⟨0, p.val, buf⟩ := by
      simp only [r, globalmem_read, ne_eq, not_true_eq_false, and_false, if_false,
        if_pos (p.past_end.mpr hp)]
    rw [hr, windowLen_past hp, copyBytes_zero]
    exact ⟨rfl, by simp [p.toNat_cast], rfl⟩
  · have hc := clampCount_pos count (show p.toNat < 1024 by omega)
    have hr : r = afterCopy 0 (clampCount p.val.toUInt64 count) p.val
        (copyBytes buf 0 mem p.toNat (windowLen p.toNat count)) := by
      simp only [r, globalmem_read, ne_eq, not_true_eq_false, and_false, if_false,
        if_neg (fun h => hp (p.past_end.mp h)), copyOut, copied, Nat.sub_self, hc,
        p.toUInt64_toNat]
    rw [hr]
    exact afterCopy_ok _ (by omega) hc

/-- What happens to the memory is the copy's doing; whether everything came across decides what is
returned. -/
theorem globalmem_write_fault (fault : Option Fault) (mem buf : Bytes) (count : UInt64)
    (p : FilePos) :
    let n := windowLen p.toNat count
    let r := globalmem_write fault mem buf count p.val
    r.bytes = copy_from_user fault mem p.toNat buf n ∧
      (copied fault n < n → r.rval = (-EFAULT).toInt64 ∧ r.ppos = p.val) ∧
      (¬ copied fault n < n → r.rval.toInt = n ∧ r.ppos.toInt = p.toNat + n) := by
  intro n r
  have some_left := copied_le fault n
  by_cases past : 1024 ≤ p.toNat
  · have hr : r = ⟨⟨0, p.val, mem⟩, false⟩ := if_pos (p.past_end.mpr past)
    have nothing : n = 0 := windowLen_past past count
    have stored := (overwritten_bounds fault 0).2
    rw [nothing] at some_left ⊢
    rw [hr, Nat.le_zero.mp some_left, copy_from_user, Nat.le_zero.mp stored, copyBytes_zero]
    exact ⟨rfl, fun h => absurd h (Nat.lt_irrefl 0), fun _ => ⟨rfl, by simp [p.toNat_cast]⟩⟩
  · have asked : (clampCount p.val.toUInt64 count).toNat = n :=
      clampCount_pos count (by omega)
    have hr : r.toCallResult = afterCopy (n - copied fault n) (clampCount p.val.toUInt64 count)
        p.val (copy_from_user fault mem p.toNat buf n) := by
      simp only [r, globalmem_write, if_neg (fun h => past (p.past_end.mp h)), copyIn, asked,
        p.toUInt64_toNat]
    rw [hr]
    by_cases short : copied fault n < n
    · rw [afterCopy_fault (by omega)]
      exact ⟨rfl, fun _ => ⟨rfl, rfl⟩, fun whole => absurd short whole⟩
    · have whole : n - copied fault n = 0 := by omega
      rw [whole]
      obtain ⟨rval, ppos, bytes⟩ := @afterCopy_ok _ _
        (copy_from_user fault mem p.toNat buf n) (show p.toNat < 1024 by omega) asked
      exact ⟨bytes, fun h => absurd h short, fun _ => ⟨rval, ppos⟩⟩

theorem globalmem_write_ok (mem buf : Bytes) (count : UInt64) (p : FilePos) :
    let r := globalmem_write none mem buf count p.val
    r.rval.toInt = windowLen p.toNat count ∧
      r.ppos.toInt = p.toNat + windowLen p.toNat count ∧
      r.bytes = copyBytes mem p.toNat buf 0 (windowLen p.toNat count) := by
  intro r
  obtain ⟨bytes, _, whole⟩ := globalmem_write_fault none mem buf count p
  obtain ⟨rval, ppos⟩ := whole (Nat.lt_irrefl _)
  exact ⟨rval, ppos, bytes.trans (copy_from_user_whole ..)⟩

end DeviceDriverEx
