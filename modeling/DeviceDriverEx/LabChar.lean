import DeviceDriverEx.GlobalmemWindow
import DeviceDriverEx.Machine

namespace DeviceDriverEx.LabChar

/-- `PAGE_SIZE`; on every architecture sixteen pages fit an `int`. -/
structure PageSize where
  bytes : UInt64
  small : 16 * bytes.toNat < 2 ^ 31

/-- `static size_t ramdisk_size = (16 * PAGE_SIZE);` -/
def ramdisk_size (PAGE_SIZE : PageSize) : UInt64 := 16 * PAGE_SIZE.bytes

def SEEK_SET : Int32 := 0
def SEEK_CUR : Int32 := 1
def SEEK_END : Int32 := 2

/-- `maxbytes` is an `int`, and is compared with `lbuf` as a `size_t`. -/
def bytes_to_do (ramdisk_size lbuf : UInt64) (ppos : Int64) : Int32 :=
  let maxbytes := (ramdisk_size - ppos.toUInt64).toUInt32.toInt32
  if Slab.sizeOf maxbytes > lbuf then lbuf.toUInt32.toInt32 else maxbytes

def mycdrv_generic_read (ramdisk_size : UInt64) (fault : Option Fault) (ramdisk buf : Bytes)
    (lbuf : UInt64) (ppos : Int64) : CallResult :=
  let asked := Slab.sizeOf (bytes_to_do ramdisk_size lbuf ppos)
  let moved := copied fault asked.toNat
  Slab.afterCopy (asked.toNat - moved) asked ppos
    (copyBytes buf 0 ramdisk ppos.toUInt64.toNat moved)

def mycdrv_generic_write (ramdisk_size : UInt64) (fault : Option Fault) (ramdisk buf : Bytes)
    (lbuf : UInt64) (ppos : Int64) : CallResult :=
  let asked := Slab.sizeOf (bytes_to_do ramdisk_size lbuf ppos)
  Slab.afterCopy (asked.toNat - copied fault asked.toNat) asked ppos
    (copy_from_user fault ramdisk ppos.toUInt64.toNat buf asked.toNat)

/-- The `switch` of `mycdrv_generic_lseek`. `ramdisk_size` makes the last sum an unsigned one. -/
def testpos (ramdisk_size : UInt64) (f_pos offset : Int64) (orig : Int32) : Option Int64 :=
  if orig = SEEK_SET then some offset
  else if orig = SEEK_CUR then some (f_pos + offset)
  else if orig = SEEK_END then some (ramdisk_size + offset.toUInt64).toInt64
  else none

/-- The two tests in a row on `testpos`. The first compares a `loff_t` with a `size_t`. -/
def clampSeek (ramdisk_size : UInt64) (testpos : Int64) : Int64 :=
  let testpos := if testpos.toUInt64 < ramdisk_size then testpos else ramdisk_size.toInt64
  if testpos ≥ 0 then testpos else 0

/-- The value returned, and `file->f_pos` where it is stored to. -/
def mycdrv_generic_lseek (ramdisk_size : UInt64) (f_pos offset : Int64) (orig : Int32) :
    Int64 × Option Int64 :=
  match testpos ramdisk_size f_pos offset orig with
  | none => ((-EINVAL).toInt64, none)
  | some t => (clampSeek ramdisk_size t, some (clampSeek ramdisk_size t))

theorem ramdisk_size_toNat (PAGE_SIZE : PageSize) :
    (ramdisk_size PAGE_SIZE).toNat = 16 * PAGE_SIZE.bytes.toNat := by
  have small := PAGE_SIZE.small
  unfold ramdisk_size
  rw [UInt64.toNat_mul]
  exact Nat.mod_eq_of_lt (by change 16 * _ < _; omega)

theorem ramdisk_size_small (PAGE_SIZE : PageSize) : (ramdisk_size PAGE_SIZE).toNat < 2 ^ 31 := by
  rw [ramdisk_size_toNat]
  exact PAGE_SIZE.small

section
variable {size : UInt64}

/-- Up to the end of the ramdisk the `int` arithmetic is exact. -/
theorem bytes_to_do_within (small : size.toNat < 2 ^ 31) (lbuf : UInt64) {p : FilePos}
    (within : p.toNat ≤ size.toNat) :
    Slab.sizeOf (bytes_to_do size lbuf p.val) = clampTwice size p.val.toUInt64 lbuf := by
  have place : p.val.toUInt64.toNat = p.toNat := p.toUInt64_toNat
  have room : (size - p.val.toUInt64).toNat = size.toNat - p.toNat := by
    rw [UInt64.toNat_sub_of_le _ _ (UInt64.le_iff_toNat_le.mpr (by omega)), place]
  have max : (size - p.val.toUInt64).toUInt32.toInt32.toInt = (size.toNat - p.toNat : Nat) := by
    rw [int_toInt (by omega), room]
  have unsigned := (Slab.sizeOf_nonneg (v := (size - p.val.toUInt64).toUInt32.toInt32)
    (by omega)).1
  rw [clampTwice_within lbuf small (by omega), ← UInt64.toNat_inj, clampOnce_toNat, place]
  unfold bytes_to_do
  dsimp only
  split
  next less =>
    rw [gt_iff_lt, UInt64.lt_iff_toNat_lt] at less
    have fits : lbuf.toUInt32.toInt32.toInt = lbuf.toNat := int_toInt (by omega)
    have asked := (Slab.sizeOf_nonneg (v := lbuf.toUInt32.toInt32) (by omega)).1
    omega
  next less =>
    rw [gt_iff_lt, UInt64.lt_iff_toNat_lt] at less
    omega

/-- A negative `testpos` is larger than any size in the first test, so it goes to the end. -/
theorem clampSeek_toInt (small : size.toNat < 2 ^ 31) (t : Int64) : (clampSeek size t).toInt =
    if 0 ≤ t.toInt ∧ t.toInt ≤ size.toNat then t.toInt else size.toNat := by
  have last : size.toInt64.toInt = size.toNat := ssize_toInt (by omega)
  have value : t.toInt = if 2 * t.toUInt64.toNat < 2 ^ 64 then (t.toUInt64.toNat : Int) else
      t.toUInt64.toNat - 2 ^ 64 := BitVec.toInt_eq_toNat_cond t.toUInt64.toBitVec
  have lt := t.toUInt64.toNat_lt
  unfold clampSeek
  dsimp only
  split
  next inside =>
    rw [UInt64.lt_iff_toNat_lt] at inside
    rw [if_pos (by omega)] at value
    rw [if_pos (show t ≥ 0 by rw [ge_iff_le, Int64.le_iff_toInt_le, value]; simp),
      if_pos (by omega)]
  next outside =>
    rw [UInt64.lt_iff_toNat_lt] at outside
    rw [if_pos (show size.toInt64 ≥ 0 from nonneg_of_toInt last), last]
    split at value
    · split <;> omega
    · rw [if_neg (by omega)]

/-- Where a seek asks to go, in exact arithmetic. -/
def seekTarget (size f_pos offset : Int) (orig : Int32) : Option Int :=
  if orig = SEEK_SET then some offset
  else if orig = SEEK_CUR then some (f_pos + offset)
  else if orig = SEEK_END then some (size + offset)
  else none

/-- Where a seek to `t` ends up: at the end of the device, too, if `t` is negative. -/
def seekEnd (size t : Int) : Int := if 0 ≤ t ∧ t ≤ size then t else size

/-- A sum that wraps lies past the end in exact arithmetic and is negative in the code's. -/
theorem seekEnd_wrapped (small : size.toNat < 2 ^ 31) {from_ : Int} (offset : Int64)
    (nonneg : 0 ≤ from_) (within : from_ ≤ size.toNat) {t : Int64}
    (sum : t.toInt = (from_ + offset.toInt).bmod (2 ^ 64)) :
    (clampSeek size t).toInt = seekEnd size.toNat (from_ + offset.toInt) := by
  have lo := offset.le_toInt
  have hi := offset.toInt_lt
  rw [clampSeek_toInt small, sum, seekEnd]
  by_cases wraps : from_ + offset.toInt < 2 ^ 63
  · rw [Int.bmod_eq_of_le (by omega) (by omega)]
  · have wrapped : (from_ + offset.toInt).bmod (2 ^ 64) = from_ + offset.toInt - 2 ^ 64 := by
      rw [Int.bmod_def]
      omega
    rw [wrapped, if_neg (by omega), if_neg (by omega)]

end

end DeviceDriverEx.LabChar
