import Mathlib.Algebra.Group.Int.Defs
import Mathlib.Algebra.Group.Nat.Defs
import Mathlib.Tactic.Common

namespace DeviceDriverEx

theorem toUInt64_toNat {p : Int64} (h : 0 ≤ p) : p.toUInt64.toNat = p.toInt.toNat := by
  have hp : 0 ≤ p.toInt := by simpa [Int64.le_iff_toInt_le] using h
  change p.toUInt64.toBitVec.toNat = p.toUInt64.toBitVec.toInt.toNat
  change 0 ≤ p.toUInt64.toBitVec.toInt at hp
  rw [BitVec.toInt_eq_toNat_cond] at hp ⊢
  split at hp
  next => simp_all
  next => omega

theorem nonneg_of_toInt {v : Int64} {n : Nat} (h : v.toInt = n) : 0 ≤ v := by
  rw [Int64.le_iff_toInt_le, h]
  exact Int.natCast_nonneg n

theorem int_toInt {n : UInt64} (h : n.toNat < 2 ^ 31) : n.toUInt32.toInt32.toInt = n.toNat := by
  change n.toUInt32.toBitVec.toInt = _
  have low : n.toUInt32.toBitVec.toNat = n.toNat := by
    simp only [UInt32.toNat_toBitVec, UInt64.toNat_toUInt32]
    omega
  rw [BitVec.toInt_eq_toNat_cond, low, if_pos (by omega)]

theorem narrow_toInt {n : UInt64} (h : n.toNat < 2 ^ 31) :
    n.toUInt32.toInt32.toInt64.toInt = n.toNat := by
  rw [Int32.toInt_toInt64, int_toInt h]

theorem ssize_toInt {n : UInt64} (h : n.toNat < 2 ^ 63) : n.toInt64.toInt = n.toNat := by
  change n.toBitVec.toInt = _
  rw [BitVec.toInt_eq_toNat_cond, UInt64.toNat_toBitVec, if_pos (by omega)]

theorem pred_toNat {n : UInt64} (h : 0 < n) : (n - 1).toNat = n.toNat - 1 := by
  have pos : 0 < n.toNat := UInt64.lt_iff_toNat_lt.mp h
  exact UInt64.toNat_sub_of_le n 1 (UInt64.le_iff_toNat_le.mpr pos)

/-- Adding an `unsigned long` to a `long long`, done in unsigned arithmetic, is addition while
the sum stays below `2^63`. -/
theorem advance_toInt {p : Int64} {n : UInt64} (hp : 0 ≤ p)
    (room : p.toInt + n.toNat < 2 ^ 63) :
    (p.toUInt64 + n).toInt64.toInt = p.toInt + n.toNat := by
  have hn := toUInt64_toNat hp
  have hpos : 0 ≤ p.toInt := by simpa [Int64.le_iff_toInt_le] using hp
  change (p.toUInt64.toBitVec + n.toBitVec).toInt = _
  change p.toUInt64.toBitVec.toNat = _ at hn
  have sum : (p.toUInt64.toBitVec + n.toBitVec).toNat = p.toInt.toNat + n.toNat := by
    rw [BitVec.toNat_add, hn]
    simp only [UInt64.toNat_toBitVec]
    omega
  rw [BitVec.toInt_eq_toNat_cond, sum, if_pos (by omega)]
  omega

end DeviceDriverEx
