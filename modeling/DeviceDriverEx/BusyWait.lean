import Mathlib.Algebra.Group.Nat.Defs
import Mathlib.Tactic.Common

namespace DeviceDriverEx

/-- `(long)(a - b) < 0`, for an `unsigned long` of `w` bits. -/
def time_before {w : Nat} (a b : BitVec w) : Bool := (a - b).slt 0#w

section
variable {w : Nat} {a b : BitVec w}

/-- One time is before another if that is ahead of it by no more than half the range. -/
theorem time_before_iff :
    time_before a b = true ↔ 0 < (b - a).toNat ∧ 2 * (b - a).toNat ≤ 2 ^ w := by
  have turned : a - b = -(b - a) := by
    rw [BitVec.neg_sub, BitVec.add_comm, BitVec.sub_eq_add_neg]
  have bound := (b - a).isLt
  rw [time_before, turned, BitVec.slt_iff_toInt_lt, BitVec.toInt_zero, BitVec.toInt_neg_iff,
    BitVec.toNat_neg]
  by_cases same : (b - a).toNat = 0
  · rw [same, Nat.sub_zero, Nat.mod_self]
    omega
  · rw [Nat.mod_eq_of_lt (by omega)]
    omega

theorem toNat_sub_succ (ahead : 0 < (b - a).toNat) :
    (b - (a + 1#w)).toNat = (b - a).toNat - 1 := by
  have bound := (b - a).isLt
  have one : (1#w).toNat = 1 := by
    rw [BitVec.toNat_ofNat]
    exact Nat.mod_eq_of_lt (by omega)
  have le : 1#w ≤ b - a := by
    rw [BitVec.le_def, one]
    exact ahead
  rw [← BitVec.sub_sub, BitVec.toNat_sub_of_le le, one]

end

/-- `while (time_before(jiffies, later)) ;` with a look at the clock in every tick: the ticks that
pass before it ends. -/
def busyWait {w : Nat} (jiffies later : BitVec w) : Nat :=
  if time_before jiffies later then busyWait (jiffies + 1#w) later + 1 else 0
termination_by (later - jiffies).toNat
decreasing_by
  rename_i before
  obtain ⟨ahead, _⟩ := time_before_iff.mp before
  rw [toNat_sub_succ ahead]
  omega

section
variable {w : Nat} {jiffies later : BitVec w}

/-- The loop lasts for the distance to `later`, unless that is more than half the range. -/
theorem busyWait_eq (jiffies later : BitVec w) : busyWait jiffies later =
    if 2 * (later - jiffies).toNat ≤ 2 ^ w then (later - jiffies).toNat else 0 := by
  induction jiffies using busyWait.induct later with
  | case1 jiffies before ih =>
    obtain ⟨ahead, near⟩ := time_before_iff.mp before
    rw [busyWait, if_pos before, ih, toNat_sub_succ ahead, if_pos near, if_pos (by omega)]
    omega
  | case2 jiffies past =>
    rw [busyWait, if_neg past]
    rw [time_before_iff] at past
    split <;> omega

theorem busyWait_of_nonneg (ahead : 0 ≤ (later - jiffies).toInt) :
    (busyWait jiffies later : Int) = (later - jiffies).toInt := by
  have bound := (later - jiffies).isLt
  rw [BitVec.toInt_eq_toNat_cond] at ahead ⊢
  rw [busyWait_eq]
  split at ahead
  next near => rw [if_pos near, if_pos (Nat.le_of_lt near)]
  next => omega

/-- A time that lies behind ends the loop at once, but for the one that is half the range away in
either direction. -/
theorem busyWait_of_neg (behind : (later - jiffies).toInt < 0) : 2 * busyWait jiffies later =
    if 2 * (later - jiffies).toInt = -(2 ^ w : Nat) then 2 ^ w else 0 := by
  have bound := (later - jiffies).isLt
  rw [BitVec.toInt_eq_toNat_cond] at behind ⊢
  rw [busyWait_eq]
  split at behind
  next => omega
  next far =>
    rw [if_neg far]
    split <;> split <;> omega

/-- The test holds in so many ticks and fails in the next. -/
def EndsAfter (jiffies later : BitVec w) (ticks : Nat) : Prop :=
  (∀ t < ticks, time_before (jiffies + BitVec.ofNat w t) later = true) ∧
    time_before (jiffies + BitVec.ofNat w ticks) later = false

theorem busyWait_ends (jiffies later : BitVec w) :
    EndsAfter jiffies later (busyWait jiffies later) := by
  induction jiffies using busyWait.induct later with
  | case1 jiffies before ih =>
    have tick (t : Nat) : jiffies + 1#w + BitVec.ofNat w t = jiffies + BitVec.ofNat w (t + 1) := by
      rw [BitVec.add_assoc, ← BitVec.ofNat_add, Nat.add_comm 1 t]
    obtain ⟨earlier, last⟩ := ih
    rw [busyWait, if_pos before]
    refine ⟨fun t ht => ?_, by rw [← tick]; exact last⟩
    cases t with
    | zero =>
      rw [BitVec.add_zero]
      exact before
    | succ t =>
      rw [← tick]
      exact earlier t (by omega)
  | case2 jiffies past =>
    rw [busyWait, if_neg past]
    refine ⟨fun t ht => absurd ht (Nat.not_lt_zero t), ?_⟩
    rw [BitVec.add_zero]
    exact Bool.eq_false_iff.mpr past

end

end DeviceDriverEx
