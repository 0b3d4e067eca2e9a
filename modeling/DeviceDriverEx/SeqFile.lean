import DeviceDriverEx.BusyWait
import DeviceDriverEx.CInt
import DeviceDriverEx.Decimal
import DeviceDriverEx.Machine

namespace DeviceDriverEx.SeqFile

/-- The module parameters of 14_LAB5. -/
structure Params where
  items : Int32
  delay : Int32

/-- Whether the pointer given back is not NULL, and the ticks spent in the loop. -/
structure Found where
  ptr : Bool
  waited : Nat

/-- `jiffies + delay * HZ`, the product being an `int` -/
def later {w : Nat} (HZ delay : Int32) (jiffies : BitVec w) : BitVec w :=
  jiffies + (delay * HZ).toBitVec.signExtend w

def xbusy_start {w : Nat} (HZ : Int32) (p : Params) (jiffies : BitVec w) (pos : Int64) : Found :=
  if pos < p.items.toInt64 then ⟨true, busyWait jiffies (later HZ p.delay jiffies)⟩ else ⟨false, 0⟩

def xbusy_show {w : Nat} (jiffies : BitVec w) : List UInt8 :=
  ascii "jiffies: ".toList ++ decimal jiffies.toNat ++ [10]

/-- It begins with `(*pos)++`. -/
def xbusy_next {w : Nat} (HZ : Int32) (p : Params) (jiffies : BitVec w) (pos : Int64) :
    Found × Int64 :=
  let pos := pos + 1
  if pos < p.items.toInt64 then (⟨true, busyWait jiffies (later HZ p.delay jiffies)⟩, pos)
  else (⟨false, 0⟩, pos)

theorem xbusy_start_ptr {w : Nat} (HZ : Int32) (p : Params) (jiffies : BitVec w) (pos : Int64) :
    (xbusy_start HZ p jiffies pos).ptr = true ↔ pos.toInt < p.items.toInt := by
  rw [← Int32.toInt_toInt64, ← Int64.lt_iff_toInt_lt, xbusy_start]
  split <;> simp_all

theorem xbusy_next_pos {w : Nat} (HZ : Int32) (p : Params) (jiffies : BitVec w) (pos : Int64) :
    (xbusy_next HZ p jiffies pos).2 = pos + 1 := by
  dsimp only [xbusy_next]
  split <;> rfl

/-- What a session does at a position does not depend on the call that came there. -/
theorem xbusy_next_found {w : Nat} (HZ : Int32) (p : Params) (jiffies : BitVec w) (pos : Int64) :
    (xbusy_next HZ p jiffies pos).1 = xbusy_start HZ p jiffies (pos + 1) := by
  dsimp only [xbusy_next, xbusy_start]
  split <;> rfl

/-! ### The busy-wait loops -/

section
variable {w : Nat} {HZ delay : Int32}

theorem later_sub (jiffies : BitVec w) :
    later HZ delay jiffies - jiffies = (delay * HZ).toBitVec.signExtend w := by
  rw [later, BitVec.add_comm, BitVec.add_sub_cancel]

/-- The `int` product is taken modulo `2^32`, and the sign extension keeps its value. -/
theorem product_toInt (width : 32 ≤ w) : ((delay * HZ).toBitVec.signExtend w).toInt =
    (delay.toInt * HZ.toInt).bmod (2 ^ 32) := by
  rw [BitVec.toInt_signExtend_of_le width]
  exact Int32.toInt_mul delay HZ

theorem waited_of_small (width : 32 ≤ w) (jiffies : BitVec w) {n : Nat}
    (product : delay.toInt * HZ.toInt = n) (small : n < 2 ^ 31) :
    busyWait jiffies (later HZ delay jiffies) = n := by
  have value : (later HZ delay jiffies - jiffies).toInt = n := by
    rw [later_sub, product_toInt width, product]
    exact Int.bmod_eq_of_le_mul_two (by omega) (by omega)
  have waited := @busyWait_of_nonneg w jiffies (later HZ delay jiffies) (by omega)
  omega

/-- A product that does not fit an `int` is waited for only if it is `2^31` and the counter has
`32` bits. -/
theorem waited_of_large (width : 32 ≤ w) (jiffies : BitVec w) {n : Nat}
    (product : delay.toInt * HZ.toInt = n) (large : 2 ^ 31 ≤ n) :
    busyWait jiffies (later HZ delay jiffies) = n ↔ w = 32 ∧ n = 2 ^ 31 := by
  have value : (later HZ delay jiffies - jiffies).toInt = (n : Int).bmod (2 ^ 32) := by
    rw [later_sub, product_toInt width, product]
  have low := Int.le_bmod (x := (n : Int)) (m := 2 ^ 32) (by decide)
  have high := Int.bmod_lt (x := (n : Int)) (m := 2 ^ 32) (by decide)
  have half : n = 2 ^ 31 → (n : Int).bmod (2 ^ 32) = -2 ^ 31 := by
    rintro rfl
    decide
  rw [← value] at low high half
  rcases Int.lt_or_le (later HZ delay jiffies - jiffies).toInt 0 with behind | ahead
  · have waited := busyWait_of_neg behind
    rcases Nat.eq_or_lt_of_le width with rfl | wider
    · split at waited <;> omega
    · have more := Nat.pow_le_pow_right (show 0 < 2 by decide) wider
      rw [if_neg (by omega)] at waited
      omega
  · have waited := busyWait_of_nonneg ahead
    omega

/-- The delay asked for, in ticks. -/
def asked (HZ delay : Int32) : Int := delay.toInt * HZ.toInt

/-- It is the value of the `int` product, or equal to it as a distance on the counter. -/
def Fits (w : Nat) (ticks : Int) : Prop := ticks < 2 ^ 31 ∨ w = 32 ∧ ticks = 2 ^ 31

theorem waited_iff (width : 32 ≤ w) (hz : 0 < HZ) (hdelay : 0 ≤ delay) (jiffies : BitVec w) :
    (busyWait jiffies (later HZ delay jiffies) : Int) = asked HZ delay ↔
      Fits w (asked HZ delay) := by
  obtain ⟨n, product⟩ := Int.eq_ofNat_of_zero_le
    (Int.mul_nonneg (Int32.le_iff_toInt_le.mp hdelay) (Int.le_of_lt (Int32.lt_iff_toInt_lt.mp hz)))
  rw [asked, Fits, product]
  rcases Nat.lt_or_ge n (2 ^ 31) with small | large
  · have waited := waited_of_small width jiffies product small
    omega
  · have waited := waited_of_large width jiffies product large
    omega

end

/-- The loops end, and they last as long as asked for exactly if the `int` product does not
overflow. -/
theorem busy_wait_exact_iff {w : Nat} (width : 32 ≤ w) {HZ : Int32} (hz : 0 < HZ) {p : Params}
    (delay : 0 ≤ p.delay) (jiffies : BitVec w) :
    (∀ pos, pos < p.items.toInt64 →
      EndsAfter jiffies (later HZ p.delay jiffies) (xbusy_start HZ p jiffies pos).waited ∧
      (((xbusy_start HZ p jiffies pos).waited : Int) = asked HZ p.delay ↔
        Fits w (asked HZ p.delay))) ∧
    ∀ pos, pos + 1 < p.items.toInt64 →
      EndsAfter jiffies (later HZ p.delay jiffies) (xbusy_next HZ p jiffies pos).1.waited ∧
      (((xbusy_next HZ p jiffies pos).1.waited : Int) = asked HZ p.delay ↔
        Fits w (asked HZ p.delay)) := by
  have start (pos : Int64) (more : pos < p.items.toInt64) :
      EndsAfter jiffies (later HZ p.delay jiffies) (xbusy_start HZ p jiffies pos).waited ∧
      (((xbusy_start HZ p jiffies pos).waited : Int) = asked HZ p.delay ↔
        Fits w (asked HZ p.delay)) := by
    rw [xbusy_start, if_pos more]
    exact ⟨busyWait_ends jiffies _, waited_iff width hz delay jiffies⟩
  refine ⟨start, fun pos more => ?_⟩
  rw [xbusy_next_found]
  exact start (pos + 1) more

/-- A second is waited out across the end of the counter. -/
theorem busy_wait_exact_iff_second :
    ((xbusy_start 1000 ⟨3, 1⟩ (BitVec.allOnes 64) 0).waited : Int) = asked 1000 1 :=
  ((@busy_wait_exact_iff 64 (by decide) 1000 (by decide) ⟨3, 1⟩ (by decide)
    (BitVec.allOnes 64)).1 0 (by decide)).2.mpr (Or.inl (by decide))

/-- With 1000 ticks to a second, 2147484 seconds are not waited for at all. -/
theorem busy_wait_product_wraps :
    (0 : Int32) < 1000 ∧ (0 : Int32) ≤ (2147484 : Int32) ∧
      (xbusy_start 1000 ⟨3, 2147484⟩ (0#64) 0).waited = 0 ∧ asked 1000 2147484 = 2147484000 := by
  refine ⟨by decide, by decide, ?_, by decide⟩
  rw [xbusy_start, if_pos (by decide), busyWait_eq]
  decide

end DeviceDriverEx.SeqFile
