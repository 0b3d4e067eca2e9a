import Mathlib.Tactic.Common

namespace DeviceDriverEx

/-- A value put at bit `at_` of a word of `w` bits; what does not fit is lost. -/
def placeBits (w at_ : Nat) {n : Nat} (v : BitVec n) : BitVec w := v.setWidth w <<< at_

section
variable {w at_ n start len k : Nat} {v : BitVec n}

theorem extract_low : v.extractLsb' 0 len = v.setWidth len := by
  ext i hi
  simp

/-- A field that starts inside the value has the value's bits. -/
theorem extract_place (fits : at_ + k + len ≤ w) :
    (placeBits w at_ v).extractLsb' (at_ + k) len = v.extractLsb' k len := by
  ext i hi
  rw [BitVec.getElem_extractLsb', BitVec.getElem_extractLsb', placeBits, BitVec.getLsbD_shiftLeft,
    BitVec.getLsbD_setWidth, show at_ + k + i - at_ = k + i by omega]
  simp [show at_ + k + i < w by omega, show ¬ at_ + k + i < at_ by omega,
    show k + i < w by omega]

theorem extract_place_above (above : at_ + n ≤ start) :
    (placeBits w at_ v).extractLsb' start len = 0 := by
  ext i hi
  rw [BitVec.getElem_extractLsb', placeBits, BitVec.getLsbD_shiftLeft, BitVec.getLsbD_setWidth,
    BitVec.getLsbD_of_ge v _ (by omega)]
  simp

theorem extract_place_below (below : start + len ≤ at_) :
    (placeBits w at_ v).extractLsb' start len = 0 := by
  ext i hi
  rw [BitVec.getElem_extractLsb', placeBits, BitVec.getLsbD_shiftLeft]
  simp [show start + i < at_ by omega]

end

end DeviceDriverEx
