import DeviceDriverEx.Bytes
import Mathlib.Data.List.Basic

namespace DeviceDriverEx

/-- A disk, block by block. -/
abbrev Disk (β : Type) := Nat → β

namespace Disk

variable {β : Type}

def get (d : Disk β) (pos n : Nat) : List β := (List.range n).map fun j => d (pos + j)

def put (d : Disk β) (pos : Nat) (blocks : List β) : Disk β :=
  fun i => if h : pos ≤ i ∧ i - pos < blocks.length then blocks[i - pos] else d i

@[simp]
theorem length_get (d : Disk β) (pos n : Nat) : (d.get pos n).length = n := by
  rw [get, List.length_map, List.length_range]

theorem getElem_get (d : Disk β) (pos n : Nat) {j : Nat} (h : j < (d.get pos n).length) :
    (d.get pos n)[j] = d (pos + j) := by
  simp [get]

@[simp]
theorem get_zero (d : Disk β) (pos : Nat) : d.get pos 0 = [] := rfl

@[simp]
theorem put_nil (d : Disk β) (pos : Nat) : d.put pos [] = d := by
  funext i
  exact dif_neg fun h => Nat.not_lt_zero _ h.2

/-- Two reads that follow on from each other are one. -/
theorem get_append (d : Disk β) (pos n m : Nat) :
    d.get pos (n + m) = d.get pos n ++ d.get (pos + n) m := by
  simp only [get, List.range_add, List.map_append, List.map_map, Nat.add_assoc, Function.comp_def]

/-- And so are two writes. -/
theorem put_append (d : Disk β) (pos : Nat) (xs ys : List β) :
    d.put pos (xs ++ ys) = (d.put pos xs).put (pos + xs.length) ys := by
  funext i
  by_cases first : pos ≤ i ∧ i - pos < xs.length
  · have whole : i - pos < (xs ++ ys).length := by
      rw [List.length_append]
      omega
    rw [put, dif_pos ⟨first.1, whole⟩, List.getElem_append_left first.2, put, dif_neg (by omega),
      put, dif_pos first]
  · by_cases second : pos + xs.length ≤ i ∧ i - (pos + xs.length) < ys.length
    · have whole : i - pos < (xs ++ ys).length := by
        rw [List.length_append]
        omega
      rw [put, dif_pos ⟨by omega, whole⟩, List.getElem_append_right (by omega), put, dif_pos second]
      congr 1
      omega
    · rw [put, dif_neg (by rw [List.length_append]; omega), put, dif_neg second, put, dif_neg first]

theorem get_put (d : Disk β) (pos : Nat) (blocks : List β) :
    (d.put pos blocks).get pos blocks.length = blocks := by
  refine List.ext_getElem (length_get ..) fun j hj hj' => ?_
  have inside : pos ≤ pos + j ∧ pos + j - pos < blocks.length := by omega
  rw [getElem_get, put, dif_pos inside]
  congr 1
  omega

end Disk

/-- The bytes of a memory as blocks of `w` bytes. -/
def blockAt (w : Nat) (memory : Bytes) : Disk (Fin w → UInt8) := fun i j => memory (w * i + j)

section
variable {w : Nat}

theorem block_index (i : Nat) (j : Fin w) : (w * i + j) / w = i := by
  rw [Nat.mul_add_div (Nat.zero_lt_of_lt j.isLt), Nat.div_eq_of_lt j.isLt, Nat.add_zero]

/-- Whole blocks copied into a memory. -/
theorem blockAt_copyBytes (dst src : Bytes) (at_ from_ n : Nat) :
    blockAt w (copyBytes dst (w * at_) src (w * from_) (w * n)) =
      (blockAt w dst).put at_ ((blockAt w src).get from_ n) := by
  funext i j
  have index := block_index i j
  by_cases inside : at_ ≤ i ∧ i < at_ + n
  · obtain ⟨k, rfl⟩ := Nat.exists_eq_add_of_le inside.1
    have within : w * k + j < w * n := by
      have next : w * (k + 1) ≤ w * n := Nat.mul_le_mul_left w (by omega)
      have short := j.isLt
      rw [Nat.mul_succ] at next
      omega
    have place : w * (at_ + k) + j = w * at_ + (w * k + j) := by
      rw [Nat.mul_add, Nat.add_assoc]
    have listed : at_ + k - at_ < ((blockAt w src).get from_ n).length := by
      rw [Disk.length_get]
      omega
    rw [blockAt, place, copyBytes_inside within, Disk.put, dif_pos ⟨inside.1, listed⟩,
      Disk.getElem_get, blockAt, Nat.add_sub_cancel_left, Nat.mul_add, Nat.add_assoc]
  · rw [Disk.put, dif_neg (by rw [Disk.length_get]; omega)]
    refine copyBytes_outside ?_
    rw [← Nat.mul_add]
    have short := j.isLt
    rcases Nat.lt_or_ge i at_ with before | behind
    · have next : w * (i + 1) ≤ w * at_ := Nat.mul_le_mul_left w before
      rw [Nat.mul_succ] at next
      omega
    · have next : w * (at_ + n) ≤ w * i := Nat.mul_le_mul_left w (by omega)
      omega

/-- Whole blocks copied out of it. -/
theorem get_copyBytes (dst src : Bytes) (from_ n : Nat) :
    (blockAt w (copyBytes dst 0 src (w * from_) (w * n))).get 0 n = (blockAt w src).get from_ n := by
  have copied := blockAt_copyBytes (w := w) dst src 0 from_ n
  rw [Nat.mul_zero] at copied
  have back := Disk.get_put (blockAt w dst) 0 ((blockAt w src).get from_ n)
  rw [Disk.length_get] at back
  rw [copied, back]

end

end DeviceDriverEx
