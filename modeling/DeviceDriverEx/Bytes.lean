import Mathlib.Logic.Function.Basic
import Mathlib.Tactic.Common

namespace DeviceDriverEx

/-- Memory seen from the start of a buffer, byte by byte. Offsets past the end of the buffer are
the bytes that lie behind it. -/
abbrev Bytes := Nat → UInt8

/-- Overwrite `n` bytes of `dst` from offset `at_` on with those of `src` from `from_` on. -/
def copyBytes (dst : Bytes) (at_ : Nat) (src : Bytes) (from_ n : Nat) : Bytes :=
  fun k => if at_ ≤ k ∧ k < at_ + n then src (from_ + (k - at_)) else dst k

def memset (dst : Bytes) (v : UInt8) (n : Nat) : Bytes :=
  fun k => if k < n then v else dst k

theorem copyBytes_inside {dst src : Bytes} {at_ from_ n j : Nat} (h : j < n) :
    copyBytes dst at_ src from_ n (at_ + j) = src (from_ + j) := by
  unfold copyBytes
  rw [if_pos (by omega), Nat.add_sub_cancel_left]

theorem copyBytes_front {dst src : Bytes} {from_ n k : Nat} (h : k < n) :
    copyBytes dst 0 src from_ n k = src (from_ + k) := by
  have inside := @copyBytes_inside dst src 0 from_ n k h
  rwa [Nat.zero_add] at inside

theorem copyBytes_outside {dst src : Bytes} {at_ from_ n k : Nat} (h : k < at_ ∨ at_ + n ≤ k) :
    copyBytes dst at_ src from_ n k = dst k := by
  unfold copyBytes
  rw [if_neg (by omega)]

theorem copyBytes_zero (dst src : Bytes) (at_ from_ : Nat) : copyBytes dst at_ src from_ 0 = dst := by
  funext k
  exact copyBytes_outside (by omega)

/-- A copy is made byte by byte. -/
theorem copyBytes_succ (dst src : Bytes) (at_ from_ n : Nat) :
    copyBytes dst at_ src from_ (n + 1) =
      Function.update (copyBytes dst at_ src from_ n) (at_ + n) (src (from_ + n)) := by
  funext k
  by_cases hk : k = at_ + n
  · subst hk
    rw [Function.update_self, copyBytes_inside (Nat.lt_succ_self n)]
  · rw [Function.update_of_ne hk]
    unfold copyBytes
    by_cases hin : at_ ≤ k ∧ k < at_ + n
    · rw [if_pos hin, if_pos (by omega)]
    · rw [if_neg hin, if_neg (by omega)]

/-- Two copies that follow on from each other are one. -/
theorem copyBytes_append (dst src : Bytes) (at_ from_ n m : Nat) :
    copyBytes (copyBytes dst at_ src from_ n) (at_ + n) src (from_ + n) m =
      copyBytes dst at_ src from_ (n + m) := by
  funext k
  by_cases first : at_ ≤ k ∧ k < at_ + n
  · rw [copyBytes_outside (by omega)]
    unfold copyBytes
    rw [if_pos first, if_pos (by omega)]
  · by_cases second : at_ + n ≤ k ∧ k < at_ + n + m
    · unfold copyBytes
      rw [if_pos second, if_pos (by omega)]
      congr 1
      omega
    · rw [copyBytes_outside (by omega), copyBytes_outside (by omega), copyBytes_outside (by omega)]

/-- What has been done to a family of byte stores. -/
inductive StoreEvent (δ : Type)
  | stored (dev : δ) (pos : Nat) (src : Bytes) (n : Nat)
  | cleared (dev : δ)

/-- The byte most recently stored at offset `k` of `dev` since it was last cleared, or 0.
The newest event comes first. -/
def lastStored {δ : Type} [DecidableEq δ] : List (StoreEvent δ) → δ → Bytes
  | [], _, _ => 0
  | .stored d pos src n :: rest, dev, k =>
    if d = dev ∧ pos ≤ k ∧ k < pos + n then src (k - pos) else lastStored rest dev k
  | .cleared d :: rest, dev, k => if d = dev then 0 else lastStored rest dev k

section
variable {δ : Type} [DecidableEq δ]

theorem lastStored_stored (d : δ) (pos : Nat) (src : Bytes) (n : Nat) (rest : List (StoreEvent δ)) :
    lastStored (.stored d pos src n :: rest) d = copyBytes (lastStored rest d) pos src 0 n := by
  funext k
  simp [lastStored, copyBytes]

theorem lastStored_cleared (d : δ) (rest : List (StoreEvent δ)) :
    lastStored (.cleared d :: rest) d = fun _ => 0 := by
  funext k
  simp [lastStored]

theorem lastStored_other {d dev : δ} (h : d ≠ dev) (pos : Nat) (src : Bytes) (n : Nat)
    (rest : List (StoreEvent δ)) :
    lastStored (.stored d pos src n :: rest) dev = lastStored rest dev ∧
      lastStored (.cleared d :: rest) dev = lastStored rest dev := by
  constructor <;> funext k <;> simp [lastStored, h]

end

end DeviceDriverEx
