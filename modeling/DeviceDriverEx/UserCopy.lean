import DeviceDriverEx.Bytes

namespace DeviceDriverEx

/-- A user page that faults behind `after` bytes of a copy. A kernel that `pads` clears what
`copy_from_user` has not copied. -/
structure Fault where
  after : Nat
  pads : Bool
  deriving DecidableEq

/-- The bytes a user copy of `n` bytes moves. -/
def copied (fault : Option Fault) (n : Nat) : Nat :=
  match fault with
  | none => n
  | some f => min f.after n

/-- The bytes that `copy_from_user` stores to. -/
def overwritten (fault : Option Fault) (n : Nat) : Nat :=
  match fault with
  | none => n
  | some f => if f.pads then n else min f.after n

/-- What it stores there: zeros behind what it has copied. -/
def arriving (fault : Option Fault) (src : Bytes) (n : Nat) : Bytes :=
  fun k => if k < copied fault n then src k else 0

/-- `copy_from_user(dst + at_, src, n)` -/
def copy_from_user (fault : Option Fault) (dst : Bytes) (at_ : Nat) (src : Bytes) (n : Nat) :
    Bytes :=
  copyBytes dst at_ (arriving fault src n) 0 (overwritten fault n)

/-- The same of an array of bytes and its front. -/
def copy_to_front (fault : Option Fault) (dst src : List UInt8) (n : Nat) : List UInt8 :=
  src.take (copied fault n) ++ List.replicate (overwritten fault n - copied fault n) 0 ++
    dst.drop (overwritten fault n)

section
variable {fault : Option Fault} {dst src : Bytes} {at_ n k : Nat}

theorem copied_le (fault : Option Fault) (n : Nat) : copied fault n ≤ n := by
  cases fault with
  | none => exact Nat.le_refl n
  | some f => exact Nat.min_le_right f.after n

theorem overwritten_bounds (fault : Option Fault) (n : Nat) :
    copied fault n ≤ overwritten fault n ∧ overwritten fault n ≤ n := by
  have moved := copied_le fault n
  cases fault with
  | none => exact ⟨Nat.le_refl n, Nat.le_refl n⟩
  | some f =>
    unfold overwritten
    dsimp only
    split
    · exact ⟨moved, Nat.le_refl n⟩
    · exact ⟨Nat.le_refl _, moved⟩

/-- A fault stops a kernel that pads from copying, not from storing. -/
theorem overwritten_eq (fault : Option Fault) (n : Nat) :
    overwritten fault n = copied (fault.filter fun f => !f.pads) n := by
  cases fault with
  | none => rfl
  | some f => cases hf : f.pads <;> simp [overwritten, copied, Option.filter, hf]

theorem copied_eq_zero : copied fault n = 0 ↔ (∃ f ∈ fault, f.after = 0) ∨ n = 0 := by
  cases fault with
  | none => simp [copied]
  | some f =>
    simp only [copied, Option.mem_def, Option.some.injEq, exists_eq_left']
    omega

theorem overwritten_eq_zero :
    overwritten fault n = 0 ↔ (∃ f ∈ fault, f.pads = false ∧ f.after = 0) ∨ n = 0 := by
  rw [overwritten_eq, copied_eq_zero]
  simp [Option.mem_def, Option.filter_eq_some_iff, and_assoc]

theorem copied_lt_overwritten_iff :
    copied fault n < overwritten fault n ↔ ∃ f ∈ fault, f.pads = true ∧ f.after < n := by
  cases fault with
  | none => simp [copied, overwritten]
  | some f =>
    simp only [copied, overwritten, Option.mem_def, Option.some.injEq, exists_eq_left']
    cases f.pads with
    | true =>
      simp only [if_true, true_and]
      omega
    | false => simp

theorem copy_from_user_copied (h : k < copied fault n) :
    copy_from_user fault dst at_ src n (at_ + k) = src k := by
  have stored := (overwritten_bounds fault n).1
  rw [copy_from_user, copyBytes_inside (by omega), Nat.zero_add, arriving, if_pos h]

theorem copy_from_user_cleared (short : copied fault n ≤ k) (h : k < overwritten fault n) :
    copy_from_user fault dst at_ src n (at_ + k) = 0 := by
  rw [copy_from_user, copyBytes_inside h, Nat.zero_add, arriving, if_neg (by omega)]

theorem copy_from_user_outside (h : k < at_ ∨ at_ + overwritten fault n ≤ k) :
    copy_from_user fault dst at_ src n k = dst k :=
  copyBytes_outside h

/-- Apart from what it clears, the copy leaves what came across. -/
theorem copy_from_user_off (h : ¬ (at_ + copied fault n ≤ k ∧ k < at_ + overwritten fault n)) :
    copy_from_user fault dst at_ src n k = copyBytes dst at_ src 0 (copied fault n) k := by
  have stored := (overwritten_bounds fault n).1
  by_cases before : k < at_
  · rw [copy_from_user_outside (.inl before), copyBytes_outside (.inl before)]
  obtain ⟨j, rfl⟩ := Nat.exists_eq_add_of_le (Nat.not_lt.mp before)
  by_cases came : j < copied fault n
  · rw [copy_from_user_copied came, copyBytes_inside came, Nat.zero_add]
  · rw [copy_from_user_outside (by omega), copyBytes_outside (by omega)]

/-- What the copy clears was 0 before it. -/
def ClearsNothing (fault : Option Fault) (dst : Bytes) (at_ n : Nat) : Prop :=
  ∀ k < overwritten fault n, copied fault n ≤ k → dst (at_ + k) = 0

instance (fault : Option Fault) (dst : Bytes) (at_ n : Nat) :
    Decidable (ClearsNothing fault dst at_ n) :=
  inferInstanceAs (Decidable (∀ k < _, _))

theorem clearsNothing_of_kept (h : overwritten fault n = copied fault n) :
    ClearsNothing fault dst at_ n := by
  intro k stored rest
  omega

/-- The target then holds the bytes that came across, and those it had behind them. -/
theorem copy_from_user_eq_iff : copy_from_user fault dst at_ src n =
    copyBytes dst at_ src 0 (copied fault n) ↔ ClearsNothing fault dst at_ n := by
  obtain ⟨moved, inside⟩ := overwritten_bounds fault n
  constructor
  · intro same k stored rest
    have cleared := @copy_from_user_cleared _ dst src at_ _ _ rest stored
    rw [same, copyBytes_outside (by omega)] at cleared
    exact cleared
  · intro zero
    funext k
    by_cases cleared : at_ + copied fault n ≤ k ∧ k < at_ + overwritten fault n
    · obtain ⟨j, rfl⟩ := Nat.exists_eq_add_of_le (show at_ ≤ k by omega)
      rw [copy_from_user_cleared (by omega) (by omega), copyBytes_outside (by omega),
        zero j (by omega) (by omega)]
    · exact copy_from_user_off cleared

theorem copy_from_user_whole (dst : Bytes) (at_ : Nat) (src : Bytes) (n : Nat) :
    copy_from_user none dst at_ src n = copyBytes dst at_ src 0 n :=
  copy_from_user_eq_iff.mpr (clearsNothing_of_kept rfl)

theorem copy_to_front_kept {dst src : List UInt8} (h : ¬ copied fault n < overwritten fault n) :
    copy_to_front fault dst src n = src.take (copied fault n) ++ dst.drop (copied fault n) := by
  have same : overwritten fault n = copied fault n := by
    have stored := (overwritten_bounds fault n).1
    omega
  rw [copy_to_front, same, Nat.sub_self, List.replicate_zero, List.append_nil]

theorem copy_to_front_padded {dst src : List UInt8} (h : copied fault n < overwritten fault n) :
    ∃ rest, copy_to_front fault dst src n = src.take (copied fault n) ++ 0 :: rest := by
  obtain ⟨zeros, some_left⟩ := Nat.exists_eq_add_of_lt h
  have count : overwritten fault n - copied fault n = zeros + 1 := by omega
  refine ⟨List.replicate zeros 0 ++ dst.drop (overwritten fault n), ?_⟩
  rw [copy_to_front, count, List.replicate_succ, List.append_assoc, List.cons_append]

theorem copy_to_front_length {dst src : List UInt8} (asked : n ≤ src.length)
    (room : n ≤ dst.length) : (copy_to_front fault dst src n).length = dst.length := by
  obtain ⟨moved, inside⟩ := overwritten_bounds fault n
  simp only [copy_to_front, List.length_append, List.length_take, List.length_replicate,
    List.length_drop]
  omega

/-- The two copies agree, byte by byte. -/
theorem copy_to_front_getD {dst src : List UInt8} (asked : n ≤ src.length) (k : Nat) :
    (copy_to_front fault dst src n).getD k 0 =
      copy_from_user fault (fun j => dst.getD j 0) 0 (fun j => src.getD j 0) n k := by
  obtain ⟨moved, inside⟩ := overwritten_bounds fault n
  have taken : (src.take (copied fault n)).length = copied fault n :=
    List.length_take_of_le (by omega)
  have front : (src.take (copied fault n) ++
      List.replicate (overwritten fault n - copied fault n) (0 : UInt8)).length =
      overwritten fault n := by
    rw [List.length_append, taken, List.length_replicate]
    omega
  simp only [copy_to_front, copy_from_user, copyBytes, arriving, List.getD_eq_getElem?_getD,
    Nat.zero_le, Nat.zero_add, Nat.sub_zero, true_and]
  by_cases stored : k < overwritten fault n
  · rw [if_pos stored, List.getElem?_append_left (by omega)]
    by_cases came : k < copied fault n
    · rw [if_pos came, List.getElem?_append_left (by omega), List.getElem?_take_of_lt came]
    · rw [if_neg came, List.getElem?_append_right (by omega), List.getElem?_replicate]
      split <;> rfl
  · rw [if_neg stored, List.getElem?_append_right (by omega), front, List.getElem?_drop,
      Nat.add_sub_cancel' (Nat.not_lt.mp stored)]

end

end DeviceDriverEx
