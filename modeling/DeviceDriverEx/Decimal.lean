import DeviceDriverEx.CInt
import DeviceDriverEx.Strtol

namespace DeviceDriverEx

def ascii (l : List Char) : List UInt8 := l.map fun c => UInt8.ofNat c.toNat

/-- What `%d` prints for an `int`. -/
def decimal (z : Int) : List UInt8 :=
  (if z < 0 then [45] else []) ++ ascii (Nat.toDigits 10 z.natAbs)

theorem digit_byte {c : Char} (h : c.isDigit) :
    (UInt8.ofNat c.toNat).toNat = c.toNat ∧ 48 ≤ c.toNat ∧ c.toNat ≤ 57 := by
  have bounds : 48 ≤ c.toNat ∧ c.toNat ≤ 57 := by
    rw [Char.isDigit, Bool.and_eq_true, decide_eq_true_eq, decide_eq_true_eq, ge_iff_le,
      UInt32.le_iff_toNat_le, UInt32.le_iff_toNat_le] at h
    exact h
  exact ⟨UInt8.toNat_ofNat_of_lt' (Nat.lt_of_le_of_lt bounds.2 (by decide)), bounds⟩

theorem digitIn_ten {c : Char} (h : c.isDigit) :
    digitIn 10 (UInt8.ofNat c.toNat) = some (c.toNat - 48) := by
  obtain ⟨value, low, high⟩ := digit_byte h
  have digit : digitValue (UInt8.ofNat c.toNat) = some (c.toNat - 48) := by
    rw [digitValue, if_pos, value]
    rw [UInt8.le_iff_toNat_le, UInt8.le_iff_toNat_le, value]
    exact ⟨low, high⟩
  rw [digitIn, digit, Option.filter_some, if_pos]
  exact decide_eq_true (by omega)

theorem digits_ascii {l : List Char} (h : ∀ c ∈ l, c.isDigit) :
    digits 10 (ascii l) = l.map fun c => c.toNat - 48 := by
  induction l with
  | nil => rfl
  | cons c l ih =>
    have rest := ih fun b hb => h b (List.mem_cons_of_mem c hb)
    unfold ascii at rest ⊢
    simp only [List.map_cons, digits, digitIn_ten (h c List.mem_cons_self), rest]

theorem foldl_digits (l : List Char) (init : Nat) :
    (l.map fun c => c.toNat - 48).foldl
      (fun result value => result * UInt64.ofNat 10 + UInt64.ofNat value) (UInt64.ofNat init) =
      UInt64.ofNat (Nat.ofDigitChars 10 l init) := by
  induction l generalizing init with
  | nil => rfl
  | cons c l ih =>
    have step : UInt64.ofNat init * UInt64.ofNat 10 + UInt64.ofNat (c.toNat - 48) =
        UInt64.ofNat (10 * init + (c.toNat - 48)) := by
      rw [UInt64.ofNat_add, UInt64.ofNat_mul, UInt64.mul_comm]
    rw [List.map_cons, List.foldl_cons, step, ih, Nat.ofDigitChars_cons]
    rfl

theorem toDigits_head {n : Nat} (h : 0 < n) : (Nat.toDigits 10 n)[0]? ≠ some '0' := by
  induction n using Nat.strongRecOn with
  | ind n ih =>
    rw [Nat.toDigits_eq_if (by decide)]
    split
    next small =>
      have first : ∀ k < 10, 0 < k → [k.digitChar][0]? ≠ some '0' := by decide
      exact first n small h
    next large =>
      have shorter := ih (n / 10) (by omega) (by omega)
      rwa [List.getElem?_append_left Nat.length_toDigits_pos]

/-- A byte that ends a decimal number. -/
structure Terminator (c : UInt8) : Prop where
  digit : digitIn 10 c = none
  letter : isX c = false

/-- What ends a decimal number ends an octal one. -/
theorem digitIn_eight {c : UInt8} (h : digitIn 10 c = none) : digitIn 8 c = none := by
  unfold digitIn at h ⊢
  cases value : digitValue c with
  | none => rfl
  | some d =>
    rw [value, Option.filter_eq_none_iff] at h
    rw [Option.filter_eq_none_iff]
    intro e he
    have large := h e he
    simp only [decide_eq_true_eq] at large ⊢
    omega

/-- The digits of a number with something else behind it: their base is found, and they are all
that is read. -/
theorem digits_decimal {c : UInt8} (ends : Terminator c) (rest : List UInt8) (n : Nat) :
    let s := ascii (Nat.toDigits 10 n) ++ c :: rest
    s[0]? ≠ some 45 ∧ simple_guess_base s ≠ 16 ∧
      (simple_guess_base s = 10 ∨ simple_guess_base s = 8 ∧ n = 0) ∧
      digits (simple_guess_base s) s = (Nat.toDigits 10 n).map (fun c => c.toNat - 48) := by
  intro s
  have all_digits : ∀ d ∈ Nat.toDigits 10 n, d.isDigit :=
    fun d hd => Nat.isDigit_of_mem_toDigits (by decide) (by decide) hd
  rcases Nat.eq_zero_or_pos n with rfl | positive
  · have guess : simple_guess_base s = 8 := by
      have whole : s = 48 :: c :: rest := rfl
      simp [whole, simple_guess_base, ends.letter]
    have stopped : digits 8 (c :: rest) = [] := by rw [digits, digitIn_eight ends.digit]
    have only : digits 8 s = 0 :: digits 8 (c :: rest) := rfl
    refine ⟨by simp [s, ascii], by omega, Or.inr ⟨guess, rfl⟩, ?_⟩
    rw [guess, only, stopped]
    rfl
  · obtain ⟨d, l, hl⟩ := List.exists_cons_of_ne_nil (@Nat.toDigits_ne_nil n 10)
    obtain ⟨value, low, high⟩ := digit_byte (all_digits d (by simp [hl]))
    have first : s[0]? = some (UInt8.ofNat d.toNat) := by simp [s, hl, ascii]
    have not_zero : UInt8.ofNat d.toNat ≠ 48 := by
      intro zero
      rw [zero] at value
      have head := toDigits_head positive
      rw [hl, List.getElem?_cons_zero, show d = '0' from Char.toNat_inj.mp value.symm] at head
      exact head rfl
    have not_minus : UInt8.ofNat d.toNat ≠ 45 := by
      intro minus
      rw [minus, show (45 : UInt8).toNat = 45 from rfl] at value
      omega
    have guess : simple_guess_base s = 10 := by
      rw [simple_guess_base, first, if_neg (by simpa using not_zero)]
    have own := digits_ascii all_digits
    have stopped : digits 10 (c :: rest) = [] := by rw [digits, ends.digit]
    refine ⟨by simpa [first] using not_minus, by omega, Or.inl guess, ?_⟩
    rw [guess, digits_append_of_eq (by rw [own, List.length_map, ascii, List.length_map]), own,
      stopped, List.append_nil]

theorem strtoul_decimal {c : UInt8} (ends : Terminator c) (rest : List UInt8) (n : Nat) :
    simple_strtoul (ascii (Nat.toDigits 10 n) ++ c :: rest) = UInt64.ofNat n := by
  obtain ⟨_, octal, base, value⟩ := digits_decimal ends rest n
  have behind : behindPrefix (ascii (Nat.toDigits 10 n) ++ c :: rest) = _ := if_neg octal
  rw [simple_strtoul, behind, value]
  rcases base with ten | ⟨_, rfl⟩
  · rw [ten]
    exact (foldl_digits _ 0).trans (congrArg UInt64.ofNat Nat.ofDigitChars_ten_toDigits)
  · simp

theorem behindSign_decimal {c : UInt8} (ends : Terminator c) (rest : List UInt8) (z : Int) :
    behindSign (decimal z ++ c :: rest) = ascii (Nat.toDigits 10 z.natAbs) ++ c :: rest ∧
      ((decimal z ++ c :: rest)[0]? = some 45 ↔ z < 0) := by
  obtain ⟨not_minus, _⟩ := digits_decimal ends rest z.natAbs
  unfold decimal behindSign
  by_cases negative : z < 0
  · rw [if_pos negative]
    exact ⟨rfl, iff_of_true rfl negative⟩
  · rw [if_neg negative, List.nil_append, if_neg not_minus]
    exact ⟨rfl, iff_of_false not_minus negative⟩

/-- The decimal text of a number that fits, with something else behind it, is read as the number. -/
theorem strtol_decimal {c : UInt8} (ends : Terminator c) (rest : List UInt8) {z : Int}
    (fits : z.natAbs < 2 ^ 63) : (simple_strtol (decimal z ++ c :: rest)).toInt = z := by
  obtain ⟨behind, minus⟩ := behindSign_decimal ends rest z
  have narrow : (UInt64.ofNat z.natAbs).toInt64.toInt = z.natAbs := by
    have small : (UInt64.ofNat z.natAbs).toNat = z.natAbs :=
      UInt64.toNat_ofNat_of_lt' (Nat.lt_trans fits (by decide))
    rw [ssize_toInt (by omega), small]
  unfold simple_strtol
  rw [behind, strtoul_decimal ends rest]
  by_cases negative : z < 0
  · rw [if_pos (minus.mpr negative), Int64.toInt_neg, narrow,
      Int.bmod_eq_of_le (by omega) (by omega)]
    omega
  · rw [if_neg (mt minus.mp negative), narrow]
    omega

theorem stops_decimal {c : UInt8} (ends : Terminator c) (z : Int) : Stops (decimal z ++ [c]) := by
  obtain ⟨_, octal, base, _⟩ := digits_decimal ends [] z.natAbs
  unfold Stops
  rw [(behindSign_decimal ends [] z).1]
  refine ⟨⟨c, ?_, ?_⟩, ?_⟩
  · rw [behindPrefix, if_neg octal]
    simp
  · rcases base with ten | ⟨eight, _⟩
    · rw [ten]
      exact ends.digit
    · rw [eight]
      exact digitIn_eight ends.digit
  · rintro ⟨two, _, letter⟩
    have one : (ascii (Nat.toDigits 10 z.natAbs)).length = 1 := by
      rw [List.length_append] at two
      exact Nat.add_right_cancel two
    rw [List.getElem?_append_right (by omega), one, Nat.sub_self, List.getElem?_cons_zero,
      Option.any_some, ends.letter] at letter
    cases letter

end DeviceDriverEx
