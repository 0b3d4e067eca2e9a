import Mathlib.Data.List.Basic
import Mathlib.Tactic.Common

namespace DeviceDriverEx

def digitValue (c : UInt8) : Option Nat :=
  if 48 ≤ c ∧ c ≤ 57 then some (c.toNat - 48)
  else if 65 ≤ c ∧ c ≤ 70 then some (c.toNat - 55)
  else if 97 ≤ c ∧ c ≤ 102 then some (c.toNat - 87)
  else none

def digitIn (base : Nat) (c : UInt8) : Option Nat := (digitValue c).filter (· < base)

def isX (c : UInt8) : Bool := c = 120 || c = 88

/-- The digits in front of the first character that is not one. -/
def digits (base : Nat) : List UInt8 → List Nat
  | [] => []
  | c :: s => match digitIn base c with
    | some d => d :: digits base s
    | none => []

/-- The base that the prefix of a text asks for. -/
def simple_guess_base (s : List UInt8) : Nat :=
  if s[0]? = some 48 then
    if s[1]?.any isX && s[2]?.any fun d => (digitValue d).isSome then 16 else 8
  else 10

def behindPrefix (s : List UInt8) : List UInt8 :=
  if simple_guess_base s = 16 then s.drop 2 else s

/-- `simple_strtoul` of the kernel for base 0, on the bytes from its argument on. -/
def simple_strtoul (s : List UInt8) : UInt64 :=
  (digits (simple_guess_base s) (behindPrefix s)).foldl
    (fun result value => result * UInt64.ofNat (simple_guess_base s) + UInt64.ofNat value) 0

def behindSign (s : List UInt8) : List UInt8 := if s[0]? = some 45 then s.drop 1 else s

def simple_strtol (s : List UInt8) : Int64 :=
  if s[0]? = some 45 then -(simple_strtoul (behindSign s)).toInt64
  else (simple_strtoul (behindSign s)).toInt64

/-- How far guessing the base looks. -/
def lookahead (s : List UInt8) : Nat :=
  if s[0]? = some 48 then if s[1]?.any isX then 3 else 2 else 1

/-- How many bytes `simple_strtoul` looks at, the one that stops it included. -/
def examinedUnsigned (s : List UInt8) : Nat :=
  max (lookahead s) ((if simple_guess_base s = 16 then 2 else 0) +
    ((digits (simple_guess_base s) (behindPrefix s)).length + 1))

def examined (s : List UInt8) : Nat :=
  if s[0]? = some 45 then 1 + examinedUnsigned (behindSign s) else examinedUnsigned (behindSign s)

/-- A `0x` with nothing behind it, whose base is still open. -/
def Bare0x (s : List UInt8) : Prop := s.length = 2 ∧ s[0]? = some 48 ∧ s[1]?.any isX

instance (s : List UInt8) : Decidable (Bare0x s) := inferInstanceAs (Decidable (_ ∧ _ ∧ _))

/-- The text ends its number itself: behind the sign and the prefix of the base stands a byte that
is not a digit of that base. -/
def Stops (s : List UInt8) : Prop :=
  (∃ c ∈ behindPrefix (behindSign s), digitIn (simple_guess_base (behindSign s)) c = none) ∧
    ¬ Bare0x (behindSign s)

instance (s : List UInt8) : Decidable (Stops s) := inferInstanceAs (Decidable (_ ∧ _))

theorem digits_length_le (base : Nat) (s : List UInt8) : (digits base s).length ≤ s.length := by
  induction s with
  | nil => exact Nat.le_refl 0
  | cons c s ih =>
    unfold digits
    split
    · exact Nat.succ_le_succ ih
    · exact Nat.zero_le _

theorem digits_length_lt_iff (base : Nat) (s : List UInt8) :
    (digits base s).length < s.length ↔ ∃ c ∈ s, digitIn base c = none := by
  induction s with
  | nil => simp [digits]
  | cons c s ih =>
    cases hc : digitIn base c with
    | some d => simp [digits, hc, ih]
    | none => simp [digits, hc]

/-- Digits that end in the text are not continued by what stands behind it. -/
theorem digits_append_of_lt {base : Nat} {s : List UInt8} (h : (digits base s).length < s.length)
    (t : List UInt8) : digits base (s ++ t) = digits base s := by
  induction s with
  | nil => cases h
  | cons c s ih =>
    cases hc : digitIn base c with
    | some d =>
      simp only [digits, hc, List.length_cons, Nat.add_lt_add_iff_right] at h
      simp only [List.cons_append, digits, hc, ih h]
    | none => simp only [List.cons_append, digits, hc]

theorem digits_append_of_eq {base : Nat} {s : List UInt8} (h : (digits base s).length = s.length)
    (t : List UInt8) : digits base (s ++ t) = digits base s ++ digits base t := by
  induction s with
  | nil => rfl
  | cons c s ih =>
    cases hc : digitIn base c with
    | some d =>
      simp only [digits, hc, List.length_cons, Nat.add_right_cancel_iff] at h
      simp only [List.cons_append, digits, hc, ih h]
    | none => simp [digits, hc] at h

theorem digits_ones {base : Nat} (h : 2 ≤ base) (k : Nat) :
    (digits base (List.replicate k 49)).length = k := by
  have one : digitIn base 49 = some 1 := by
    unfold digitIn
    rw [show digitValue 49 = some 1 from rfl, Option.filter_some, if_pos]
    exact decide_eq_true h
  induction k with
  | zero => rfl
  | succ k ih => rw [List.replicate_succ, digits, one, List.length_cons, ih]

theorem guess_cases (s : List UInt8) :
    simple_guess_base s = 16 ∧ s[0]? = some 48 ∧ s[1]?.any isX = true ∧ 3 ≤ s.length ∨
      simple_guess_base s = 8 ∧ s[0]? = some 48 ∨ simple_guess_base s = 10 := by
  unfold simple_guess_base
  by_cases zero : s[0]? = some 48
  · rw [if_pos zero]
    by_cases hex : (s[1]?.any isX && s[2]?.any fun d => (digitValue d).isSome) = true
    · rw [if_pos hex]
      obtain ⟨x, digit⟩ := Bool.and_eq_true_iff.mp hex
      refine Or.inl ⟨rfl, zero, x, ?_⟩
      by_contra short
      rw [List.getElem?_eq_none (by omega)] at digit
      cases digit
    · rw [if_neg hex]
      exact Or.inr (Or.inl ⟨rfl, zero⟩)
  · rw [if_neg zero]
    exact Or.inr (Or.inr rfl)

theorem behindPrefix_length (s : List UInt8) :
    (behindPrefix s).length + (if simple_guess_base s = 16 then 2 else 0) = s.length := by
  unfold behindPrefix
  rcases guess_cases s with ⟨hex, _, _, long⟩ | ⟨octal, _⟩ | decimal
  · rw [if_pos hex, if_pos hex, List.length_drop]
    omega
  · rw [if_neg (by omega), if_neg (by omega), Nat.add_zero]
  · rw [if_neg (by omega), if_neg (by omega), Nat.add_zero]

/-- Without a prefix to skip, the digits are looked for from the start on. -/
theorem examinedUnsigned_of_ne {s : List UInt8} {base : Nat} (guess : simple_guess_base s = base)
    (h : base ≠ 16) : examinedUnsigned s = max (lookahead s) ((digits base s).length + 1) := by
  have behind : behindPrefix s = s := if_neg (by omega)
  rw [examinedUnsigned, behind, guess, if_neg h, Nat.zero_add]

theorem lookahead_le (s : List UInt8) : lookahead s ≤ 3 := by
  unfold lookahead
  split
  · split <;> decide
  · decide

/-- A text that decides its base does so whatever stands behind it. -/
theorem guess_append {s : List UInt8} (h : lookahead s ≤ s.length) (t : List UInt8) :
    simple_guess_base (s ++ t) = simple_guess_base s ∧ lookahead (s ++ t) = lookahead s ∧
      behindPrefix (s ++ t) = behindPrefix s ++ t := by
  have same : simple_guess_base (s ++ t) = simple_guess_base s ∧
      lookahead (s ++ t) = lookahead s := by
    match s with
    | [] => cases h
    | [a] =>
      have other : a ≠ 48 := by
        rintro rfl
        exact absurd h (by decide)
      simp [simple_guess_base, lookahead, other]
    | [a, b] =>
      by_cases zero : a = 48
      · cases hx : isX b with
        | true => simp [lookahead, zero, hx] at h
        | false => simp [simple_guess_base, lookahead, zero, hx]
      · simp [simple_guess_base, lookahead, zero]
    | a :: b :: c :: s => simp [simple_guess_base, lookahead]
  refine ⟨same.1, same.2, ?_⟩
  unfold behindPrefix
  rw [same.1]
  rcases guess_cases s with ⟨hex, _, _, long⟩ | ⟨octal, _⟩ | decimal
  · rw [if_pos hex, if_pos hex, List.drop_append_of_le_length (by omega)]
  · rw [if_neg (by omega), if_neg (by omega)]
  · rw [if_neg (by omega), if_neg (by omega)]

theorem unsigned_append {s : List UInt8} (h : examinedUnsigned s ≤ s.length) (t : List UInt8) :
    simple_strtoul (s ++ t) = simple_strtoul s ∧
      examinedUnsigned (s ++ t) = examinedUnsigned s := by
  have length := behindPrefix_length s
  unfold examinedUnsigned at h
  obtain ⟨guess, ahead, behind⟩ := guess_append (show lookahead s ≤ s.length by omega) t
  have stopped : digits (simple_guess_base s) (behindPrefix s ++ t) =
      digits (simple_guess_base s) (behindPrefix s) := digits_append_of_lt (by omega) t
  constructor
  · simp only [simple_strtoul, guess, behind, stopped]
  · simp only [examinedUnsigned, guess, ahead, behind, stopped]

/-- A number that has not ended is continued by ones, as far as they go. -/
theorem unsigned_ones {s : List UInt8} (h : s.length < examinedUnsigned s) (k : Nat) :
    (s ++ List.replicate k 49).length < examinedUnsigned (s ++ List.replicate k 49) := by
  have length := behindPrefix_length s
  by_cases decided : lookahead s ≤ s.length
  · obtain ⟨guess, _, behind⟩ := guess_append decided (List.replicate k 49)
    unfold examinedUnsigned at h ⊢
    have all : (digits (simple_guess_base s) (behindPrefix s)).length = (behindPrefix s).length := by
      have le := digits_length_le (simple_guess_base s) (behindPrefix s)
      omega
    have base : 2 ≤ simple_guess_base s := by
      rcases guess_cases s with ⟨hex, _⟩ | ⟨octal, _⟩ | decimal <;> omega
    rw [guess, behind, digits_append_of_eq all, List.length_append, List.length_append, all,
      digits_ones base, List.length_replicate]
    omega
  · -- the base is open: nothing but a sign, a 0, or a 0x stands there
    match s with
    | [] =>
      have guess : simple_guess_base (List.replicate k 49) = 10 := by
        cases k <;> rfl
      rw [List.nil_append, examinedUnsigned_of_ne guess (by decide), digits_ones (by decide),
        List.length_replicate]
      omega
    | [a] =>
      have zero : a = 48 := by
        by_contra other
        simp [lookahead, other] at decided
      subst zero
      have guess : simple_guess_base ([48] ++ List.replicate k 49) = 8 := by
        cases k <;> rfl
      have all : (digits 8 ([48] ++ List.replicate k 49)).length = 1 + k := by
        rw [digits_append_of_eq (by decide), List.length_append, digits_ones (by decide)]
        rfl
      rw [examinedUnsigned_of_ne guess (by decide), all, List.length_append, List.length_replicate]
      change 1 + k < _
      omega
    | [a, b] =>
      have zero : a = 48 := by
        by_contra other
        simp [lookahead, other] at decided
      have letter : isX b = true := by
        by_contra other
        simp [lookahead, zero, other] at decided
      subst zero
      cases k with
      | zero =>
        have open_ : 2 < lookahead [48, b] := Nat.lt_of_not_le decided
        exact Nat.lt_of_lt_of_le open_ (Nat.le_max_left ..)
      | succ k =>
        have guess : simple_guess_base ([48, b] ++ List.replicate (k + 1) 49) = 16 := by
          simp [simple_guess_base, letter, List.replicate_succ, digitValue]
        have behind : behindPrefix ([48, b] ++ List.replicate (k + 1) 49) =
            List.replicate (k + 1) 49 := if_pos guess
        rw [examinedUnsigned, behind, guess, if_pos rfl, digits_ones (by decide),
          List.length_append, List.length_replicate]
        change 2 + (k + 1) < _
        omega
    | a :: b :: c :: s =>
      have few := lookahead_le (a :: b :: c :: s)
      simp only [List.length_cons] at decided
      omega

theorem examinedUnsigned_le_iff (s : List UInt8) : examinedUnsigned s ≤ s.length ↔
    (∃ c ∈ behindPrefix s, digitIn (simple_guess_base s) c = none) ∧ ¬ Bare0x s := by
  have length := behindPrefix_length s
  rw [← digits_length_lt_iff]
  constructor
  · intro inside
    unfold examinedUnsigned at inside
    refine ⟨by omega, fun bare => ?_⟩
    obtain ⟨two, zero, letter⟩ := bare
    have ahead : lookahead s = 3 := by rw [lookahead, if_pos zero, if_pos letter]
    omega
  · rintro ⟨ended, notBare⟩
    have decided : lookahead s ≤ s.length := by
      match s with
      | [] => cases ended
      | [a] =>
        by_cases zero : a = 48
        · subst zero
          exact absurd ended (by decide)
        · simp [lookahead, zero]
      | [a, b] =>
        by_cases zero : a = 48
        · cases letter : isX b with
          | true => exact absurd ⟨rfl, by simp [zero], by simp [letter]⟩ notBare
          | false => simp [lookahead, zero, letter]
        · simp [lookahead, zero]
      | a :: b :: c :: s =>
        have few := lookahead_le (a :: b :: c :: s)
        simp only [List.length_cons]
        omega
    unfold examinedUnsigned
    omega

theorem stops_iff (s : List UInt8) : Stops s ↔ examined s ≤ s.length := by
  unfold Stops examined
  rw [← examinedUnsigned_le_iff]
  unfold behindSign
  by_cases minus : s[0]? = some 45
  · obtain ⟨long, _⟩ := List.getElem?_eq_some_iff.mp minus
    rw [if_pos minus, if_pos minus, List.length_drop]
    omega
  · rw [if_neg minus, if_neg minus]

theorem sign_append {s : List UInt8} (h : s ≠ []) (t : List UInt8) :
    (s ++ t)[0]? = s[0]? ∧ behindSign (s ++ t) = behindSign s ++ t := by
  cases s with
  | nil => exact absurd rfl h
  | cons c s =>
    refine ⟨rfl, ?_⟩
    unfold behindSign
    rw [List.cons_append, List.getElem?_cons_zero, List.getElem?_cons_zero]
    split <;> rfl

/-- A text that ends its number is read alike whatever stands behind it, and no byte behind it is
looked at. -/
theorem strtol_append {s : List UInt8} (h : Stops s) (t : List UInt8) :
    simple_strtol (s ++ t) = simple_strtol s ∧ examined (s ++ t) = examined s := by
  have some_byte : s ≠ [] := by
    rintro rfl
    obtain ⟨⟨c, hc, _⟩, _⟩ := h
    cases hc
  obtain ⟨sign, behind⟩ := sign_append some_byte t
  obtain ⟨value, reach⟩ := unsigned_append ((examinedUnsigned_le_iff _).mpr h) t
  constructor
  · simp only [simple_strtol, sign, behind, value]
  · simp only [examined, sign, behind, reach]

theorem digits_nul (base : Nat) (s : List UInt8) : digits base (s ++ [0]) = digits base s := by
  induction s with
  | nil => rfl
  | cons c s ih =>
    cases hc : digitIn base c with
    | some d => simp only [List.cons_append, digits, hc, ih]
    | none => simp only [List.cons_append, digits, hc]

/-- A NUL decides no base. -/
theorem guess_nul (s : List UInt8) : simple_guess_base (s ++ [0]) = simple_guess_base s ∧
    behindPrefix (s ++ [0]) = behindPrefix s ++ [0] := by
  have same : simple_guess_base (s ++ [0]) = simple_guess_base s := by
    match s with
    | [] => rfl
    | [a] => simp [simple_guess_base, isX]
    | [a, b] => simp [simple_guess_base, digitValue]
    | a :: b :: c :: s => simp [simple_guess_base]
  refine ⟨same, ?_⟩
  unfold behindPrefix
  rw [same]
  rcases guess_cases s with ⟨hex, _, _, long⟩ | ⟨octal, _⟩ | decimal
  · rw [if_pos hex, if_pos hex, List.drop_append_of_le_length (by omega)]
  · rw [if_neg (by omega), if_neg (by omega)]
  · rw [if_neg (by omega), if_neg (by omega)]

theorem behindSign_nul (s : List UInt8) :
    (s ++ [0])[0]? = some 45 ↔ s[0]? = some 45 := by
  cases s with
  | nil => simp
  | cons c s => simp

/-- A NUL ends a number and is no part of it. -/
theorem strtol_nul (s : List UInt8) :
    Stops (s ++ [0]) ∧ simple_strtol (s ++ [0]) = simple_strtol s := by
  have behind : behindSign (s ++ [0]) = behindSign s ++ [0] := by
    cases s with
    | nil => rfl
    | cons c s => exact (sign_append (List.cons_ne_nil c s) [0]).2
  obtain ⟨guess, rest⟩ := guess_nul (behindSign s)
  have value : simple_strtoul (behindSign s ++ [0]) = simple_strtoul (behindSign s) := by
    simp only [simple_strtoul, guess, rest, digits_nul]
  refine ⟨⟨⟨0, ?_, rfl⟩, ?_⟩, ?_⟩
  · rw [behind, rest]
    exact List.mem_append_right _ List.mem_cons_self
  · rw [behind]
    rintro ⟨two, _, letter⟩
    have one : (behindSign s).length = 1 := by simpa using two
    rw [List.getElem?_append_right (by omega), one] at letter
    cases letter
  · simp only [simple_strtol, behind, value, behindSign_nul]

/-- One that does not is read on through any number of ones behind it. -/
theorem strtol_ones {s : List UInt8} (h : ¬ Stops s) (k : Nat) :
    (s ++ List.replicate k 49).length < examined (s ++ List.replicate k 49) := by
  have open_ : (behindSign s).length < examinedUnsigned (behindSign s) :=
    Nat.lt_of_not_le fun inside => h ((examinedUnsigned_le_iff _).mp inside)
  by_cases empty : s = []
  · have plain : (List.replicate k (49 : UInt8))[0]? ≠ some 45 := by cases k <;> simp
    have ones := unsigned_ones (show ([] : List UInt8).length < examinedUnsigned [] by decide) k
    rw [List.nil_append] at ones
    rw [empty, List.nil_append, examined, behindSign, if_neg plain, if_neg plain]
    exact ones
  · obtain ⟨sign, behind⟩ := sign_append empty (List.replicate k 49)
    have ones := unsigned_ones open_ k
    rw [examined, sign, behind]
    by_cases minus : s[0]? = some 45
    · have shorter : (behindSign s).length + 1 = s.length := by
        obtain ⟨long, _⟩ := List.getElem?_eq_some_iff.mp minus
        rw [behindSign, if_pos minus, List.length_drop]
        omega
      rw [if_pos minus]
      rw [List.length_append] at ones ⊢
      omega
    · have whole : behindSign s = s := if_neg minus
      rw [if_neg minus, whole]
      rwa [whole] at ones

end DeviceDriverEx
