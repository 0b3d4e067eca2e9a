import Mathlib.Data.List.TakeWhile
import Mathlib.Tactic.Common

namespace DeviceDriverEx

/-- The string that `%s` prints from some memory on. -/
def cstring (s : List UInt8) : List UInt8 := s.takeWhile fun c => c ≠ 0

/-- How many bytes `%s` looks at, the one that ends the string included. -/
def scanned (s : List UInt8) : Nat := (cstring s).length + 1

theorem cstring_length_lt_iff (s : List UInt8) : (cstring s).length < s.length ↔ 0 ∈ s := by
  induction s with
  | nil => simp [cstring]
  | cons c s ih =>
    unfold cstring at ih ⊢
    by_cases zero : c = 0
    · simp [zero]
    · have kept := @List.takeWhile_cons_of_pos _ (fun b => decide (b ≠ 0)) c s (decide_eq_true zero)
      rw [kept, List.length_cons, List.length_cons,
        Nat.add_lt_add_iff_right, ih, List.mem_cons, or_iff_right (Ne.symm zero)]

theorem cstring_append {s : List UInt8} (h : 0 ∈ s) (t : List UInt8) :
    cstring (s ++ t) = cstring s := by
  have ended := (cstring_length_lt_iff s).mpr h
  unfold cstring at ended ⊢
  rw [List.takeWhile_append, if_neg (Nat.ne_of_lt ended)]

theorem cstring_append_of_notMem {s : List UInt8} (h : 0 ∉ s) (t : List UInt8) :
    cstring (s ++ t) = s ++ cstring t := by
  unfold cstring
  refine List.takeWhile_append_of_pos fun c hc => decide_eq_true ?_
  rintro rfl
  exact h hc

theorem cstring_zeros (s : List UInt8) (k : Nat) :
    cstring (s ++ List.replicate k 0) = cstring s := by
  have none_left : (List.replicate k (0 : UInt8)).takeWhile (fun c => decide (c ≠ 0)) = [] := by
    cases k <;> simp [List.replicate_succ]
  unfold cstring
  rw [List.takeWhile_append]
  split
  next all =>
    rw [none_left, List.append_nil]
    exact ((List.takeWhile_prefix _).eq_of_length all).symm
  next => rfl

theorem cstring_nul (t : List UInt8) : cstring (0 :: t) = [] := by simp [cstring]

/-- The byte behind a text without a NUL decides whether the string goes on. -/
theorem cstring_ends_iff {s : List UInt8} (h : 0 ∉ s) (c : UInt8) (t : List UInt8) :
    cstring (s ++ c :: t) = cstring s ↔ c = 0 := by
  have whole := cstring_append_of_notMem h []
  rw [List.append_nil] at whole
  rw [cstring_append_of_notMem h, whole]
  by_cases zero : c = 0
  · simp [zero, cstring]
  · simp [zero, cstring]

theorem scanned_nul {s : List UInt8} (h : 0 ∉ s) (t : List UInt8) :
    scanned (s ++ 0 :: t) = s.length + 1 := by
  rw [scanned, cstring_append_of_notMem h, cstring_nul, List.append_nil]

theorem length_lt_scanned {s : List UInt8} (h : 0 ∉ s) (t : List UInt8) :
    s.length < scanned (s ++ t) := by
  rw [scanned, cstring_append_of_notMem h, List.length_append]
  omega

theorem scanned_append {s : List UInt8} (h : 0 ∈ s) (t : List UInt8) :
    scanned (s ++ t) ≤ s.length := by
  rw [scanned, cstring_append h]
  exact (cstring_length_lt_iff s).mpr h

/-- Store a text and a NUL behind it into an array from index `k` on; `none` where the array ends
before. -/
def storeString (dst : List UInt8) (k : Nat) (text : List UInt8) : Option (List UInt8) :=
  if k + text.length < dst.length then
    some (dst.take k ++ text ++ 0 :: dst.drop (k + text.length + 1))
  else none

/-- Both run off the end of an array that holds no NUL. -/
def strcpy (dst src : List UInt8) : Option (List UInt8) :=
  if 0 ∈ src then storeString dst 0 (cstring src) else none

def strcat (dst src : List UInt8) : Option (List UInt8) :=
  if 0 ∈ dst ∧ 0 ∈ src then storeString dst (cstring dst).length (cstring src) else none

/-- The array holds the text, with the NUL that ends it. -/
structure Holds (a text : List UInt8) : Prop where
  ended : 0 ∈ a
  text : cstring a = text

section
variable {dst src t u : List UInt8}

theorem notMem_cstring (s : List UInt8) : 0 ∉ cstring s := by
  intro h
  have kept := List.mem_takeWhile_imp h
  simp at kept

/-- A text stored behind another one, or over its end. -/
theorem storeString_holds (front : dst.take t.length = t) (plain : 0 ∉ t) (plain' : 0 ∉ u)
    (room : t.length + u.length < dst.length) :
    ∃ r, storeString dst t.length u = some r ∧ Holds r (t ++ u) ∧ r.length = dst.length := by
  refine ⟨t ++ u ++ 0 :: dst.drop (t.length + u.length + 1), ?_, ⟨by simp, ?_⟩, ?_⟩
  · rw [storeString, if_pos room, front]
  · rw [cstring_append_of_notMem (by simp [plain, plain']), cstring_nul, List.append_nil]
  · simp only [List.length_append, List.length_cons, List.length_drop]
    omega

theorem strcpy_holds (h : Holds src u) (room : u.length < dst.length) :
    ∃ r, strcpy dst src = some r ∧ Holds r u ∧ r.length = dst.length := by
  have plain : 0 ∉ u := h.text ▸ notMem_cstring src
  rw [strcpy, if_pos h.ended, h.text]
  exact storeString_holds (t := []) rfl (List.not_mem_nil) plain (by simpa using room)

theorem strcat_holds (h : Holds dst t) (h' : Holds src u)
    (room : t.length + u.length < dst.length) :
    ∃ r, strcat dst src = some r ∧ Holds r (t ++ u) ∧ r.length = dst.length := by
  have plain : 0 ∉ t := h.text ▸ notMem_cstring dst
  have plain' : 0 ∉ u := h'.text ▸ notMem_cstring src
  have front : dst.take t.length = t := by
    rw [← h.text]
    exact (List.prefix_iff_eq_take.mp (List.takeWhile_prefix _)).symm
  rw [strcat, if_pos ⟨h.ended, h'.ended⟩, h.text, h'.text]
  exact storeString_holds front plain plain' room

end

end DeviceDriverEx
