import Mathlib.Data.Bool.Basic
import Mathlib.Data.List.Count
import Mathlib.Tactic.Common

namespace DeviceDriverEx

/-- What a program asks of an allocator, and where it reaches into the objects it was given.
A pointer is `none` when it is null. -/
inductive HeapEvent (ω : Type)
  | alloc (o : ω)
  | free (p : Option ω)
  | access (p : Option ω) (first n : Nat)
  deriving DecidableEq

/-- Allocated and not freed since; the newest event of a log comes first. -/
def live {ω : Type} [DecidableEq ω] : List (HeapEvent ω) → ω → Bool
  | [], _ => false
  | .alloc o :: log, x => o = x || live log x
  | .free p :: log, x => p ≠ some x && live log x
  | .access _ _ _ :: log, x => live log x

/-- Every event of the log was in order when it happened: only live objects are freed or
touched, and an allocation returns an object that is not live. -/
def Disciplined {ω : Type} [DecidableEq ω] : List (HeapEvent ω) → Prop
  | [] => True
  | .alloc o :: log => live log o = false ∧ Disciplined log
  | .free p :: log => (∃ o, p = some o ∧ live log o = true) ∧ Disciplined log
  | .access p _ _ :: log => (∃ o, p = some o ∧ live log o = true) ∧ Disciplined log

section
variable {ω : Type} [DecidableEq ω]

theorem live_alloc_self (o : ω) (log : List (HeapEvent ω)) : live (.alloc o :: log) o = true := by
  simp [live]

theorem live_alloc_of_ne {o x : ω} (h : o ≠ x) (log : List (HeapEvent ω)) :
    live (.alloc o :: log) x = live log x := by
  simp [live, h]

theorem live_free_self (o : ω) (log : List (HeapEvent ω)) :
    live (.free (some o) :: log) o = false := by
  simp [live]

theorem live_free_of_ne {p : Option ω} {x : ω} (h : p ≠ some x) (log : List (HeapEvent ω)) :
    live (.free p :: log) x = live log x := by
  simp [live, h]

/-- In a disciplined log the allocations and the frees of an object alternate: it has been freed
as often as allocated, but for the one time it is still live. -/
theorem disciplined_count {log : List (HeapEvent ω)} (h : Disciplined log) (x : ω) :
    log.count (.alloc x) = log.count (.free (some x)) + (live log x).toNat := by
  induction log with
  | nil => rfl
  | cons e log ih =>
    cases e with
    | alloc o =>
      have hih := ih h.2
      by_cases ho : o = x
      · subst ho
        rw [h.1] at hih
        rw [live_alloc_self, List.count_cons_self, List.count_cons_of_ne (by simp), hih]
        rfl
      · rw [live_alloc_of_ne ho, List.count_cons_of_ne (by simpa using ho),
          List.count_cons_of_ne (by simp), hih]
    | free p =>
      have hih := ih h.2
      obtain ⟨o, rfl, ho⟩ := h.1
      by_cases hx : o = x
      · subst hx
        rw [ho] at hih
        rw [live_free_self, List.count_cons_self, List.count_cons_of_ne (by simp), hih]
        rfl
      · rw [live_free_of_ne (by simpa using hx), List.count_cons_of_ne (by simp),
          List.count_cons_of_ne (by simpa using hx), hih]
    | access p first n =>
      rw [List.count_cons_of_ne (by simp), List.count_cons_of_ne (by simp), ih h.2]
      rfl

end

end DeviceDriverEx
