import Mathlib.Algebra.Group.Int.Defs
import Mathlib.Algebra.Group.Nat.Defs
import DeviceDriverEx.Ledger

namespace DeviceDriverEx

/-- `atomic_t` holds an `int`; incrementing it wraps. -/
def atomic_inc (v : Int32) : Int32 := v + 1

def atomic_dec (v : Int32) : Int32 := v - 1

/-- The value `atomic_dec_and_test` returns beside decrementing. -/
def atomic_dec_and_test (v : Int32) : Bool := v - 1 == 0

theorem atomic_inc_toInt {v : Int32} (room : v.toInt < 2 ^ 31 - 1) :
    (atomic_inc v).toInt = v.toInt + 1 := by
  have lo := Int32.le_toInt v
  rw [atomic_inc, Int32.toInt_add]
  exact Int.bmod_eq_of_le (by simp; omega) (by simp; omega)

theorem atomic_dec_toInt {v : Int32} (room : -2 ^ 31 < v.toInt) :
    (atomic_dec v).toInt = v.toInt - 1 := by
  have hi := Int32.toInt_lt v
  rw [atomic_dec, Int32.toInt_sub]
  exact Int.bmod_eq_of_le (by simp; omega) (by simp; omega)

theorem atomic_inc_ofNat (n : Nat) : atomic_inc (Int32.ofNat n) = Int32.ofNat (n + 1) := by
  rw [atomic_inc, Int32.ofNat_add]
  rfl

theorem atomic_dec_ofNat (n : Nat) : atomic_dec (Int32.ofNat (n + 1)) = Int32.ofNat n := by
  rw [← atomic_inc_ofNat, atomic_dec, atomic_inc]
  exact Int32.add_sub_cancel ..

theorem atomic_dec_and_test_eq {v : Int32} : atomic_dec_and_test v = true ↔ atomic_dec v = 0 := by
  simp [atomic_dec_and_test, atomic_dec]

/-- The three counters the interrupt modules keep. -/
structure Counters where
  N_th : Int32
  todo : Int32
  done : Int32

namespace Counters

def init : Counters := ⟨0, 0, 0⟩

def incN_th (c : Counters) : Counters := { c with N_th := atomic_inc c.N_th }

def incTodo (c : Counters) : Counters := { c with todo := atomic_inc c.todo }

def incDone (c : Counters) : Counters := { c with done := atomic_inc c.done }

def decTodo (c : Counters) : Counters := { c with todo := atomic_dec c.todo }

/-- `todo` and `done` hold the figures of a ledger whose entries fit an `int`. -/
structure Tracks (c : Counters) (l : Ledger) : Prop where
  todo : c.todo.toInt = l.todo
  done : c.done.toInt = l.served
  fits : l.raised < 2 ^ 31

theorem tracks_init : Tracks init Ledger.empty := ⟨rfl, rfl, by decide⟩

theorem tracks_incN_th {c : Counters} {l : Ledger} (h : c.Tracks l) : c.incN_th.Tracks l :=
  ⟨h.todo, h.done, h.fits⟩

theorem tracks_raise {c : Counters} {l : Ledger} (h : c.Tracks l)
    (room : l.raised + 1 < 2 ^ 31) : c.incTodo.Tracks l.raise := by
  have ht := h.todo
  have hl := l.todo_le
  refine ⟨?_, h.done, room⟩
  rw [incTodo, atomic_inc_toInt (by omega), ht]
  simp [Ledger.raise]

theorem tracks_serve {c : Counters} {l : Ledger} (h : c.Tracks l) (pending : 0 < l.todo)
    (settled : l.midway = false) : c.incDone.Tracks (l.serve pending settled) := by
  have hd := h.done
  have hf := h.fits
  have hs := (l.serve pending settled).served_le
  simp only [Ledger.serve] at hs
  refine ⟨h.todo, ?_, hf⟩
  rw [incDone, atomic_inc_toInt (by omega), hd]
  simp [Ledger.serve]

theorem tracks_settle {c : Counters} {l : Ledger} (h : c.Tracks l) (half : l.midway = true) :
    c.decTodo.Tracks (l.settle half) := by
  have ht := h.todo
  have hp := Ledger.pending_of_midway half
  refine ⟨?_, h.done, h.fits⟩
  rw [decTodo, atomic_dec_toInt (by omega), ht]
  simp only [Ledger.settle]
  omega

/-- `atomic_read(&todo) <= 0` finds out whether anything is left to do. -/
theorem Tracks.todo_nonpos {c : Counters} {l : Ledger} (h : c.Tracks l) :
    c.todo ≤ 0 ↔ l.todo = 0 := by
  have ht := h.todo
  rw [Int32.le_iff_toInt_le, ht]
  simp

theorem Tracks.todo_zero {c : Counters} {l : Ledger} (h : c.Tracks l) :
    c.todo = 0 ↔ l.todo = 0 := by
  have ht := h.todo
  rw [← Int32.toInt_inj, ht]
  simp

/-- `atomic_dec_and_test(&todo)` is true when the last request is settled. -/
theorem Tracks.dec_and_test {c : Counters} {l : Ledger} (h : c.Tracks l) (half : l.midway = true) :
    atomic_dec_and_test c.todo = true ↔ (l.settle half).todo = 0 := by
  rw [atomic_dec_and_test_eq]
  exact (tracks_settle h half).todo_zero

end Counters

end DeviceDriverEx
