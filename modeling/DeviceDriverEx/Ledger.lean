import Mathlib.Tactic.Common

namespace DeviceDriverEx

/-- The books of a source that raises requests and a server that settles them one at a time:
it first writes a request down as served and then takes it off the requests still to do.
`midway` says that it stands between the two entries. -/
structure Ledger where
  raised : Nat
  served : Nat
  todo : Nat
  midway : Bool
  balance : served + todo = raised + midway.toNat
  served_le : served ≤ raised
  todo_le : todo ≤ raised

namespace Ledger

def empty : Ledger := ⟨0, 0, 0, false, rfl, Nat.le_refl 0, Nat.le_refl 0⟩

def raise (l : Ledger) : Ledger :=
  ⟨l.raised + 1, l.served, l.todo + 1, l.midway, by have := l.balance; omega,
    by have := l.served_le; omega, by have := l.todo_le; omega⟩

/-- Write one more request down as served; there has to be one. -/
def serve (l : Ledger) (pending : 0 < l.todo) (settled : l.midway = false) : Ledger :=
  ⟨l.raised, l.served + 1, l.todo, true, by have := l.balance; simp_all; omega,
    by have := l.balance; simp_all; omega, l.todo_le⟩

def settle (l : Ledger) (half : l.midway = true) : Ledger :=
  ⟨l.raised, l.served, l.todo - 1, false,
    by have := l.balance; have := l.served_le; simp_all; omega,
    l.served_le, by have := l.todo_le; omega⟩

theorem pending_of_midway {l : Ledger} (half : l.midway = true) : 0 < l.todo := by
  have := l.balance
  have := l.served_le
  simp_all
  omega

theorem served_all {l : Ledger} (settled : l.midway = false) (done : l.todo = 0) :
    l.served = l.raised := by
  have := l.balance
  simp_all

end Ledger

end DeviceDriverEx
