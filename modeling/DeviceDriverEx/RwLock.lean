import Mathlib.Data.Finset.Basic
import Mathlib.Tactic.Common

namespace DeviceDriverEx

inductive RwMode
  | read
  | write
  deriving DecidableEq

/-- A reader-writer lock with the names of its holders: any number of readers or one writer. -/
inductive RwLock (τ : Type)
  | shared (readers : Finset τ)
  | exclusive (writer : τ)

namespace RwLock
variable {τ : Type}

def free : RwLock τ := .shared ∅

def holders : RwLock τ → Finset τ
  | shared readers => readers
  | exclusive writer => {writer}

/-- The lock is to be had in this mode without waiting. -/
def Can : RwLock τ → RwMode → Prop
  | shared _, .read => True
  | shared readers, .write => readers = ∅
  | exclusive _, _ => False

instance [DecidableEq τ] (l : RwLock τ) (m : RwMode) : Decidable (l.Can m) := by
  cases l <;> cases m <;> dsimp only [Can] <;> infer_instance

def Held : RwLock τ → RwMode → τ → Prop
  | shared readers, .read, t => t ∈ readers
  | exclusive writer, .write, t => t = writer
  | _, _, _ => False

/-- Take the lock; meant where it is to be had. -/
def down [DecidableEq τ] : RwLock τ → RwMode → τ → RwLock τ
  | shared readers, .read, t => shared (insert t readers)
  | exclusive writer, .read, _ => exclusive writer
  | _, .write, t => exclusive t

/-- Give the lock back; meant where it is held in this mode. -/
def up [DecidableEq τ] : RwLock τ → RwMode → τ → RwLock τ
  | shared readers, .read, t => shared (readers.erase t)
  | exclusive _, .write, _ => free
  | l, _, _ => l

theorem mem_of_held {l : RwLock τ} {m : RwMode} {t : τ} (h : l.Held m t) : t ∈ l.holders := by
  cases l with
  | shared readers =>
    cases m with
    | read => exact h
    | write => cases h
  | exclusive writer =>
    cases m with
    | read => cases h
    | write => exact Finset.mem_singleton.mpr h

/-- A writer has the lock for itself. -/
theorem held_alone {l : RwLock τ} {m : RwMode} {t u : τ} (hw : l.Held .write t)
    (h : l.Held m u) : u = t ∧ m = .write := by
  cases l with
  | shared readers => cases hw
  | exclusive writer =>
    cases m with
    | read => cases h
    | write => exact ⟨h.trans hw.symm, rfl⟩

theorem holder_of_not_can {l : RwLock τ} {m : RwMode} (h : ¬ l.Can m) : ∃ t, t ∈ l.holders := by
  cases l with
  | shared readers =>
    cases m with
    | read => exact absurd trivial h
    | write => exact Finset.nonempty_iff_ne_empty.mpr h
  | exclusive writer => exact ⟨writer, Finset.mem_singleton_self writer⟩

theorem free_of_no_holder {l : RwLock τ} (h : ∀ t, t ∉ l.holders) : l = free := by
  cases l with
  | shared readers => exact congrArg shared (Finset.eq_empty_of_forall_notMem h)
  | exclusive writer => exact absurd (Finset.mem_singleton_self writer) (h writer)

variable [DecidableEq τ]

theorem held_down {l : RwLock τ} {m : RwMode} (h : l.Can m) (t : τ) : (l.down m t).Held m t := by
  cases l with
  | shared readers =>
    cases m with
    | read => exact Finset.mem_insert_self t readers
    | write => rfl
  | exclusive writer => cases h

/-- Whoever holds the lock keeps it when another gets it too. -/
theorem held_down_other {l : RwLock τ} {m k : RwMode} {t u : τ} (h : l.Can m)
    (hu : l.Held k u) : (l.down m t).Held k u := by
  cases l with
  | exclusive writer => cases h
  | shared readers =>
    cases k with
    | write => cases hu
    | read =>
      cases m with
      | read => exact Finset.mem_insert_of_mem hu
      | write =>
        rw [show readers = ∅ from h] at hu
        exact absurd hu (Finset.notMem_empty u)

theorem mem_down {l : RwLock τ} {m : RwMode} (h : l.Can m) (t u : τ) :
    u ∈ (l.down m t).holders ↔ u = t ∨ u ∈ l.holders := by
  cases l with
  | exclusive writer => cases h
  | shared readers =>
    cases m with
    | read => exact Finset.mem_insert
    | write =>
      rw [show readers = ∅ from h]
      simp [down, holders]

theorem held_up_other {l : RwLock τ} {m k : RwMode} {t u : τ} (h : l.Held m t)
    (hu : l.Held k u) (ne : u ≠ t) : (l.up m t).Held k u := by
  cases m with
  | write => exact absurd (held_alone h hu).1 ne
  | read =>
    cases l with
    | exclusive writer => cases h
    | shared readers =>
      cases k with
      | read => exact Finset.mem_erase.mpr ⟨ne, hu⟩
      | write => cases hu

theorem mem_up {l : RwLock τ} {m : RwMode} {t : τ} (h : l.Held m t) (u : τ) :
    u ∈ (l.up m t).holders ↔ u ≠ t ∧ u ∈ l.holders := by
  cases l with
  | shared readers =>
    cases m with
    | read => exact Finset.mem_erase
    | write => cases h
  | exclusive writer =>
    cases m with
    | read => cases h
    | write =>
      rw [show t = writer from h]
      simp [up, free, holders]

end RwLock

end DeviceDriverEx
