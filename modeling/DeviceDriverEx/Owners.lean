import DeviceDriverEx.HeapLog
import Mathlib.Logic.Function.Basic

namespace DeviceDriverEx

/-- The live objects of a heap are those that stand in the slots `κ`, each in one. -/
structure Owned {κ ω : Type} [DecidableEq ω] (slot : κ → Option ω) (log : List (HeapEvent ω)) :
    Prop where
  disciplined : Disciplined log
  live_iff : ∀ o, live log o = true ↔ ∃ x, slot x = some o
  once : ∀ x y o, slot x = some o → slot y = some o → x = y

section
variable {κ ω : Type} [DecidableEq ω] {slot : κ → Option ω} {log : List (HeapEvent ω)} {x : κ}
  {o : ω}

theorem owned_nil : Owned (fun _ : κ => none) ([] : List (HeapEvent ω)) := by
  refine ⟨trivial, fun o => ⟨fun h => (by cases h), ?_⟩, fun x y o h => (by cases h)⟩
  rintro ⟨x, h⟩
  cases h

theorem Owned.live (h : Owned slot log) (hx : slot x = some o) : live log o = true :=
  (h.live_iff o).mpr ⟨x, hx⟩

/-- Objects in different slots differ. -/
theorem Owned.apart (h : Owned slot log) {y : κ} {p : ω} (hx : slot x = some o)
    (hy : slot y = some p) (differs : x ≠ y) : o ≠ p := by
  rintro rfl
  exact differs (h.once x y o hx hy)

theorem Owned.none_live (h : Owned slot log) (empty : ∀ x, slot x = none) (o : ω) :
    DeviceDriverEx.live log o = false := by
  refine Bool.eq_false_iff.mpr fun here => ?_
  obtain ⟨x, hx⟩ := (h.live_iff o).mp here
  rw [empty x] at hx
  cases hx

theorem Owned.access (h : Owned slot log) (hx : slot x = some o) (first n : Nat) :
    Owned slot (.access (some o) first n :: log) :=
  ⟨⟨⟨o, rfl, h.live hx⟩, h.disciplined⟩, h.live_iff, h.once⟩

variable [DecidableEq κ]

/-- A new object goes into a slot that is free. -/
theorem Owned.alloc (h : Owned slot log) (empty : slot x = none)
    (fresh : DeviceDriverEx.live log o = false) :
    Owned (Function.update slot x (some o)) (.alloc o :: log) := by
  have unused : ∀ y, slot y ≠ some o := by
    intro y hy
    rw [h.live hy] at fresh
    cases fresh
  refine ⟨⟨fresh, h.disciplined⟩, fun p => ?_, fun y z p hy hz => ?_⟩
  · by_cases same : o = p
    · subst same
      exact iff_of_true (live_alloc_self o log) ⟨x, Function.update_self ..⟩
    · rw [live_alloc_of_ne same, h.live_iff]
      constructor
      · rintro ⟨y, hy⟩
        refine ⟨y, (Function.update_of_ne ?_ ..).trans hy⟩
        rintro rfl
        rw [empty] at hy
        cases hy
      · rintro ⟨y, hy⟩
        by_cases own : y = x
        · rw [own, Function.update_self] at hy
          exact absurd (Option.some.inj hy) same
        · rw [Function.update_of_ne own] at hy
          exact ⟨y, hy⟩
  · by_cases own : y = x
    · by_cases own' : z = x
      · rw [own, own']
      · rw [own, Function.update_self] at hy
        rw [Function.update_of_ne own', ← hy] at hz
        exact absurd hz (unused z)
    · rw [Function.update_of_ne own] at hy
      by_cases own' : z = x
      · rw [own', Function.update_self] at hz
        rw [← hz] at hy
        exact absurd hy (unused y)
      · rw [Function.update_of_ne own'] at hz
        exact h.once y z p hy hz

/-- An object is freed from the slot it stands in. -/
theorem Owned.free (h : Owned slot log) (hx : slot x = some o) :
    Owned (Function.update slot x none) (.free (some o) :: log) := by
  have kept : ∀ {y p}, Function.update slot x none y = some p ↔ y ≠ x ∧ slot y = some p := by
    intro y p
    by_cases own : y = x
    · rw [own, Function.update_self]
      exact iff_of_false (fun hy => by cases hy) fun hy => hy.1 rfl
    · rw [Function.update_of_ne own]
      exact (and_iff_right own).symm
  refine ⟨⟨⟨o, rfl, h.live hx⟩, h.disciplined⟩, fun p => ?_, fun y z p hy hz => ?_⟩
  · by_cases same : o = p
    · subst same
      rw [live_free_self]
      refine iff_of_false (fun here => by cases here) ?_
      rintro ⟨y, hy⟩
      obtain ⟨differs, hy⟩ := kept.mp hy
      exact differs (h.once y x o hy hx)
    · rw [live_free_of_ne (fun eq => same (Option.some.inj eq)), h.live_iff]
      constructor
      · rintro ⟨y, hy⟩
        refine ⟨y, kept.mpr ⟨?_, hy⟩⟩
        rintro rfl
        exact same (Option.some.inj (hx.symm.trans hy))
      · rintro ⟨y, hy⟩
        exact ⟨y, (kept.mp hy).2⟩
  · exact h.once y z p (kept.mp hy).2 (kept.mp hz).2

end

end DeviceDriverEx
