import Mathlib.Data.List.Basic
import Mathlib.Data.List.Perm.Basic
import Mathlib.Tactic.Common

namespace DeviceDriverEx

/-- What each call of a program acquires and releases. -/
structure Effects (γ ρ : Type) where
  acquires : γ → Option ρ
  releases : γ → Option ρ

namespace Effects

section
variable {γ ρ : Type}

def acquired (e : Effects γ ρ) (calls : List γ) : List ρ := calls.filterMap e.acquires

def released (e : Effects γ ρ) (calls : List γ) : List ρ := calls.filterMap e.releases

theorem acquired_cons (e : Effects γ ρ) (c : γ) (calls : List γ) :
    e.acquired (c :: calls) = (e.acquires c).toList ++ e.acquired calls := by
  cases h : e.acquires c with
  | none => exact List.filterMap_cons_none h
  | some r => exact List.filterMap_cons_some h

theorem released_cons (e : Effects γ ρ) (c : γ) (calls : List γ) :
    e.released (c :: calls) = (e.releases c).toList ++ e.released calls := by
  cases h : e.releases c with
  | none => exact List.filterMap_cons_none h
  | some r => exact List.filterMap_cons_some h

theorem acquired_append (e : Effects γ ρ) (first rest : List γ) :
    e.acquired (first ++ rest) = e.acquired first ++ e.acquired rest :=
  List.filterMap_append

theorem released_append (e : Effects γ ρ) (first rest : List γ) :
    e.released (first ++ rest) = e.released first ++ e.released rest :=
  List.filterMap_append

end

section
variable {γ ρ : Type} [DecidableEq ρ] {e : Effects γ ρ}

def hold (e : Effects γ ρ) (held : List ρ) (c : γ) : List ρ :=
  held.diff (e.releases c).toList ++ (e.acquires c).toList

def holds (e : Effects γ ρ) (held : List ρ) (calls : List γ) : List ρ := calls.foldl e.hold held

/-- Each call releases only what is held when it is made. -/
def Matched (e : Effects γ ρ) : List ρ → List γ → Prop
  | _, [] => True
  | held, c :: calls => (∀ r ∈ e.releases c, r ∈ held) ∧ e.Matched (e.hold held c) calls

/-- Calls that release nothing add what they acquire. -/
theorem holds_of_released_nil {held : List ρ} {calls : List γ} (h : e.released calls = []) :
    e.holds held calls = held ++ e.acquired calls := by
  induction calls generalizing held with
  | nil => exact (List.append_nil held).symm
  | cons c calls ih =>
    rw [released_cons, List.append_eq_nil_iff] at h
    have first : e.hold held c = held ++ (e.acquires c).toList := by rw [hold, h.1, List.diff_nil]
    change e.holds (e.hold held c) calls = _
    rw [ih h.2, first, acquired_cons, List.append_assoc]

/-- Calls that acquire nothing release what is held, each thing once and nothing else, exactly if
what they release is what is held up to order. -/
theorem undone_iff_perm {held : List ρ} {calls : List γ} (h : e.acquired calls = []) :
    e.Matched held calls ∧ e.holds held calls = [] ↔ held.Perm (e.released calls) := by
  induction calls generalizing held with
  | nil =>
    exact ⟨fun undone => List.perm_nil.mpr undone.2,
      fun perm => ⟨trivial, List.perm_nil.mp perm⟩⟩
  | cons c calls ih =>
    rw [acquired_cons, List.append_eq_nil_iff] at h
    have erased : e.hold held c = held.diff (e.releases c).toList := by
      rw [hold, h.1, List.append_nil]
    change ((∀ r ∈ e.releases c, r ∈ held) ∧ e.Matched (e.hold held c) calls) ∧
      e.holds (e.hold held c) calls = [] ↔ _
    rw [and_assoc, ih h.2, erased, released_cons]
    cases e.releases c with
    | none => exact ⟨fun perm => perm.2, fun perm => ⟨fun r hr => (by cases hr), perm⟩⟩
    | some r =>
      rw [Option.toList_some, List.diff_cons, List.diff_nil, List.singleton_append]
      constructor
      · rintro ⟨owned, perm⟩
        exact (List.perm_cons_erase (owned r rfl)).trans (perm.cons r)
      · intro perm
        have owned : r ∈ held := perm.mem_iff.mpr List.mem_cons_self
        refine ⟨fun r' same => Option.some.inj same ▸ owned, ?_⟩
        exact (List.perm_cons r).mp ((List.perm_cons_erase owned).symm.trans perm)

end

end Effects

end DeviceDriverEx
