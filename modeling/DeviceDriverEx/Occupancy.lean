import Mathlib.Algebra.BigOperators.Group.Finset.Piecewise
import Mathlib.Data.Fintype.Card

namespace DeviceDriverEx

/-- How many of the parties stand at a place that `p` picks out. -/
def occupancy {ι κ : Type} [Fintype ι] (p : κ → Bool) (place : ι → κ) : Nat :=
  (Finset.univ.filter fun i => p (place i) = true).card

/-- Moving one party changes the count by that party alone. -/
theorem occupancy_update {ι κ : Type} [Fintype ι] [DecidableEq ι] (p : κ → Bool) (place : ι → κ)
    (i : ι) (k : κ) :
    occupancy p (Function.update place i k) + (p (place i)).toNat =
      occupancy p place + (p k).toNat := by
  have split : ∀ f : ι → κ, occupancy p f =
      (p (f i)).toNat + ∑ j ∈ Finset.univ.erase i, (p (f j)).toNat := by
    intro f
    rw [occupancy, Finset.card_filter, ← Finset.add_sum_erase _ _ (Finset.mem_univ i)]
    congr 1
    · cases p (f i) <;> rfl
    · exact Finset.sum_congr rfl fun j _ => by cases p (f j) <;> rfl
  have others : ∑ j ∈ Finset.univ.erase i, (p (Function.update place i k j)).toNat =
      ∑ j ∈ Finset.univ.erase i, (p (place j)).toNat :=
    Finset.sum_congr rfl fun j hj => by rw [Function.update_of_ne (Finset.ne_of_mem_erase hj)]
  rw [split (Function.update place i k), split place, others, Function.update_self]
  omega

theorem occupancy_enter {ι κ : Type} [Fintype ι] [DecidableEq ι] {p : κ → Bool} {place : ι → κ}
    {i : ι} {k : κ} (out : p (place i) = false) (into : p k = true) :
    occupancy p (Function.update place i k) = occupancy p place + 1 := by
  have h := occupancy_update p place i k
  rw [out, into] at h
  simpa using h

theorem occupancy_stay {ι κ : Type} [Fintype ι] [DecidableEq ι] {p : κ → Bool} {place : ι → κ}
    {i : ι} {k : κ} (same : p k = p (place i)) :
    occupancy p (Function.update place i k) = occupancy p place := by
  have h := occupancy_update p place i k
  rw [same] at h
  omega

theorem occupancy_lt_card {ι κ : Type} [Fintype ι] {p : κ → Bool} {place : ι → κ} {i : ι}
    (out : p (place i) = false) : occupancy p place < Fintype.card ι := by
  apply Finset.card_lt_card
  refine ⟨Finset.subset_univ _, fun h => ?_⟩
  have hi := h (Finset.mem_univ i)
  simp [out] at hi

theorem occupancy_congr {ι κ : Type} [Fintype ι] {p q : κ → Bool} {place : ι → κ}
    (h : ∀ i, p (place i) = q (place i)) : occupancy p place = occupancy q place := by
  simp only [occupancy, h]

theorem occupancy_mono {ι κ : Type} [Fintype ι] {p q : κ → Bool} {place : ι → κ}
    (h : ∀ i, p (place i) = true → q (place i) = true) :
    occupancy p place ≤ occupancy q place :=
  Finset.card_le_card (Finset.monotone_filter_right _ fun i _ => h i)

theorem occupancy_eq_zero {ι κ : Type} [Fintype ι] {p : κ → Bool} {place : ι → κ}
    (h : ∀ i, p (place i) = false) : occupancy p place = 0 := by
  simp [occupancy, h]

/-- How many of the parties of class `k` stand at a place that `p` picks out. -/
def tally {ι κ ν : Type} [Fintype ι] [DecidableEq ν] (cls : ι → ν) (k : ν) (p : κ → Bool)
    (place : ι → κ) : Nat :=
  occupancy (fun q : ν × κ => decide (q.1 = k) && p q.2) fun i => (cls i, place i)

section
variable {ι κ ν : Type} [Fintype ι] [DecidableEq ν] {cls : ι → ν} {p : κ → Bool} {place : ι → κ}
  {i : ι} {x : κ} {k : ν}

omit [Fintype ι] [DecidableEq ν] in
theorem class_update [DecidableEq ι] (cls : ι → ν) (place : ι → κ) (i : ι) (x : κ) :
    (fun j => (cls j, Function.update place i x j)) =
      Function.update (fun j => (cls j, place j)) i (cls i, x) := by
  funext j
  by_cases hj : j = i
  · subst hj
    rw [Function.update_self, Function.update_self]
  · rw [Function.update_of_ne hj, Function.update_of_ne hj]

theorem tally_update [DecidableEq ι] (cls : ι → ν) (k : ν) (p : κ → Bool) (place : ι → κ) (i : ι)
    (x : κ) :
    tally cls k p (Function.update place i x) + (decide (cls i = k) && p (place i)).toNat =
      tally cls k p place + (decide (cls i = k) && p x).toNat := by
  unfold tally
  rw [class_update]
  exact occupancy_update _ _ i _

theorem tally_enter [DecidableEq ι] (out : p (place i) = false) (into : p x = true) :
    tally cls (cls i) p (Function.update place i x) = tally cls (cls i) p place + 1 := by
  have moved := tally_update cls (cls i) p place i x
  rw [out, into] at moved
  simpa using moved

theorem tally_stay [DecidableEq ι] (same : cls i = k → p x = p (place i)) :
    tally cls k p (Function.update place i x) = tally cls k p place := by
  have moved := tally_update cls k p place i x
  by_cases hk : cls i = k
  · rw [same hk] at moved
    exact Nat.add_right_cancel moved
  · simpa [hk] using moved

theorem tally_mono {κ' : Type} {q : κ' → Bool} {place' : ι → κ'}
    (h : ∀ i, cls i = k → p (place i) = true → q (place' i) = true) :
    tally cls k p place ≤ tally cls k q place' := by
  refine Finset.card_le_card (Finset.monotone_filter_right _ fun i _ here => ?_)
  obtain ⟨same, picked⟩ := Bool.and_eq_true_iff.mp here
  exact Bool.and_eq_true_iff.mpr ⟨same, h i (of_decide_eq_true same) picked⟩

theorem tally_congr {κ' : Type} {q : κ' → Bool} {place' : ι → κ'}
    (h : ∀ i, cls i = k → p (place i) = q (place' i)) :
    tally cls k p place = tally cls k q place' :=
  Nat.le_antisymm (tally_mono fun i same here => (h i same) ▸ here)
    (tally_mono fun i same here => (h i same).trans here)

/-- Two kinds of places that no one is at together. -/
theorem tally_or {q : κ → Bool} (apart : ∀ x, (p x && q x) = false) :
    tally cls k (fun x => p x || q x) place = tally cls k p place + tally cls k q place := by
  unfold tally occupancy
  rw [Finset.card_filter, Finset.card_filter, Finset.card_filter, ← Finset.sum_add_distrib]
  refine Finset.sum_congr rfl fun i _ => ?_
  have never := apart (place i)
  cases hp : p (place i) <;> cases hq : q (place i) <;> simp_all

theorem tally_zero (none : ∀ i, cls i = k → p (place i) = false) : tally cls k p place = 0 := by
  refine occupancy_eq_zero fun i => ?_
  by_cases hi : cls i = k
  · simp [hi, none i hi]
  · simp [hi]

theorem tally_pos (here : cls i = k) (picked : p (place i) = true) :
    0 < tally cls k p place :=
  Finset.card_pos.mpr ⟨i, by simpa [here] using picked⟩

theorem tally_le_card (cls : ι → ν) (k : ν) (p : κ → Bool) (place : ι → κ) :
    tally cls k p place ≤ Fintype.card ι :=
  Finset.card_le_univ _

end

end DeviceDriverEx
