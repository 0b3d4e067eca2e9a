import Mathlib.Data.List.Basic
import Mathlib.Data.List.Nodup
import Mathlib.Data.List.TakeWhile
import Mathlib.Tactic.Common

namespace DeviceDriverEx

/-- Queue a timer behind those that expire no later, so that ties fire in the order of queueing. -/
def enqueue {τ : Type} (expires : τ → Nat) (t : τ) : List τ → List τ
  | [] => [t]
  | u :: us => if expires u ≤ expires t then u :: enqueue expires t us else t :: u :: us

/-- The entries in front of the first `t`. -/
def aheadOf {τ : Type} [DecidableEq τ] (t : τ) (us : List τ) : List τ :=
  us.takeWhile fun u => decide (u ≠ t)

section
variable {τ : Type} {expires : τ → Nat} {t u : τ}

theorem mem_enqueue {us : List τ} : u ∈ enqueue expires t us ↔ u = t ∨ u ∈ us := by
  induction us with
  | nil => simp [enqueue]
  | cons v us ih =>
    unfold enqueue
    split
    · rw [List.mem_cons, ih, List.mem_cons, or_left_comm]
    · rw [List.mem_cons]

theorem enqueue_ne_nil {us : List τ} : enqueue expires t us ≠ [] :=
  fun empty => List.not_mem_nil (empty ▸ mem_enqueue.mpr (Or.inl rfl))

theorem enqueue_perm (us : List τ) : (enqueue expires t us).Perm (t :: us) := by
  induction us with
  | nil => exact List.Perm.refl _
  | cons u us ih =>
    unfold enqueue
    split
    · exact (ih.cons u).trans (List.Perm.swap t u us)
    · exact List.Perm.refl _

/-- A timer goes between those that expire no later and those that expire later. -/
theorem enqueue_between {before behind : List τ} (hb : ∀ u ∈ before, expires u ≤ expires t)
    (ha : ∀ u ∈ behind, expires t < expires u) :
    enqueue expires t (before ++ behind) = before ++ t :: behind := by
  induction before with
  | nil =>
    cases behind with
    | nil => rfl
    | cons u us =>
      have later := ha u List.mem_cons_self
      exact if_neg (by omega)
  | cons u us ih =>
    rw [List.cons_append, enqueue, if_pos (hb u List.mem_cons_self),
      ih fun v hv => hb v (List.mem_cons_of_mem _ hv)]
    rfl

/-- Where the queue is a part of a list in the order of firing, a timer of the list is queued at its
place there. -/
theorem enqueue_filter {before behind : List τ} {p q : τ → Bool} (was : p t = false)
    (now : q t = true) (same : ∀ u ∈ before ++ behind, q u = p u)
    (hb : ∀ u ∈ before, p u = true → expires u ≤ expires t)
    (ha : ∀ u ∈ behind, p u = true → expires t < expires u) :
    enqueue expires t ((before ++ t :: behind).filter p) = (before ++ t :: behind).filter q := by
  have front : before.filter q = before.filter p :=
    List.filter_congr fun u hu => same u (List.mem_append_left _ hu)
  have back : behind.filter q = behind.filter p :=
    List.filter_congr fun u hu => same u (List.mem_append_right _ hu)
  rw [List.filter_append, List.filter_append, List.filter_cons_of_neg (by simp [was]),
    List.filter_cons_of_pos now, front, back]
  refine enqueue_between (fun u hu => ?_) fun u hu => ?_
  · obtain ⟨hm, queued⟩ := List.mem_filter.mp hu
    exact hb u hm queued
  · obtain ⟨hm, queued⟩ := List.mem_filter.mp hu
    exact ha u hm queued

theorem enqueue_split (expires : τ → Nat) (t : τ) (us : List τ) :
    ∃ before behind, enqueue expires t us = before ++ t :: behind ∧ us = before ++ behind ∧
      ∀ u ∈ before, expires u ≤ expires t := by
  induction us with
  | nil => exact ⟨[], [], rfl, rfl, fun u hu => by cases hu⟩
  | cons u us ih =>
    unfold enqueue
    split
    next le =>
      obtain ⟨before, behind, split, rest, sorted⟩ := ih
      refine ⟨u :: before, behind, by rw [split]; rfl, by rw [rest]; rfl, ?_⟩
      intro v hv
      rcases List.mem_cons.mp hv with rfl | hv
      · exact le
      · exact sorted v hv
    next gt => exact ⟨[], u :: us, rfl, rfl, fun v hv => by cases hv⟩

variable [DecidableEq τ]

theorem aheadOf_split {before behind : List τ} (h : t ∉ before) :
    aheadOf t (before ++ t :: behind) = before := by
  induction before with
  | nil => simp [aheadOf]
  | cons u us ih =>
    have differs : u ≠ t := fun same => h (same ▸ List.mem_cons_self)
    have rest := ih fun ht => h (List.mem_cons_of_mem _ ht)
    simp only [aheadOf, List.cons_append] at rest ⊢
    rw [List.takeWhile_cons_of_pos (by simpa using differs), rest]

/-- What is ahead of an entry stays so when another one leaves the front. -/
theorem aheadOf_tail {us : List τ} (h : u ∈ aheadOf t us) (differs : us.head? ≠ some u) :
    u ∈ aheadOf t us.tail := by
  cases us with
  | nil => cases h
  | cons v us =>
    by_cases hv : v = t
    · simp [aheadOf, hv] at h
    · simp only [aheadOf] at h ⊢
      rw [List.takeWhile_cons_of_pos (by simpa using hv)] at h
      rcases List.mem_cons.mp h with rfl | h
      · exact absurd rfl differs
      · exact h

theorem head?_ne_of_aheadOf {us : List τ} (h : u ∈ aheadOf t us) : us.head? ≠ some t := by
  intro first
  cases us with
  | nil => cases h
  | cons v us =>
    cases Option.some.inj first
    simp [aheadOf] at h

end

end DeviceDriverEx
