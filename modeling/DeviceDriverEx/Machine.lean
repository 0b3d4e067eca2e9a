import Mathlib.Data.List.Basic
import Mathlib.Data.List.Induction
import Mathlib.Logic.Function.Basic

namespace DeviceDriverEx

/-- A labelled transition system: what an action asks of a state, and the state it leaves.
`next` is total; it is only meant where the action is enabled. -/
structure Machine (σ α : Type) where
  Enabled : σ → α → Prop
  next : σ → α → σ

/-- The finite runs from `initial`, with the actions taken in order. -/
inductive Run {σ α : Type} (m : Machine σ α) (initial : σ) : List α → σ → Prop
  | start : Run m initial [] initial
  | next {as s a} : Run m initial as s → m.Enabled s a → Run m initial (as ++ [a]) (m.next s a)

/-- Where an occurrence stands in a list that has one more action at its end. -/
theorem concat_split {α : Type} {as pre post : List α} {a b : α}
    (h : as ++ [a] = pre ++ b :: post) :
    pre = as ∧ b = a ∧ post = [] ∨ ∃ rest, post = rest ++ [a] ∧ as = pre ++ b :: rest := by
  rcases List.eq_nil_or_concat' post with rfl | ⟨rest, c, rfl⟩
  · obtain ⟨hpre, hb⟩ := List.append_inj' h rfl
    exact Or.inl ⟨hpre.symm, (List.singleton_inj.mp hb).symm, rfl⟩
  · rw [← List.cons_append, ← List.append_assoc] at h
    obtain ⟨hpre, hc⟩ := List.append_inj' h rfl
    exact Or.inr ⟨rest, by rw [List.singleton_inj.mp hc], hpre⟩

theorem run_append {σ α : Type} {m : Machine σ α} {s t u : σ} {as bs : List α}
    (first : Run m s as t) (rest : Run m t bs u) : Run m s (as ++ bs) u := by
  induction rest with
  | start => simpa using first
  | next _ enabled ih =>
    rw [← List.append_assoc]
    exact Run.next ih enabled

theorem run_cons {σ α : Type} {m : Machine σ α} {s t : σ} {a : α} {as : List α}
    (enabled : m.Enabled s a) (rest : Run m (m.next s a) as t) : Run m s (a :: as) t :=
  run_append (Run.next Run.start enabled) rest

/-- The state a list of actions leads to, whether or not its steps are enabled. -/
def Machine.replay {σ α : Type} (m : Machine σ α) (s : σ) (as : List α) : σ :=
  as.foldl m.next s

/-- Every action of the list is enabled when its turn comes. -/
def Machine.Admits {σ α : Type} (m : Machine σ α) : σ → List α → Prop
  | _, [] => True
  | s, a :: as => m.Enabled s a ∧ m.Admits (m.next s a) as

instance Machine.decidableAdmits {σ α : Type} (m : Machine σ α)
    [∀ s a, Decidable (m.Enabled s a)] : ∀ s as, Decidable (m.Admits s as)
  | _, [] => inferInstanceAs (Decidable True)
  | s, a :: as =>
    have := m.decidableAdmits (m.next s a) as
    inferInstanceAs (Decidable (m.Enabled s a ∧ m.Admits (m.next s a) as))

theorem run_of_admits {σ α : Type} {m : Machine σ α} {s : σ} {as : List α}
    (h : m.Admits s as) : Run m s as (m.replay s as) := by
  induction as generalizing s with
  | nil => exact Run.start
  | cons a as ih => exact run_cons h.1 (ih h.2)

theorem run_of_enabled {σ α : Type} {m : Machine σ α} (enabled : ∀ s a, m.Enabled s a) (s : σ)
    (as : List α) : Run m s as (m.replay s as) := by
  induction as generalizing s with
  | nil => exact Run.start
  | cons a as ih => exact run_cons (enabled s a) (ih (m.next s a))

/-- A run is determined by its actions. -/
theorem run_replay {σ α : Type} {m : Machine σ α} {s t : σ} {as : List α}
    (h : Run m s as t) : t = m.replay s as := by
  induction h with
  | start => rfl
  | next _ _ ih => simp [Machine.replay, List.foldl_append, ih]

theorem run_unique {σ α : Type} {m : Machine σ α} {s t u : σ} {as : List α}
    (h : Run m s as t) (h' : Run m s as u) : t = u :=
  (run_replay h).trans (run_replay h').symm

theorem run_split {σ α : Type} {m : Machine σ α} {s t : σ} {as bs : List α}
    (h : Run m s (as ++ bs) t) : ∃ u, Run m s as u ∧ Run m u bs t := by
  induction bs using List.reverseRecOn generalizing t with
  | nil => exact ⟨t, by simpa using h, Run.start⟩
  | append_singleton bs b ih =>
    rw [← List.append_assoc] at h
    generalize hc : as ++ bs ++ [b] = cs at h
    cases h with
    | start => simp at hc
    | next previous enabled =>
      obtain ⟨rfl, hb⟩ := List.append_inj' hc rfl
      cases List.singleton_inj.mp hb
      obtain ⟨u, hu, ht⟩ := ih previous
      exact ⟨u, hu, Run.next ht enabled⟩

/-- The state in which an action of the run was taken. -/
theorem run_before {σ α : Type} {m : Machine σ α} {s t : σ} {as bs : List α} {a : α}
    (h : Run m s (as ++ a :: bs) t) : ∃ u, Run m s as u ∧ m.Enabled u a := by
  rw [← List.singleton_append, ← List.append_assoc] at h
  obtain ⟨v, hv, _⟩ := run_split h
  generalize hc : as ++ [a] = cs at hv
  cases hv with
  | start => simp at hc
  | next previous enabled =>
    obtain ⟨rfl, hb⟩ := List.append_inj' hc rfl
    cases List.singleton_inj.mp hb
    exact ⟨_, previous, enabled⟩

/-- A step that is always enabled; `later s n` is what `n` of them make of a state. -/
structure Clock {σ α : Type} (m : Machine σ α) where
  tick : α
  later : σ → Nat → σ
  later_zero : ∀ s, later s 0 = s
  ticks : ∀ s n, m.Enabled (later s n) tick ∧ m.next (later s n) tick = later s (n + 1)

theorem Clock.run_ticks {σ α : Type} {m : Machine σ α} (clock : Clock m) (s : σ) (n : Nat) :
    Run m s (List.replicate n clock.tick) (clock.later s n) := by
  induction n with
  | zero =>
    rw [clock.later_zero]
    exact Run.start
  | succ n ih =>
    obtain ⟨enabled, next⟩ := clock.ticks s n
    rw [List.replicate_succ', ← next]
    exact Run.next ih enabled

/-- Something true at the start and kept by every step is true in every reachable state. -/
theorem run_invariant {σ α : Type} {m : Machine σ α} {initial s : σ} {as : List α} {I : σ → Prop}
    (base : I initial) (step : ∀ s a, I s → m.Enabled s a → I (m.next s a))
    (h : Run m initial as s) : I s := by
  induction h with
  | start => exact base
  | next _ enabled ih => exact step _ _ ih enabled

theorem count_one {α : Type} {p : α → Bool} {as : List α} {a : α} (h : p a = true) :
    (as ++ [a]).countP p = as.countP p + 1 := by
  simp [List.countP_append, h]

theorem count_other {α : Type} {p : α → Bool} {as : List α} {a : α} (h : p a = false) :
    (as ++ [a]).countP p = as.countP p := by
  simp [List.countP_append, h]

/-- Every step of the run is taken in a state where `ok` allows it. -/
def Meets {σ α : Type} (m : Machine σ α) (ok : σ → α → Prop) (initial : σ) (as : List α) : Prop :=
  ∀ pre a post s, as = pre ++ a :: post → Run m initial pre s → ok s a

theorem meets_nil {σ α : Type} {m : Machine σ α} {ok : σ → α → Prop} {initial : σ} :
    Meets m ok initial [] := by
  intro pre a post s h
  simp at h

theorem meets_before {σ α : Type} {m : Machine σ α} {ok : σ → α → Prop} {initial : σ}
    {as bs : List α} (h : Meets m ok initial (as ++ bs)) : Meets m ok initial as := by
  intro pre a post s he hr
  exact h pre a (post ++ bs) s (by simp [he]) hr

theorem meets_last {σ α : Type} {m : Machine σ α} {ok : σ → α → Prop} {initial s : σ}
    {as : List α} {a : α} (h : Meets m ok initial (as ++ [a])) (hr : Run m initial as s) : ok s a :=
  h as a [] s rfl hr

theorem meets_concat {σ α : Type} {m : Machine σ α} {ok : σ → α → Prop} {initial s : σ}
    {as : List α} {a : α} (h : Meets m ok initial as) (hr : Run m initial as s) (ha : ok s a) :
    Meets m ok initial (as ++ [a]) := by
  intro pre b post t he ht
  rcases concat_split he with ⟨rfl, rfl, _⟩ | ⟨rest, _, split⟩
  · exact run_unique hr ht ▸ ha
  · exact h pre b rest t split ht

/-- Conditions that agree on the steps a run can take are met by the same runs. -/
theorem meets_congr {σ α : Type} {m : Machine σ α} {ok ok' : σ → α → Prop} {initial s : σ}
    {as : List α} (h : Run m initial as s)
    (same : ∀ pre t a, Run m initial pre t → m.Enabled t a → (ok t a ↔ ok' t a)) :
    Meets m ok initial as ↔ Meets m ok' initial as := by
  have taken : ∀ pre a post t, as = pre ++ a :: post → Run m initial pre t →
      (ok t a ↔ ok' t a) := by
    intro pre a post t split run
    obtain ⟨u, before, enabled⟩ := run_before (split ▸ h)
    exact same pre t a run (run_unique before run ▸ enabled)
  constructor
  · intro meets pre a post t split run
    exact (taken pre a post t split run).mp (meets pre a post t split run)
  · intro meets pre a post t split run
    exact (taken pre a post t split run).mpr (meets pre a post t split run)

/-- A condition on the steps of a concrete run, checked by replaying it. -/
theorem meets_of_replay {σ α : Type} {m : Machine σ α} {ok : σ → α → Prop} {initial : σ}
    {as : List α} (h : ∀ n, (hn : n < as.length) → ok (m.replay initial (as.take n)) as[n]) :
    Meets m ok initial as := by
  intro pre a post s he hr
  subst he
  have hpre := h pre.length (by simp)
  rw [run_replay hr]
  simpa using hpre

/-- The invariant rule for the runs whose steps all meet a condition. -/
theorem run_invariant_of_meets {σ α : Type} {m : Machine σ α} {ok : σ → α → Prop} {initial s : σ}
    {as : List α} {I : σ → Prop} (base : I initial)
    (step : ∀ s a, I s → m.Enabled s a → ok s a → I (m.next s a))
    (h : Run m initial as s) (meets : Meets m ok initial as) : I s := by
  induction h with
  | start => exact base
  | next previous enabled ih =>
    exact step _ _ (ih (meets_before meets)) enabled (meets_last meets previous)

/-- A property of the actions so far and the state holds at every point of the run. -/
def Always {σ α : Type} (m : Machine σ α) (P : List α → σ → Prop) (initial : σ) (as : List α) :
    Prop :=
  ∀ pre post s, as = pre ++ post → Run m initial pre s → P pre s

theorem always_before {σ α : Type} {m : Machine σ α} {P : List α → σ → Prop} {initial : σ}
    {as bs : List α} (h : Always m P initial (as ++ bs)) : Always m P initial as := by
  intro pre post s split run
  exact h pre (post ++ bs) s (by rw [split, List.append_assoc]) run

theorem always_last {σ α : Type} {m : Machine σ α} {P : List α → σ → Prop} {initial s : σ}
    {as : List α} (h : Always m P initial as) (run : Run m initial as s) : P as s :=
  h as [] s (List.append_nil as).symm run

/-- A property of every point of a concrete run, checked by replaying it. -/
theorem always_of_replay {σ α : Type} {m : Machine σ α} {P : List α → σ → Prop} {initial : σ}
    {as : List α} (h : ∀ n ≤ as.length, P (as.take n) (m.replay initial (as.take n))) :
    Always m P initial as := by
  intro pre post s split run
  subst split
  have here := h pre.length (by simp)
  rw [List.take_left] at here
  rw [run_replay run]
  exact here

/-- Where the steps that meet a condition keep an invariant that implies the property, and a step
that does not meet it breaks the property at once, the condition says exactly when the property
holds throughout. -/
theorem always_iff_meets {σ α : Type} {m : Machine σ α} {ok : σ → α → Prop} {initial s : σ}
    {as : List α} {I P : List α → σ → Prop} (base : I [] initial)
    (step : ∀ as s a, I as s → m.Enabled s a → ok s a → I (as ++ [a]) (m.next s a))
    (sound : ∀ as s, I as s → P as s)
    (sharp : ∀ as s a, I as s → m.Enabled s a → ¬ ok s a → ¬ P (as ++ [a]) (m.next s a))
    (h : Run m initial as s) : Always m P initial as ↔ Meets m ok initial as := by
  have kept : ∀ {bs t}, Run m initial bs t → Meets m ok initial bs → I bs t := by
    intro bs t run
    induction run with
    | start => exact fun _ => base
    | next previous enabled ih =>
      intro meets
      exact step _ _ _ (ih (meets_before meets)) enabled (meets_last meets previous)
  constructor
  · intro always
    induction h with
    | start => exact meets_nil
    | @next as s a previous enabled ih =>
      have meets := ih fun pre post t split run =>
        always pre (post ++ [a]) t (by rw [split, List.append_assoc]) run
      refine meets_concat meets previous (by_contra fun bad => ?_)
      exact sharp as s a (kept previous meets) enabled bad
        (always (as ++ [a]) [] _ (by simp) (Run.next previous enabled))
  · intro meets pre post t split run
    exact sound pre t (kept run (meets_before (split ▸ meets)))

/-- Whenever its turn comes, an action delivers the same in a run of either machine. -/
def DeliverAlike {τ α ρ : Type} (m m' : Machine τ α) (s s' : τ) (delivered : τ → α → ρ)
    (as : List α) : Prop :=
  ∀ pre a post t t', as = pre ++ a :: post → Run m s pre t → Run m' s' pre t' →
    delivered t a = delivered t' a

/-- Two runs of the same actions keep a relation that each action keeps. -/
theorem run_lockstep {σ τ α : Type} {m : Machine σ α} {m' : Machine τ α} {R : σ → τ → Prop}
    {s t : σ} {s' t' : τ} {as : List α} (base : R s s')
    (step : ∀ u u' a, R u u' → m.Enabled u a → m'.Enabled u' a → R (m.next u a) (m'.next u' a))
    (h : Run m s as t) (h' : Run m' s' as t') : R t t' := by
  induction h generalizing t' with
  | start => exact run_unique Run.start h' ▸ base
  | next _ enabled ih =>
    obtain ⟨u', before, enabled'⟩ := run_before h'
    rw [run_unique h' (Run.next before enabled')]
    exact step _ _ _ (ih before) enabled enabled'

/-- One party's move changes nothing of what `f` tells of any, if it does not of that one. -/
theorem update_tells {ι κ β : Type} [DecidableEq ι] {place : ι → κ} {i : ι} {k : κ} (f : κ → β)
    (same : f k = f (place i)) (j : ι) : f (Function.update place i k j) = f (place j) := by
  rw [Function.apply_update (fun _ => f), same]
  exact congrFun (Function.update_eq_self i fun i => f (place i)) j

end DeviceDriverEx
