import Mathlib.Logic.Function.Basic
import Mathlib.Tactic.Common

namespace DeviceDriverEx

inductive TaskState
  | running
  | interruptible
  | killable
  deriving DecidableEq

structure Waiter (τ : Type) where
  task : τ
  exclusive : Bool

/-- The sleepers that `TASK_INTERRUPTIBLE` covers. -/
def maskInterruptible : TaskState → Bool
  | .interruptible => true
  | _ => false

/-- The sleepers that `TASK_NORMAL` covers; a killable sleep is uninterruptible but for fatal
signals, so it is among them. -/
def maskNormal : TaskState → Bool
  | .running => false
  | _ => true

/-- Walk the queue from its head and wake the waiters the mask covers, until `nr` exclusive ones
have been woken. A waiter that is woken leaves the queue. -/
def wakeWalk {τ : Type} [DecidableEq τ] (mask : TaskState → Bool) :
    Nat → List (Waiter τ) → (τ → TaskState) → List (Waiter τ) × (τ → TaskState)
  | _, [], state => ([], state)
  | nr, w :: ws, state =>
    if mask (state w.task) then
      if w.exclusive then
        if nr = 1 then (ws, Function.update state w.task .running)
        else wakeWalk mask (nr - 1) ws (Function.update state w.task .running)
      else wakeWalk mask nr ws (Function.update state w.task .running)
    else (w :: (wakeWalk mask nr ws state).1, (wakeWalk mask nr ws state).2)

section
variable {τ : Type} [DecidableEq τ] {mask : TaskState → Bool}

theorem wakeWalk_state (mask : TaskState → Bool) (nr : Nat) (ws : List (Waiter τ))
    (state : τ → TaskState) (t : τ) :
    (wakeWalk mask nr ws state).2 t = state t ∨
      (wakeWalk mask nr ws state).2 t = .running := by
  induction ws generalizing nr state with
  | nil => exact Or.inl rfl
  | cons w ws ih =>
    have woken : ∀ n, (wakeWalk mask n ws (Function.update state w.task .running)).2 t = state t ∨
        (wakeWalk mask n ws (Function.update state w.task .running)).2 t = .running := by
      intro n
      rcases ih n (Function.update state w.task .running) with h | h
      · by_cases ht : t = w.task
        · subst ht
          exact Or.inr (by simpa using h)
        · exact Or.inl (by simpa [ht] using h)
      · exact Or.inr h
    unfold wakeWalk
    split
    · split
      · split
        · by_cases ht : t = w.task
          · subst ht
            exact Or.inr (by simp)
          · exact Or.inl (by simp [ht])
        · exact woken _
      · exact woken _
    · exact ih nr state

/-- A sleeper that the mask does not cover is passed over. -/
theorem wakeWalk_skips {nr : Nat} {ws : List (Waiter τ)} {state : τ → TaskState} {t : τ}
    (h : mask (state t) = false) : (wakeWalk mask nr ws state).2 t = state t := by
  induction ws generalizing nr state with
  | nil => rfl
  | cons w ws ih =>
    unfold wakeWalk
    split
    next covered =>
      have other : t ≠ w.task := by
        rintro rfl
        exact Bool.false_ne_true (h.symm.trans covered)
      have same : Function.update state w.task .running t = state t := Function.update_of_ne other ..
      have past : ∀ n, (wakeWalk mask n ws (Function.update state w.task .running)).2 t = state t :=
        fun n => (ih (same.symm ▸ h)).trans same
      split
      · split
        · exact same
        · exact past _
      · exact past _
    next => exact ih h

/-- A waiter is taken off the queue only by waking its task. -/
theorem wakeWalk_keeps {nr : Nat} {ws : List (Waiter τ)} {state : τ → TaskState} {w : Waiter τ}
    (hw : w ∈ ws) (asleep : (wakeWalk mask nr ws state).2 w.task ≠ .running) :
    w ∈ (wakeWalk mask nr ws state).1 := by
  induction ws generalizing nr state with
  | nil => cases hw
  | cons v ws ih =>
    have past : ∀ n, (wakeWalk mask n ws (Function.update state v.task .running)).2 w.task ≠
        .running → w ∈ (wakeWalk mask n ws (Function.update state v.task .running)).1 := by
      intro n h
      rcases List.mem_cons.mp hw with rfl | hm
      · have hstate := wakeWalk_state mask n ws (Function.update state w.task .running) w.task
        rw [Function.update_self] at hstate
        exact absurd (or_self_iff.mp hstate) h
      · exact ih hm h
    unfold wakeWalk at asleep ⊢
    split at asleep
    next hv =>
      rw [if_pos hv]
      split at asleep
      next he =>
        rw [if_pos he]
        split at asleep
        next hn =>
          rw [if_pos hn]
          rcases List.mem_cons.mp hw with rfl | hm
          · simp at asleep
          · exact hm
        next hn =>
          rw [if_neg hn]
          exact past _ asleep
      next he =>
        rw [if_neg he]
        exact past _ asleep
    next hv =>
      rw [if_neg hv]
      rcases List.mem_cons.mp hw with rfl | hm
      · exact List.mem_cons_self
      · exact List.mem_cons_of_mem _ (ih hm asleep)

theorem wakeWalk_subset {nr : Nat} {ws : List (Waiter τ)} {state : τ → TaskState} {w : Waiter τ}
    (hw : w ∈ (wakeWalk mask nr ws state).1) : w ∈ ws := by
  induction ws generalizing nr state with
  | nil => cases hw
  | cons v ws ih =>
    unfold wakeWalk at hw
    split at hw
    · split at hw
      · split at hw
        · exact List.mem_cons_of_mem _ hw
        · exact List.mem_cons_of_mem _ (ih hw)
      · exact List.mem_cons_of_mem _ (ih hw)
    · rcases List.mem_cons.mp hw with rfl | hm
      · exact List.mem_cons_self
      · exact List.mem_cons_of_mem _ (ih hm)

theorem wakeWalk_sublist (mask : TaskState → Bool) (nr : Nat) (ws : List (Waiter τ))
    (state : τ → TaskState) : (wakeWalk mask nr ws state).1.Sublist ws := by
  induction ws generalizing nr state with
  | nil => exact List.Sublist.slnil
  | cons v ws ih =>
    unfold wakeWalk
    split
    · split
      · split
        · exact List.sublist_cons_self v ws
        · exact (ih _ _).cons v
      · exact (ih _ _).cons v
    · exact (ih _ _).cons_cons v

theorem wakeWalk_wakes {nr : Nat} {ws : List (Waiter τ)} {state : τ → TaskState} {w : Waiter τ}
    (shared : ∀ v ∈ ws, v.exclusive = false) (hw : w ∈ ws) (covered : mask (state w.task) = true) :
    (wakeWalk mask nr ws state).2 w.task = .running := by
  induction ws generalizing state with
  | nil => cases hw
  | cons v ws ih =>
    have hv := shared v List.mem_cons_self
    unfold wakeWalk
    by_cases same : v.task = w.task
    · rw [same, if_pos covered, hv, if_neg Bool.false_ne_true]
      have h := wakeWalk_state mask nr ws (Function.update state w.task .running) w.task
      rw [Function.update_self] at h
      exact or_self_iff.mp h
    · have hm : w ∈ ws := by
        rcases List.mem_cons.mp hw with rfl | hm
        · exact absurd rfl same
        · exact hm
      have rest := fun v hv => shared v (List.mem_cons_of_mem _ hv)
      split
      · rw [hv, if_neg Bool.false_ne_true]
        exact ih rest hm (by rw [Function.update_of_ne (Ne.symm same)]; exact covered)
      · exact ih rest hm covered

/-- Where all waiters are exclusive, a walk for one of them wakes the first that the mask covers. -/
theorem wakeWalk_first (mask : TaskState → Bool) {ws : List (Waiter τ)} (state : τ → TaskState)
    (exclusive : ∀ v ∈ ws, v.exclusive = true) :
    (∀ v ∈ ws, mask (state v.task) = false) ∧ wakeWalk mask 1 ws state = (ws, state) ∨
      ∃ pre w post, ws = pre ++ w :: post ∧ (∀ v ∈ pre, mask (state v.task) = false) ∧
        mask (state w.task) = true ∧
        wakeWalk mask 1 ws state = (pre ++ post, Function.update state w.task .running) := by
  induction ws with
  | nil => exact Or.inl ⟨nofun, rfl⟩
  | cons v ws ih =>
    unfold wakeWalk
    by_cases covered : mask (state v.task) = true
    · refine Or.inr ⟨[], v, ws, rfl, nofun, covered, ?_⟩
      rw [if_pos covered, if_pos (exclusive v List.mem_cons_self), if_pos rfl]
      rfl
    · rw [if_neg covered]
      have passed : mask (state v.task) = false := Bool.eq_false_iff.mpr covered
      rcases ih fun w hw => exclusive w (List.mem_cons_of_mem _ hw) with
        ⟨none, walk⟩ | ⟨pre, w, post, rfl, skipped, first, walk⟩
      · refine Or.inl ⟨?_, by rw [walk]⟩
        exact List.forall_mem_cons.mpr ⟨passed, none⟩
      · refine Or.inr ⟨v :: pre, w, post, rfl, ?_, first, by rw [walk]; rfl⟩
        exact List.forall_mem_cons.mpr ⟨passed, skipped⟩

end

/-- A wait queue with the scheduler's view of the tasks: whoever does not run is on the queue. -/
structure WaitQueue (τ : Type) where
  waiters : List (Waiter τ)
  state : τ → TaskState
  enlisted : ∀ t, state t ≠ .running → ∃ w ∈ waiters, w.task = t

namespace WaitQueue

def empty {τ : Type} : WaitQueue τ := ⟨[], fun _ => .running, fun _ h => absurd rfl h⟩

variable {τ : Type} [DecidableEq τ]

/-- Enlist a task, exclusive ones at the tail, and mark it as sleeping in state `st`. -/
def prepare (q : WaitQueue τ) (t : τ) (exclusive : Bool) (st : TaskState) : WaitQueue τ where
  waiters :=
    if ∃ w ∈ q.waiters, w.task = t then q.waiters
    else if exclusive then q.waiters ++ [⟨t, true⟩] else ⟨t, false⟩ :: q.waiters
  state := Function.update q.state t st
  enlisted := by
    intro u hu
    by_cases ht : u = t
    · subst ht
      split
      next h => exact h
      next => split <;> simp
    · rw [Function.update_of_ne ht] at hu
      obtain ⟨w, hw, rfl⟩ := q.enlisted u hu
      refine ⟨w, ?_, rfl⟩
      split
      · exact hw
      · split <;> simp [hw]

/-- Take a task off the queue and let it run. -/
def finish (q : WaitQueue τ) (t : τ) : WaitQueue τ where
  waiters := q.waiters.filter fun w => w.task ≠ t
  state := Function.update q.state t .running
  enlisted := by
    intro u hu
    have ht : u ≠ t := by
      rintro rfl
      simp at hu
    rw [Function.update_of_ne ht] at hu
    obtain ⟨w, hw, rfl⟩ := q.enlisted u hu
    exact ⟨w, by simp [hw, ht], rfl⟩

/-- A wake-up that does not come through the queue. -/
def rouse (q : WaitQueue τ) (t : τ) : WaitQueue τ where
  waiters := q.waiters
  state := Function.update q.state t .running
  enlisted := by
    intro u hu
    have ht : u ≠ t := by
      rintro rfl
      simp at hu
    rw [Function.update_of_ne ht] at hu
    exact q.enlisted u hu

def wake (q : WaitQueue τ) (mask : TaskState → Bool) (nr : Nat) : WaitQueue τ where
  waiters := (wakeWalk mask nr q.waiters q.state).1
  state := (wakeWalk mask nr q.waiters q.state).2
  enlisted := by
    intro u hu
    have asleep : q.state u ≠ .running := by
      rcases wakeWalk_state mask nr q.waiters q.state u with h | h
      · rwa [h] at hu
      · exact absurd h hu
    obtain ⟨w, hw, rfl⟩ := q.enlisted u asleep
    exact ⟨w, wakeWalk_keeps hw hu, rfl⟩

def Shared (q : WaitQueue τ) : Prop := ∀ w ∈ q.waiters, w.exclusive = false

omit [DecidableEq τ] in
theorem shared_empty : (empty : WaitQueue τ).Shared := by
  intro w hw
  cases hw

theorem shared_prepare {q : WaitQueue τ} (h : q.Shared) (t : τ) (st : TaskState) :
    (q.prepare t false st).Shared := by
  intro w hw
  simp only [prepare, Bool.false_eq_true, if_false] at hw
  split at hw
  · exact h w hw
  · rcases List.mem_cons.mp hw with rfl | hm
    · rfl
    · exact h w hm

theorem shared_finish {q : WaitQueue τ} (h : q.Shared) (t : τ) : (q.finish t).Shared :=
  fun w hw => h w (List.mem_filter.mp hw).1

theorem shared_wake {q : WaitQueue τ} (h : q.Shared) (mask : TaskState → Bool) (nr : Nat) :
    (q.wake mask nr).Shared :=
  fun w hw => h w (wakeWalk_subset hw)

/-- One wake call reaches every sleeper its mask covers when no waiter is exclusive. -/
theorem wake_running {q : WaitQueue τ} (h : q.Shared) {mask : TaskState → Bool} {t : τ}
    (covered : q.state t ≠ .running → mask (q.state t) = true) (nr : Nat) :
    (q.wake mask nr).state t = .running := by
  by_cases asleep : q.state t = .running
  · rcases wakeWalk_state mask nr q.waiters q.state t with ht | ht
    · exact ht.trans asleep
    · exact ht
  · obtain ⟨w, hw, rfl⟩ := q.enlisted t asleep
    exact wakeWalk_wakes h hw (covered asleep)

/-- None of the waiters is exclusive, and they all sleep in state `st`. -/
structure Uniform (q : WaitQueue τ) (st : TaskState) : Prop where
  shared : q.Shared
  covered : ∀ t, q.state t ≠ .running → q.state t = st

namespace Uniform

variable {q : WaitQueue τ} {st : TaskState}

omit [DecidableEq τ] in
theorem empty (st : TaskState) : (WaitQueue.empty : WaitQueue τ).Uniform st :=
  ⟨shared_empty, fun _ awake => absurd rfl awake⟩

/-- A change of one task's state to running or to `st`. -/
theorem covered_update (h : q.Uniform st) (t : τ) {now : TaskState} (hn : now = .running ∨ now = st)
    (u : τ) (asleep : Function.update q.state t now u ≠ .running) :
    Function.update q.state t now u = st := by
  by_cases ht : u = t
  · subst ht
    rw [Function.update_self] at asleep ⊢
    exact hn.resolve_left asleep
  · rw [Function.update_of_ne ht] at asleep ⊢
    exact h.covered u asleep

theorem prepare (h : q.Uniform st) (t : τ) : (q.prepare t false st).Uniform st :=
  ⟨shared_prepare h.shared t st, h.covered_update t (Or.inr rfl)⟩

theorem finish (h : q.Uniform st) (t : τ) : (q.finish t).Uniform st :=
  ⟨shared_finish h.shared t, h.covered_update t (Or.inl rfl)⟩

theorem rouse (h : q.Uniform st) (t : τ) : (q.rouse t).Uniform st :=
  ⟨h.shared, h.covered_update t (Or.inl rfl)⟩

theorem wake (h : q.Uniform st) (mask : TaskState → Bool) (nr : Nat) :
    (q.wake mask nr).Uniform st := by
  refine ⟨shared_wake h.shared mask nr, fun t asleep => ?_⟩
  rcases wakeWalk_state mask nr q.waiters q.state t with same | awake
  · rw [show (q.wake mask nr).state t = q.state t from same] at asleep ⊢
    exact h.covered t asleep
  · exact absurd awake asleep

theorem woken (h : q.Uniform st) {mask : TaskState → Bool} (reached : mask st = true) (nr : Nat)
    (t : τ) : (q.wake mask nr).state t = .running :=
  wake_running h.shared (fun asleep => h.covered t asleep ▸ reached) nr

end Uniform

/-- All of the waiters are exclusive, each is listed once, and they all sleep in state `st`. -/
structure Exclusive (q : WaitQueue τ) (st : TaskState) : Prop where
  exclusive : ∀ w ∈ q.waiters, w.exclusive = true
  once : (q.waiters.map Waiter.task).Nodup
  covered : ∀ t, q.state t ≠ .running → q.state t = st

/-- Task `i` is on the queue, and `j` is behind it or not there. -/
def Ahead (q : WaitQueue τ) (i j : τ) : Prop :=
  ∃ pre w post, q.waiters = pre ++ w :: post ∧ w.task = i ∧ ∀ v ∈ pre, v.task ≠ j

namespace Exclusive

variable {q : WaitQueue τ} {st : TaskState} {mask : TaskState → Bool}

omit [DecidableEq τ] in
theorem empty (st : TaskState) : (WaitQueue.empty : WaitQueue τ).Exclusive st :=
  ⟨nofun, List.nodup_nil, fun _ awake => absurd rfl awake⟩

/-- A change of one task's state to running or to `st`. -/
theorem covered_update (h : q.Exclusive st) (t : τ) {now : TaskState}
    (hn : now = .running ∨ now = st) (u : τ)
    (asleep : Function.update q.state t now u ≠ .running) :
    Function.update q.state t now u = st := by
  by_cases ht : u = t
  · subst ht
    rw [Function.update_self] at asleep ⊢
    exact hn.resolve_left asleep
  · rw [Function.update_of_ne ht] at asleep ⊢
    exact h.covered u asleep

theorem prepare (h : q.Exclusive st) (t : τ) : (q.prepare t true st).Exclusive st := by
  refine ⟨fun w hw => ?_, ?_, h.covered_update t (Or.inr rfl)⟩
  · simp only [WaitQueue.prepare, if_true] at hw
    split at hw
    · exact h.exclusive w hw
    · rcases List.mem_append.mp hw with hm | hm
      · exact h.exclusive w hm
      · rw [List.mem_singleton.mp hm]
  · simp only [WaitQueue.prepare, if_true]
    split
    next => exact h.once
    next absent =>
      rw [List.map_append, List.nodup_append]
      refine ⟨h.once, List.pairwise_singleton .., fun u hu v hv same => ?_⟩
      obtain ⟨w, hw, rfl⟩ := List.mem_map.mp hu
      exact absent ⟨w, hw, same.trans (List.mem_singleton.mp hv)⟩

theorem finish (h : q.Exclusive st) (t : τ) : (q.finish t).Exclusive st :=
  ⟨fun w hw => h.exclusive w (List.mem_filter.mp hw).1,
    h.once.sublist (List.filter_sublist.map Waiter.task), h.covered_update t (Or.inl rfl)⟩

theorem rouse (h : q.Exclusive st) (t : τ) : (q.rouse t).Exclusive st :=
  ⟨h.exclusive, h.once, h.covered_update t (Or.inl rfl)⟩

theorem wake (h : q.Exclusive st) (mask : TaskState → Bool) (nr : Nat) :
    (q.wake mask nr).Exclusive st := by
  have fewer := wakeWalk_sublist mask nr q.waiters q.state
  refine ⟨fun w hw => h.exclusive w (fewer.subset hw), h.once.sublist (fewer.map Waiter.task),
    fun t asleep => ?_⟩
  rcases wakeWalk_state mask nr q.waiters q.state t with same | awake
  · rw [show (q.wake mask nr).state t = q.state t from same] at asleep ⊢
    exact h.covered t asleep
  · exact absurd awake asleep

/-- A wake call for one waiter finds nobody asleep, or wakes the first sleeper of the queue. -/
theorem wake_one (h : q.Exclusive st) (reached : mask st = true) (awake : mask .running = false) :
    (∀ t, q.state t = .running) ∧ (q.wake mask 1).waiters = q.waiters ∧
        (q.wake mask 1).state = q.state ∨
      ∃ pre w post, q.waiters = pre ++ w :: post ∧ (∀ v ∈ pre, q.state v.task = .running) ∧
        q.state w.task ≠ .running ∧ (q.wake mask 1).waiters = pre ++ post ∧
        (q.wake mask 1).state = Function.update q.state w.task .running := by
  have running : ∀ t, mask (q.state t) = false → q.state t = .running := by
    intro t passed
    by_contra asleep
    rw [h.covered t asleep, reached] at passed
    cases passed
  rcases wakeWalk_first mask q.state h.exclusive with
    ⟨none, walk⟩ | ⟨pre, w, post, here, passed, first, walk⟩
  · refine Or.inl ⟨fun t => ?_, congrArg Prod.fst walk, congrArg Prod.snd walk⟩
    by_contra asleep
    obtain ⟨w, hw, rfl⟩ := q.enlisted t asleep
    exact asleep (running _ (none w hw))
  · refine Or.inr ⟨pre, w, post, here, fun v hv => running _ (passed v hv), fun up => ?_,
      congrArg Prod.fst walk, congrArg Prod.snd walk⟩
    rw [up, awake] at first
    cases first

end Exclusive

namespace Ahead

variable {q : WaitQueue τ} {st : TaskState} {mask : TaskState → Bool} {i j t : τ}

omit [DecidableEq τ] in
/-- Who is asleep is ahead of all that are not on the queue. -/
theorem of_absent (asleep : q.state i ≠ .running) (absent : ∀ w ∈ q.waiters, w.task ≠ j) :
    q.Ahead i j := by
  obtain ⟨w, hw, here⟩ := q.enlisted i asleep
  obtain ⟨pre, post, split⟩ := List.append_of_mem hw
  refine ⟨pre, w, post, split, here, fun v hv => absent v ?_⟩
  rw [split]
  exact List.mem_append_left _ hv

theorem prepare (h : q.Ahead i j) (t : τ) (st : TaskState) : (q.prepare t true st).Ahead i j := by
  obtain ⟨pre, w, post, here, task, clear⟩ := h
  simp only [Ahead, WaitQueue.prepare, if_true]
  split
  · exact ⟨pre, w, post, here, task, clear⟩
  · exact ⟨pre, w, post ++ [⟨t, true⟩], by simp [here], task, clear⟩

theorem finish (h : q.Ahead i j) (other : i ≠ t) : (q.finish t).Ahead i j := by
  obtain ⟨pre, w, post, here, task, clear⟩ := h
  subst task
  refine ⟨pre.filter fun w => w.task ≠ t, w, post.filter fun w => w.task ≠ t, ?_, rfl, ?_⟩
  · simp [WaitQueue.finish, here, other]
  · exact fun v hv => clear v (List.mem_filter.mp hv).1

/-- While `i` sleeps on, a wake call for one waiter does not reach who is behind. -/
theorem wake (h : q.Ahead i j) (all : q.Exclusive st) (reached : mask st = true)
    (awake : mask .running = false) (asleep : (q.wake mask 1).state i ≠ .running) :
    (q.wake mask 1).Ahead i j ∧ (q.wake mask 1).state j = q.state j := by
  obtain ⟨front, v, back, here, rfl, clear⟩ := h
  rcases all.wake_one reached awake with
    ⟨_, waiters, state⟩ | ⟨pre, w, post, split, passed, sleeper, waiters, state⟩
  · exact ⟨⟨front, v, back, waiters.trans here, rfl, clear⟩, congrFun state j⟩
  · have other : w.task ≠ v.task := by
      intro same
      rw [state, same, Function.update_self] at asleep
      exact asleep rfl
    rw [state, Function.update_of_ne other.symm] at asleep
    have before : v ∉ pre := fun hv => asleep (passed v hv)
    rcases List.append_eq_append_iff.mp (here.symm.trans split) with
      ⟨mid, rfl, rest⟩ | ⟨mid, rfl, rest⟩
    · cases mid with
      | nil => exact absurd (congrArg Waiter.task (List.cons.inj rest).1).symm other
      | cons u mid =>
        obtain ⟨rfl, _⟩ := List.cons.inj rest
        exact absurd (List.mem_append_right _ List.mem_cons_self) before
    · cases mid with
      | nil => exact absurd (congrArg Waiter.task (List.cons.inj rest).1) other
      | cons u mid =>
        obtain ⟨rfl, rfl⟩ := List.cons.inj rest
        have behind : w.task ≠ j := clear w (List.mem_append_right _ List.mem_cons_self)
        refine ⟨⟨pre ++ mid, v, back, waiters.trans (List.append_assoc ..).symm, rfl,
          fun x hx => ?_⟩, ?_⟩
        · rcases List.mem_append.mp hx with hp | hm
          · exact clear x (List.mem_append_left _ hp)
          · exact clear x (List.mem_append_right _ (List.mem_cons_of_mem _ hm))
        · rw [state, Function.update_of_ne behind.symm]

end Ahead

end WaitQueue

end DeviceDriverEx
