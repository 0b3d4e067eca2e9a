import DeviceDriverEx.Machine
import DeviceDriverEx.TimerQueue
import Mathlib.Data.Fintype.Basic
import Mathlib.Logic.Function.Basic

namespace DeviceDriverEx.StaticTimer

/-- The two drivers around one static timer; the function of the second arms it again. -/
inductive Lab
  | timers
  | PKtimers
  deriving DecidableEq

/-- What a call of `timers_write` executes next. -/
inductive Pc
  | init_timer
  | expires
  | add_timer
  | returned
  deriving DecidableEq

def Pc.writing : Pc → Bool
  | init_timer => false
  | expires => true
  | add_timer => true
  | returned => false

/-- The static timer. `queue` has an expiry for each time that the kernel's queue holds it,
`pending` is what `timer_pending` says of it, and `expires` is the field. -/
structure State (ι : Type) where
  jiffies : Nat
  pc : ι → Pc
  pending : Bool
  expires : Nat
  queue : List Nat
  running : Bool

inductive Act (ι : Type)
  | init_timer (i : ι)
  | expires (i : ι)
  | add_timer (i : ι)
  | tick
  | expire
  | timer_func

section
variable {ι : Type}

/-- A queued timer is taken from the queue first, if it is known to be queued. -/
def mod_timer (s : State ι) (expires : Nat) : State ι :=
  let rest := if s.pending then s.queue.erase s.expires else s.queue
  { s with pending := true, expires := expires, queue := enqueue id expires rest }

def timer_func (lab : Lab) (HZ : Nat) (s : State ι) : State ι :=
  match lab with
  | .timers => { s with running := false }
  | .PKtimers => { mod_timer s (s.jiffies + HZ) with running := false }

def init (jiffies : Nat) : State ι := ⟨jiffies, fun _ => .init_timer, false, 0, [], false⟩

def Idle (s : State ι) : Prop := ∀ i, (s.pc i).writing = false

instance [Fintype ι] (s : State ι) : Decidable (Idle s) :=
  inferInstanceAs (Decidable (∀ i, (s.pc i).writing = false))

/-- With `serial` the writes come one at a time. -/
def Enabled (serial : Bool) (s : State ι) : Act ι → Prop
  | .init_timer i => s.pc i = .init_timer ∧ (serial = true → Idle s)
  | .expires i => s.pc i = .expires
  | .add_timer i => s.pc i = .add_timer
  | .tick => True
  | .expire => s.running = false ∧ ∃ e ∈ s.queue.head?, e ≤ s.jiffies
  | .timer_func => s.running = true

variable [DecidableEq ι]

/-- `init_timer` forgets that the timer is queued and leaves it in the queue. -/
def next (lab : Lab) (HZ : Nat) (s : State ι) : Act ι → State ι
  | .init_timer i => { s with pc := Function.update s.pc i .expires, pending := false }
  | .expires i => { s with
      pc := Function.update s.pc i .add_timer
      expires := s.jiffies + HZ }
  | .add_timer i => { s with
      pc := Function.update s.pc i .returned
      pending := true
      queue := enqueue id s.expires s.queue }
  | .tick => { s with jiffies := s.jiffies + 1 }
  | .expire => { s with pending := false, queue := s.queue.tail, running := true }
  | .timer_func => timer_func lab HZ s

def machine (serial : Bool) (lab : Lab) (HZ : Nat) : Machine (State ι) (Act ι) :=
  ⟨Enabled serial, next lab HZ⟩

omit [DecidableEq ι] in
instance [Fintype ι] (serial : Bool) (s : State ι) : ∀ a, Decidable (Enabled serial s a)
  | .init_timer i => inferInstanceAs
      (Decidable (s.pc i = .init_timer ∧ (serial = true → Idle s)))
  | .expires i => inferInstanceAs (Decidable (s.pc i = .expires))
  | .add_timer i => inferInstanceAs (Decidable (s.pc i = .add_timer))
  | .tick => inferInstanceAs (Decidable True)
  | .expire => inferInstanceAs
      (Decidable (s.running = false ∧ ∃ e ∈ s.queue.head?, e ≤ s.jiffies))
  | .timer_func => inferInstanceAs (Decidable (s.running = true))

instance [Fintype ι] (serial : Bool) (lab : Lab) (HZ : Nat) (s : State ι) (a : Act ι) :
    Decidable ((machine serial lab HZ).Enabled s a) :=
  inferInstanceAs (Decidable (Enabled serial s a))

def clock (serial : Bool) (lab : Lab) (HZ : Nat) :
    Clock (machine serial lab HZ : Machine (State ι) (Act ι)) :=
  ⟨.tick, fun s n => { s with jiffies := s.jiffies + n }, fun _ => rfl, fun _ _ => ⟨trivial, rfl⟩⟩

/-- `init_timer` and `add_timer` find the timer outside the queue. -/
def Unqueued (s : State ι) : Act ι → Prop
  | .init_timer _ => s.queue = []
  | .add_timer _ => s.queue = []
  | _ => True

/-- A write begins while the timer is not pending, and in 11_LAB3 the timer's function does not
arm it again in the middle of a write. -/
def Apart (lab : Lab) (s : State ι) : Act ι → Prop
  | .init_timer _ => s.pending = false
  | .timer_func => lab = .PKtimers → Idle s
  | _ => True

instance [Fintype ι] (lab : Lab) (s : State ι) : ∀ a, Decidable (Apart lab s a)
  | .init_timer _ => inferInstanceAs (Decidable (s.pending = false))
  | .timer_func => inferInstanceAs (Decidable (lab = .PKtimers → Idle s))
  | .expires _ | .add_timer _ | .tick | .expire => isTrue trivial

/-- The flag is right about the queue, and the one write that has begun has the timer to itself. -/
structure Inv (s : State ι) : Prop where
  queue : s.queue = if s.pending then [s.expires] else []
  unarmed : ∀ i, (s.pc i).writing = true → s.pending = false
  alone : ∀ i j, (s.pc i).writing = true → (s.pc j).writing = true → i = j

omit [DecidableEq ι] in
theorem Inv.empty {s : State ι} (h : Inv s) (off : s.pending = false) : s.queue = [] := by
  rw [h.queue, off]
  rfl

omit [DecidableEq ι] in
theorem Inv.off {s : State ι} (h : Inv s) {i : ι} {pc : Pc} (hi : s.pc i = pc)
    (writing : pc.writing = true) : s.pending = false :=
  h.unarmed i (by rw [hi]; exact writing)

omit [DecidableEq ι] in
theorem inv_timer_func {lab : Lab} {HZ : Nat} {s : State ι} (h : Inv s)
    (apart : lab = .PKtimers → Idle s) : Inv (timer_func lab HZ s) := by
  cases lab with
  | timers => exact ⟨h.queue, h.unarmed, h.alone⟩
  | PKtimers =>
    refine ⟨?_, fun i writing => ?_, h.alone⟩
    · have rest : (if s.pending then s.queue.erase s.expires else s.queue) = [] := by
        cases armed : s.pending with
        | false => exact h.empty armed
        | true => simp [h.queue, armed]
      simp only [timer_func, mod_timer, rest, enqueue, if_true]
    · have before : (s.pc i).writing = true := writing
      rw [apart rfl i] at before
      cases before

/-- Who is in progress after a step of write `i` was in progress before, or is `i` itself. -/
theorem writing_update {s : State ι} {i j : ι} {pc : Pc}
    (h : (Function.update s.pc i pc j).writing = true) :
    j = i ∧ pc.writing = true ∨ (s.pc j).writing = true := by
  by_cases hj : j = i
  · subst hj
    rw [Function.update_self] at h
    exact Or.inl ⟨rfl, h⟩
  · rw [Function.update_of_ne hj] at h
    exact Or.inr h

theorem inv_next {lab : Lab} {HZ : Nat} {s : State ι} {a : Act ι} (h : Inv s)
    (enabled : Enabled true s a) (apart : Apart lab s a) : Inv (next lab HZ s a) := by
  cases a with
  | init_timer i =>
    have off : s.pending = false := apart
    have idle := enabled.2 rfl
    have only : ∀ j, (Function.update s.pc i .expires j).writing = true → j = i := by
      intro j hj
      obtain own | other := writing_update hj
      · exact own.1
      · rw [idle j] at other
        cases other
    exact ⟨h.empty off, fun _ _ => rfl, fun j k hj hk => (only j hj).trans (only k hk).symm⟩
  | expires i =>
    have hi : s.pc i = .expires := enabled
    have off := h.off hi rfl
    have writing : ∀ j, (Function.update s.pc i .add_timer j).writing = true →
        (s.pc j).writing = true := by
      intro j hj
      obtain own | other := writing_update hj
      · rw [own.1, hi]
        rfl
      · exact other
    refine ⟨?_, fun _ _ => off, fun j k hj hk => h.alone j k (writing j hj) (writing k hk)⟩
    change s.queue = if s.pending then _ else []
    rw [h.empty off, off]
    rfl
  | add_timer i =>
    have hi : s.pc i = .add_timer := enabled
    have off := h.off hi rfl
    have none_left : ∀ j, (Function.update s.pc i .returned j).writing = true → False := by
      intro j hj
      obtain own | other := writing_update hj
      · cases own.2
      · have same := h.alone j i other (by rw [hi]; rfl)
        rw [same, Function.update_self] at hj
        cases hj
    refine ⟨?_, fun j hj => (none_left j hj).elim, fun j _ hj _ => (none_left j hj).elim⟩
    change enqueue id s.expires s.queue = _
    rw [h.empty off]
    rfl
  | tick => exact ⟨h.queue, h.unarmed, h.alone⟩
  | expire =>
    refine ⟨?_, fun _ _ => rfl, h.alone⟩
    change s.queue.tail = []
    rw [h.queue]
    split <;> rfl
  | timer_func => exact inv_timer_func h apart

omit [DecidableEq ι] in
theorem Inv.unqueued {s : State ι} (h : Inv s) {serial : Bool} {lab : Lab} {a : Act ι}
    (enabled : Enabled serial s a) (apart : Apart lab s a) : Unqueued s a := by
  cases a with
  | init_timer i => exact h.empty apart
  | add_timer i => exact h.empty (h.off (show s.pc i = .add_timer from enabled) rfl)
  | _ => trivial

omit [DecidableEq ι] in
theorem Inv.length_le {s : State ι} (h : Inv s) : s.queue.length ≤ 1 := by
  rw [h.queue]
  split
  · exact Nat.le_refl 1
  · exact Nat.zero_le 1

theorem inv_run {lab : Lab} {HZ jiffies : Nat} {as : List (Act ι)} {s : State ι}
    (h : Run (machine true lab HZ) (init jiffies) as s)
    (apart : Meets (machine true lab HZ) (Apart lab) (init jiffies) as) : Inv s := by
  refine run_invariant_of_meets (I := Inv) ⟨rfl, fun _ _ => rfl, fun _ _ hi => ?_⟩
    (fun _ _ inv enabled ok => inv_next inv enabled ok) h apart
  cases hi

/-- A step that does not keep apart is, or can come to be, followed by one that finds the timer in
the queue. -/
theorem queued_of_overlap {lab : Lab} (HZ : Nat) {s : State ι} {a : Act ι} (h : Inv s)
    (enabled : Enabled true s a) (overlap : ¬ Apart lab s a) :
    ∃ bs b t, Run (machine true lab HZ) s bs t ∧ Enabled true t b ∧ ¬ Unqueued t b ∧
      ∃ rest, a :: rest = bs ++ [b] := by
  cases a with
  | init_timer i =>
    refine ⟨[], .init_timer i, s, Run.start, enabled, fun empty => ?_, [], rfl⟩
    have armed : s.pending = true := by simpa [Apart] using overlap
    have queue := h.queue
    rw [armed, show s.queue = [] from empty] at queue
    cases queue
  | timer_func =>
    simp only [Apart, Classical.not_imp] at overlap
    obtain ⟨rfl, busy⟩ := overlap
    obtain ⟨i, hi⟩ := not_forall.mp busy
    have writing : (s.pc i).writing = true := by simpa using hi
    have off := h.unarmed i writing
    have rearmed : (timer_func .PKtimers HZ s).queue = [s.jiffies + HZ] := by
      simp only [timer_func, mod_timer, off, h.empty off]
      rfl
    have stepped := Run.next (m := machine true .PKtimers HZ) (a := .timer_func) Run.start enabled
    cases hpc : s.pc i with
    | init_timer => rw [hpc] at writing; cases writing
    | returned => rw [hpc] at writing; cases writing
    | expires =>
      have written := Run.next (m := machine true .PKtimers HZ) (a := .expires i) stepped hpc
      refine ⟨_, .add_timer i, _, written, Function.update_self .., fun empty => ?_, _, rfl⟩
      cases rearmed.symm.trans empty
    | add_timer =>
      refine ⟨_, .add_timer i, _, stepped, hpc, fun empty => ?_, _, rfl⟩
      cases rearmed.symm.trans empty
  | _ => exact absurd trivial overlap

/-- In every run whose writes, made one at a time, keep apart from the pending timer and from its
function, `init_timer` and `add_timer` only ever meet a timer that is not queued, and it is never
queued twice. From the first step that does not keep apart, a run goes on to one that meets a queued
timer. -/
theorem timer_queued_once {lab : Lab} {HZ jiffies : Nat} {as : List (Act ι)} {s : State ι}
    (h : Run (machine true lab HZ) (init jiffies) as s)
    (apart : Meets (machine true lab HZ) (Apart lab) (init jiffies) as) :
    (Meets (machine true lab HZ) Unqueued (init jiffies) as ∧
      Always (machine true lab HZ) (fun _ t => t.queue.length ≤ 1) (init jiffies) as) ∧
    ∀ a, Enabled true s a → ¬ Apart lab s a →
      ∃ bs t, Run (machine true lab HZ) (init jiffies) (as ++ a :: bs) t ∧
        ¬ Meets (machine true lab HZ) Unqueued (init jiffies) (as ++ a :: bs) := by
  refine ⟨⟨?_, ?_⟩, fun a enabled overlap => ?_⟩
  · intro pre a post t split run
    have inv := inv_run run (meets_before (split ▸ apart))
    obtain ⟨u, before, enabled⟩ := run_before (split ▸ h)
    cases run_unique run before
    exact inv.unqueued enabled (apart pre a post t split run)
  · intro pre post t split run
    exact (inv_run run (meets_before (split ▸ apart))).length_le
  · obtain ⟨bs, b, t, run, last, queued, rest, split⟩ :=
      queued_of_overlap HZ (inv_run h apart) enabled overlap
    have reached := run_append h run
    refine ⟨rest, next lab HZ t b, ?_, fun unqueued => ?_⟩
    · rw [split, ← List.append_assoc]
      exact Run.next (m := machine true lab HZ) reached last
    · rw [split, ← List.append_assoc] at unqueued
      exact queued (meets_last unqueued reached)

end

/-- In both drivers a second write comes while the timer's first firing is over; in 11_LAB3 it
falls between the firing and the function that arms the timer again. -/
theorem timer_queued_once_rewritten :
    let write : Fin 2 → List (Act (Fin 2)) := fun i => [.init_timer i, .expires i, .add_timer i]
    let as := write 0 ++ [.tick, .expire] ++ write 1 ++ [.timer_func, .tick]
    Always (machine true .timers 1) (fun _ t => t.queue.length ≤ 1) (init 0) as ∧
      Always (machine true .PKtimers 1) (fun _ t => t.queue.length ≤ 1) (init 0) as := by
  intro write as
  have run : Run (machine true .timers 1) (init 0) as
      ((machine true .timers 1).replay (init 0) as) := run_of_admits (by decide)
  have run' : Run (machine true .PKtimers 1) (init 0) as
      ((machine true .PKtimers 1).replay (init 0) as) := run_of_admits (by decide)
  exact ⟨(timer_queued_once run (meets_of_replay (by decide))).1.2,
    (timer_queued_once run' (meets_of_replay (by decide))).1.2⟩

/-- Two writes in a row, in both drivers: the second initialises and adds the timer while it is
queued, and the queue holds it twice. -/
theorem timer_queued_twice :
    let write : Fin 2 → List (Act (Fin 2)) := fun i => [.init_timer i, .expires i, .add_timer i]
    let as := write 0 ++ write 1
    let twice : Lab → Prop := fun lab => ∃ s, Run (machine true lab 100) (init 0) as s ∧
      s.queue = [100, 100] ∧ ¬ Meets (machine true lab 100) Unqueued (init 0) as
    twice .timers ∧ twice .PKtimers := by
  intro write as twice
  have each : ∀ lab, twice lab := by
    intro lab
    have once : Run (machine true lab 100) (init 0) (write 0)
        ((machine true lab 100).replay (init 0) (write 0)) := by
      cases lab <;> exact run_of_admits (by decide)
    refine ⟨(machine true lab 100).replay (init 0) as, ?_, ?_, fun unqueued => ?_⟩
    · cases lab <;> exact run_of_admits (by decide)
    · cases lab <;> rfl
    · have found := unqueued (write 0) (.init_timer 1) [.expires 1, .add_timer 1] _ rfl once
      cases lab <;> cases found
  exact ⟨each .timers, each .PKtimers⟩

end DeviceDriverEx.StaticTimer
