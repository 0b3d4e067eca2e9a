import DeviceDriverEx.Machine
import DeviceDriverEx.NirqCounters
import DeviceDriverEx.Occupancy
import Mathlib.Algebra.BigOperators.Ring.Finset
import Mathlib.Algebra.Order.BigOperators.Group.Finset

namespace DeviceDriverEx.AllShared

/-- What `my_interrupt` executes next. -/
inductive TopPc
  | store
  | incInterrupts
  | schedule
  | mdelay
  | returned
  deriving DecidableEq

namespace TopPc

def inProgress : TopPc → Bool
  | store | returned => false
  | _ => true

def counted : TopPc → Bool
  | store | incInterrupts => false
  | _ => true

def scheduled : TopPc → Bool
  | mdelay | returned => true
  | _ => false

end TopPc

/-- The lines are `Fin n` and the interrupts `ι`; `irq` is the field of the one `my_data`. `pending`
is the mark that the tasklet, or the work item, has been scheduled and not begun, with the interrupt
that has set it; `running` is the run under way, with the interrupt that it is for and what it has
loaded from `my_data.irq`. -/
structure State (n : Nat) (ι : Type) where
  top : ι → TopPc
  irq : Fin n
  interrupts : Fin n → Int32
  bhs : Fin n → Int32
  pending : Option ι
  running : Option (ι × Option (Fin n))

/-- `run`, `load` and `incBhs` are `t_fun`, or `w_fun`. -/
inductive Act (ι : Type)
  | store (i : ι)
  | incInterrupts (i : ι)
  | schedule (i : ι)
  | leave (i : ι)
  | run
  | load
  | incBhs

section
variable {n : Nat} {ι : Type} [DecidableEq ι] (line : ι → Fin n)

omit [DecidableEq ι] in
/-- As `get_irqs` leaves the counters of the lines that it got. -/
def init (zero : Fin n) : State n ι := ⟨fun _ => .store, zero, fun _ => 0, fun _ => 0, none, none⟩

def State.go (s : State n ι) (i : ι) (k : TopPc) : State n ι :=
  { s with top := Function.update s.top i k }

omit [DecidableEq ι] in
/-- The handlers of one line do not overlap, and neither do the runs of the bottom half. -/
def Enabled (s : State n ι) : Act ι → Prop
  | .store i => s.top i = .store ∧ ∀ j, line j = line i → (s.top j).inProgress = false
  | .incInterrupts i => s.top i = .incInterrupts
  | .schedule i => s.top i = .schedule
  | .leave i => s.top i = .mdelay
  | .run => s.pending ≠ none ∧ s.running = none
  | .load => ∃ i, s.running = some (i, none)
  | .incBhs => ∃ i k, s.running = some (i, some k)

def next (s : State n ι) : Act ι → State n ι
  | .store i => { s.go i .incInterrupts with irq := line i }
  | .incInterrupts i => { s.go i .schedule with
      interrupts := Function.update s.interrupts (line i) (atomic_inc (s.interrupts (line i))) }
  -- what is pending is not scheduled once more
  | .schedule i => { s.go i .mdelay with
      pending := match s.pending with
        | some j => some j
        | none => some i }
  | .leave i => s.go i .returned
  | .run => { s with pending := none, running := s.pending.map fun i => (i, none) }
  | .load => { s with running := s.running.map fun r => (r.1, some s.irq) }
  | .incBhs => match s.running with
    | some (_, some k) =>
      { s with bhs := Function.update s.bhs k (atomic_inc (s.bhs k)), running := none }
    | _ => s

def machine : Machine (State n ι) (Act ι) := ⟨Enabled line, next line⟩

end

section
variable {n : Nat} {ι : Type} (line : ι → Fin n)

/-- The line that a run is going to count its interrupt on. -/
def lineOf : ι × Option (Fin n) → Fin n
  | (_, some k) => k
  | (i, none) => line i

/-- The runs that are still to be counted on a line. -/
def outstanding (s : State n ι) (k : Fin n) : Nat :=
  (s.pending.any fun i => line i == k).toNat +
    (s.running.any fun r => lineOf line r == k).toNat

variable [Fintype ι]

/-- Each interrupt whose handler has scheduled its bottom half has been counted in `bhs` of its own
line, or is going to be. -/
def Exact (s : State n ι) : Prop :=
  ∀ k, (s.bhs k).toInt + outstanding line s k = tally line k TopPc.scheduled s.top

omit [Fintype ι] in
/-- A handler that schedules finds nothing pending, and a run finds in `my_data` the line of the
interrupt that it is for. -/
def InTurn (s : State n ι) : Act ι → Prop
  | .schedule _ => s.pending = none
  | .load => ∀ r ∈ s.running, s.irq = line r.1
  | _ => True

variable {line} {s t : State n ι} {i : ι}

theorem exact_init (zero : Fin n) : Exact line (init zero : State n ι) := by
  intro k
  rw [tally_zero fun _ _ => rfl]
  rfl

/-- A step of a handler that does not schedule. -/
theorem exact_go [DecidableEq ι] {x : TopPc} (h : Exact line s) (bhs : t.bhs = s.bhs)
    (pending : t.pending = s.pending) (running : t.running = s.running)
    (top : t.top = Function.update s.top i x) (same : x.scheduled = (s.top i).scheduled) :
    Exact line t := by
  intro k
  rw [bhs, top, tally_stay fun _ => same, outstanding, pending, running]
  exact h k

theorem exact_schedule [DecidableEq ι] (h : Exact line s) (here : s.top i = .schedule)
    (free : s.pending = none) : Exact line (next line s (.schedule i)) := by
  have out : (s.top i).scheduled = false := by rw [here]; rfl
  intro k
  have before := h k
  simp only [outstanding, next, State.go, free] at before ⊢
  by_cases hk : line i = k
  · subst hk
    rw [tally_enter out rfl]
    simp at before ⊢
    omega
  · have other : (line i == k) = false := beq_false_of_ne hk
    rw [tally_stay fun same => absurd same hk]
    simpa [other] using before

theorem exact_incBhs [DecidableEq ι] (few : Fintype.card ι < 2 ^ 31) (h : Exact line s) {k : Fin n}
    (here : s.running = some (i, some k)) : Exact line (next line s .incBhs) := by
  intro j
  have before := h j
  have most : tally line j TopPc.scheduled s.top ≤ Fintype.card ι := tally_le_card ..
  simp only [outstanding, next, here] at before ⊢
  by_cases hj : j = k
  · subst hj
    simp [lineOf] at before ⊢
    rw [atomic_inc_toInt (by omega)]
    omega
  · have other : (k == j) = false := beq_false_of_ne (Ne.symm hj)
    simpa [lineOf, other, Function.update_of_ne hj] using before

theorem exact_next [DecidableEq ι] (few : Fintype.card ι < 2 ^ 31) {a : Act ι} (h : Exact line s)
    (enabled : Enabled line s a) (ok : InTurn line s a) : Exact line (next line s a) := by
  cases a with
  | store i => exact exact_go (x := .incInterrupts) h rfl rfl rfl rfl (by rw [enabled.1]; rfl)
  | incInterrupts i =>
    have here : s.top i = .incInterrupts := enabled
    exact exact_go (x := .schedule) h rfl rfl rfl rfl (by rw [here]; rfl)
  | schedule i => exact exact_schedule h enabled ok
  | leave i =>
    have here : s.top i = .mdelay := enabled
    exact exact_go (x := .returned) h rfl rfl rfl rfl (by rw [here]; rfl)
  | run =>
    obtain ⟨some_, none_⟩ := enabled
    obtain ⟨i, pending⟩ := Option.ne_none_iff_exists'.mp some_
    intro k
    have same : outstanding line (next line s .run) k = outstanding line s k := by
      simp [outstanding, next, pending, none_, lineOf]
    rw [same]
    exact h k
  | load =>
    obtain ⟨i, running⟩ := enabled
    have own : s.irq = line i := ok (i, none) running
    intro k
    have same : outstanding line (next line s .load) k = outstanding line s k := by
      simp [outstanding, next, running, lineOf, own]
    rw [same]
    exact h k
  | incBhs =>
    obtain ⟨i, k, running⟩ := enabled
    exact exact_incBhs few h running

/-- An interrupt that finds the bottom half pending is not counted, and one whose line has been
written over is counted on another. -/
theorem not_exact [DecidableEq ι] {a : Act ι} (h : Exact line s) (enabled : Enabled line s a)
    (late : ¬ InTurn line s a) : ¬ Exact line (next line s a) := by
  intro exact_
  cases a with
  | schedule i =>
    have here : s.top i = .schedule := enabled
    obtain ⟨j, pending⟩ := Option.ne_none_iff_exists'.mp late
    have before := h (line i)
    have after := exact_ (line i)
    have out : (s.top i).scheduled = false := by rw [here]; rfl
    simp only [outstanding, next, State.go, pending] at before after
    rw [tally_enter out rfl] at after
    omega
  | load =>
    obtain ⟨i, running⟩ := enabled
    have other : (s.irq == line i) = false := beq_false_of_ne fun own => late fun r hr => by
      rw [running] at hr
      cases hr
      exact own
    have before := h (line i)
    have after := exact_ (line i)
    simp only [outstanding, next, running] at before after
    simp [lineOf, other] at before after
    omega
  | _ => exact late trivial

/-- The interrupts of every line are counted, and there are no more bottom halves, of all lines
together, than handlers that have scheduled one. -/
structure Inv (line : ι → Fin n) (s : State n ι) : Prop where
  interrupts : ∀ k, s.interrupts k = Int32.ofNat (tally line k TopPc.counted s.top)
  bhs : ∃ c : Fin n → Nat, (∀ k, s.bhs k = Int32.ofNat (c k)) ∧
    ∑ k, c k + s.pending.isSome.toNat + s.running.isSome.toNat ≤
      occupancy TopPc.scheduled s.top

theorem inv_init (line : ι → Fin n) (zero : Fin n) : Inv line (init zero : State n ι) := by
  refine ⟨fun k => ?_, fun _ => 0, fun _ => rfl, ?_⟩
  · rw [tally_zero fun _ _ => rfl]
    rfl
  · simp [init]

/-- A step of a handler that neither counts nor schedules. -/
theorem inv_go [DecidableEq ι] {x : TopPc} (h : Inv line s) (bhs : t.bhs = s.bhs)
    (interrupts : t.interrupts = s.interrupts) (pending : t.pending = s.pending)
    (running : t.running = s.running) (top : t.top = Function.update s.top i x)
    (counted : x.counted = (s.top i).counted) (scheduled : x.scheduled = (s.top i).scheduled) :
    Inv line t := by
  refine ⟨fun k => ?_, ?_⟩
  · rw [interrupts, top, tally_stay fun _ => counted]
    exact h.interrupts k
  · rw [bhs, pending, running, top, occupancy_stay scheduled]
    exact h.bhs

theorem inv_incInterrupts [DecidableEq ι] (h : Inv line s) (here : s.top i = .incInterrupts) :
    Inv line (next line s (.incInterrupts i)) := by
  have out : (s.top i).counted = false := by rw [here]; rfl
  refine ⟨fun k => ?_, ?_⟩
  · simp only [next, State.go]
    by_cases hk : k = line i
    · subst hk
      rw [Function.update_self, tally_enter out rfl, h.interrupts, atomic_inc_ofNat]
    · rw [Function.update_of_ne hk, tally_stay fun same => absurd same.symm hk]
      exact h.interrupts k
  · have unscheduled : TopPc.schedule.scheduled = (s.top i).scheduled := by rw [here]; rfl
    simp only [next, State.go, occupancy_stay unscheduled]
    exact h.bhs

theorem inv_schedule [DecidableEq ι] (h : Inv line s) (here : s.top i = .schedule) :
    Inv line (next line s (.schedule i)) := by
  have counted : TopPc.mdelay.counted = (s.top i).counted := by rw [here]; rfl
  have out : (s.top i).scheduled = false := by rw [here]; rfl
  have entered : occupancy TopPc.scheduled (Function.update s.top i .mdelay) =
      occupancy TopPc.scheduled s.top + 1 := occupancy_enter out rfl
  obtain ⟨c, value, most⟩ := h.bhs
  refine ⟨fun k => ?_, c, value, ?_⟩
  · simp only [next, State.go, tally_stay fun _ => counted]
    exact h.interrupts k
  · simp only [next, State.go, entered]
    have one := Bool.toNat_le (s.pending.isSome)
    cases pending : s.pending <;> simp [pending] at most ⊢ <;> omega

theorem inv_incBhs [DecidableEq ι] (h : Inv line s) {k : Fin n}
    (here : s.running = some (i, some k)) :
    Inv line (next line s .incBhs) := by
  obtain ⟨c, value, most⟩ := h.bhs
  simp only [next, here]
  refine ⟨h.interrupts, fun j => c j + if j = k then 1 else 0, fun j => ?_, ?_⟩
  · dsimp only
    by_cases hj : j = k
    · subst hj
      rw [Function.update_self, if_pos rfl, value, atomic_inc_ofNat]
    · rw [Function.update_of_ne hj, if_neg hj]
      exact value j
  · simp [Finset.sum_add_distrib, here] at most ⊢
    omega

theorem inv_next [DecidableEq ι] {a : Act ι} (h : Inv line s) (enabled : Enabled line s a) :
    Inv line (next line s a) := by
  cases a with
  | store i =>
    have here := enabled.1
    exact inv_go (x := .incInterrupts) h rfl rfl rfl rfl rfl (by rw [here]; rfl) (by rw [here]; rfl)
  | incInterrupts i => exact inv_incInterrupts h enabled
  | schedule i => exact inv_schedule h enabled
  | leave i =>
    have here : s.top i = .mdelay := enabled
    exact inv_go (x := .returned) h rfl rfl rfl rfl rfl (by rw [here]; rfl) (by rw [here]; rfl)
  | run =>
    obtain ⟨some_, none_⟩ := enabled
    obtain ⟨i, pending⟩ := Option.ne_none_iff_exists'.mp some_
    obtain ⟨c, value, most⟩ := h.bhs
    refine ⟨h.interrupts, c, value, ?_⟩
    simpa [next, pending, none_] using most
  | load =>
    obtain ⟨c, value, most⟩ := h.bhs
    refine ⟨h.interrupts, c, value, ?_⟩
    simpa [next] using most
  | incBhs =>
    obtain ⟨i, k, running⟩ := enabled
    exact inv_incBhs h running

end

end DeviceDriverEx.AllShared
