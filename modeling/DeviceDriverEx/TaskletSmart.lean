import DeviceDriverEx.Machine
import DeviceDriverEx.TopHalf

namespace DeviceDriverEx.TaskletSmart

/-- Where a run of `isr_bottom` stands: what it executes next. -/
inductive BottomPc
  | idle
  | test
  | incDone
  | decTodo
  | leave
  deriving DecidableEq

/-- A run in progress that has not yet left its loop, by `break` or by the early return. -/
def BottomPc.inLoop : BottomPc → Bool
  | .idle => false
  | .leave => false
  | _ => true

structure State (ι : Type) where
  counters : Counters
  top : ι → TopPc
  scheduled : Bool
  bottom : BottomPc

inductive Act (ι : Type)
  | incTodo (i : ι)
  | incN_th (i : ι)
  | tasklet_schedule (i : ι)
  | start
  | test
  | incDone
  | decTodo
  | leave

def Act.isIncTodo {ι : Type} : Act ι → Bool
  | incTodo _ => true
  | _ => false

def init {ι : Type} : State ι := ⟨Counters.init, fun _ => .first, false, .idle⟩

section
variable {ι : Type} [DecidableEq ι]

def Enabled (s : State ι) : Act ι → Prop
  | .incTodo i => s.top i = .first
  | .incN_th i => s.top i = .second
  | .tasklet_schedule i => s.top i = .third
  -- two runs of one tasklet never overlap
  | .start => s.scheduled = true ∧ s.bottom = .idle
  | .test => s.bottom = .test
  | .incDone => s.bottom = .incDone
  | .decTodo => s.bottom = .decTodo
  | .leave => s.bottom = .leave

instance (s : State ι) (a : Act ι) : Decidable (Enabled s a) := by
  cases a <;> dsimp only [Enabled] <;> infer_instance

/-- `isr_top` and `isr_bottom` step by step. The kernel clears the schedule bit as it starts
a run, so an interrupt that arrives during the run schedules another. -/
def next (s : State ι) : Act ι → State ι
  | .incTodo i => { s with counters := s.counters.incTodo, top := Function.update s.top i .second }
  | .incN_th i => { s with counters := s.counters.incN_th, top := Function.update s.top i .third }
  | .tasklet_schedule i => { s with scheduled := true, top := Function.update s.top i .returned }
  | .start => { s with scheduled := false, bottom := .test }
  | .test => { s with bottom := if s.counters.todo ≤ 0 then .leave else .incDone }
  | .incDone => { s with counters := s.counters.incDone, bottom := .decTodo }
  | .decTodo => { s with
      counters := s.counters.decTodo
      bottom := if atomic_dec_and_test s.counters.todo then .leave else .incDone }
  | .leave => { s with bottom := .idle }

def machine : Machine (State ι) (Act ι) := ⟨Enabled, next⟩

instance (s : State ι) (a : Act ι) : Decidable (machine.Enabled s a) :=
  inferInstanceAs (Decidable (Enabled s a))

/-- Something is still going to look at `todo`. -/
def Awaited (s : State ι) : Prop :=
  (∃ i, (s.top i).inProgress = true) ∨ s.scheduled = true ∨ s.bottom.inLoop = true

/-- The counters keep a ledger of the interrupts, and no entry of it is left unattended. -/
structure Inv [Fintype ι] (as : List (Act ι)) (s : State ι) (l : Ledger) : Prop where
  books : Books TopPc.pastFirst TopPc.pastSecond s.counters s.top l
  counted : l.raised = as.countP Act.isIncTodo
  midway : l.midway = decide (s.bottom = .decTodo)
  pending : s.bottom = .incDone → 0 < l.todo
  awaited : 0 < l.todo → Awaited s

omit [DecidableEq ι] in
theorem inv_init [Fintype ι] : Inv ([] : List (Act ι)) init Ledger.empty := by
  refine ⟨books_init rfl rfl, rfl, rfl, ?_, ?_⟩
  · intro h; cases h
  · intro h; cases h

/-- A handler that moves on keeps the interrupt attended until it returns. -/
theorem awaited_top {s : State ι} {i : ι} {k : TopPc} (h : k.inProgress = true) (c : Counters) :
    Awaited { s with counters := c, top := Function.update s.top i k } :=
  Or.inl ⟨i, by simpa using h⟩

theorem inv_top [Fintype ι] (few : Fintype.card ι < 2 ^ 31) {as : List (Act ι)} {s : State ι}
    {l : Ledger} {a : Act ι} {i : ι} (h : Inv as s l) (enabled : Enabled s a)
    (handler : a = .incTodo i ∨ a = .incN_th i ∨ a = .tasklet_schedule i) :
    ∃ l', Inv (as ++ [a]) (next s a) l' := by
  rcases handler with rfl | rfl | rfl
  · have hi : s.top i = .first := enabled
    refine ⟨l.raise, ?_, ?_, h.midway, fun _ => Nat.succ_pos _, fun _ => awaited_top rfl _⟩
    · exact books_incTodo few h.books (by rw [hi]; rfl) rfl (by rw [hi]; rfl)
    · rw [count_one rfl, ← h.counted]; rfl
  · have hi : s.top i = .second := enabled
    refine ⟨l, ?_, ?_, h.midway, h.pending, fun _ => awaited_top rfl _⟩
    · exact books_incN_th few h.books (by rw [hi]; rfl) rfl (by rw [hi]; rfl)
    · rw [count_other rfl, ← h.counted]
  · have hi : s.top i = .third := enabled
    refine ⟨l, ?_, ?_, h.midway, h.pending, fun _ => Or.inr (Or.inl rfl)⟩
    · exact books_move h.books (by rw [hi]; rfl) (by rw [hi]; rfl)
    · rw [count_other rfl, ← h.counted]

theorem inv_bottom [Fintype ι] {as : List (Act ι)} {s : State ι} {l : Ledger} {a : Act ι}
    (h : Inv as s l) (enabled : Enabled s a)
    (own : a = .start ∨ a = .test ∨ a = .incDone ∨ a = .decTodo ∨ a = .leave) :
    ∃ l', Inv (as ++ [a]) (next s a) l' := by
  have still : a.isIncTodo = false → l.raised = (as ++ [a]).countP Act.isIncTodo := by
    intro ha
    rw [count_other ha, ← h.counted]
  rcases own with rfl | rfl | rfl | rfl | rfl
  · have hm := h.midway
    rw [enabled.2] at hm
    exact ⟨l, h.books, still rfl, hm, (by intro hb; cases hb), fun _ => Or.inr (Or.inr rfl)⟩
  · have hb : s.bottom = .test := enabled
    have hm := h.midway
    rw [hb] at hm
    by_cases hz : s.counters.todo ≤ 0
    · have hnext : next s .test = { s with bottom := .leave } := by simp [next, hz]
      have hl := h.books.tracks.todo_nonpos.mp hz
      rw [hnext]
      exact ⟨l, h.books, still rfl, hm, (by intro hb; cases hb), by omega⟩
    · have hnext : next s .test = { s with bottom := .incDone } := by simp [next, hz]
      have hl : l.todo ≠ 0 := fun he => hz (h.books.tracks.todo_nonpos.mpr he)
      rw [hnext]
      exact ⟨l, h.books, still rfl, hm, fun _ => by omega, fun _ => Or.inr (Or.inr rfl)⟩
  · have hb : s.bottom = .incDone := enabled
    have hm : l.midway = false := by rw [h.midway, hb]; rfl
    exact ⟨l.serve (h.pending hb) hm, books_serve h.books (h.pending hb) hm, still rfl, rfl,
      (by intro hb; cases hb), fun _ => Or.inr (Or.inr rfl)⟩
  · have hb : s.bottom = .decTodo := enabled
    have hm : l.midway = true := by rw [h.midway, hb]; rfl
    have hlast := h.books.tracks.dec_and_test hm
    by_cases hz : atomic_dec_and_test s.counters.todo = true
    · have hnext : next s .decTodo = { s with counters := s.counters.decTodo, bottom := .leave } := by
        simp [next, hz]
      have hl := hlast.mp hz
      rw [hnext]
      exact ⟨l.settle hm, books_settle h.books hm, still rfl, rfl, (by intro hb; cases hb), by omega⟩
    · have hnext : next s .decTodo =
          { s with counters := s.counters.decTodo, bottom := .incDone } := by
        simp [next, hz]
      have hl : (l.settle hm).todo ≠ 0 := fun he => hz (hlast.mpr he)
      rw [hnext]
      exact ⟨l.settle hm, books_settle h.books hm, still rfl, rfl, fun _ => by omega,
        fun _ => Or.inr (Or.inr rfl)⟩
  · have hb : s.bottom = .leave := enabled
    have hm := h.midway
    rw [hb] at hm
    refine ⟨l, h.books, still rfl, hm, (by intro hb; cases hb), fun hl => ?_⟩
    rcases h.awaited hl with top | scheduled | loop
    · exact Or.inl top
    · exact Or.inr (Or.inl scheduled)
    · rw [hb] at loop; cases loop

theorem inv_run [Fintype ι] (few : Fintype.card ι < 2 ^ 31) {as : List (Act ι)} {s : State ι}
    (h : Run machine init as s) : ∃ l, Inv as s l := by
  induction h with
  | start => exact ⟨_, inv_init⟩
  | @next as s a _ enabled ih =>
    obtain ⟨l, hl⟩ := ih
    cases a with
    | incTodo i => exact inv_top few hl enabled (Or.inl rfl)
    | incN_th i => exact inv_top few hl enabled (Or.inr (Or.inl rfl))
    | tasklet_schedule i => exact inv_top few hl enabled (Or.inr (Or.inr rfl))
    | start => exact inv_bottom hl enabled (by simp)
    | test => exact inv_bottom hl enabled (by simp)
    | incDone => exact inv_bottom hl enabled (by simp)
    | decTodo => exact inv_bottom hl enabled (by simp)
    | leave => exact inv_bottom hl enabled (by simp)

/-- Whatever the order of the handlers' steps and the tasklet's, the counters add up, an
interrupt left to do is on its way to a run, and at rest every interrupt has been served once. -/
theorem no_interrupt_lost_or_served_twice [Fintype ι] (few : Fintype.card ι < 2 ^ 31)
    {as : List (Act ι)} {s : State ι} (h : Run machine init as s) :
    0 ≤ s.counters.todo ∧
    s.counters.done.toInt + s.counters.todo.toInt =
      as.countP Act.isIncTodo + (if s.bottom = .decTodo then 1 else 0) ∧
    (0 < s.counters.todo →
      (∃ i, (s.top i).inProgress = true) ∨ s.scheduled = true ∨ s.bottom.inLoop = true) ∧
    ((∀ i, (s.top i).inProgress = false) → s.scheduled = false → s.bottom = .idle →
      s.counters.todo = 0 ∧ s.counters.done = s.counters.N_th) := by
  obtain ⟨l, inv⟩ := inv_run few h
  refine ⟨inv.books.todo_nonneg, ?_, ?_, ?_⟩
  · rw [← inv.counted]
    exact inv.books.balance inv.midway
  · intro hpos
    exact inv.awaited (inv.books.todo_pos.mp hpos)
  · intro idle hs hbot
    have rest : l.todo = 0 :=
      todo_zero_of_unattended inv.awaited idle hs (by rw [hbot]; rfl)
    have hm : l.midway = false := by rw [inv.midway, hbot]; rfl
    exact inv.books.at_rest hm rest (TopPc.pastFirst_eq_pastSecond idle)

/-- Two interrupts, the second arriving inside the loop and absorbed there. -/
theorem no_interrupt_lost_or_served_twice_overlap :
    let as : List (Act (Fin 2)) := [.incTodo 0, .incN_th 0, .tasklet_schedule 0, .start, .test,
      .incDone, .incTodo 1, .decTodo, .incDone, .decTodo, .leave, .incN_th 1, .tasklet_schedule 1,
      .start, .test, .leave]
    (machine.replay init as).counters.todo = 0 ∧
      (machine.replay init as).counters.done = (machine.replay init as).counters.N_th := by
  intro as
  have run : Run machine init as (machine.replay init as) := run_of_admits (by decide)
  exact (no_interrupt_lost_or_served_twice (by decide) run).2.2.2 (by decide) (by decide) (by decide)

end

end DeviceDriverEx.TaskletSmart
