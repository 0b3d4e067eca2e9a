import DeviceDriverEx.Machine
import DeviceDriverEx.TopHalf

namespace DeviceDriverEx.ThreadedIrq

/-- Where the irq thread stands: idle, or at which step of `isr_bottom`. -/
inductive BottomPc
  | idle
  | incDone
  | decTodo
  | leave
  deriving DecidableEq

def BottomPc.inLoop : BottomPc → Bool
  | .incDone => true
  | .decTodo => true
  | _ => false

structure State (ι : Type) where
  counters : Counters
  top : ι → TopPc
  runFlag : Bool
  bottom : BottomPc

inductive Act (ι : Type)
  | incTodo (i : ι)
  | incN_th (i : ι)
  | wakeThread (i : ι)
  | start
  | incDone
  | decTodo
  | leave

namespace Act

def isIncTodo {ι : Type} : Act ι → Bool
  | incTodo _ => true
  | _ => false

def isStart {ι : Type} : Act ι → Bool
  | start => true
  | _ => false

def isBottom {ι : Type} : Act ι → Bool
  | incDone => true
  | decTodo => true
  | leave => true
  | _ => false

end Act

def init {ι : Type} : State ι := ⟨Counters.init, fun _ => .first, false, .idle⟩

section
variable {ι : Type} [DecidableEq ι]

def Enabled (s : State ι) : Act ι → Prop
  | .incTodo i => s.top i = .first
  | .incN_th i => s.top i = .second
  | .wakeThread i => s.top i = .third
  | .start => s.runFlag = true ∧ s.bottom = .idle
  | .incDone => s.bottom = .incDone
  | .decTodo => s.bottom = .decTodo
  | .leave => s.bottom = .leave

instance (s : State ι) (a : Act ι) : Decidable (Enabled s a) := by
  cases a <;> dsimp only [Enabled] <;> infer_instance

/-- `isr_top`, whose return of `IRQ_WAKE_THREAD` sets the run flag, and the irq thread, which
clears the flag and enters the do-while of `isr_bottom` without a look at `todo`. -/
def next (s : State ι) : Act ι → State ι
  | .incTodo i => { s with counters := s.counters.incTodo, top := Function.update s.top i .second }
  | .incN_th i => { s with counters := s.counters.incN_th, top := Function.update s.top i .third }
  | .wakeThread i => { s with runFlag := true, top := Function.update s.top i .returned }
  | .start => { s with runFlag := false, bottom := .incDone }
  | .incDone => { s with counters := s.counters.incDone, bottom := .decTodo }
  | .decTodo => { s with
      counters := s.counters.decTodo
      bottom := if atomic_dec_and_test s.counters.todo then .leave else .incDone }
  | .leave => { s with bottom := .idle }

def machine : Machine (State ι) (Act ι) := ⟨Enabled, next⟩

instance (s : State ι) (a : Act ι) : Decidable (machine.Enabled s a) :=
  inferInstanceAs (Decidable (Enabled s a))

/-- What the do-while does not test on entry: `todo` is positive when `done` is incremented. -/
def TodoAtIncDone (s : State ι) : Act ι → Prop
  | .incDone => 0 < s.counters.todo
  | _ => True

instance (s : State ι) (a : Act ι) : Decidable (TodoAtIncDone s a) := by
  cases a <;> dsimp only [TodoAtIncDone] <;> infer_instance

def Awaited (s : State ι) : Prop :=
  (∃ i, (s.top i).inProgress = true) ∨ s.runFlag = true ∨ s.bottom.inLoop = true

structure Inv [Fintype ι] (as : List (Act ι)) (s : State ι) (l : Ledger) : Prop where
  books : Books TopPc.pastFirst TopPc.pastSecond s.counters s.top l
  counted : l.raised = as.countP Act.isIncTodo
  midway : l.midway = decide (s.bottom = .decTodo)
  awaited : 0 < l.todo → Awaited s

omit [DecidableEq ι] in
theorem inv_init [Fintype ι] : Inv ([] : List (Act ι)) init Ledger.empty := by
  refine ⟨books_init rfl rfl, rfl, rfl, ?_⟩
  intro h; cases h

theorem awaited_top {s : State ι} {i : ι} {k : TopPc} (h : k.inProgress = true) (c : Counters) :
    Awaited { s with counters := c, top := Function.update s.top i k } :=
  Or.inl ⟨i, by simpa using h⟩

theorem inv_top [Fintype ι] (few : Fintype.card ι < 2 ^ 31) {as : List (Act ι)} {s : State ι}
    {l : Ledger} {a : Act ι} {i : ι} (h : Inv as s l) (enabled : Enabled s a)
    (handler : a = .incTodo i ∨ a = .incN_th i ∨ a = .wakeThread i) :
    ∃ l', Inv (as ++ [a]) (next s a) l' := by
  rcases handler with rfl | rfl | rfl
  · have hi : s.top i = .first := enabled
    refine ⟨l.raise, ?_, ?_, h.midway, fun _ => awaited_top rfl _⟩
    · exact books_incTodo few h.books (by rw [hi]; rfl) rfl (by rw [hi]; rfl)
    · rw [count_one rfl, ← h.counted]; rfl
  · have hi : s.top i = .second := enabled
    refine ⟨l, ?_, ?_, h.midway, fun _ => awaited_top rfl _⟩
    · exact books_incN_th few h.books (by rw [hi]; rfl) rfl (by rw [hi]; rfl)
    · rw [count_other rfl, ← h.counted]
  · have hi : s.top i = .third := enabled
    refine ⟨l, ?_, ?_, h.midway, fun _ => Or.inr (Or.inl rfl)⟩
    · exact books_move h.books (by rw [hi]; rfl) (by rw [hi]; rfl)
    · rw [count_other rfl, ← h.counted]

/-- The steps left to a run of `isr_bottom` when nothing more is raised. -/
def work (s : State ι) : Int :=
  2 * s.counters.todo.toInt + match s.bottom with
    | .incDone => 1
    | .leave => 1
    | _ => 0

/-- The thread's own steps keep the ledger and use up its work. -/
theorem inv_bottom [Fintype ι] {as : List (Act ι)} {s : State ι} {l : Ledger} {a : Act ι}
    (h : Inv as s l) (enabled : Enabled s a) (ok : TodoAtIncDone s a) (own : a.isBottom = true) :
    ∃ l', Inv (as ++ [a]) (next s a) l' ∧ work (next s a) + 1 ≤ work s := by
  have still : a.isIncTodo = false → l.raised = (as ++ [a]).countP Act.isIncTodo := by
    intro ha
    rw [count_other ha, ← h.counted]
  have ht := h.books.tracks.todo
  cases a with
  | incDone =>
    have hb : s.bottom = .incDone := enabled
    have hm : l.midway = false := by rw [h.midway, hb]; rfl
    have hp : 0 < l.todo := h.books.todo_pos.mp ok
    refine ⟨l.serve hp hm, ⟨books_serve h.books hp hm, still rfl, rfl, fun _ => ?_⟩, ?_⟩
    · exact Or.inr (Or.inr rfl)
    · simp [work, next, hb, Counters.incDone]
  | decTodo =>
    have hb : s.bottom = .decTodo := enabled
    have hm : l.midway = true := by rw [h.midway, hb]; rfl
    have hset := books_settle h.books hm
    have hleft := hset.tracks.todo
    have hp := Ledger.pending_of_midway hm
    have hdrop : (l.settle hm).todo = l.todo - 1 := rfl
    have hlast := h.books.tracks.dec_and_test hm
    by_cases hz : atomic_dec_and_test s.counters.todo = true
    · have hnext : next s .decTodo = { s with counters := s.counters.decTodo, bottom := .leave } := by
        simp [next, hz]
      have hl := hlast.mp hz
      rw [hnext]
      refine ⟨l.settle hm, ⟨hset, still rfl, rfl, by omega⟩, ?_⟩
      simp only [work, hb]
      omega
    · have hnext : next s .decTodo =
          { s with counters := s.counters.decTodo, bottom := .incDone } := by
        simp [next, hz]
      rw [hnext]
      refine ⟨l.settle hm, ⟨hset, still rfl, rfl, fun _ => Or.inr (Or.inr rfl)⟩, ?_⟩
      simp only [work, hb]
      omega
  | leave =>
    have hb : s.bottom = .leave := enabled
    have hm := h.midway
    rw [hb] at hm
    refine ⟨l, ⟨h.books, still rfl, hm, fun hl => ?_⟩, ?_⟩
    · rcases h.awaited hl with top | flag | loop
      · exact Or.inl top
      · exact Or.inr (Or.inl flag)
      · rw [hb] at loop; cases loop
    · simp [work, next, hb]
  | _ => cases own

theorem inv_start [Fintype ι] {as : List (Act ι)} {s : State ι} {l : Ledger} (h : Inv as s l)
    (enabled : Enabled s .start) : Inv (as ++ [.start]) (next s .start) l := by
  have hm := h.midway
  rw [enabled.2] at hm
  refine ⟨h.books, ?_, hm, fun _ => Or.inr (Or.inr rfl)⟩
  rw [count_other rfl, ← h.counted]

theorem inv_step [Fintype ι] (few : Fintype.card ι < 2 ^ 31) {as : List (Act ι)} {s : State ι}
    {l : Ledger} {a : Act ι} (h : Inv as s l) (enabled : Enabled s a) (ok : TodoAtIncDone s a) :
    ∃ l', Inv (as ++ [a]) (next s a) l' := by
  cases a with
  | incTodo i => exact inv_top few h enabled (Or.inl rfl)
  | incN_th i => exact inv_top few h enabled (Or.inr (Or.inl rfl))
  | wakeThread i => exact inv_top few h enabled (Or.inr (Or.inr rfl))
  | start => exact ⟨l, inv_start h enabled⟩
  | incDone => exact (inv_bottom h enabled ok rfl).imp fun _ hl => hl.1
  | decTodo => exact (inv_bottom h enabled ok rfl).imp fun _ hl => hl.1
  | leave => exact (inv_bottom h enabled ok rfl).imp fun _ hl => hl.1

theorem inv_run [Fintype ι] (few : Fintype.card ι < 2 ^ 31) {as : List (Act ι)} {s : State ι}
    (h : Run machine init as s) (meets : Meets machine TodoAtIncDone init as) :
    ∃ l, Inv as s l := by
  induction h with
  | start => exact ⟨_, inv_init⟩
  | next previous enabled ih =>
    obtain ⟨l, hl⟩ := ih (meets_before meets)
    exact inv_step few hl enabled (meets_last meets previous)

omit [DecidableEq ι] in
theorem work_nonneg [Fintype ι] {as : List (Act ι)} {s : State ι} {l : Ledger} (h : Inv as s l) :
    0 ≤ work s := by
  have ht := h.books.tracks.todo
  unfold work
  split <;> omega

/-- Without a new interrupt and within one run of `isr_bottom`, the work only shrinks. -/
theorem work_run [Fintype ι] (few : Fintype.card ι < 2 ^ 31) {as bs : List (Act ι)}
    {s t : State ι} {l : Ledger} (h : Inv as s l) (run : Run machine s bs t)
    (meets : Meets machine TodoAtIncDone s bs)
    (quiet : ∀ a ∈ bs, a.isIncTodo = false ∧ a.isStart = false) :
    ∃ l', Inv (as ++ bs) t l' ∧ work t + bs.countP Act.isBottom ≤ work s := by
  induction run with
  | start => exact ⟨l, by simpa using h, by simp⟩
  | @next bs t a previous enabled ih =>
    obtain ⟨l', inv, bound⟩ := ih (meets_before meets) fun b hb => quiet b (by simp [hb])
    have ok := meets_last meets previous
    obtain ⟨noTodo, noStart⟩ := quiet a (by simp)
    rw [← List.append_assoc]
    by_cases own : a.isBottom = true
    · obtain ⟨l'', inv', less⟩ := inv_bottom inv enabled ok own
      refine ⟨l'', inv', ?_⟩
      rw [count_one own]
      change work (next t a) + _ ≤ _
      omega
    · obtain ⟨l'', inv'⟩ := inv_step few inv enabled ok
      refine ⟨l'', inv', ?_⟩
      rw [count_other (by simpa using own)]
      have same : work (next t a) = work t := by
        cases a with
        | incN_th i => rfl
        | wakeThread i => rfl
        | incTodo i => cases noTodo
        | start => cases noStart
        | _ => exact absurd rfl own
      change work (next t a) + _ ≤ _
      omega

/-- As long as `todo` is positive whenever `done` is incremented, the counters stay sound, a
run of `isr_bottom` can always go on and ends within its work, and at rest all is served. -/
theorem bottom_half_sound [Fintype ι] (few : Fintype.card ι < 2 ^ 31) {as : List (Act ι)}
    {s : State ι} (h : Run machine init as s) (meets : Meets machine TodoAtIncDone init as) :
    0 ≤ s.counters.todo ∧
    s.counters.done.toInt ≤ as.countP Act.isIncTodo ∧
    (s.bottom ≠ .idle → ∃ a : Act ι, a.isBottom = true ∧ machine.Enabled s a) ∧
    (∀ bs t, Run machine s bs t → Meets machine TodoAtIncDone s bs →
      (∀ a ∈ bs, a.isIncTodo = false ∧ a.isStart = false) →
      bs.countP Act.isBottom ≤ 2 * s.counters.todo.toInt + 1) ∧
    ((∀ i, (s.top i).inProgress = false) → s.runFlag = false → s.bottom = .idle →
      s.counters.todo = 0 ∧ s.counters.done = s.counters.N_th) := by
  obtain ⟨l, inv⟩ := inv_run few h meets
  refine ⟨inv.books.todo_nonneg, ?_, ?_, ?_, ?_⟩
  · have hd := inv.books.tracks.done
    have hs := l.served_le
    rw [← inv.counted]
    omega
  · intro busy
    cases hb : s.bottom with
    | idle => exact absurd hb busy
    | incDone => exact ⟨.incDone, rfl, hb⟩
    | decTodo => exact ⟨.decTodo, rfl, hb⟩
    | leave => exact ⟨.leave, rfl, hb⟩
  · intro bs t run meets' quiet
    obtain ⟨l', inv', bound⟩ := work_run few inv run meets' quiet
    have hpos := work_nonneg inv'
    have hstart : work s ≤ 2 * s.counters.todo.toInt + 1 := by
      unfold work
      split <;> omega
    omega
  · intro idle hf hbot
    have rest : l.todo = 0 :=
      todo_zero_of_unattended inv.awaited idle hf (by rw [hbot]; rfl)
    have hm : l.midway = false := by rw [inv.midway, hbot]; rfl
    exact inv.books.at_rest hm rest (TopPc.pastFirst_eq_pastSecond idle)

/-- The second interrupt comes in while the first one's handler runs, and one run serves both. -/
theorem bottom_half_sound_overlapping :
    let as : List (Act (Fin 2)) := [.incTodo 0, .incTodo 1, .incN_th 0, .incN_th 1, .wakeThread 1,
      .wakeThread 0, .start, .incDone, .decTodo, .incDone, .decTodo, .leave]
    (machine.replay init as).counters.todo = 0 ∧
      (machine.replay init as).counters.done = (machine.replay init as).counters.N_th ∧
      (machine.replay init as).counters.done.toInt ≤ 2 := by
  intro as
  have run : Run machine init as (machine.replay init as) := run_of_admits (by decide)
  have meets : Meets machine TodoAtIncDone init as := meets_of_replay (by decide)
  obtain ⟨_, served, _, _, rest⟩ := bottom_half_sound (by decide) run meets
  obtain ⟨none, all⟩ := rest (by decide) (by decide) (by decide)
  exact ⟨none, all, served⟩

/-- The second interrupt arrives while the first is being served: the running loop absorbs it,
its run flag starts another run, and that one serves an interrupt that never came. -/
theorem bottom_half_overruns :
    let as : List (Act (Fin 2)) := [.incTodo 0, .incN_th 0, .wakeThread 0, .start, .incDone,
      .incTodo 1, .incN_th 1, .wakeThread 1, .decTodo, .incDone, .decTodo, .leave,
      .start, .incDone, .decTodo]
    ∃ s, Run machine init as s ∧ s.counters.todo < 0 ∧
      ¬ s.counters.done.toInt ≤ as.countP Act.isIncTodo := by
  intro as
  exact ⟨machine.replay init as, run_of_admits (by decide), by decide, by decide⟩

end

end DeviceDriverEx.ThreadedIrq
