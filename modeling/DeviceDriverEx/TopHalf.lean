import DeviceDriverEx.NirqCounters
import DeviceDriverEx.Occupancy

namespace DeviceDriverEx

/-- Which of its three steps `isr_top` takes next. -/
inductive TopPc
  | first
  | second
  | third
  | returned
  deriving DecidableEq

namespace TopPc

def pastFirst : TopPc → Bool
  | first => false
  | _ => true

def pastSecond : TopPc → Bool
  | first => false
  | second => false
  | _ => true

def inProgress : TopPc → Bool
  | second => true
  | third => true
  | _ => false

variable {ι : Type} [Fintype ι]

/-- With no handler in progress the first two steps have been taken equally often. -/
theorem pastFirst_eq_pastSecond {top : ι → TopPc} (idle : ∀ i, (top i).inProgress = false) :
    occupancy pastFirst top = occupancy pastSecond top := by
  apply occupancy_congr
  intro i
  have hi := idle i
  cases h : top i <;> simp_all [inProgress, pastFirst, pastSecond]

theorem pastSecond_le_pastFirst (top : ι → TopPc) :
    occupancy pastSecond top ≤ occupancy pastFirst top := by
  apply occupancy_mono
  intro i hi
  cases h : top i <;> simp_all [pastFirst, pastSecond]

end TopPc

/-- With every handler at rest and no run to come or under way, nothing can be left to do. -/
theorem todo_zero_of_unattended {ι : Type} {l : Ledger} {top : ι → TopPc} {flag loop : Bool}
    (awaited : 0 < l.todo → (∃ i, (top i).inProgress = true) ∨ flag = true ∨ loop = true)
    (idle : ∀ i, (top i).inProgress = false) (hf : flag = false) (hl : loop = false) :
    l.todo = 0 := by
  by_contra hne
  obtain ⟨i, hi⟩ | hi | hi := awaited (by omega)
  · rw [idle i] at hi
    cases hi
  · rw [hf] at hi
    cases hi
  · rw [hl] at hi
    cases hi

/-- The counters agree with a ledger of the interrupts and with the places of the handlers:
`pTodo` holds past the step that increments `todo`, `pN_th` past the one for `N_th`. -/
structure Books {ι : Type} [Fintype ι] (pTodo pN_th : TopPc → Bool) (c : Counters)
    (top : ι → TopPc) (l : Ledger) : Prop where
  tracks : c.Tracks l
  raised : l.raised = occupancy pTodo top
  N_th : c.N_th.toInt = occupancy pN_th top

section
variable {ι : Type} [Fintype ι] {pTodo pN_th : TopPc → Bool} {c : Counters} {top : ι → TopPc}
  {l : Ledger}

theorem books_init (ht : pTodo .first = false) (hn : pN_th .first = false) :
    Books pTodo pN_th Counters.init (fun _ : ι => .first) Ledger.empty := by
  refine ⟨Counters.tracks_init, ?_, ?_⟩
  · exact (occupancy_eq_zero fun _ => ht).symm
  · rw [occupancy_eq_zero fun _ => hn]
    rfl

theorem books_serve (h : Books pTodo pN_th c top l) (pending : 0 < l.todo)
    (settled : l.midway = false) : Books pTodo pN_th c.incDone top (l.serve pending settled) :=
  ⟨Counters.tracks_serve h.tracks pending settled, h.raised, h.N_th⟩

theorem books_settle (h : Books pTodo pN_th c top l) (half : l.midway = true) :
    Books pTodo pN_th c.decTodo top (l.settle half) :=
  ⟨Counters.tracks_settle h.tracks half, h.raised, h.N_th⟩

variable [DecidableEq ι] {i : ι} {k : TopPc}

theorem books_incTodo (few : Fintype.card ι < 2 ^ 31) (h : Books pTodo pN_th c top l)
    (out : pTodo (top i) = false) (into : pTodo k = true) (same : pN_th k = pN_th (top i)) :
    Books pTodo pN_th c.incTodo (Function.update top i k) l.raise := by
  have room := occupancy_lt_card out
  have hr := h.raised
  refine ⟨Counters.tracks_raise h.tracks (by omega), ?_, ?_⟩
  · rw [occupancy_enter out into, ← hr]
    rfl
  · rw [occupancy_stay same]
    exact h.N_th

theorem books_incN_th (few : Fintype.card ι < 2 ^ 31) (h : Books pTodo pN_th c top l)
    (out : pN_th (top i) = false) (into : pN_th k = true) (same : pTodo k = pTodo (top i)) :
    Books pTodo pN_th c.incN_th (Function.update top i k) l := by
  have room := occupancy_lt_card out
  have hn := h.N_th
  refine ⟨Counters.tracks_incN_th h.tracks, ?_, ?_⟩
  · rw [occupancy_stay same]
    exact h.raised
  · rw [occupancy_enter out into, Counters.incN_th, atomic_inc_toInt (by omega), hn]
    simp

/-- A step of a handler that touches no counter. -/
theorem books_move (h : Books pTodo pN_th c top l) (sameTodo : pTodo k = pTodo (top i))
    (sameN_th : pN_th k = pN_th (top i)) : Books pTodo pN_th c (Function.update top i k) l :=
  ⟨h.tracks, (occupancy_stay sameTodo).symm ▸ h.raised, (occupancy_stay sameN_th).symm ▸ h.N_th⟩

end

section
variable {ι : Type} [Fintype ι] {pTodo pN_th : TopPc → Bool} {c : Counters} {top : ι → TopPc}
  {l : Ledger}

theorem Books.todo_nonneg (h : Books pTodo pN_th c top l) : 0 ≤ c.todo := by
  have ht := h.tracks.todo
  rw [Int32.le_iff_toInt_le, ht]
  exact Int.natCast_nonneg _

theorem Books.todo_pos (h : Books pTodo pN_th c top l) : 0 < c.todo ↔ 0 < l.todo := by
  have ht := h.tracks.todo
  rw [Int32.lt_iff_toInt_lt, ht]
  simp

/-- `done + todo` is what was raised, and one more between the two halves of a service. -/
theorem Books.balance (h : Books pTodo pN_th c top l) {between : Prop} [Decidable between]
    (hm : l.midway = decide between) :
    c.done.toInt + c.todo.toInt = l.raised + (if between then 1 else 0) := by
  have hd := h.tracks.done
  have ht := h.tracks.todo
  have hb := l.balance
  rw [hm] at hb
  rw [hd, ht]
  by_cases hc : between
  · simp only [hc, decide_true, Bool.toNat_true, ↓reduceIte] at hb ⊢
    omega
  · simp only [hc, decide_false, Bool.toNat_false, ↓reduceIte] at hb ⊢
    omega

theorem Books.at_rest (h : Books pTodo pN_th c top l) (hm : l.midway = false) (rest : l.todo = 0)
    (even : occupancy pTodo top = occupancy pN_th top) : c.todo = 0 ∧ c.done = c.N_th := by
  refine ⟨h.tracks.todo_zero.mpr rest, ?_⟩
  have hd := h.tracks.done
  rw [← Int32.toInt_inj, hd, h.N_th, Ledger.served_all hm rest, h.raised, even]

end

end DeviceDriverEx
