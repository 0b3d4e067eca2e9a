import DeviceDriverEx.HeapLog
import DeviceDriverEx.Machine
import DeviceDriverEx.NirqCounters
import DeviceDriverEx.Occupancy

namespace DeviceDriverEx.TaskletDynamic

/-- What a run of `isr_top` executes next. -/
inductive TopPc
  | kmalloc
  | incN_th
  | tasklet_init
  | tasklet_schedule
  | mdelay
  | returned
  deriving DecidableEq

/-- Where the tasklet of an interrupt stands: what its run of `isr_bottom` executes next. -/
inductive BottomPc
  | idle
  | scheduled
  | incN_bh
  | kfree
  | finished
  deriving DecidableEq

/-- The interrupts `ι`, each with the places of its two halves and the value of `tsk` in either of
them. The structures that `kmalloc` hands out are `ω`, with the data word in each read as a
pointer, of which 0 is `none`. Events and calls of `kfree` are kept newest first. -/
structure State (ι ω : Type) where
  place : ι → TopPc × BottomPc
  tsk : ι → Option ω
  arg : ι → Option ω
  data : ω → Option ω
  N_th : Int32
  N_bh : Int32
  log : List (HeapEvent ω)
  frees : List (ι × Option ω)

/-- `kmalloc` succeeds and hands out a structure with whatever stands in it. -/
inductive Act (ι ω : Type)
  | kmalloc (i : ι) (o : ω) (junk : Option ω)
  | incN_th (i : ι)
  | tasklet_init (i : ι)
  | tasklet_schedule (i : ι)
  | leave (i : ι)
  | run (i : ι)
  | incN_bh (i : ι)
  | kfree (i : ι)
  deriving DecidableEq

def init {ι ω : Type} (data : ω → Option ω) : State ι ω :=
  ⟨fun _ => (.kmalloc, .idle), fun _ => none, fun _ => none, data, 0, 0, [], []⟩

namespace TopPc

def unscheduled : TopPc → Bool
  | .mdelay | .returned => false
  | _ => true

def initialised : TopPc → Bool
  | .tasklet_schedule | .mdelay | .returned => true
  | _ => false

end TopPc

/-- The interrupt has been counted in `N_th`, or its tasklet in `N_bh`. -/
def pastN_th (p : TopPc × BottomPc) : Bool :=
  match p.1 with
  | .kmalloc | .incN_th => false
  | _ => true

def pastN_bh (p : TopPc × BottomPc) : Bool :=
  match p.2 with
  | .kfree | .finished => true
  | _ => false

/-- `isr_bottom` has been entered with the data word and has not left. -/
def BottomPc.running : BottomPc → Bool
  | .incN_bh | .kfree => true
  | _ => false

section
variable {ι ω : Type} [DecidableEq ι] [DecidableEq ω]

def Enabled (s : State ι ω) : Act ι ω → Prop
  | .kmalloc i o _ => (s.place i).1 = .kmalloc ∧ live s.log o = false
  | .incN_th i => (s.place i).1 = .incN_th
  | .tasklet_init i => (s.place i).1 = .tasklet_init
  | .tasklet_schedule i => (s.place i).1 = .tasklet_schedule
  | .leave i => (s.place i).1 = .mdelay
  | .run i => (s.place i).2 = .scheduled
  | .incN_bh i => (s.place i).2 = .incN_bh
  | .kfree i => (s.place i).2 = .kfree

instance (s : State ι ω) (a : Act ι ω) : Decidable (Enabled s a) := by
  cases a <;> dsimp only [Enabled] <;> infer_instance

/-- `tasklet_init(tsk, isr_bottom, 0)`: the data word of the structure is 0. -/
def tasklet_init (data : ω → Option ω) (tsk : Option ω) : ω → Option ω :=
  match tsk with
  | some o => Function.update data o none
  | none => data

/-- `isr_top` and `isr_bottom` step by step. The kernel enters `isr_bottom` with the data word. -/
def next (s : State ι ω) : Act ι ω → State ι ω
  | .kmalloc i o junk => { s with
      place := Function.update s.place i (.incN_th, (s.place i).2)
      tsk := Function.update s.tsk i (some o)
      data := Function.update s.data o junk
      log := .alloc o :: s.log }
  | .incN_th i => { s with
      place := Function.update s.place i (.tasklet_init, (s.place i).2)
      N_th := atomic_inc s.N_th }
  | .tasklet_init i => { s with
      place := Function.update s.place i (.tasklet_schedule, (s.place i).2)
      data := tasklet_init s.data (s.tsk i) }
  | .tasklet_schedule i => { s with place := Function.update s.place i (.mdelay, .scheduled) }
  | .leave i => { s with place := Function.update s.place i (.returned, (s.place i).2) }
  | .run i => { s with
      place := Function.update s.place i ((s.place i).1, .incN_bh)
      arg := Function.update s.arg i ((s.tsk i).bind s.data) }
  | .incN_bh i => { s with
      place := Function.update s.place i ((s.place i).1, .kfree)
      N_bh := atomic_inc s.N_bh }
  | .kfree i => { s with
      place := Function.update s.place i ((s.place i).1, .finished)
      log := .free (s.arg i) :: s.log
      frees := (i, s.arg i) :: s.frees }

def machine : Machine (State ι ω) (Act ι ω) := ⟨Enabled, next⟩

instance (s : State ι ω) (a : Act ι ω) : Decidable (machine.Enabled s a) :=
  inferInstanceAs (Decidable (Enabled s a))

omit [DecidableEq ι] [DecidableEq ω] in
def AtRest (s : State ι ω) : Prop :=
  ∀ i, ((s.place i).1 = .kmalloc ∨ (s.place i).1 = .returned) ∧
    ((s.place i).2 = .idle ∨ (s.place i).2 = .finished)

/-- Each tasklet that has run has freed its own structure, once, and nothing else has been freed;
a structure is there while its tasklet is to run, and at rest none is left. -/
structure RunsOnce (s : State ι ω) : Prop where
  freed : ∀ i p, s.frees.count (i, p) = if (s.place i).2 = .finished ∧ p = s.tsk i then 1 else 0
  waiting : ∀ i, (s.place i).2 = .scheduled → ∃ o, s.tsk i = some o ∧ live s.log o = true
  rest : AtRest s → (∀ o, live s.log o = false) ∧ s.N_bh = s.N_th

/-- What is known of one interrupt: whether its tasklet is scheduled, its structure, which is
allocated and has the data word 0 once it is initialised, and what `isr_bottom` was given. -/
structure Known (s : State ι ω) (i : ι) : Prop where
  unscheduled : (s.place i).2 = .idle ↔ (s.place i).1.unscheduled = true
  held : (s.place i).1 ≠ .kmalloc → ∃ o, s.tsk i = some o ∧ live s.log o = true ∧
    ((s.place i).1.initialised = true → s.data o = none)
  given : (s.place i).2.running = true → s.arg i = none

structure Inv [Fintype ι] (as : List (Act ι ω)) (s : State ι ω) : Prop where
  N_th : s.N_th = Int32.ofNat (occupancy pastN_th s.place)
  N_bh : s.N_bh = Int32.ofNat (occupancy pastN_bh s.place)
  known : ∀ i, Known s i
  owner : ∀ o, live s.log o = true → ∃ i, (s.place i).1 ≠ .kmalloc
  frees : ∀ i p, (i, p) ∈ s.frees ↔ p = none ∧ (s.place i).2 = .finished
  finished : ∀ i, (s.place i).2 = .finished ↔ Act.kfree i ∈ as

omit [DecidableEq ι] in
theorem inv_init [Fintype ι] (data : ω → Option ω) :
    Inv ([] : List (Act ι ω)) (init data) := by
  refine ⟨?_, ?_, fun i => ⟨iff_of_true rfl rfl, fun h => absurd rfl h, fun h => ?_⟩,
    fun o h => ?_, fun i p => ?_, fun i => ?_⟩
  · rw [occupancy_eq_zero fun _ => rfl]
    rfl
  · rw [occupancy_eq_zero fun _ => rfl]
    rfl
  · cases h
  · cases h
  · simp [init]
  · simp [init]

omit [DecidableEq ι] in
/-- Nothing is lost of an interrupt when another one takes a step that leaves the live structures
alive and their data words 0. -/
theorem known_other {s t : State ι ω} {j : ι} (h : Known s j) (place : t.place j = s.place j)
    (tsk : t.tsk j = s.tsk j) (arg : t.arg j = s.arg j)
    (alive : ∀ o, live s.log o = true → live t.log o = true)
    (data : ∀ o, live s.log o = true → s.data o = none → t.data o = none) : Known t j := by
  refine ⟨by rw [place]; exact h.unscheduled, fun begun => ?_, by rw [place, arg]; exact h.given⟩
  rw [place] at begun ⊢
  obtain ⟨o, own, here, zero⟩ := h.held begun
  exact ⟨o, tsk.trans own, alive o here, fun ready => data o here (zero ready)⟩

omit [DecidableEq ι] in
/-- Only an interrupt whose structure has been allocated has a tasklet that is scheduled or runs. -/
theorem Known.begun {s : State ι ω} {i : ι} (h : Known s i) (busy : (s.place i).2 ≠ .idle) :
    (s.place i).1 ≠ .kmalloc := by
  intro top
  exact busy (h.unscheduled.mpr (by rw [top]; rfl))

omit [DecidableEq ι] in
theorem Known.still_busy {s : State ι ω} {i : ι} {bottom : BottomPc} (h : Known s i)
    (busy : (s.place i).2 ≠ .idle) (next : bottom ≠ .idle) :
    bottom = .idle ↔ (s.place i).1.unscheduled = true :=
  iff_of_false next fun early => busy (h.unscheduled.mpr early)

omit [DecidableEq ι] in
theorem Known.word {s : State ι ω} {i : ι} (h : Known s i) (busy : (s.place i).2 ≠ .idle) :
    (s.tsk i).bind s.data = none := by
  obtain ⟨o, own, _, zero⟩ := h.held (h.begun busy)
  have past : ¬ (s.place i).1.unscheduled = true := fun u => busy (h.unscheduled.mpr u)
  rw [own, Option.bind_some]
  refine zero ?_
  generalize (s.place i).1 = top at past
  cases top <;> first | rfl | exact absurd rfl past

section
variable [Fintype ι] {as : List (Act ι ω)} {s t : State ι ω} {a : Act ι ω} {i : ι}
  {k : TopPc × BottomPc}

/-- A step of interrupt `i` to `k` that is not the `kfree` of a tasklet. -/
theorem inv_step (h : Inv as s) (other : ∀ j, a ≠ .kfree j)
    (place : t.place = Function.update s.place i k) (frees : t.frees = s.frees)
    (N_th : t.N_th = Int32.ofNat (occupancy pastN_th t.place))
    (N_bh : t.N_bh = Int32.ofNat (occupancy pastN_bh t.place))
    (own : Known t i) (others : ∀ j, j ≠ i → Known t j) (begun : k.1 ≠ .kmalloc)
    (end_ : k.2 = .finished ↔ (s.place i).2 = .finished) : Inv (as ++ [a]) t := by
  have same (j : ι) : (t.place j).2 = .finished ↔ (s.place j).2 = .finished := by
    rw [place]
    by_cases hj : j = i
    · rw [hj, Function.update_self]
      exact end_
    · rw [Function.update_of_ne hj]
  refine ⟨N_th, N_bh, fun j => ?_, fun o _ => ⟨i, ?_⟩, fun j p => ?_, fun j => ?_⟩
  · by_cases hj : j = i
    · exact hj ▸ own
    · exact others j hj
  · rw [place, Function.update_self]
    exact begun
  · rw [frees, same j]
    exact h.frees j p
  · rw [same j, h.finished j, List.mem_append, List.mem_singleton,
      or_iff_left fun eq => other j eq.symm]

theorem Inv.N_th_stay (h : Inv as s) (same : pastN_th k = pastN_th (s.place i)) :
    s.N_th = Int32.ofNat (occupancy pastN_th (Function.update s.place i k)) := by
  rw [occupancy_stay same]
  exact h.N_th

theorem Inv.N_bh_stay (h : Inv as s) (same : pastN_bh k = pastN_bh (s.place i)) :
    s.N_bh = Int32.ofNat (occupancy pastN_bh (Function.update s.place i k)) := by
  rw [occupancy_stay same]
  exact h.N_bh

omit [DecidableEq ι] [Fintype ι] in
theorem known_self (place : t.place i = k) (unscheduled : k.2 = .idle ↔ k.1.unscheduled = true)
    (held : ∃ o, t.tsk i = some o ∧ live t.log o = true ∧
      (k.1.initialised = true → t.data o = none))
    (given : k.2.running = true → t.arg i = none) : Known t i :=
  ⟨place ▸ unscheduled, fun _ => place ▸ held, place ▸ given⟩

/-- `kmalloc` returns a structure that no earlier interrupt still has. -/
theorem inv_kmalloc {o : ω} {junk : Option ω} (h : Inv as s)
    (enabled : Enabled s (.kmalloc i o junk)) :
    Inv (as ++ [.kmalloc i o junk]) (next s (.kmalloc i o junk)) := by
  obtain ⟨top, fresh⟩ := enabled
  have idle : (s.place i).2 = .idle := (h.known i).unscheduled.mpr (by rw [top]; rfl)
  have apart : ∀ x, live s.log x = true → o ≠ x := by
    rintro x here rfl
    rw [fresh] at here
    cases here
  refine inv_step h (fun j => by simp) rfl rfl (h.N_th_stay ?_) (h.N_bh_stay rfl)
    (known_self (Function.update_self ..) (iff_of_true idle rfl) ⟨o, Function.update_self ..,
      live_alloc_self o s.log, fun ready => ?_⟩ fun run => ?_) (fun j hj => ?_) ?_ Iff.rfl
  · rw [pastN_th, pastN_th, top]
  · cases ready
  · rw [idle] at run
    cases run
  · refine known_other (h.known j) (Function.update_of_ne hj ..) (Function.update_of_ne hj ..) rfl
      (fun x here => ?_) fun x here zero => ?_
    · exact (live_alloc_of_ne (apart x here) s.log).trans here
    · exact (Function.update_of_ne (apart x here).symm ..).trans zero
  · exact TopPc.noConfusion

/-- A step of interrupt `i` behind its `kmalloc` that leaves the structures as they are. -/
theorem inv_still {arg : ι → Option ω} {n m : Int32} (h : Inv as s) (other : ∀ j, a ≠ .kfree j)
    (args : ∀ j, j ≠ i → arg j = s.arg j)
    (N_th : n = Int32.ofNat (occupancy pastN_th (Function.update s.place i k)))
    (N_bh : m = Int32.ofNat (occupancy pastN_bh (Function.update s.place i k)))
    (before : (s.place i).1 ≠ .kmalloc) (begun : k.1 ≠ .kmalloc)
    (ready : k.1.initialised = (s.place i).1.initialised)
    (unscheduled : k.2 = .idle ↔ k.1.unscheduled = true)
    (given : k.2.running = true → arg i = none)
    (end_ : k.2 = .finished ↔ (s.place i).2 = .finished) :
    Inv (as ++ [a])
      { s with place := Function.update s.place i k, arg := arg, N_th := n, N_bh := m } := by
  obtain ⟨o, own, here, zero⟩ := (h.known i).held before
  refine inv_step h other rfl rfl N_th N_bh
    (known_self (Function.update_self ..) unscheduled
      ⟨o, own, here, fun r => zero (ready ▸ r)⟩ given) (fun j hj => ?_) begun end_
  exact known_other (h.known j) (Function.update_of_ne hj ..) rfl (args j hj)
    (fun _ here => here) fun _ _ zero => zero

theorem inv_incN_th (h : Inv as s) (enabled : Enabled s (.incN_th i : Act ι ω)) :
    Inv (as ++ [.incN_th i]) (next s (.incN_th i)) := by
  have top : (s.place i).1 = .incN_th := enabled
  have idle : (s.place i).2 = .idle := (h.known i).unscheduled.mpr (by rw [top]; rfl)
  have entered : occupancy pastN_th (Function.update s.place i (.tasklet_init, (s.place i).2)) =
      occupancy pastN_th s.place + 1 := occupancy_enter (by rw [pastN_th, top]) rfl
  refine inv_still h (fun j => by simp) (fun _ _ => rfl) ?_ (h.N_bh_stay rfl) ?_ ?_ ?_
    (iff_of_true idle rfl) (fun run => ?_) Iff.rfl
  · rw [h.N_th, atomic_inc_ofNat, entered]
  · rw [top]
    exact TopPc.noConfusion
  · exact TopPc.noConfusion
  · rw [top]
    rfl
  · rw [idle] at run
    cases run

theorem inv_tasklet_init (h : Inv as s) (enabled : Enabled s (.tasklet_init i : Act ι ω)) :
    Inv (as ++ [.tasklet_init i]) (next s (.tasklet_init i)) := by
  have top : (s.place i).1 = .tasklet_init := enabled
  have idle : (s.place i).2 = .idle := (h.known i).unscheduled.mpr (by rw [top]; rfl)
  obtain ⟨o, own, here, _⟩ := (h.known i).held (by rw [top]; exact TopPc.noConfusion)
  have word : tasklet_init s.data (s.tsk i) = Function.update s.data o none := by
    rw [own]
    rfl
  have kept : ∀ x, s.data x = none → tasklet_init s.data (s.tsk i) x = none := by
    intro x zero
    by_cases hx : x = o
    · rw [word, hx, Function.update_self]
    · rw [word, Function.update_of_ne hx]
      exact zero
  refine inv_step h (fun j => by simp) rfl rfl (h.N_th_stay ?_) (h.N_bh_stay rfl)
    (known_self (Function.update_self ..) (iff_of_true idle rfl)
      ⟨o, own, here, fun _ => ?_⟩ fun run => ?_) (fun j hj => ?_) ?_ Iff.rfl
  · rw [pastN_th, pastN_th, top]
  · exact (congrFun word o).trans (Function.update_self ..)
  · rw [idle] at run
    cases run
  · exact known_other (h.known j) (Function.update_of_ne hj ..) rfl rfl (fun _ here => here)
      fun x _ zero => kept x zero
  · exact TopPc.noConfusion

theorem inv_tasklet_schedule (h : Inv as s)
    (enabled : Enabled s (.tasklet_schedule i : Act ι ω)) :
    Inv (as ++ [.tasklet_schedule i]) (next s (.tasklet_schedule i)) := by
  have top : (s.place i).1 = .tasklet_schedule := enabled
  have idle : (s.place i).2 = .idle := (h.known i).unscheduled.mpr (by rw [top]; rfl)
  refine inv_still h (fun j => by simp) (fun _ _ => rfl) (h.N_th_stay ?_) (h.N_bh_stay ?_) ?_ ?_ ?_
    (iff_of_false BottomPc.noConfusion Bool.noConfusion) (fun run => ?_) ?_
  · rw [pastN_th, pastN_th, top]
  · rw [pastN_bh, pastN_bh, idle]
  · rw [top]
    exact TopPc.noConfusion
  · exact TopPc.noConfusion
  · rw [top]
    rfl
  · cases run
  · rw [idle]
    exact iff_of_false BottomPc.noConfusion BottomPc.noConfusion

theorem inv_leave (h : Inv as s) (enabled : Enabled s (.leave i : Act ι ω)) :
    Inv (as ++ [.leave i]) (next s (.leave i)) := by
  have top : (s.place i).1 = .mdelay := enabled
  have known := h.known i
  refine inv_still h (fun j => by simp) (fun _ _ => rfl) (h.N_th_stay ?_) (h.N_bh_stay rfl) ?_ ?_ ?_
    (known.unscheduled.trans ?_) known.given Iff.rfl
  · rw [pastN_th, pastN_th, top]
  · rw [top]
    exact TopPc.noConfusion
  · exact TopPc.noConfusion
  · rw [top]
    rfl
  · rw [top]
    rfl

/-- `isr_bottom` is entered with the data word of its structure, which is 0. -/
theorem inv_run_tasklet (h : Inv as s) (enabled : Enabled s (.run i : Act ι ω)) :
    Inv (as ++ [.run i]) (next s (.run i)) := by
  have bottom : (s.place i).2 = .scheduled := enabled
  have known := h.known i
  have busy : (s.place i).2 ≠ .idle := by
    rw [bottom]
    exact BottomPc.noConfusion
  have word : Function.update s.arg i ((s.tsk i).bind s.data) i = none := by
    rw [Function.update_self]
    exact known.word busy
  refine inv_still h (fun j => by simp) (fun j hj => Function.update_of_ne hj ..)
    (h.N_th_stay rfl) (h.N_bh_stay ?_) (known.begun busy) (known.begun busy) rfl
    (known.still_busy busy BottomPc.noConfusion)
    (fun _ => word) ?_
  · rw [pastN_bh, pastN_bh, bottom]
  · rw [bottom]
    exact iff_of_false BottomPc.noConfusion BottomPc.noConfusion

theorem inv_incN_bh (h : Inv as s) (enabled : Enabled s (.incN_bh i : Act ι ω)) :
    Inv (as ++ [.incN_bh i]) (next s (.incN_bh i)) := by
  have bottom : (s.place i).2 = .incN_bh := enabled
  have known := h.known i
  have busy : (s.place i).2 ≠ .idle := by
    rw [bottom]
    exact BottomPc.noConfusion
  have entered : occupancy pastN_bh (Function.update s.place i ((s.place i).1, .kfree)) =
      occupancy pastN_bh s.place + 1 := occupancy_enter (by rw [pastN_bh, bottom]) rfl
  refine inv_still h (fun j => by simp) (fun _ _ => rfl) (h.N_th_stay rfl) ?_ (known.begun busy)
    (known.begun busy) rfl
    (known.still_busy busy BottomPc.noConfusion)
    (fun _ => known.given (by rw [bottom]; rfl)) ?_
  · rw [h.N_bh, atomic_inc_ofNat, entered]
  · rw [bottom]
    exact iff_of_false BottomPc.noConfusion BottomPc.noConfusion

theorem inv_kfree (h : Inv as s) (enabled : Enabled s (.kfree i : Act ι ω)) :
    Inv (as ++ [.kfree i]) (next s (.kfree i)) := by
  have bottom : (s.place i).2 = .kfree := enabled
  have known := h.known i
  have busy : (s.place i).2 ≠ .idle := by
    rw [bottom]
    exact BottomPc.noConfusion
  have arg : s.arg i = none := known.given (by rw [bottom]; rfl)
  have kept : ∀ x, live s.log x = true → live (.free (s.arg i) :: s.log) x = true := by
    intro x here
    rw [arg, live_free_of_ne (Option.some_ne_none x).symm]
    exact here
  obtain ⟨o, own, here, zero⟩ := known.held (known.begun busy)
  have moved (j : ι) : (Function.update s.place i ((s.place i).1, .finished) j).2 = .finished ↔
      (s.place j).2 = .finished ∨ j = i := by
    by_cases hj : j = i
    · rw [hj, Function.update_self]
      exact iff_of_true rfl (Or.inr rfl)
    · rw [Function.update_of_ne hj, or_iff_left hj]
  refine ⟨h.N_th_stay rfl, h.N_bh_stay ?_, fun j => ?_, fun x _ => ⟨i, ?_⟩, fun j p => ?_,
    fun j => ?_⟩
  · rw [pastN_bh, pastN_bh, bottom]
  · by_cases hj : j = i
    · subst hj
      exact known_self (Function.update_self ..)
        (known.still_busy busy BottomPc.noConfusion)
        ⟨o, own, kept o here, zero⟩ fun run => by cases run
    · exact known_other (h.known j) (Function.update_of_ne hj ..) rfl rfl kept
        fun _ _ zero => zero
  · have place : (next s (.kfree i)).place i = ((s.place i).1, .finished) :=
      Function.update_self ..
    rw [place]
    exact known.begun busy
  · refine List.mem_cons.trans ?_
    rw [h.frees j p]
    refine Iff.trans ?_ (and_congr_right fun _ => (moved j).symm)
    rw [arg, Prod.mk.injEq]
    constructor
    · rintro (⟨rfl, rfl⟩ | ⟨rfl, done⟩)
      · exact ⟨rfl, Or.inr rfl⟩
      · exact ⟨rfl, Or.inl done⟩
    · rintro ⟨rfl, done | rfl⟩
      · exact Or.inr ⟨rfl, done⟩
      · exact Or.inl ⟨rfl, rfl⟩
  · refine (moved j).trans ?_
    rw [h.finished j, List.mem_append, List.mem_singleton, Act.kfree.injEq]

theorem inv_next (h : Inv as s) (enabled : Enabled s a) : Inv (as ++ [a]) (next s a) := by
  cases a with
  | kmalloc i o junk => exact inv_kmalloc h enabled
  | incN_th i => exact inv_incN_th h enabled
  | tasklet_init i => exact inv_tasklet_init h enabled
  | tasklet_schedule i => exact inv_tasklet_schedule h enabled
  | leave i => exact inv_leave h enabled
  | run i => exact inv_run_tasklet h enabled
  | incN_bh i => exact inv_incN_bh h enabled
  | kfree i => exact inv_kfree h enabled

theorem inv_run {data : ω → Option ω} (h : Run machine (init data) as s) : Inv as s := by
  induction h with
  | start => exact inv_init data
  | next _ enabled ih => exact inv_next ih enabled

omit [DecidableEq ι] [Fintype ι] in
/-- At rest the top half of an interrupt has not begun, or its tasklet has finished. -/
theorem settled (known : Known s i) (rest : AtRest s) :
    (s.place i).1 = .kmalloc ∧ (s.place i).2 = .idle ∨
      (s.place i).1 = .returned ∧ (s.place i).2 = .finished := by
  obtain ⟨top | top, bottom⟩ := rest i
  · exact Or.inl ⟨top, known.unscheduled.mpr (by rw [top]; rfl)⟩
  · refine Or.inr ⟨top, bottom.resolve_left fun idle => ?_⟩
    have early := known.unscheduled.mp idle
    rw [top] at early
    cases early

omit [DecidableEq ι] in
theorem Inv.counted (h : Inv as s) (rest : AtRest s) : s.N_bh = s.N_th := by
  have same : occupancy pastN_bh s.place = occupancy pastN_th s.place := by
    refine occupancy_congr fun i => ?_
    rcases settled (h.known i) rest with ⟨top, bottom⟩ | ⟨top, bottom⟩
    · rw [pastN_bh, pastN_th, top, bottom]
    · rw [pastN_bh, pastN_th, top, bottom]
  rw [h.N_bh, h.N_th, same]

/-- The first tasklet that ends has freed NULL and not its own structure. -/
theorem runsOnce_iff (h : Inv as s) : RunsOnce s ↔ ∀ i, Act.kfree i ∉ as := by
  constructor
  · intro sound i freed
    have done := (h.finished i).mpr freed
    have busy : (s.place i).2 ≠ .idle := by
      rw [done]
      exact BottomPc.noConfusion
    obtain ⟨o, own, _⟩ := (h.known i).held ((h.known i).begun busy)
    have wrong : none ≠ s.tsk i := by
      rw [own]
      exact (Option.some_ne_none o).symm
    have never := sound.freed i none
    rw [if_neg fun both => wrong both.2] at never
    exact List.count_eq_zero.mp never ((h.frees i none).mpr ⟨rfl, done⟩)
  · intro none_ended
    have running (i : ι) : (s.place i).2 ≠ .finished :=
      fun done => none_ended i ((h.finished i).mp done)
    refine ⟨fun i p => ?_, fun i waits => ?_, fun rest => ⟨fun o => ?_, h.counted rest⟩⟩
    · rw [if_neg fun both => running i both.1, List.count_eq_zero, h.frees i p]
      exact fun both => running i both.2
    · have busy : (s.place i).2 ≠ .idle := by
        rw [waits]
        exact BottomPc.noConfusion
      obtain ⟨o, own, here, _⟩ := (h.known i).held ((h.known i).begun busy)
      exact ⟨o, own, here⟩
    · refine Bool.eq_false_iff.mpr fun here => ?_
      obtain ⟨i, begun⟩ := h.owner o here
      rcases settled (h.known i) rest with ⟨top, _⟩ | ⟨_, done⟩
      · exact begun top
      · exact running i done

end

end

/-- In every run `isr_bottom` frees NULL only, the structure of every interrupt stays allocated,
also while its tasklet is scheduled, and the counters agree at rest. So the tasklets have each
freed their own structure throughout the run exactly if none has got as far as `kfree`. -/
theorem tasklet_freed_iff {ι ω : Type} [Fintype ι] [DecidableEq ι] [DecidableEq ω]
    {data : ω → Option ω} {as : List (Act ι ω)} {s : State ι ω}
    (h : Run machine (init data) as s) :
    (∀ i p, (i, p) ∈ s.frees → p = none) ∧
      (∀ i, (s.place i).1 ≠ .kmalloc → ∃ o, s.tsk i = some o ∧ live s.log o = true) ∧
      (AtRest s → s.N_bh = s.N_th) ∧
      (Always machine (fun _ t => RunsOnce t) (init data) as ↔ ∀ i, Act.kfree i ∉ as) := by
  have inv := inv_run h
  refine ⟨fun i p freed => ((inv.frees i p).mp freed).1, fun i begun => ?_, inv.counted, ?_, ?_⟩
  · obtain ⟨o, own, here, _⟩ := (inv.known i).held begun
    exact ⟨o, own, here⟩
  · intro always
    exact (runsOnce_iff inv).mp (always as [] s (by simp) h)
  · intro none_ended pre post t split run
    refine (runsOnce_iff (inv_run run)).mpr fun i freed => none_ended i ?_
    rw [split]
    exact List.mem_append_left post freed

/-- Two interrupts whose tasklets overlap, up to the `kfree` of either. -/
theorem tasklet_freed_iff_overlapping :
    let as : List (Act (Fin 2) (Fin 2)) := [.kmalloc 0 1 none, .incN_th 0, .kmalloc 1 0 (some 1),
      .tasklet_init 0, .tasklet_schedule 0, .run 0, .incN_th 1, .tasklet_init 1,
      .tasklet_schedule 1, .incN_bh 0, .leave 0]
    Always machine (fun _ t => RunsOnce t) (init fun _ => none) as := by
  intro as
  have run : Run machine (init fun _ => none) as (machine.replay (init fun _ => none) as) :=
    run_of_admits (by decide)
  exact (tasklet_freed_iff run).2.2.2.mpr (by decide)

/-- One interrupt leaves its structure behind: the only call of `kfree` is given NULL, and the
counters are equal nonetheless. -/
theorem tasklet_leaks :
    let as : List (Act (Fin 1) (Fin 1)) := [.kmalloc 0 0 none, .incN_th 0, .tasklet_init 0,
      .tasklet_schedule 0, .leave 0, .run 0, .incN_bh 0, .kfree 0]
    ∃ s, Run machine (init fun _ => none) as s ∧ AtRest s ∧ s.frees = [(0, none)] ∧
      s.tsk 0 = some 0 ∧ live s.log 0 = true ∧ s.N_bh = s.N_th ∧ ¬ RunsOnce s := by
  intro as
  refine ⟨machine.replay (init fun _ => none) as, run_of_admits (by decide), ?_, by decide,
    by decide, by decide, by decide, fun sound => ?_⟩
  · exact fun i => by
      have only : i = 0 := Subsingleton.elim i 0
      rw [only]
      exact ⟨Or.inr rfl, Or.inr rfl⟩
  · exact absurd (sound.freed 0 none) (by decide)

end DeviceDriverEx.TaskletDynamic
