import DeviceDriverEx.Machine
import DeviceDriverEx.NirqCounters
import DeviceDriverEx.Occupancy
import DeviceDriverEx.Owners

namespace DeviceDriverEx.AllIrqs

/-- The two solutions of lab5 with a bottom half of its own for every interrupt. -/
inductive Lab
  | all_tasklet_dynamic
  | all_workqueue_dynamic
  deriving DecidableEq

/-- How far `get_irqs` and, in the end, `freeup_irqs` have come with a line. -/
inductive Reg
  | untouched
  | flagged
  | requested
  | refused
  | counted
  | freed
  deriving DecidableEq

namespace Reg

/-- `get_irqs` is through with the line. -/
def settled : Reg → Bool
  | refused | counted | freed => true
  | _ => false

/-- `my_interrupt` is registered for the line. -/
def heard : Reg → Bool
  | requested | counted => true
  | _ => false

/-- The line's counter has been set to 0. -/
def zeroed : Reg → Bool
  | counted | freed => true
  | _ => false

/-- The line has never been registered. -/
def silent : Reg → Bool
  | untouched | flagged | refused => true
  | _ => false

end Reg

/-- What `my_interrupt` executes next. -/
inductive TopPc
  | kmalloc
  | store
  | incInterrupts
  | schedule
  | mdelay
  | returned
  deriving DecidableEq

namespace TopPc

def inProgress : TopPc → Bool
  | kmalloc | returned => false
  | _ => true

def stored : TopPc → Bool
  | kmalloc | store => false
  | _ => true

def counted : TopPc → Bool
  | schedule | mdelay | returned => true
  | _ => false

def scheduled : TopPc → Bool
  | mdelay | returned => true
  | _ => false

end TopPc

/-- Where the bottom half of an interrupt stands: `t_fun`, or `w_fun`. -/
inductive BottomPc
  | idle
  | pending
  | incBhs
  | kfree
  | finished
  deriving DecidableEq

abbrev Place : Type := TopPc × BottomPc

/-- The interrupt has a `struct my_dat` that its bottom half has not freed. -/
def held (p : Place) : Bool := p.1 ≠ .kmalloc && p.2 ≠ .finished

/-- Counted in `interrupts`. -/
def pastInterrupts (p : Place) : Bool := p.1.counted

/-- Counted in `bhs`. -/
def pastBhs (p : Place) : Bool := p.2 = .kfree || p.2 = .finished

/-- The lines are `Fin n`, with `n` for `nr_irqs` such that both arrays fit into `ramdisk`, and the
interrupts `ι`. Each has its pointer to a `struct my_dat`; `irq` is the field of these objects.
`exit` is how many lines `freeup_irqs` has come past. -/
structure State (n : Nat) (ι ω : Type) where
  reg : Fin n → Reg
  interrupts : Fin n → Int32
  bhs : Fin n → Int32
  place : ι → Place
  data : ι → Option ω
  irq : ω → Fin n
  log : List (HeapEvent ω)
  exit : Nat

/-- `kmalloc` succeeds, with whatever stands in the object. -/
inductive Act (n : Nat) (ι ω : Type)
  | flag (k : Fin n)
  | request (k : Fin n) (ok : Bool)
  | zero (k : Fin n)
  | kmalloc (i : ι) (o : ω) (junk : Fin n)
  | store (i : ι)
  | incInterrupts (i : ι)
  | schedule (i : ι)
  | leave (i : ι)
  | run (i : ι)
  | incBhs (i : ι)
  | kfree (i : ι)
  | free (k : Fin n)

section
variable {n : Nat} {ι ω : Type}

def init (memory : Fin n → Int32) (irq : ω → Fin n) : State n ι ω :=
  ⟨fun _ => .untouched, memory, memory, fun _ => (.kmalloc, .idle), fun _ => none, irq, [], 0⟩

variable [DecidableEq ι] [DecidableEq ω] (lab : Lab) (line : ι → Fin n)

def State.go (s : State n ι ω) (i : ι) (k : Place) : State n ι ω :=
  { s with place := Function.update s.place i k }

/-- The handlers of one line do not overlap. `freeup_irqs` waits for those of the line that it
frees. -/
def Enabled (s : State n ι ω) : Act n ι ω → Prop
  | .flag k => s.reg k = .untouched ∧ ∀ j < k, (s.reg j).settled = true
  | .request k _ => s.reg k = .flagged
  | .zero k => s.reg k = .requested
  | .kmalloc i o _ => s.place i = (.kmalloc, .idle) ∧ (s.reg (line i)).heard = true ∧
      (∀ j, line j = line i → (s.place j).1.inProgress = false) ∧ live s.log o = false
  | .store i => (s.place i).1 = .store
  | .incInterrupts i => (s.place i).1 = .incInterrupts
  | .schedule i => (s.place i).1 = .schedule
  | .leave i => (s.place i).1 = .mdelay
  | .run i => (s.place i).2 = .pending
  | .incBhs i => (s.place i).2 = .incBhs
  | .kfree i => (s.place i).2 = .kfree
  | .free k => (∀ j, (s.reg j).settled = true) ∧ s.exit = k.val ∧
      (0 ≤ s.interrupts k → ∀ j, line j = k → (s.place j).1.inProgress = false)

/-- `data->irq`, by which the counters are looked up. -/
def State.target (s : State n ι ω) (i : ι) (otherwise : Fin n) : Fin n :=
  match s.data i with
  | some o => s.irq o
  | none => otherwise

def next (s : State n ι ω) : Act n ι ω → State n ι ω
  | .flag k => { s with
      reg := Function.update s.reg k .flagged
      interrupts := Function.update s.interrupts k (-1)
      bhs := Function.update s.bhs k 0 }
  | .request k ok => { s with
      reg := Function.update s.reg k (if ok then .requested else .refused) }
  | .zero k => { s with
      reg := Function.update s.reg k .counted
      interrupts := Function.update s.interrupts k 0 }
  | .kmalloc i o junk => { s.go i (.store, .idle) with
      data := Function.update s.data i (some o)
      irq := Function.update s.irq o junk
      log := .alloc o :: s.log }
  | .store i => { s.go i (.incInterrupts, (s.place i).2) with
      irq := match s.data i with
        | some o => Function.update s.irq o (line i)
        | none => s.irq
      log := .access (s.data i) 0 1 :: s.log }
  | .incInterrupts i =>
    -- the workqueue solution takes the field, the tasklet solution the handler's own argument
    let k := if lab = .all_tasklet_dynamic then line i else s.target i (line i)
    { s.go i (.schedule, (s.place i).2) with
      interrupts := Function.update s.interrupts k (atomic_inc (s.interrupts k))
      log := if lab = .all_tasklet_dynamic then s.log else .access (s.data i) 0 1 :: s.log }
  | .schedule i => { s.go i (.mdelay, .pending) with log := .access (s.data i) 0 1 :: s.log }
  | .leave i => s.go i (.returned, (s.place i).2)
  | .run i => { s.go i ((s.place i).1, .incBhs) with log := .access (s.data i) 0 1 :: s.log }
  | .incBhs i =>
    let k := s.target i (line i)
    { s.go i ((s.place i).1, .kfree) with
      bhs := Function.update s.bhs k (atomic_inc (s.bhs k))
      log := .access (s.data i) 0 1 :: s.log }
  | .kfree i => { s.go i ((s.place i).1, .finished) with log := .free (s.data i) :: s.log }
  | .free k => { s with
      reg := if 0 ≤ s.interrupts k then Function.update s.reg k .freed else s.reg
      exit := s.exit + 1 }

def machine : Machine (State n ι ω) (Act n ι ω) := ⟨Enabled line, next lab line⟩

variable [Fintype ι]

/-- The counter of a line agrees with the interrupts that `my_interrupt` has counted on it. -/
def Exact (s : State n ι ω) : Prop :=
  ∀ k, (s.reg k).zeroed = true → s.interrupts k = Int32.ofNat (tally line k pastInterrupts s.place)

/-- What the run has done with the lines: those that `request_irq` has given out are the registered
ones, and `freeup_irqs` has freed them as it came past. -/
structure Granted (as : List (Act n ι ω)) (s : State n ι ω) : Prop where
  granted : ∀ k, .request k true ∈ as ↔ (s.reg k).silent = false
  freed : ∀ k, s.reg k = .freed → k.val < s.exit

/-- A line's counter is set to 0 before any interrupt of the line has been counted in it. -/
def ZeroedInTime (s : State n ι ω) : Act n ι ω → Prop
  | .zero k => ∀ i, line i = k → (s.place i).1.counted = false
  | _ => True

end

section
variable {n : Nat} {ι ω : Type} (line : ι → Fin n)

/-- What an interrupt holds. -/
def slot (s : State n ι ω) (i : ι) : Option ω := bif held (s.place i) then s.data i else none

structure Known (s : State n ι ω) (i : ι) : Prop where
  idle : (s.place i).2 = .idle ↔ (s.place i).1.scheduled = false
  data : held (s.place i) = true → ∃ o, s.data i = some o
  irq : (s.place i).1.stored = true → held (s.place i) = true → ∀ o ∈ s.data i, s.irq o = line i

structure Inv [Fintype ι] [DecidableEq ω] (s : State n ι ω) : Prop where
  owned : Owned (slot s) s.log
  known : ∀ i, Known line s i
  silent : ∀ i, (s.reg (line i)).silent = true → s.place i = (.kmalloc, .idle)
  bhs : ∀ k, s.reg k ≠ .untouched → s.bhs k = Int32.ofNat (tally line k pastBhs s.place)
  interrupts : ∀ k, (s.reg k).zeroed = true →
    ∃ m ≤ tally line k pastInterrupts s.place, s.interrupts k = Int32.ofNat m
  flagged : ∀ k, s.reg k = .flagged ∨ s.reg k = .refused → s.interrupts k = -1
  exited : ∀ k, k.val < s.exit → s.reg k = .refused ∨ s.reg k = .freed

variable {line} {s t : State n ι ω} {i : ι}

theorem slot_held {o : ω} (h : held (s.place i) = true) (own : s.data i = some o) :
    slot s i = some o := by
  rw [slot, h, own]
  rfl

theorem Known.target (h : Known line s i) (stored : (s.place i).1.stored = true)
    (here : held (s.place i) = true) : s.target i (line i) = line i := by
  obtain ⟨o, own⟩ := h.data here
  rw [State.target, own]
  exact h.irq stored here o own

/-- An interrupt whose bottom half is under way has been through its handler's stores. -/
theorem Known.begun (h : Known line s i) (busy : (s.place i).2 ≠ .idle) :
    (s.place i).1.scheduled = true ∧ (s.place i).1.stored = true := by
  have scheduled : (s.place i).1.scheduled = true :=
    Bool.eq_true_of_not_eq_false fun early => busy (h.idle.mpr early)
  refine ⟨scheduled, ?_⟩
  cases here : (s.place i).1 <;> rw [here] at scheduled <;> first | rfl | cases scheduled

variable [Fintype ι]

variable [DecidableEq ω]

theorem inv_init (line : ι → Fin n) (memory : Fin n → Int32) (irq : ω → Fin n) :
    Inv line (init memory irq : State n ι ω) := by
  refine ⟨owned_nil, fun i => ⟨iff_of_true rfl rfl, nofun, nofun⟩, fun _ _ => rfl, ?_, nofun, ?_,
    nofun⟩
  · exact fun k touched => absurd rfl touched
  · rintro k (h | h) <;> cases h

/-- A step of `get_irqs` or `freeup_irqs`, which leaves the handlers and their objects alone. -/
theorem inv_setup (h : Inv line s) (place : t.place = s.place) (data : t.data = s.data)
    (irq : t.irq = s.irq) (log : t.log = s.log)
    (silent : ∀ k, (t.reg k).silent = true → (s.reg k).silent = true)
    (bhs : ∀ k, t.reg k ≠ .untouched → t.bhs k = Int32.ofNat (tally line k pastBhs s.place))
    (interrupts : ∀ k, (t.reg k).zeroed = true →
      ∃ m ≤ tally line k pastInterrupts s.place, t.interrupts k = Int32.ofNat m)
    (flagged : ∀ k, t.reg k = .flagged ∨ t.reg k = .refused → t.interrupts k = -1)
    (exited : ∀ k, k.val < t.exit → t.reg k = .refused ∨ t.reg k = .freed) : Inv line t := by
  have same : slot t = slot s := by
    funext i
    rw [slot, slot, place, data]
  refine ⟨?_, fun i => ⟨?_, ?_, ?_⟩, fun i quiet => ?_, ?_, ?_, flagged, exited⟩
  · rw [same, log]
    exact h.owned
  · rw [place]
    exact (h.known i).idle
  · rw [place, data]
    exact (h.known i).data
  · rw [place, data, irq]
    exact (h.known i).irq
  · rw [place]
    exact h.silent i (silent _ quiet)
  · rw [place]
    exact bhs
  · rw [place]
    exact interrupts

theorem inv_flag (h : Inv line s) {k : Fin n} (fresh : s.reg k = .untouched) :
    Inv line { s with
      reg := Function.update s.reg k .flagged
      interrupts := Function.update s.interrupts k (-1)
      bhs := Function.update s.bhs k 0 } := by
  refine inv_setup h rfl rfl rfl rfl (fun j quiet => ?_) (fun j touched => ?_) (fun j zeroed => ?_)
    (fun j either => ?_) (fun j past => ?_) <;> dsimp only at * <;> by_cases hj : j = k
  · rw [hj, fresh]
    rfl
  · rwa [Function.update_of_ne hj] at quiet
  · subst hj
    have none : tally line j pastBhs s.place = 0 := by
      refine tally_zero fun i hi => ?_
      rw [h.silent i (by rw [hi, fresh]; rfl)]
      rfl
    rw [Function.update_self, none]
    rfl
  · rw [Function.update_of_ne hj] at touched ⊢
    exact h.bhs j touched
  · rw [hj, Function.update_self] at zeroed
    cases zeroed
  · rw [Function.update_of_ne hj] at zeroed ⊢
    exact h.interrupts j zeroed
  · rw [hj, Function.update_self]
  · rw [Function.update_of_ne hj] at either ⊢
    exact h.flagged j either
  · have earlier := h.exited j past
    rw [hj, fresh] at earlier
    rcases earlier with done | done <;> cases done
  · rw [Function.update_of_ne hj]
    exact h.exited j past

theorem inv_request (h : Inv line s) {k : Fin n} (flagged : s.reg k = .flagged) {r : Reg}
    (answer : r = .requested ∨ r = .refused) :
    Inv line { s with reg := Function.update s.reg k r } := by
  have still : r ≠ .untouched ∧ r.zeroed = false := by
    rcases answer with rfl | rfl <;> exact ⟨nofun, rfl⟩
  refine inv_setup h rfl rfl rfl rfl (fun j quiet => ?_) (fun j touched => ?_) (fun j zeroed => ?_)
    (fun j either => ?_) (fun j past => ?_) <;> dsimp only at * <;> by_cases hj : j = k
  · rw [hj, flagged]
    rfl
  · rwa [Function.update_of_ne hj] at quiet
  · exact h.bhs j (by rw [hj, flagged]; nofun)
  · rw [Function.update_of_ne hj] at touched
    exact h.bhs j touched
  · rw [hj, Function.update_self, still.2] at zeroed
    cases zeroed
  · rw [Function.update_of_ne hj] at zeroed
    exact h.interrupts j zeroed
  · exact h.flagged j (by rw [hj, flagged]; exact Or.inl rfl)
  · rw [Function.update_of_ne hj] at either
    exact h.flagged j either
  · have earlier := h.exited j past
    rw [hj, flagged] at earlier
    rcases earlier with done | done <;> cases done
  · rw [Function.update_of_ne hj]
    exact h.exited j past

theorem inv_zero (h : Inv line s) {k : Fin n} (requested : s.reg k = .requested) :
    Inv line { s with
      reg := Function.update s.reg k .counted
      interrupts := Function.update s.interrupts k 0 } := by
  refine inv_setup h rfl rfl rfl rfl (fun j quiet => ?_) (fun j touched => ?_) (fun j zeroed => ?_)
    (fun j either => ?_) (fun j past => ?_) <;> dsimp only at * <;> by_cases hj : j = k
  · rw [hj, Function.update_self] at quiet
    cases quiet
  · rwa [Function.update_of_ne hj] at quiet
  · exact h.bhs j (by rw [hj, requested]; nofun)
  · rw [Function.update_of_ne hj] at touched
    exact h.bhs j touched
  · subst hj
    exact ⟨0, Nat.zero_le _, Function.update_self ..⟩
  · rw [Function.update_of_ne hj] at zeroed ⊢
    exact h.interrupts j zeroed
  · rw [hj, Function.update_self] at either
    rcases either with done | done <;> cases done
  · rw [Function.update_of_ne hj] at either ⊢
    exact h.flagged j either
  · have earlier := h.exited j past
    rw [hj, requested] at earlier
    rcases earlier with done | done <;> cases done
  · rw [Function.update_of_ne hj]
    exact h.exited j past

/-- The counter of a line tells `freeup_irqs` whether the line is registered. -/
theorem Inv.registered_iff (few : Fintype.card ι < 2 ^ 31) (h : Inv line s) {k : Fin n}
    (settled : (s.reg k).settled = true) : 0 ≤ s.interrupts k ↔ (s.reg k).zeroed = true := by
  constructor
  · intro nonneg
    cases here : s.reg k with
    | refused =>
      rw [h.flagged k (Or.inr here)] at nonneg
      exact absurd nonneg (by decide)
    | counted => rfl
    | freed => rfl
    | untouched => rw [here] at settled; cases settled
    | flagged => rw [here] at settled; cases settled
    | requested => rw [here] at settled; cases settled
  · intro zeroed
    obtain ⟨m, le, value⟩ := h.interrupts k zeroed
    rw [value]
    exact Int32.zero_le_ofNat_of_lt (Nat.lt_of_le_of_lt (le.trans (tally_le_card ..)) few)

theorem inv_free (few : Fintype.card ι < 2 ^ 31) (h : Inv line s) {k : Fin n}
    (settled : (s.reg k).settled = true) (turn : s.exit = k.val) :
    Inv line { s with
      reg := if 0 ≤ s.interrupts k then Function.update s.reg k .freed else s.reg
      exit := s.exit + 1 } := by
  have registered := h.registered_iff few settled
  by_cases listed : 0 ≤ s.interrupts k
  · rw [if_pos listed]
    have zeroed := registered.mp listed
    have touched : s.reg k ≠ .untouched := fun here => by rw [here] at zeroed; cases zeroed
    refine inv_setup h rfl rfl rfl rfl (fun j quiet => ?_) (fun j still => ?_) (fun j still => ?_)
      (fun j either => ?_) (fun j past => ?_) <;> dsimp only at * <;> by_cases hj : j = k
    · rw [hj, Function.update_self] at quiet
      cases quiet
    · rwa [Function.update_of_ne hj] at quiet
    · exact h.bhs j (by rw [hj]; exact touched)
    · rw [Function.update_of_ne hj] at still
      exact h.bhs j still
    · exact h.interrupts j (by rw [hj]; exact zeroed)
    · rw [Function.update_of_ne hj] at still
      exact h.interrupts j still
    · rw [hj, Function.update_self] at either
      rcases either with done | done <;> cases done
    · rw [Function.update_of_ne hj] at either
      exact h.flagged j either
    · exact Or.inr (by rw [hj, Function.update_self])
    · have other : j.val ≠ k.val := fun same => hj (Fin.ext same)
      rw [Function.update_of_ne hj]
      exact h.exited j (by omega)
  · rw [if_neg listed]
    refine inv_setup h rfl rfl rfl rfl (fun _ => id) h.bhs h.interrupts h.flagged fun j past => ?_
    by_cases hj : j = k
    · rw [hj]
      have unzeroed := mt registered.mpr listed
      cases here : s.reg k with
      | refused => exact Or.inl rfl
      | counted => rw [here] at unzeroed; exact absurd rfl unzeroed
      | freed => exact Or.inr rfl
      | untouched => rw [here] at settled; cases settled
      | flagged => rw [here] at settled; cases settled
      | requested => rw [here] at settled; cases settled
    · have other : j.val ≠ k.val := fun same => hj (Fin.ext same)
      exact h.exited j (by dsimp only at past; omega)

variable [DecidableEq ι]

/-- A step of interrupt `i`: what it has to leave as it is for the others, and to establish for
itself. -/
theorem inv_step {x : Place} (h : Inv line s) (place : t.place = Function.update s.place i x)
    (data : ∀ j, j ≠ i → t.data j = s.data j)
    (irq : ∀ j o, j ≠ i → slot s j = some o → t.irq o = s.irq o)
    (reg : t.reg = s.reg) (exit : t.exit = s.exit) (owned : Owned (slot t) t.log)
    (known : Known line t i) (heard : (s.reg (line i)).silent = false)
    (bhs : ∀ k, s.reg k ≠ .untouched → t.bhs k = Int32.ofNat (tally line k pastBhs t.place))
    (interrupts : ∀ k, (s.reg k).zeroed = true →
      ∃ m ≤ tally line k pastInterrupts t.place, t.interrupts k = Int32.ofNat m)
    (others : ∀ k, (s.reg k).silent = true → t.interrupts k = s.interrupts k) : Inv line t := by
  refine ⟨owned, fun j => ?_, fun j quiet => ?_, ?_, ?_, fun k either => ?_, ?_⟩
  · by_cases hj : j = i
    · exact hj ▸ known
    · have same : t.place j = s.place j := by rw [place, Function.update_of_ne hj]
      refine ⟨?_, ?_, ?_⟩ <;> rw [same]
      · exact (h.known j).idle
      · rw [data j hj]
        exact (h.known j).data
      · rw [data j hj]
        intro stored here o own
        rw [irq j o hj (slot_held here own)]
        exact (h.known j).irq stored here o own
  · rw [reg] at quiet
    by_cases hj : j = i
    · rw [hj, heard] at quiet
      cases quiet
    · rw [place, Function.update_of_ne hj]
      exact h.silent j quiet
  · rw [reg]
    exact bhs
  · rw [reg]
    exact interrupts
  · rw [reg] at either
    rw [others k (by rcases either with here | here <;> rw [here] <;> rfl)]
    exact h.flagged k either
  · rw [exit, reg]
    exact h.exited

omit [DecidableEq ι] in
/-- An interrupt that is under way has come in on a line that is, or was, registered. -/
theorem Inv.not_silent (h : Inv line s) (busy : s.place i ≠ (.kmalloc, .idle)) :
    (s.reg (line i)).silent = false :=
  Bool.eq_false_iff.mpr fun quiet => busy (h.silent i quiet)

omit [Fintype ι] [DecidableEq ω] in
/-- What a step of one interrupt changes of the slots. -/
theorem slot_step {x : Place} {p : Option ω} (place : t.place = Function.update s.place i x)
    (data : ∀ j, j ≠ i → t.data j = s.data j) (here : slot t i = p) :
    slot t = Function.update (slot s) i p := by
  funext j
  by_cases hj : j = i
  · subst hj
    rw [Function.update_self, here]
  · rw [Function.update_of_ne hj, slot, slot, place, Function.update_of_ne hj, data j hj]

/-- A step of one interrupt that does not count it. -/
theorem inv_still {x : Place} (h : Inv line s) (place : t.place = Function.update s.place i x)
    (data : ∀ j, j ≠ i → t.data j = s.data j)
    (irq : ∀ j o, j ≠ i → slot s j = some o → t.irq o = s.irq o)
    (reg : t.reg = s.reg) (exit : t.exit = s.exit) (owned : Owned (slot t) t.log)
    (known : Known line t i) (heard : (s.reg (line i)).silent = false) (bhs : t.bhs = s.bhs)
    (interrupts : t.interrupts = s.interrupts) (pastBhs_ : pastBhs x = pastBhs (s.place i))
    (pastInterrupts_ : pastInterrupts x = pastInterrupts (s.place i)) : Inv line t := by
  refine inv_step h place data irq reg exit owned known heard (fun k touched => ?_)
    (fun k zeroed => ?_) (fun k _ => congrFun interrupts k)
  · rw [bhs, place, tally_stay fun _ => pastBhs_]
    exact h.bhs k touched
  · rw [interrupts, place, tally_stay fun _ => pastInterrupts_]
    exact h.interrupts k zeroed

omit [Fintype ι] [DecidableEq ω] [DecidableEq ι] in
theorem known_moved {x : Place} (h : Known line s i) (place : t.place i = x)
    (data : t.data = s.data) (irq : t.irq = s.irq)
    (idle : x.2 = .idle ↔ x.1.scheduled = false) (here : held x = true → held (s.place i) = true)
    (stored : x.1.stored = true → (s.place i).1.stored = true) : Known line t i := by
  refine ⟨?_, ?_, ?_⟩ <;> rw [place]
  · exact idle
  · rw [data]
    exact fun still => h.data (here still)
  · rw [data, irq]
    exact fun past still => h.irq (stored past) (here still)

omit [Fintype ι] [DecidableEq ω] in
/-- The slots stay where a step neither takes memory nor gives it back. -/
theorem slot_same {x : Place} (place : t.place = Function.update s.place i x)
    (data : t.data = s.data) (same : held x = held (s.place i)) : slot t = slot s := by
  funext j
  rw [slot, slot, place, data]
  by_cases hj : j = i
  · subst hj
    rw [Function.update_self, same]
  · rw [Function.update_of_ne hj]

omit [Fintype ι] [DecidableEq ω] [DecidableEq ι] in
theorem fresh_free (h : Known line s i) (early : (s.place i).1.scheduled = false)
    (begun : (s.place i).1 ≠ .kmalloc) : (s.place i).2 = .idle ∧ held (s.place i) = true := by
  have idle := h.idle.mpr early
  refine ⟨idle, ?_⟩
  unfold held
  rw [idle]
  simpa using begun

theorem inv_kmalloc {o : ω} {junk : Fin n} (h : Inv line s) (lab : Lab)
    (enabled : Enabled line s (.kmalloc i o junk)) :
    Inv line (next lab line s (.kmalloc i o junk)) := by
  obtain ⟨here, heard, _, fresh⟩ := enabled
  have empty : slot s i = none := by
    rw [slot, here]
    rfl
  have full : slot (next lab line s (.kmalloc i o junk)) i = some o := by
    refine slot_held ?_ (Function.update_self ..)
    rw [show (next lab line s (.kmalloc i o junk)).place i = _ from Function.update_self ..]
    rfl
  refine inv_still h rfl (fun j hj => Function.update_of_ne hj ..) (fun j p hj own => ?_) rfl rfl ?_
    ⟨?_, ?_, ?_⟩ ?_ rfl rfl (by rw [here]; rfl) (by rw [here]; rfl)
  · have other : p ≠ o := by
      rintro rfl
      rw [h.owned.live own] at fresh
      cases fresh
    exact Function.update_of_ne other ..
  · rw [slot_step rfl (fun j hj => Function.update_of_ne hj ..) full]
    exact h.owned.alloc empty fresh
  all_goals try rw [show (next lab line s (.kmalloc i o junk)).place i = _ from
    Function.update_self ..]
  · exact iff_of_true rfl rfl
  · exact fun _ => ⟨o, Function.update_self ..⟩
  · exact nofun
  · cases reg : s.reg (line i) <;> rw [reg] at heard <;> first | rfl | cases heard

theorem inv_store (h : Inv line s) (lab : Lab) (here : (s.place i).1 = .store) :
    Inv line (next lab line s (.store i)) := by
  obtain ⟨idle, held_⟩ := fresh_free (h.known i) (by rw [here]; rfl) (by rw [here]; nofun)
  obtain ⟨o, own⟩ := (h.known i).data held_
  have stands := slot_held held_ own
  have after : (next lab line s (.store i)).place i = (.incInterrupts, (s.place i).2) :=
    Function.update_self ..
  have irq : (next lab line s (.store i)).irq = Function.update s.irq o (line i) := by
    simp only [next, own]
  have same : held (.incInterrupts, (s.place i).2) = held (s.place i) := by
    rw [held_, idle]
    rfl
  refine inv_still h rfl (fun _ _ => rfl) (fun j p hj other => ?_) rfl rfl ?_ ⟨?_, ?_, ?_⟩
    (h.not_silent fun start => by rw [start] at here; cases here) rfl rfl rfl
    (by unfold pastInterrupts; rw [here]; rfl)
  · rw [irq, Function.update_of_ne (h.owned.apart other stands hj)]
  · have still : slot (next lab line s (.store i)) = slot s := slot_same rfl rfl same
    rw [still]
    have log : (next lab line s (.store i)).log = .access (some o) 0 1 :: s.log := by
      simp only [next, own]
    rw [log]
    exact h.owned.access stands 0 1
  all_goals rw [after]
  · exact iff_of_true idle rfl
  · exact fun _ => ⟨o, own⟩
  · rintro _ _ p (mem : s.data i = some p)
    rw [irq, Option.some.inj (mem.symm.trans own), Function.update_self]

/-- A step that leaves both the memory and the counters alone. -/
theorem inv_moved {x : Place} (h : Inv line s) (place : t.place = Function.update s.place i x)
    (data : t.data = s.data) (irq : t.irq = s.irq) (reg : t.reg = s.reg) (exit : t.exit = s.exit)
    (bhs : t.bhs = s.bhs) (interrupts : t.interrupts = s.interrupts)
    (log : t.log = s.log ∨ t.log = .access (s.data i) 0 1 :: s.log)
    (held_ : held (s.place i) = true) (still : held x = true)
    (idle : x.2 = .idle ↔ x.1.scheduled = false)
    (stored : x.1.stored = true → (s.place i).1.stored = true)
    (begun : s.place i ≠ (.kmalloc, .idle)) (pastBhs_ : pastBhs x = pastBhs (s.place i))
    (pastInterrupts_ : pastInterrupts x = pastInterrupts (s.place i)) : Inv line t := by
  obtain ⟨o, own⟩ := (h.known i).data held_
  have same : slot t = slot s := slot_same place data (still.trans held_.symm)
  have here : t.place i = x := by rw [place, Function.update_self]
  refine inv_still h place (fun j _ => congrFun data j) (fun _ p _ _ => congrFun irq p) reg exit ?_
    (known_moved (h.known i) here data irq idle (fun _ => held_) stored) (h.not_silent begun) bhs
    interrupts pastBhs_ pastInterrupts_
  rw [same]
  rcases log with log | log <;> rw [log]
  · exact h.owned
  · rw [own]
    exact h.owned.access (slot_held held_ own) 0 1

omit [Fintype ι] [DecidableEq ω] [DecidableEq ι] in
theorem not_start (h : (s.place i).1 ≠ .kmalloc ∨ (s.place i).2 ≠ .idle) :
    s.place i ≠ (.kmalloc, .idle) := by
  intro start
  rw [start] at h
  rcases h with h | h <;> exact h rfl

theorem inv_schedule (h : Inv line s) (lab : Lab) (here : (s.place i).1 = .schedule) :
    Inv line (next lab line s (.schedule i)) := by
  obtain ⟨idle, held_⟩ := fresh_free (h.known i) (by rw [here]; rfl) (by rw [here]; nofun)
  refine inv_moved h rfl rfl rfl rfl rfl rfl rfl (Or.inr rfl) held_ rfl (iff_of_false nofun nofun)
    (fun _ => by rw [here]; rfl) (not_start (Or.inl (by rw [here]; nofun))) ?_ ?_
  · unfold pastBhs
    rw [idle]
    rfl
  · unfold pastInterrupts
    rw [here]
    rfl

/-- The bottom half may be through by now. -/
theorem inv_leave (h : Inv line s) (lab : Lab) (here : (s.place i).1 = .mdelay) :
    Inv line (next lab line s (.leave i)) := by
  have after : (next lab line s (.leave i)).place i = (.returned, (s.place i).2) :=
    Function.update_self ..
  have same : held (.returned, (s.place i).2) = held (s.place i) := by
    unfold held
    rw [here]
    rfl
  have still : slot (next lab line s (.leave i)) = slot s := slot_same rfl rfl same
  have idle := (h.known i).idle
  rw [here] at idle
  refine inv_still h rfl (fun _ _ => rfl) (fun _ _ _ _ => rfl) rfl rfl (still ▸ h.owned)
    (known_moved (h.known i) after rfl rfl idle (fun stays => same ▸ stays)
      (fun _ => by rw [here]; rfl))
    (h.not_silent (not_start (Or.inl (by rw [here]; nofun)))) rfl rfl rfl ?_
  unfold pastInterrupts
  rw [here]
  rfl

omit [Fintype ι] [DecidableEq ω] [DecidableEq ι] in
/-- While its bottom half is under way an interrupt holds its object. -/
theorem Known.busy (h : Known line s i) {b : BottomPc} (here : (s.place i).2 = b)
    (pending : b ≠ .idle) (working : b ≠ .finished) : held (s.place i) = true := by
  have scheduled := (h.begun (by rw [here]; exact pending)).1
  unfold held
  rw [here]
  cases top : (s.place i).1 <;> rw [top] at scheduled <;>
    first | simpa using working | cases scheduled

theorem inv_run (h : Inv line s) (lab : Lab) (here : (s.place i).2 = .pending) :
    Inv line (next lab line s (.run i)) := by
  have begun := (h.known i).begun (by rw [here]; nofun)
  have held_ := (h.known i).busy here nofun nofun
  have still : held ((s.place i).1, .incBhs) = true := by
    unfold held at held_ ⊢
    rw [here] at held_
    exact held_
  refine inv_moved h rfl rfl rfl rfl rfl rfl rfl (Or.inr rfl) held_ still
    (iff_of_false nofun fun early => ?_) (fun _ => begun.2)
    (not_start (Or.inr (by rw [here]; nofun))) ?_ rfl
  · dsimp only at early
    rw [begun.1] at early
    cases early
  · unfold pastBhs
    rw [here]
    rfl

theorem inv_kfree (h : Inv line s) (lab : Lab) (here : (s.place i).2 = .kfree) :
    Inv line (next lab line s (.kfree i)) := by
  have begun := (h.known i).begun (by rw [here]; nofun)
  have held_ := (h.known i).busy here nofun nofun
  obtain ⟨o, own⟩ := (h.known i).data held_
  have after : (next lab line s (.kfree i)).place i = ((s.place i).1, .finished) :=
    Function.update_self ..
  have dropped : held ((s.place i).1, .finished) = false := by
    unfold held
    simp
  have empty : slot (next lab line s (.kfree i)) i = none := by
    rw [slot, after, dropped]
    rfl
  refine inv_still h rfl (fun _ _ => rfl) (fun _ _ _ _ => rfl) rfl rfl ?_ ⟨?_, ?_, ?_⟩
    (h.not_silent (not_start (Or.inr (by rw [here]; nofun)))) rfl rfl ?_ rfl
  · have left : slot (next lab line s (.kfree i)) = Function.update (slot s) i none :=
      slot_step rfl (fun _ _ => rfl) empty
    rw [left, show (next lab line s (.kfree i)).log = .free (s.data i) :: s.log from rfl, own]
    exact h.owned.free (slot_held held_ own)
  · rw [after]
    refine iff_of_false nofun fun early => ?_
    dsimp only at early
    rw [begun.1] at early
    cases early
  · rw [after, dropped]
    nofun
  · rw [after, dropped]
    nofun
  · unfold pastBhs
    rw [here]
    rfl

theorem inv_incInterrupts (h : Inv line s) (lab : Lab) (here : (s.place i).1 = .incInterrupts) :
    Inv line (next lab line s (.incInterrupts i)) := by
  obtain ⟨idle, held_⟩ := fresh_free (h.known i) (by rw [here]; rfl) (by rw [here]; nofun)
  obtain ⟨o, own⟩ := (h.known i).data held_
  have target : (if lab = .all_tasklet_dynamic then line i else s.target i (line i)) = line i := by
    rw [(h.known i).target (by rw [here]; rfl) held_, ite_self]
  have moved : (next lab line s (.incInterrupts i)).place =
      Function.update s.place i (.schedule, (s.place i).2) := rfl
  have after : (next lab line s (.incInterrupts i)).place i = (.schedule, (s.place i).2) :=
    Function.update_self ..
  have same : held (.schedule, (s.place i).2) = held (s.place i) := by
    rw [held_, idle]
    rfl
  have still : slot (next lab line s (.incInterrupts i)) = slot s := slot_same rfl rfl same
  have loud := h.not_silent (not_start (Or.inl (by rw [here]; nofun)))
  have out : pastInterrupts (s.place i) = false := by
    unfold pastInterrupts
    rw [here]
    rfl
  have counter : (next lab line s (.incInterrupts i)).interrupts =
      Function.update s.interrupts (line i) (atomic_inc (s.interrupts (line i))) := by
    simp only [next, target]
  refine inv_step h rfl (fun _ _ => rfl) (fun _ _ _ _ => rfl) rfl rfl ?_
    (known_moved (h.known i) after rfl rfl (iff_of_true idle rfl) (fun stays => same ▸ stays)
      (fun _ => by rw [here]; rfl)) loud (fun k touched => ?_) (fun k zeroed => ?_)
    (fun k quiet => ?_)
  · rw [still]
    simp only [next]
    split
    · exact h.owned
    · rw [own]
      exact h.owned.access (slot_held held_ own) 0 1
  · have uncounted : pastBhs (.schedule, (s.place i).2) = pastBhs (s.place i) := rfl
    rw [moved, tally_stay fun _ => uncounted]
    exact h.bhs k touched
  · obtain ⟨m, le, value⟩ := h.interrupts k zeroed
    rw [counter, moved]
    by_cases hk : k = line i
    · subst hk
      refine ⟨m + 1, ?_, ?_⟩
      · rw [tally_enter out rfl]
        exact Nat.succ_le_succ le
      · rw [Function.update_self, value, atomic_inc_ofNat]
    · refine ⟨m, ?_, ?_⟩
      · rwa [tally_stay fun same => absurd same.symm hk]
      · rw [Function.update_of_ne hk, value]
  · rw [counter, Function.update_of_ne]
    rintro rfl
    rw [loud] at quiet
    cases quiet

theorem inv_incBhs (h : Inv line s) (lab : Lab) (here : (s.place i).2 = .incBhs) :
    Inv line (next lab line s (.incBhs i)) := by
  have begun := (h.known i).begun (by rw [here]; nofun)
  have held_ := (h.known i).busy here nofun nofun
  obtain ⟨o, own⟩ := (h.known i).data held_
  have moved : (next lab line s (.incBhs i)).place =
      Function.update s.place i ((s.place i).1, .kfree) := rfl
  have after : (next lab line s (.incBhs i)).place i = ((s.place i).1, .kfree) :=
    Function.update_self ..
  have same : held ((s.place i).1, .kfree) = held (s.place i) := by
    unfold held
    rw [here]
    rfl
  have still : slot (next lab line s (.incBhs i)) = slot s := slot_same rfl rfl same
  have loud := h.not_silent (not_start (Or.inr (by rw [here]; nofun)))
  have out : pastBhs (s.place i) = false := by
    unfold pastBhs
    rw [here]
    rfl
  have counter : (next lab line s (.incBhs i)).bhs =
      Function.update s.bhs (line i) (atomic_inc (s.bhs (line i))) := by
    simp only [next, (h.known i).target begun.2 held_]
  refine inv_step h rfl (fun _ _ => rfl) (fun _ _ _ _ => rfl) rfl rfl ?_
    (known_moved (h.known i) after rfl rfl (iff_of_false nofun fun early => ?_)
      (fun stays => same ▸ stays) (fun _ => begun.2)) loud (fun k touched => ?_)
    (fun k zeroed => ?_) (fun _ _ => rfl)
  · have log : (next lab line s (.incBhs i)).log = .access (s.data i) 0 1 :: s.log := rfl
    rw [still, log, own]
    exact h.owned.access (slot_held held_ own) 0 1
  · dsimp only at early
    rw [begun.1] at early
    cases early
  · rw [counter, moved]
    by_cases hk : k = line i
    · subst hk
      rw [Function.update_self, tally_enter out rfl, h.bhs _ touched, atomic_inc_ofNat]
    · rw [Function.update_of_ne hk, tally_stay fun same => absurd same.symm hk]
      exact h.bhs k touched
  · have uncounted : pastInterrupts ((s.place i).1, .kfree) = pastInterrupts (s.place i) := rfl
    rw [moved, tally_stay fun _ => uncounted]
    exact h.interrupts k zeroed

theorem inv_next (few : Fintype.card ι < 2 ^ 31) (lab : Lab) {a : Act n ι ω} (h : Inv line s)
    (enabled : Enabled line s a) : Inv line (next lab line s a) := by
  cases a with
  | flag k => exact inv_flag h enabled.1
  | request k ok =>
    refine inv_request h enabled ?_
    cases ok with
    | true => exact Or.inl rfl
    | false => exact Or.inr rfl
  | zero k => exact inv_zero h enabled
  | kmalloc i o junk => exact inv_kmalloc h lab enabled
  | store i => exact inv_store h lab enabled
  | incInterrupts i => exact inv_incInterrupts h lab enabled
  | schedule i => exact inv_schedule h lab enabled
  | leave i => exact inv_leave h lab enabled
  | run i => exact inv_run h lab enabled
  | incBhs i => exact inv_incBhs h lab enabled
  | kfree i => exact inv_kfree h lab enabled
  | free k => exact inv_free few h (enabled.1 k) enabled.2.1

omit [DecidableEq ω] in
/-- A step of one interrupt that does not count it in `interrupts`. -/
theorem exact_still {x : Place} (exact_ : Exact line s) (reg : t.reg = s.reg)
    (interrupts : t.interrupts = s.interrupts) (place : t.place = Function.update s.place i x)
    (same : pastInterrupts x = pastInterrupts (s.place i)) : Exact line t := by
  intro k zeroed
  rw [reg] at zeroed
  rw [interrupts, place, tally_stay fun _ => same]
  exact exact_ k zeroed

theorem exact_incInterrupts (h : Inv line s) (exact_ : Exact line s) (lab : Lab)
    (here : (s.place i).1 = .incInterrupts) :
    Exact line (next lab line s (.incInterrupts i)) := by
  obtain ⟨_, held_⟩ := fresh_free (h.known i) (by rw [here]; rfl) (by rw [here]; nofun)
  have target : (if lab = .all_tasklet_dynamic then line i else s.target i (line i)) = line i := by
    rw [(h.known i).target (by rw [here]; rfl) held_, ite_self]
  have out : pastInterrupts (s.place i) = false := by
    unfold pastInterrupts
    rw [here]
    rfl
  have moved : (next lab line s (.incInterrupts i)).place =
      Function.update s.place i (.schedule, (s.place i).2) := rfl
  have counter : (next lab line s (.incInterrupts i)).interrupts =
      Function.update s.interrupts (line i) (atomic_inc (s.interrupts (line i))) := by
    simp only [next, target]
  intro k zeroed
  rw [counter, moved]
  by_cases hk : k = line i
  · subst hk
    rw [Function.update_self, tally_enter out rfl, exact_ _ zeroed, atomic_inc_ofNat]
  · rw [Function.update_of_ne hk, tally_stay fun same => absurd same.symm hk]
    exact exact_ k zeroed

theorem exact_next (few : Fintype.card ι < 2 ^ 31) (lab : Lab) {a : Act n ι ω} (h : Inv line s)
    (exact_ : Exact line s) (enabled : Enabled line s a) (ok : ZeroedInTime line s a) :
    Exact line (next lab line s a) := by
  cases a with
  | flag k =>
    intro j zeroed
    have hj : j ≠ k := by
      rintro rfl
      rw [show (next lab line s (.flag j)).reg j = .flagged from Function.update_self ..] at zeroed
      cases zeroed
    simp only [next, Function.update_of_ne hj] at zeroed ⊢
    exact exact_ j zeroed
  | request k granted =>
    intro j zeroed
    have hj : j ≠ k := by
      rintro rfl
      simp only [next, Function.update_self] at zeroed
      cases granted <;> cases zeroed
    simp only [next, Function.update_of_ne hj] at zeroed
    exact exact_ j zeroed
  | zero k =>
    intro j zeroed
    by_cases hj : j = k
    · subst hj
      have none : tally line j pastInterrupts s.place = 0 := tally_zero ok
      rw [show (next lab line s (.zero j)).interrupts j = 0 from Function.update_self ..,
        show (next lab line s (.zero j)).place = s.place from rfl, none]
      rfl
    · simp only [next, Function.update_of_ne hj] at zeroed ⊢
      exact exact_ j zeroed
  | kmalloc i o junk =>
    have here : s.place i = (.kmalloc, .idle) := enabled.1
    exact exact_still (x := (.store, .idle)) exact_ rfl rfl rfl (by rw [here]; rfl)
  | store i =>
    have here : (s.place i).1 = .store := enabled
    exact exact_still (x := (.incInterrupts, _)) exact_ rfl rfl rfl
      (by unfold pastInterrupts; rw [here]; rfl)
  | incInterrupts i => exact exact_incInterrupts h exact_ lab enabled
  | schedule i =>
    have here : (s.place i).1 = .schedule := enabled
    exact exact_still (x := (.mdelay, .pending)) exact_ rfl rfl rfl
      (by unfold pastInterrupts; rw [here]; rfl)
  | leave i =>
    have here : (s.place i).1 = .mdelay := enabled
    exact exact_still (x := (.returned, _)) exact_ rfl rfl rfl
      (by unfold pastInterrupts; rw [here]; rfl)
  | run i => exact exact_still (x := (_, .incBhs)) exact_ rfl rfl rfl rfl
  | incBhs i => exact exact_still (x := (_, .kfree)) exact_ rfl rfl rfl rfl
  | kfree i => exact exact_still (x := (_, .finished)) exact_ rfl rfl rfl rfl
  | free k =>
    intro j zeroed
    refine exact_ j ?_
    simp only [next] at zeroed
    split_ifs at zeroed with listed
    · by_cases hj : j = k
      · exact hj ▸ (h.registered_iff few (enabled.1 k)).mp listed
      · rwa [Function.update_of_ne hj] at zeroed
    · exact zeroed

omit [Fintype ι] [DecidableEq ω] [DecidableEq ι] in
/-- A step on line `k`: the register's answer is the only one that gives the line out. -/
theorem granted_step {as : List (Act n ι ω)} {a : Act n ι ω} {k : Fin n} {r : Reg}
    (h : Granted as s) (reg : t.reg = Function.update s.reg k r) (exit : s.exit ≤ t.exit)
    (others : ∀ j, j ≠ k → .request j true ≠ a)
    (given : r.silent = false ↔ .request k true = a ∨ (s.reg k).silent = false)
    (past : r = .freed → k.val < t.exit) : Granted (as ++ [a]) t := by
  refine ⟨fun j => ?_, fun j done => ?_⟩
  · rw [List.mem_append, List.mem_singleton, h.granted j, reg]
    by_cases hj : j = k
    · rw [hj, Function.update_self, given, or_comm]
    · rw [Function.update_of_ne hj]
      exact or_iff_left (others j hj)
  · rw [reg] at done
    by_cases hj : j = k
    · rw [hj, Function.update_self] at done
      exact hj ▸ past done
    · rw [Function.update_of_ne hj] at done
      exact Nat.lt_of_lt_of_le (h.freed j done) exit

omit [Fintype ι] [DecidableEq ω] [DecidableEq ι] in
/-- A step that leaves the lines alone. -/
theorem granted_same {as : List (Act n ι ω)} {a : Act n ι ω} (h : Granted as s)
    (reg : t.reg = s.reg) (exit : s.exit ≤ t.exit) (others : ∀ j, .request j true ≠ a) :
    Granted (as ++ [a]) t := by
  refine ⟨fun j => ?_, fun j done => Nat.lt_of_lt_of_le (h.freed j (reg ▸ done)) exit⟩
  rw [List.mem_append, List.mem_singleton, h.granted j, reg]
  exact or_iff_left (others j)

theorem granted_next (few : Fintype.card ι < 2 ^ 31) (lab : Lab) {as : List (Act n ι ω)}
    {a : Act n ι ω} (inv : Inv line s) (h : Granted as s) (enabled : Enabled line s a) :
    Granted (as ++ [a]) (next lab line s a) := by
  cases a with
  | flag k =>
    refine granted_step (k := k) (r := .flagged) h rfl (Nat.le_refl _) (fun _ _ => nofun) ?_ nofun
    rw [enabled.1]
    exact iff_of_false nofun (by rintro (same | same) <;> cases same)
  | request k ok =>
    have flagged : s.reg k = .flagged := enabled
    refine granted_step (k := k) h rfl (Nat.le_refl _) (fun j hj same => ?_) ?_ fun done => ?_
    · cases same
      exact hj rfl
    · rw [flagged]
      cases ok with
      | true => exact iff_of_true rfl (Or.inl rfl)
      | false => exact iff_of_false nofun (by rintro (same | same) <;> cases same)
    · split_ifs at done
  | zero k =>
    have requested : s.reg k = .requested := enabled
    refine granted_step (k := k) (r := .counted) h rfl (Nat.le_refl _) (fun _ _ => nofun) ?_ nofun
    rw [requested]
    exact iff_of_true rfl (Or.inr rfl)
  | free k =>
    have registered := inv.registered_iff few (enabled.1 k)
    have turn : s.exit = k.val := enabled.2.1
    by_cases listed : 0 ≤ s.interrupts k
    · have zeroed := registered.mp listed
      refine granted_step (k := k) (r := .freed) h (if_pos listed) (Nat.le_succ _)
        (fun _ _ => nofun) ?_ (fun _ => by change k.val < s.exit + 1; omega)
      refine iff_of_true rfl (Or.inr ?_)
      cases here : s.reg k <;> rw [here] at zeroed <;> first | rfl | cases zeroed
    · exact granted_same h (if_neg listed) (Nat.le_succ _) fun _ => nofun
  | _ => exact granted_same h rfl (Nat.le_refl _) fun _ => nofun

/-- An interrupt that has been counted is forgotten when its line's counter is set to 0. -/
theorem not_exact (few : Fintype.card ι < 2 ^ 31) (lab : Lab) {a : Act n ι ω}
    (late : ¬ ZeroedInTime line s a) : ¬ Exact line (next lab line s a) := by
  intro exact_
  cases a with
  | zero k =>
    obtain ⟨i, missed⟩ := not_forall.mp late
    obtain ⟨rfl, counted⟩ := Classical.not_imp.mp missed
    have pos : 0 < tally line (line i) pastInterrupts s.place :=
      tally_pos rfl (Bool.eq_true_of_not_eq_false counted)
    have zeroed : ((next lab line s (.zero (line i))).reg (line i)).zeroed = true := by
      rw [show (next lab line s (.zero (line i))).reg (line i) = .counted from
        Function.update_self ..]
      rfl
    have value := exact_ (line i) zeroed
    rw [show (next lab line s (.zero (line i))).interrupts (line i) = 0 from
      Function.update_self .., ← Int32.toInt_inj,
      Int32.toInt_ofNat_of_lt (Nat.lt_of_le_of_lt (tally_le_card ..) few)] at value
    change (0 : Int) = (tally line (line i) pastInterrupts s.place : Nat) at value
    omega
  | _ => exact late trivial

end

end DeviceDriverEx.AllIrqs
