import DeviceDriverEx.NirqCounters
import DeviceDriverEx.Occupancy
import DeviceDriverEx.Owners
import DeviceDriverEx.Unload

namespace DeviceDriverEx.Multitimer

/-- What a call of `mycdrv_write` executes next. -/
inductive WritePc
  | atomic_inc
  | kmalloc_tl
  | init_timer
  | kmalloc_data
  | fill
  | add_timer
  | load_len
  | store_len (v : Int32)
  | returned
  deriving DecidableEq

/-- Where the timer of a call stands, and what its run of `my_timer_function` executes next. -/
inductive TimerPc
  | idle
  | pending
  | print
  | kfree_tl
  | kfree_data
  | atomic_dec
  | leave
  | finished
  deriving DecidableEq

/-- The fields of a `struct timer_list` and those of a `struct my_dat`, whichever an object is. -/
structure Cell (ω : Type) where
  data : Option ω
  expires : Nat
  l : Int32
  tl : Option ω

/-- The calls `ι` of `mycdrv_write`, each with its local pointers, what its timer function was given
and what it had to say. Objects are `ω`; the log is kept newest first. -/
structure State (ι ω : Type) where
  jiffies : Nat
  ntimers : Int32
  len : Int32
  place : ι → WritePc × TimerPc
  tl : ι → Option ω
  mdata : ι → Option ω
  arg : ι → Option ω
  said : ι → Int32
  heap : ω → Cell ω
  log : List (HeapEvent ω)
  printed : List (ι × Int32)
  phase : Phase

/-- `kmalloc` succeeds, with whatever stands in the object. -/
inductive Act (ι ω : Type)
  | atomic_inc (i : ι)
  | kmalloc_tl (i : ι) (o : ω) (junk : Cell ω)
  | init_timer (i : ι)
  | kmalloc_data (i : ι) (o : ω) (junk : Cell ω)
  | fill (i : ι)
  | add_timer (i : ι)
  | load_len (i : ι)
  | store_len (i : ι)
  | tick
  | expire (i : ι)
  | print (i : ι)
  | kfree_tl (i : ι)
  | kfree_data (i : ι)
  | atomic_dec (i : ι)
  | leave (i : ι)
  | exit_begin
  | exit_test

def init {ι ω : Type} (jiffies : Nat) (heap : ω → Cell ω) : State ι ω where
  jiffies := jiffies
  ntimers := 0
  len := 100
  place := fun _ => (.atomic_inc, .idle)
  tl := fun _ => none
  mdata := fun _ => none
  arg := fun _ => none
  said := fun _ => 0
  heap := heap
  log := []
  printed := []
  phase := .loaded

section
variable {ι ω : Type} [DecidableEq ι] [DecidableEq ω]

/-- A store through a pointer. -/
def store (heap : ω → Cell ω) (p : Option ω) (f : Cell ω → Cell ω) : ω → Cell ω :=
  match p with
  | some o => Function.update heap o (f (heap o))
  | none => heap

/-- Nobody calls `mycdrv_write` once the module is being unloaded, and the unloading begins when no
call of it is under way. Any pending timer that is due may fire, beside others. -/
def Enabled (s : State ι ω) : Act ι ω → Prop
  | .atomic_inc i => (s.place i).1 = .atomic_inc ∧ s.phase = .loaded
  | .kmalloc_tl i o _ => (s.place i).1 = .kmalloc_tl ∧ live s.log o = false
  | .init_timer i => (s.place i).1 = .init_timer
  | .kmalloc_data i o _ => (s.place i).1 = .kmalloc_data ∧ live s.log o = false
  | .fill i => (s.place i).1 = .fill
  | .add_timer i => (s.place i).1 = .add_timer
  | .load_len i => (s.place i).1 = .load_len
  | .store_len i => ∃ v, (s.place i).1 = .store_len v
  | .tick => True
  | .expire i => (s.place i).2 = .pending ∧ ∀ o ∈ s.tl i, (s.heap o).expires ≤ s.jiffies
  | .print i => (s.place i).2 = .print
  | .kfree_tl i => (s.place i).2 = .kfree_tl
  | .kfree_data i => (s.place i).2 = .kfree_data
  | .atomic_dec i => (s.place i).2 = .atomic_dec
  | .leave i => (s.place i).2 = .leave
  | .exit_begin => s.phase = .loaded ∧
    ∀ i, (s.place i).1 = .atomic_inc ∨ (s.place i).1 = .returned
  | .exit_test => s.phase = .leaving ∧ s.ntimers = 0

def State.go (s : State ι ω) (i : ι) (k : WritePc × TimerPc) : State ι ω :=
  { s with place := Function.update s.place i k }

/-- `my_exit` goes on when it reads 0 from `ntimers`; otherwise it sleeps and reads again. -/
def next (HZ : Nat) (s : State ι ω) : Act ι ω → State ι ω
  | .atomic_inc i => { s.go i (.kmalloc_tl, (s.place i).2) with ntimers := atomic_inc s.ntimers }
  | .kmalloc_tl i o junk => { s.go i (.init_timer, (s.place i).2) with
      tl := Function.update s.tl i (some o)
      heap := Function.update s.heap o junk
      log := .alloc o :: s.log }
  | .init_timer i => { s.go i (.kmalloc_data, (s.place i).2) with
      heap := store s.heap (s.tl i) fun c => { c with expires := s.jiffies + 4 * HZ }
      log := .access (s.tl i) 0 1 :: s.log }
  | .kmalloc_data i o junk => { s.go i (.fill, (s.place i).2) with
      mdata := Function.update s.mdata i (some o)
      heap := Function.update s.heap o junk
      log := .alloc o :: s.log }
  | .fill i => { s.go i (.add_timer, (s.place i).2) with
      heap := store (store s.heap (s.tl i) fun c => { c with data := s.mdata i }) (s.mdata i)
        fun c => { c with l := s.len, tl := s.tl i }
      said := Function.update s.said i s.len
      log := .access (s.mdata i) 0 1 :: .access (s.tl i) 0 1 :: s.log }
  | .add_timer i => { s.go i (.load_len, .pending) with log := .access (s.tl i) 0 1 :: s.log }
  | .load_len i => s.go i (.store_len s.len, (s.place i).2)
  | .store_len i => match (s.place i).1 with
    | .store_len v => { s.go i (.returned, (s.place i).2) with len := v + 100 }
    | _ => s
  | .tick => { s with jiffies := s.jiffies + 1 }
  | .expire i => { s.go i ((s.place i).1, .print) with
      arg := Function.update s.arg i ((s.tl i).bind fun o => (s.heap o).data)
      log := .access (s.tl i) 0 1 :: s.log }
  | .print i => { s.go i ((s.place i).1, .kfree_tl) with
      printed := s.printed ++ ((s.arg i).map fun d => (i, (s.heap d).l)).toList
      log := .access (s.arg i) 0 1 :: s.log }
  | .kfree_tl i => { s.go i ((s.place i).1, .kfree_data) with
      log := .free ((s.arg i).bind fun d => (s.heap d).tl) :: .access (s.arg i) 0 1 :: s.log }
  | .kfree_data i => { s.go i ((s.place i).1, .atomic_dec) with log := .free (s.arg i) :: s.log }
  | .atomic_dec i => { s.go i ((s.place i).1, .leave) with ntimers := atomic_dec s.ntimers }
  | .leave i => s.go i ((s.place i).1, .finished)
  | .exit_begin => { s with phase := .leaving }
  | .exit_test => { s with phase := .returned }

def machine (HZ : Nat) : Machine (State ι ω) (Act ι ω) := ⟨Enabled, next HZ⟩

end

namespace WritePc

def entered : WritePc → Bool
  | .atomic_inc => false
  | _ => true

def hasTl : WritePc → Bool
  | .atomic_inc | .kmalloc_tl => false
  | _ => true

def hasData : WritePc → Bool
  | .atomic_inc | .kmalloc_tl | .init_timer | .kmalloc_data => false
  | _ => true

def filled : WritePc → Bool
  | .add_timer | .load_len | .store_len _ | .returned => true
  | _ => false

def scheduled : WritePc → Bool
  | .load_len | .store_len _ | .returned => true
  | _ => false

theorem of_scheduled {w : WritePc} (h : w.scheduled = true) :
    w.entered = true ∧ w.hasTl = true ∧ w.hasData = true ∧ w.filled = true := by
  cases w <;> first | exact ⟨rfl, rfl, rfl, rfl⟩ | cases h

theorem hasData_of_filled {w : WritePc} (h : w.filled = true) :
    w.hasTl = true ∧ w.hasData = true := by
  cases w <;> first | exact ⟨rfl, rfl⟩ | cases h

end WritePc

namespace TimerPc

def keepsTl : TimerPc → Bool
  | .idle | .pending | .print | .kfree_tl => true
  | _ => false

def keepsData : TimerPc → Bool
  | .idle | .pending | .print | .kfree_tl | .kfree_data => true
  | _ => false

def counted : TimerPc → Bool
  | .leave | .finished => false
  | _ => true

def running : TimerPc → Bool
  | .print | .kfree_tl | .kfree_data => true
  | _ => false

end TimerPc

/-- The call has a `struct timer_list` that its timer function has not freed. -/
def tlHeld (p : WritePc × TimerPc) : Bool := p.1.hasTl && p.2.keepsTl

/-- And a `struct my_dat`. -/
def dataHeld (p : WritePc × TimerPc) : Bool := p.1.hasData && p.2.keepsData

/-- Counted in `ntimers`. -/
def counted (p : WritePc × TimerPc) : Bool := p.1.entered && p.2.counted

section
variable {ι ω : Type}

/-- What a call holds, its timer (`true`) and its data (`false`). -/
def slot (s : State ι ω) (x : ι × Bool) : Option ω :=
  bif x.2 then bif tlHeld (s.place x.1) then s.tl x.1 else none
  else bif dataHeld (s.place x.1) then s.mdata x.1 else none

/-- What is known of one call: its pointers lead to its own objects, and so do those that it has
stored in these. -/
structure Known (s : State ι ω) (i : ι) : Prop where
  idle : (s.place i).2 = .idle ↔ (s.place i).1.scheduled = false
  tl : tlHeld (s.place i) = true → ∃ o, s.tl i = some o
  mdata : dataHeld (s.place i) = true → ∃ d, s.mdata i = some d
  data : (s.place i).1.filled = true → tlHeld (s.place i) = true →
    ∀ o ∈ s.tl i, (s.heap o).data = s.mdata i
  back : (s.place i).1.filled = true → dataHeld (s.place i) = true →
    ∀ d ∈ s.mdata i, (s.heap d).tl = s.tl i ∧ (s.heap d).l = s.said i
  given : (s.place i).2.running = true → s.arg i = s.mdata i

structure Inv [Fintype ι] [DecidableEq ω] (s : State ι ω) : Prop where
  owned : Owned (slot s) s.log
  known : ∀ i, Known s i
  ntimers : s.ntimers = Int32.ofNat (occupancy counted s.place)
  printed : ∀ e ∈ s.printed, e.2 = s.said e.1 ∧ (s.place e.1).1.filled = true
  entered : s.phase ≠ .loaded → ∀ i, (s.place i).1 = .atomic_inc ∨ (s.place i).1 = .returned
  drained : s.phase = .returned → ∀ i, counted (s.place i) = false

theorem slot_tl {s : State ι ω} {i : ι} {o : ω} :
    slot s (i, true) = some o ↔ tlHeld (s.place i) = true ∧ s.tl i = some o := by
  cases held : tlHeld (s.place i) <;> simp [slot, held]

theorem slot_mdata {s : State ι ω} {i : ι} {d : ω} :
    slot s (i, false) = some d ↔ dataHeld (s.place i) = true ∧ s.mdata i = some d := by
  cases held : dataHeld (s.place i) <;> simp [slot, held]

/-- Nothing changes for call `j`. -/
structure SameFor (s t : State ι ω) (j : ι) : Prop where
  place : t.place j = s.place j
  tl : t.tl j = s.tl j
  mdata : t.mdata j = s.mdata j
  arg : t.arg j = s.arg j
  said : t.said j = s.said j

theorem SameFor.slot {s t : State ι ω} {j : ι} (h : SameFor s t j) (b : Bool) :
    Multitimer.slot t (j, b) = Multitimer.slot s (j, b) := by
  simp only [Multitimer.slot, h.place, h.tl, h.mdata]

/-- What is known of a call stays so where neither it nor its objects change. -/
theorem known_other {s t : State ι ω} {j : ι} (h : Known s j) (same : SameFor s t j)
    (cells : ∀ b o, slot s (j, b) = some o → t.heap o = s.heap o) : Known t j := by
  obtain ⟨place, tl, mdata, arg, said⟩ := same
  refine ⟨?_, ?_, ?_, ?_, ?_, ?_⟩ <;> rw [place]
  · exact h.idle
  · rw [tl]
    exact h.tl
  · rw [mdata]
    exact h.mdata
  · intro filled held o ho
    rw [tl] at ho
    rw [mdata, cells true o (slot_tl.mpr ⟨held, ho⟩)]
    exact h.data filled held o ho
  · intro filled held d hd
    rw [mdata] at hd
    rw [tl, said, cells false d (slot_mdata.mpr ⟨held, hd⟩)]
    exact h.back filled held d hd
  · rw [arg, mdata]
    exact h.given

section
variable [DecidableEq ι] {s t : State ι ω} {i : ι}

/-- The slots after a step of call `i` that changes what stands in one of its two. -/
theorem slot_step (others : ∀ j, j ≠ i → SameFor s t j) (b : Bool) {p : Option ω}
    (here : slot t (i, b) = p) (there : slot t (i, !b) = slot s (i, !b)) :
    slot t = Function.update (slot s) (i, b) p := by
  funext x
  obtain ⟨j, c⟩ := x
  by_cases own : j = i
  · subst own
    by_cases same : c = b
    · subst same
      rw [Function.update_self, here]
    · rw [Function.update_of_ne (fun eq => same (Prod.mk.inj eq).2), Bool.eq_not_of_ne same]
      exact there
  · rw [Function.update_of_ne (fun eq => own (Prod.mk.inj eq).1)]
    exact (others j own).slot c

/-- The slots after a step of call `i` that leaves its objects to it. -/
theorem slot_still (others : ∀ j, j ≠ i → SameFor s t j) (tl : t.tl i = s.tl i)
    (mdata : t.mdata i = s.mdata i) (held : tlHeld (t.place i) = tlHeld (s.place i))
    (held' : dataHeld (t.place i) = dataHeld (s.place i)) : slot t = slot s := by
  funext x
  obtain ⟨j, c⟩ := x
  by_cases own : j = i
  · subst own
    simp only [slot, tl, mdata, held, held']
  · exact (others j own).slot c

end

section
variable [Fintype ι] [DecidableEq ι] [DecidableEq ω] {s t : State ι ω} {i : ι}

/-- A step of call `i`. -/
theorem inv_step (h : Inv s) (others : ∀ j, j ≠ i → SameFor s t j)
    (cells : ∀ j, j ≠ i → ∀ b o, slot s (j, b) = some o → t.heap o = s.heap o)
    (owned : Owned (slot t) t.log) (own : Known t i)
    (ntimers : t.ntimers = Int32.ofNat (occupancy counted t.place))
    (printed : ∀ e ∈ t.printed, e.2 = t.said e.1 ∧ (t.place e.1).1.filled = true)
    (phase : t.phase = s.phase)
    (entered : s.phase ≠ .loaded → (t.place i).1 = .atomic_inc ∨ (t.place i).1 = .returned)
    (drained : s.phase = .returned → counted (t.place i) = false) : Inv t := by
  refine ⟨owned, fun j => ?_, ntimers, printed, fun left j => ?_, fun left j => ?_⟩
  · by_cases hj : j = i
    · exact hj ▸ own
    · exact known_other (h.known j) (others j hj) (cells j hj)
  · rw [phase] at left
    by_cases hj : j = i
    · exact hj ▸ entered left
    · rw [(others j hj).place]
      exact h.entered left j
  · rw [phase] at left
    by_cases hj : j = i
    · exact hj ▸ drained left
    · rw [(others j hj).place]
      exact h.drained left j

omit [DecidableEq ι] in
/-- Until a call returns the module is loaded. -/
theorem Inv.loaded (h : Inv s) (begun : (s.place i).1 ≠ .atomic_inc)
    (busy : (s.place i).1 ≠ .returned) : s.phase = .loaded := by
  by_contra left
  rcases h.entered left i with early | late
  · exact begun early
  · exact busy late

omit [DecidableEq ι] in
/-- While a timer has not left `ntimers`, the module is there. -/
theorem Inv.there (h : Inv s) (scheduled : (s.place i).1.scheduled = true)
    (counts : (s.place i).2.counted = true) : s.phase ≠ .returned := by
  intro left
  have out := h.drained left i
  rw [counted, (WritePc.of_scheduled scheduled).1, counts] at out
  cases out

theorem Inv.printed_go (h : Inv s) (others : ∀ j, j ≠ i → SameFor s t j)
    (said : (s.place i).1.filled = true → t.said i = s.said i)
    (filled : (s.place i).1.filled = true → (t.place i).1.filled = true)
    (same : t.printed = s.printed) :
    ∀ e ∈ t.printed, e.2 = t.said e.1 ∧ (t.place e.1).1.filled = true := by
  intro e he
  rw [same] at he
  obtain ⟨value, was⟩ := h.printed e he
  by_cases own : e.1 = i
  · rw [own] at was value ⊢
    exact ⟨value.trans (said was).symm, filled was⟩
  · rw [(others e.1 own).said, (others e.1 own).place]
    exact ⟨value, was⟩

omit [Fintype ι] [DecidableEq ω] in
/-- The calls that a step of call `i` does not move. -/
theorem same_of_ne {k : WritePc × TimerPc} {j : ι} (hj : j ≠ i)
    (place : t.place = Function.update s.place i k) (tl : t.tl j = s.tl j)
    (mdata : t.mdata j = s.mdata j) (arg : t.arg j = s.arg j) (said : t.said j = s.said j) :
    SameFor s t j :=
  ⟨by rw [place, Function.update_of_ne hj], tl, mdata, arg, said⟩

omit [Fintype ι] [DecidableEq ι] [DecidableEq ω] in
/-- A call that has not filled in its objects. -/
theorem known_early (idle : (t.place i).2 = .idle) (early : (t.place i).1.filled = false)
    (tl : tlHeld (t.place i) = true → ∃ o, t.tl i = some o)
    (mdata : dataHeld (t.place i) = true → ∃ d, t.mdata i = some d) : Known t i := by
  refine ⟨iff_of_true idle ?_, tl, mdata, fun filled => ?_, fun filled => ?_, fun runs => ?_⟩
  · cases scheduled : (t.place i).1.scheduled
    · rfl
    · rw [(WritePc.of_scheduled scheduled).2.2.2] at early
      cases early
  · rw [early] at filled
    cases filled
  · rw [early] at filled
    cases filled
  · rw [idle] at runs
    cases runs

theorem inv_atomic_inc {HZ : Nat} (h : Inv s) (enabled : Enabled s (.atomic_inc i : Act ι ω)) :
    Inv (next HZ s (.atomic_inc i)) := by
  obtain ⟨w, loaded⟩ := enabled
  have idle : (s.place i).2 = .idle := (h.known i).idle.mpr (by rw [w]; rfl)
  have here : (next HZ s (.atomic_inc i)).place i = (.kmalloc_tl, .idle) := by
    rw [← idle]
    exact Function.update_self ..
  have others : ∀ j, j ≠ i → SameFor s (next HZ s (.atomic_inc i)) j :=
    fun j hj => same_of_ne hj rfl rfl rfl rfl rfl
  have still : slot (next HZ s (.atomic_inc i)) = slot s := by
    refine slot_still others rfl rfl ?_ ?_
    · rw [here, tlHeld, tlHeld, w]
      rfl
    · rw [here, dataHeld, dataHeld, w]
      rfl
  refine inv_step h others (fun _ _ _ _ _ => rfl) (still ▸ h.owned)
    (known_early (by rw [here]) (by rw [here]; rfl) (fun held => ?_) fun held => ?_) ?_
    (h.printed_go others (fun filled => ?_) (fun filled => ?_) rfl) rfl
    (fun left => absurd loaded left) fun left => ?_
  · rw [here] at held
    cases held
  · rw [here] at held
    cases held
  · have out : counted (s.place i) = false := by
      rw [counted, w]
      rfl
    have entered : occupancy counted (Function.update s.place i (.kmalloc_tl, (s.place i).2)) =
        occupancy counted s.place + 1 := occupancy_enter out (by rw [idle]; rfl)
    change atomic_inc s.ntimers = Int32.ofNat (occupancy counted (Function.update s.place i _))
    rw [h.ntimers, atomic_inc_ofNat, entered]
  · rfl
  · rw [w] at filled
    cases filled
  · rw [loaded] at left
    cases left

/-- A step of `mycdrv_write` up to the one that fills in the objects. -/
theorem inv_early {k : WritePc × TimerPc} (h : Inv s) (others : ∀ j, j ≠ i → SameFor s t j)
    (cells : ∀ j, j ≠ i → ∀ b o, slot s (j, b) = some o → t.heap o = s.heap o)
    (owned : Owned (slot t) t.log) (place : t.place = Function.update s.place i k)
    (before : (s.place i).1.entered = true) (early : (s.place i).1.filled = false)
    (after : k.1.entered = true) (early' : k.1.filled = false) (idle : k.2 = (s.place i).2)
    (tl : tlHeld k = true → ∃ o, t.tl i = some o)
    (mdata : dataHeld k = true → ∃ d, t.mdata i = some d) (ntimers : t.ntimers = s.ntimers)
    (printed : t.printed = s.printed) (phase : t.phase = s.phase) : Inv t := by
  have here : t.place i = k := by rw [place, Function.update_self]
  have loaded : s.phase = .loaded := by
    refine h.loaded (i := i) (fun w => ?_) fun w => ?_
    · rw [w] at before
      cases before
    · rw [w] at early
      cases early
  have waits : (s.place i).2 = .idle := by
    refine (h.known i).idle.mpr ?_
    cases scheduled : (s.place i).1.scheduled
    · rfl
    · rw [(WritePc.of_scheduled scheduled).2.2.2] at early
      cases early
  refine inv_step h others cells owned (known_early (by rw [here, idle, waits])
    (by rw [here, early']) (by rw [here]; exact tl) (by rw [here]; exact mdata)) ?_
    (h.printed_go others (fun filled => ?_) (fun filled => ?_) printed) phase
    (fun left => absurd loaded left) fun left => ?_
  · have same : counted k = counted (s.place i) := by
      rw [counted, counted, before, after, idle]
    rw [ntimers, place, occupancy_stay same]
    exact h.ntimers
  · rw [early] at filled
    cases filled
  · rw [early] at filled
    cases filled
  · rw [loaded] at left
    cases left

omit [DecidableEq ι] in
theorem Inv.fresh_other (h : Inv s) {o p : ω} {x : ι × Bool} (junk : Cell ω)
    (fresh : live s.log o = false) (hx : slot s x = some p) :
    Function.update s.heap o junk p = s.heap p := by
  refine Function.update_of_ne ?_ ..
  rintro rfl
  rw [h.owned.live hx] at fresh
  cases fresh

theorem inv_kmalloc_tl {HZ : Nat} {o : ω} {junk : Cell ω} (h : Inv s)
    (enabled : Enabled s (.kmalloc_tl i o junk)) : Inv (next HZ s (.kmalloc_tl i o junk)) := by
  obtain ⟨w, fresh⟩ := enabled
  have idle : (s.place i).2 = .idle := (h.known i).idle.mpr (by rw [w]; rfl)
  have here : (next HZ s (.kmalloc_tl i o junk)).place i = (.init_timer, .idle) := by
    rw [← idle]
    exact Function.update_self ..
  have others : ∀ j, j ≠ i → SameFor s (next HZ s (.kmalloc_tl i o junk)) j :=
    fun j hj => same_of_ne hj rfl (Function.update_of_ne hj ..) rfl rfl rfl
  have own : (next HZ s (.kmalloc_tl i o junk)).tl i = some o := Function.update_self ..
  have slots : slot (next HZ s (.kmalloc_tl i o junk)) =
      Function.update (slot s) (i, true) (some o) := by
    refine slot_step others true (slot_tl.mpr ⟨by rw [here]; rfl, own⟩) ?_
    simp only [slot, here, dataHeld, w]
    rfl
  have empty : slot s (i, true) = none := by
    simp only [slot, tlHeld, w]
    rfl
  refine inv_early h others (fun j hj b p hp => h.fresh_other junk fresh hp) ?_ rfl
    (by rw [w]; rfl) (by rw [w]; rfl) rfl rfl rfl (fun _ => ⟨o, own⟩) (fun held => ?_) rfl rfl rfl
  · rw [slots]
    exact h.owned.alloc empty fresh
  · cases held

theorem inv_kmalloc_data {HZ : Nat} {o : ω} {junk : Cell ω} (h : Inv s)
    (enabled : Enabled s (.kmalloc_data i o junk)) : Inv (next HZ s (.kmalloc_data i o junk)) := by
  obtain ⟨w, fresh⟩ := enabled
  have idle : (s.place i).2 = .idle := (h.known i).idle.mpr (by rw [w]; rfl)
  have here : (next HZ s (.kmalloc_data i o junk)).place i = (.fill, .idle) := by
    rw [← idle]
    exact Function.update_self ..
  have others : ∀ j, j ≠ i → SameFor s (next HZ s (.kmalloc_data i o junk)) j :=
    fun j hj => same_of_ne hj rfl rfl (Function.update_of_ne hj ..) rfl rfl
  have own : (next HZ s (.kmalloc_data i o junk)).mdata i = some o := Function.update_self ..
  have slots : slot (next HZ s (.kmalloc_data i o junk)) =
      Function.update (slot s) (i, false) (some o) := by
    refine slot_step others false (slot_mdata.mpr ⟨by rw [here]; rfl, own⟩) ?_
    simp only [slot, here, tlHeld, w, idle]
    rfl
  have empty : slot s (i, false) = none := by
    simp only [slot, dataHeld, w]
    rfl
  refine inv_early h others (fun j hj b p hp => h.fresh_other junk fresh hp) ?_ rfl
    (by rw [w]; rfl) (by rw [w]; rfl) rfl rfl rfl (fun _ => ?_) (fun _ => ⟨o, own⟩) rfl rfl rfl
  · rw [slots]
    exact h.owned.alloc empty fresh
  · exact (h.known i).tl (by rw [tlHeld, w, idle]; rfl)

omit [DecidableEq ι] in
/-- A store into the object of one slot does not reach that of another. -/
theorem Inv.store_other (h : Inv s) {heap : ω → Cell ω} {f : Cell ω → Cell ω} {o p : ω}
    {x y : ι × Bool} (hx : slot s x = some o) (hy : slot s y = some p) (differs : y ≠ x) :
    store heap (some o) f p = heap p :=
  Function.update_of_ne (h.owned.apart hy hx differs) ..

theorem inv_init_timer {HZ : Nat} (h : Inv s) (enabled : Enabled s (.init_timer i : Act ι ω)) :
    Inv (next HZ s (.init_timer i)) := by
  have w : (s.place i).1 = .init_timer := enabled
  have idle : (s.place i).2 = .idle := (h.known i).idle.mpr (by rw [w]; rfl)
  have here : (next HZ s (.init_timer i)).place i = (.kmalloc_data, .idle) := by
    rw [← idle]
    exact Function.update_self ..
  have held : tlHeld (s.place i) = true := by rw [tlHeld, w, idle]; rfl
  obtain ⟨o, own⟩ := (h.known i).tl held
  have stands : slot s (i, true) = some o := slot_tl.mpr ⟨held, own⟩
  have others : ∀ j, j ≠ i → SameFor s (next HZ s (.init_timer i)) j :=
    fun j hj => same_of_ne hj rfl rfl rfl rfl rfl
  have still : slot (next HZ s (.init_timer i)) = slot s := by
    refine slot_still others rfl rfl ?_ ?_
    · rw [here, held]
      rfl
    · rw [here, dataHeld, dataHeld, w]
      rfl
  refine inv_early h others (fun j hj b p hp => ?_) ?_ rfl (by rw [w]; rfl) (by rw [w]; rfl) rfl
    rfl rfl (fun _ => ⟨o, own⟩) (fun held => ?_) rfl rfl rfl
  · simp only [next, own]
    exact h.store_other stands hp fun eq => hj (Prod.mk.inj eq).1
  · rw [still]
    simp only [next, own]
    exact h.owned.access stands 0 1
  · cases held

omit [DecidableEq ι] [Fintype ι] [DecidableEq ω] in
/-- A call whose objects are filled in and stay as they are. -/
theorem known_late {k : WritePc × TimerPc} (h : Known s i) (here : t.place i = k)
    (tl : t.tl i = s.tl i) (mdata : t.mdata i = s.mdata i) (said : t.said i = s.said i)
    (heap : t.heap = s.heap) (filled : (s.place i).1.filled = true)
    (idle : k.2 = .idle ↔ k.1.scheduled = false)
    (held : tlHeld k = true → tlHeld (s.place i) = true)
    (held' : dataHeld k = true → dataHeld (s.place i) = true)
    (given : k.2.running = true → t.arg i = s.mdata i) : Known t i := by
  refine ⟨?_, ?_, ?_, ?_, ?_, ?_⟩ <;> rw [here]
  · exact idle
  · rw [tl]
    exact fun late => h.tl (held late)
  · rw [mdata]
    exact fun late => h.mdata (held' late)
  · rw [tl, mdata, heap]
    exact fun _ late => h.data filled (held late)
  · rw [tl, mdata, said, heap]
    exact fun _ late => h.back filled (held' late)
  · rw [mdata]
    exact given

/-- A step of `mycdrv_write` behind the one that fills in the objects. -/
theorem inv_late {k : WritePc × TimerPc} (h : Inv s) (others : ∀ j, j ≠ i → SameFor s t j)
    (place : t.place = Function.update s.place i k) (tl : t.tl = s.tl) (mdata : t.mdata = s.mdata)
    (arg : t.arg = s.arg) (said : t.said = s.said) (heap : t.heap = s.heap)
    (owned : Owned (slot s) t.log) (filled : (s.place i).1.filled = true)
    (busy : (s.place i).1 ≠ .returned) (after : k.1.scheduled = true) (pending : k.2 ≠ .idle)
    (keepsTl : k.2.keepsTl = (s.place i).2.keepsTl)
    (keepsData : k.2.keepsData = (s.place i).2.keepsData)
    (same : k.2.counted = (s.place i).2.counted)
    (running : k.2.running = true → (s.place i).2.running = true) (ntimers : t.ntimers = s.ntimers)
    (printed : t.printed = s.printed) (phase : t.phase = s.phase) : Inv t := by
  have here : t.place i = k := by rw [place, Function.update_self]
  obtain ⟨entered, hasTl, hasData, filled'⟩ := WritePc.of_scheduled after
  obtain ⟨hadTl, hadData⟩ := WritePc.hasData_of_filled filled
  have begun : (s.place i).1 ≠ .atomic_inc := by
    intro w
    rw [w] at filled
    cases filled
  have loaded : s.phase = .loaded := h.loaded begun busy
  have held : tlHeld k = tlHeld (s.place i) := by rw [tlHeld, tlHeld, hasTl, hadTl, keepsTl]
  have held' : dataHeld k = dataHeld (s.place i) := by
    rw [dataHeld, dataHeld, hasData, hadData, keepsData]
  have still : slot t = slot s := slot_still others (congrFun tl i) (congrFun mdata i)
    (by rw [here, held]) (by rw [here, held'])
  refine inv_step h others (fun _ _ _ _ _ => by rw [heap]) (still ▸ owned)
    (known_late (h.known i) here (congrFun tl i) (congrFun mdata i) (congrFun said i) heap filled
      (iff_of_false pending (by rw [after]; decide)) (held ▸ id) (held' ▸ id) fun runs => ?_) ?_
    (h.printed_go others (fun _ => congrFun said i) (fun _ => here ▸ filled') printed) phase
    (fun left => absurd loaded left) fun left => ?_
  · rw [arg]
    exact (h.known i).given (running runs)
  · have had : (s.place i).1.entered = true := by
      generalize (s.place i).1 = w at begun
      cases w <;> first | rfl | exact absurd rfl begun
    rw [ntimers, place, occupancy_stay (by rw [counted, counted, entered, had, same])]
    exact h.ntimers
  · rw [loaded] at left
    cases left

theorem inv_fill {HZ : Nat} (h : Inv s) (enabled : Enabled s (.fill i : Act ι ω)) :
    Inv (next HZ s (.fill i)) := by
  have w : (s.place i).1 = .fill := enabled
  have idle : (s.place i).2 = .idle := (h.known i).idle.mpr (by rw [w]; rfl)
  have here : (next HZ s (.fill i)).place i = (.add_timer, .idle) := by
    rw [← idle]
    exact Function.update_self ..
  have held : tlHeld (s.place i) = true := by rw [tlHeld, w, idle]; rfl
  have held' : dataHeld (s.place i) = true := by rw [dataHeld, w, idle]; rfl
  obtain ⟨o, own⟩ := (h.known i).tl held
  obtain ⟨d, own'⟩ := (h.known i).mdata held'
  have stands : slot s (i, true) = some o := slot_tl.mpr ⟨held, own⟩
  have stands' : slot s (i, false) = some d := slot_mdata.mpr ⟨held', own'⟩
  have others : ∀ j, j ≠ i → SameFor s (next HZ s (.fill i)) j :=
    fun j hj => same_of_ne hj rfl rfl rfl rfl (Function.update_of_ne hj ..)
  have still : slot (next HZ s (.fill i)) = slot s := by
    refine slot_still others rfl rfl ?_ ?_
    · rw [here, held]
      rfl
    · rw [here, held']
      rfl
  have loaded : s.phase = .loaded :=
    h.loaded (i := i) (by rw [w]; exact WritePc.noConfusion) (by rw [w]; exact WritePc.noConfusion)
  refine inv_step h others (fun j hj b p hp => ?_) ?_ ⟨?_, fun _ => ⟨o, own⟩, fun _ => ⟨d, own'⟩,
    fun _ _ p hp => ?_, fun _ _ p hp => ?_, fun runs => ?_⟩ ?_
    (h.printed_go others (fun filled => ?_) (fun filled => ?_) rfl) rfl
    (fun left => absurd loaded left) fun left => ?_
  · simp only [next, own, own']
    rw [h.store_other stands' hp fun eq => hj (Prod.mk.inj eq).1,
      h.store_other stands hp fun eq => hj (Prod.mk.inj eq).1]
  · rw [still]
    simp only [next, own, own']
    exact (h.owned.access stands 0 1).access stands' 0 1
  · rw [here]
    exact iff_of_true rfl rfl
  · obtain rfl : o = p := Option.some.inj (own.symm.trans hp)
    simp only [next, own, own']
    rw [h.store_other stands' stands (by simp)]
    simp only [store, Function.update_self]
    exact own'.symm
  · obtain rfl : d = p := Option.some.inj (own'.symm.trans hp)
    simp only [next, own', store, Function.update_self]
    exact ⟨rfl, trivial⟩
  · rw [here] at runs
    cases runs
  · have same : counted (.add_timer, (s.place i).2) = counted (s.place i) := by
      rw [counted, counted, w]
      rfl
    change s.ntimers = Int32.ofNat (occupancy counted (Function.update s.place i _))
    rw [occupancy_stay same]
    exact h.ntimers
  · rw [w] at filled
    cases filled
  · rw [w] at filled
    cases filled
  · rw [loaded] at left
    cases left

theorem inv_add_timer {HZ : Nat} (h : Inv s) (enabled : Enabled s (.add_timer i : Act ι ω)) :
    Inv (next HZ s (.add_timer i)) := by
  have w : (s.place i).1 = .add_timer := enabled
  have idle : (s.place i).2 = .idle := (h.known i).idle.mpr (by rw [w]; rfl)
  have held : tlHeld (s.place i) = true := by rw [tlHeld, w, idle]; rfl
  obtain ⟨o, own⟩ := (h.known i).tl held
  refine inv_late h (k := (.load_len, .pending)) (fun j hj => same_of_ne hj rfl rfl rfl rfl rfl) rfl
    rfl rfl rfl rfl rfl ?_ (by rw [w]; rfl) (by rw [w]; exact WritePc.noConfusion) rfl
    TimerPc.noConfusion (by rw [idle]; rfl) (by rw [idle]; rfl) (by rw [idle]; rfl)
    (fun runs => by cases runs) rfl rfl rfl
  simp only [next, own]
  exact h.owned.access (slot_tl.mpr ⟨held, own⟩) 0 1

theorem inv_load_len {HZ : Nat} (h : Inv s) (enabled : Enabled s (.load_len i : Act ι ω)) :
    Inv (next HZ s (.load_len i)) := by
  have w : (s.place i).1 = .load_len := enabled
  have pending : (s.place i).2 ≠ .idle := fun idle => by
    have early := (h.known i).idle.mp idle
    rw [w] at early
    cases early
  exact inv_late h (k := (.store_len s.len, (s.place i).2))
    (fun j hj => same_of_ne hj rfl rfl rfl rfl rfl) rfl rfl rfl rfl rfl rfl h.owned (by rw [w]; rfl)
    (by rw [w]; exact WritePc.noConfusion) rfl pending rfl rfl rfl id rfl rfl rfl

theorem inv_store_len {HZ : Nat} (h : Inv s) (enabled : Enabled s (.store_len i : Act ι ω)) :
    Inv (next HZ s (.store_len i)) := by
  obtain ⟨v, w⟩ := enabled
  have pending : (s.place i).2 ≠ .idle := fun idle => by
    have early := (h.known i).idle.mp idle
    rw [w] at early
    cases early
  simp only [next, w]
  exact inv_late h (k := (.returned, (s.place i).2))
    (fun j hj => same_of_ne hj rfl rfl rfl rfl rfl) rfl rfl rfl rfl rfl rfl h.owned (by rw [w]; rfl)
    (by rw [w]; exact WritePc.noConfusion) rfl pending rfl rfl rfl id rfl rfl rfl

omit [DecidableEq ι] [Fintype ι] [DecidableEq ω] in
/-- Only the timer of a call that has added it is pending or runs. -/
theorem Known.scheduled (h : Known s i) (busy : (s.place i).2 ≠ .idle) :
    (s.place i).1.scheduled = true := by
  cases early : (s.place i).1.scheduled
  · exact absurd (h.idle.mpr early) busy
  · rfl

/-- A step of a timer function, or of the kernel on its behalf. -/
theorem inv_timer {k : TimerPc} (h : Inv s) (others : ∀ j, j ≠ i → SameFor s t j)
    (place : t.place = Function.update s.place i ((s.place i).1, k)) (tl : t.tl = s.tl)
    (mdata : t.mdata = s.mdata) (said : t.said = s.said) (heap : t.heap = s.heap)
    (owned : Owned (slot t) t.log) (busy : (s.place i).2 ≠ .idle) (busy' : k ≠ .idle)
    (keepsTl : k.keepsTl = true → (s.place i).2.keepsTl = true)
    (keepsData : k.keepsData = true → (s.place i).2.keepsData = true)
    (given : k.running = true → t.arg i = s.mdata i)
    (ntimers : t.ntimers = Int32.ofNat (occupancy counted t.place))
    (printed : ∀ e ∈ t.printed, e.2 = t.said e.1 ∧ (t.place e.1).1.filled = true)
    (phase : t.phase = s.phase) (drained : s.phase = .returned → k.counted = false) : Inv t := by
  have here : t.place i = ((s.place i).1, k) := by rw [place, Function.update_self]
  have late := (h.known i).scheduled busy
  obtain ⟨entered, hasTl, hasData, filled⟩ := WritePc.of_scheduled late
  refine inv_step h others (fun _ _ _ _ _ => by rw [heap]) owned
    (known_late (h.known i) here (congrFun tl i) (congrFun mdata i) (congrFun said i) heap filled
      (iff_of_false busy' (by rw [late]; decide)) (fun held => ?_) (fun held => ?_) given) ntimers
    printed phase (fun left => ?_) fun left => ?_
  · rw [tlHeld, hasTl] at held ⊢
    exact keepsTl held
  · rw [dataHeld, hasData] at held ⊢
    exact keepsData held
  · rw [here]
    exact h.entered left i
  · rw [here, counted, entered]
    exact drained left

theorem Inv.ntimers_stay (h : Inv s) {k : TimerPc} (same : k.counted = (s.place i).2.counted) :
    s.ntimers = Int32.ofNat (occupancy counted
      (Function.update s.place i ((s.place i).1, k))) := by
  rw [occupancy_stay (by rw [counted, counted, same])]
  exact h.ntimers

omit [Fintype ι] [DecidableEq ω] in
theorem timer_slots {k : TimerPc} (others : ∀ j, j ≠ i → SameFor s t j)
    (place : t.place = Function.update s.place i ((s.place i).1, k)) (tl : t.tl = s.tl)
    (mdata : t.mdata = s.mdata) (keepsTl : k.keepsTl = (s.place i).2.keepsTl)
    (keepsData : k.keepsData = (s.place i).2.keepsData) : slot t = slot s := by
  have here : t.place i = ((s.place i).1, k) := by rw [place, Function.update_self]
  refine slot_still others (congrFun tl i) (congrFun mdata i) ?_ ?_
  · rw [here, tlHeld, tlHeld, keepsTl]
  · rw [here, dataHeld, dataHeld, keepsData]

omit [DecidableEq ι] [Fintype ι] [DecidableEq ω] in
/-- The objects that a call has while its timer is pending or its timer function runs. -/
theorem Known.stands (h : Known s i) (late : (s.place i).1.scheduled = true) :
    ((s.place i).2.keepsTl = true → ∃ o, s.tl i = some o ∧ slot s (i, true) = some o) ∧
      ((s.place i).2.keepsData = true → ∃ d, s.mdata i = some d ∧ slot s (i, false) = some d) := by
  obtain ⟨_, hasTl, hasData, _⟩ := WritePc.of_scheduled late
  constructor
  · intro keeps
    have held : tlHeld (s.place i) = true := by rw [tlHeld, hasTl, keeps]; rfl
    obtain ⟨o, own⟩ := h.tl held
    exact ⟨o, own, slot_tl.mpr ⟨held, own⟩⟩
  · intro keeps
    have held : dataHeld (s.place i) = true := by rw [dataHeld, hasData, keeps]; rfl
    obtain ⟨d, own⟩ := h.mdata held
    exact ⟨d, own, slot_mdata.mpr ⟨held, own⟩⟩

theorem inv_expire {HZ : Nat} (h : Inv s) (enabled : Enabled s (.expire i : Act ι ω)) :
    Inv (next HZ s (.expire i)) := by
  have pc : (s.place i).2 = .pending := enabled.1
  have busy : (s.place i).2 ≠ .idle := by rw [pc]; exact TimerPc.noConfusion
  have late := (h.known i).scheduled busy
  obtain ⟨o, own, stands⟩ := ((h.known i).stands late).1 (by rw [pc]; rfl)
  have others : ∀ j, j ≠ i → SameFor s (next HZ s (.expire i)) j :=
    fun j hj => same_of_ne hj rfl rfl rfl (Function.update_of_ne hj ..) rfl
  refine inv_timer h others rfl rfl rfl rfl rfl ?_ busy TimerPc.noConfusion (fun _ => by rw [pc]; rfl)
    (fun _ => by rw [pc]; rfl) (fun _ => ?_) (h.ntimers_stay (by rw [pc]; rfl))
    (h.printed_go others (fun _ => rfl) (fun filled => ?_) rfl) rfl
    fun left => absurd left (h.there late (by rw [pc]; rfl))
  · rw [timer_slots others rfl rfl rfl (by rw [pc]; rfl) (by rw [pc]; rfl)]
    simp only [next, own]
    exact h.owned.access stands 0 1
  · have word := (h.known i).data (WritePc.of_scheduled late).2.2.2 (slot_tl.mp stands).1 o own
    simp only [next, Function.update_self, own, Option.bind_some, word]
  · rw [show (next HZ s (.expire i)).place i = _ from Function.update_self ..]
    exact filled

theorem inv_print {HZ : Nat} (h : Inv s) (enabled : Enabled s (.print i : Act ι ω)) :
    Inv (next HZ s (.print i)) := by
  have pc : (s.place i).2 = .print := enabled
  have busy : (s.place i).2 ≠ .idle := by rw [pc]; exact TimerPc.noConfusion
  have late := (h.known i).scheduled busy
  have filled := (WritePc.of_scheduled late).2.2.2
  obtain ⟨d, own, stands⟩ := ((h.known i).stands late).2 (by rw [pc]; rfl)
  have given : s.arg i = some d := ((h.known i).given (by rw [pc]; rfl)).trans own
  have others : ∀ j, j ≠ i → SameFor s (next HZ s (.print i)) j :=
    fun j hj => same_of_ne hj rfl rfl rfl rfl rfl
  have place : ((next HZ s (.print i)).place i).1.filled = true := by
    rw [show (next HZ s (.print i)).place i = _ from Function.update_self ..]
    exact filled
  refine inv_timer h others rfl rfl rfl rfl rfl ?_ busy TimerPc.noConfusion (fun _ => by rw [pc]; rfl)
    (fun _ => by rw [pc]; rfl) (fun _ => given.trans own.symm)
    (h.ntimers_stay (by rw [pc]; rfl)) (fun e he => ?_) rfl
    fun left => absurd left (h.there late (by rw [pc]; rfl))
  · rw [timer_slots others rfl rfl rfl (by rw [pc]; rfl) (by rw [pc]; rfl)]
    simp only [next, given]
    exact h.owned.access stands 0 1
  · have more : (next HZ s (.print i)).printed = s.printed ++ [(i, (s.heap d).l)] := by
      simp only [next, given, Option.map_some, Option.toList_some]
    rw [more] at he
    rcases List.mem_append.mp he with he | he
    · obtain ⟨value, was⟩ := h.printed e he
      refine ⟨value, ?_⟩
      by_cases hj : e.1 = i
      · rw [hj]
        exact place
      · rw [(others e.1 hj).place]
        exact was
    · rw [List.mem_singleton.mp he]
      exact ⟨((h.known i).back filled (slot_mdata.mp stands).1 d own).2, place⟩

theorem inv_kfree_tl {HZ : Nat} (h : Inv s) (enabled : Enabled s (.kfree_tl i : Act ι ω)) :
    Inv (next HZ s (.kfree_tl i)) := by
  have pc : (s.place i).2 = .kfree_tl := enabled
  have busy : (s.place i).2 ≠ .idle := by rw [pc]; exact TimerPc.noConfusion
  have late := (h.known i).scheduled busy
  have filled := (WritePc.of_scheduled late).2.2.2
  obtain ⟨d, own, stands⟩ := ((h.known i).stands late).2 (by rw [pc]; rfl)
  obtain ⟨o, own', stands'⟩ := ((h.known i).stands late).1 (by rw [pc]; rfl)
  have given : s.arg i = some d := ((h.known i).given (by rw [pc]; rfl)).trans own
  have back := ((h.known i).back filled (slot_mdata.mp stands).1 d own).1
  have others : ∀ j, j ≠ i → SameFor s (next HZ s (.kfree_tl i)) j :=
    fun j hj => same_of_ne hj rfl rfl rfl rfl rfl
  have place : (next HZ s (.kfree_tl i)).place i = ((s.place i).1, .kfree_data) :=
    Function.update_self ..
  have slots : slot (next HZ s (.kfree_tl i)) = Function.update (slot s) (i, true) none := by
    refine slot_step others true ?_ ?_
    · simp only [slot, place, tlHeld, TimerPc.keepsTl, Bool.and_false]
      rfl
    · simp only [slot, place, dataHeld, pc]
      rfl
  refine inv_timer h others rfl rfl rfl rfl rfl ?_ busy TimerPc.noConfusion (fun _ => by rw [pc]; rfl)
    (fun _ => by rw [pc]; rfl) (fun _ => given.trans own.symm)
    (h.ntimers_stay (by rw [pc]; rfl)) (h.printed_go others (fun _ => rfl) (fun _ => ?_) rfl) rfl
    fun left => absurd left (h.there late (by rw [pc]; rfl))
  · rw [slots]
    simp only [next, given, Option.bind_some, back, own']
    exact (h.owned.access stands 0 1).free stands'
  · rw [place]
    exact filled

theorem inv_kfree_data {HZ : Nat} (h : Inv s) (enabled : Enabled s (.kfree_data i : Act ι ω)) :
    Inv (next HZ s (.kfree_data i)) := by
  have pc : (s.place i).2 = .kfree_data := enabled
  have busy : (s.place i).2 ≠ .idle := by rw [pc]; exact TimerPc.noConfusion
  have late := (h.known i).scheduled busy
  have filled := (WritePc.of_scheduled late).2.2.2
  obtain ⟨d, own, stands⟩ := ((h.known i).stands late).2 (by rw [pc]; rfl)
  have given : s.arg i = some d := ((h.known i).given (by rw [pc]; rfl)).trans own
  have others : ∀ j, j ≠ i → SameFor s (next HZ s (.kfree_data i)) j :=
    fun j hj => same_of_ne hj rfl rfl rfl rfl rfl
  have place : (next HZ s (.kfree_data i)).place i = ((s.place i).1, .atomic_dec) :=
    Function.update_self ..
  have slots : slot (next HZ s (.kfree_data i)) = Function.update (slot s) (i, false) none := by
    refine slot_step others false ?_ ?_
    · simp only [slot, place, dataHeld, TimerPc.keepsData, Bool.and_false]
      rfl
    · simp only [slot, place, tlHeld, pc]
      rfl
  refine inv_timer h others rfl rfl rfl rfl rfl ?_ busy TimerPc.noConfusion
    (fun keeps => by cases keeps) (fun keeps => by cases keeps) (fun runs => by cases runs)
    (h.ntimers_stay (by rw [pc]; rfl)) (h.printed_go others (fun _ => rfl) (fun _ => ?_) rfl) rfl
    fun left => absurd left (h.there late (by rw [pc]; rfl))
  · rw [slots]
    simp only [next, given]
    exact h.owned.free stands
  · rw [place]
    exact filled

theorem inv_atomic_dec {HZ : Nat} (h : Inv s) (enabled : Enabled s (.atomic_dec i : Act ι ω)) :
    Inv (next HZ s (.atomic_dec i)) := by
  have pc : (s.place i).2 = .atomic_dec := enabled
  have busy : (s.place i).2 ≠ .idle := by rw [pc]; exact TimerPc.noConfusion
  have late := (h.known i).scheduled busy
  obtain ⟨entered, _, _, filled⟩ := WritePc.of_scheduled late
  have others : ∀ j, j ≠ i → SameFor s (next HZ s (.atomic_dec i)) j :=
    fun j hj => same_of_ne hj rfl rfl rfl rfl rfl
  refine inv_timer h others rfl rfl rfl rfl rfl ?_ busy TimerPc.noConfusion
    (fun keeps => by cases keeps) (fun keeps => by cases keeps) (fun runs => by cases runs) ?_
    (h.printed_go others (fun _ => rfl) (fun _ => ?_) rfl) rfl
    fun left => absurd left (h.there late (by rw [pc]; rfl))
  · rw [timer_slots others rfl rfl rfl (by rw [pc]; rfl) (by rw [pc]; rfl)]
    exact h.owned
  · have moved := occupancy_update counted s.place i ((s.place i).1, .leave)
    rw [counted, counted, entered, pc] at moved
    simp only [TimerPc.counted, Bool.and_true, Bool.and_false, Bool.toNat_true, Bool.toNat_false,
      Nat.add_zero] at moved
    change atomic_dec s.ntimers = Int32.ofNat (occupancy counted (Function.update s.place i _))
    rw [h.ntimers, ← moved, atomic_dec_ofNat]
  · rw [show (next HZ s (.atomic_dec i)).place i = _ from Function.update_self ..]
    exact filled

theorem inv_leave {HZ : Nat} (h : Inv s) (enabled : Enabled s (.leave i : Act ι ω)) :
    Inv (next HZ s (.leave i)) := by
  have pc : (s.place i).2 = .leave := enabled
  have busy : (s.place i).2 ≠ .idle := by rw [pc]; exact TimerPc.noConfusion
  have filled := (WritePc.of_scheduled ((h.known i).scheduled busy)).2.2.2
  have others : ∀ j, j ≠ i → SameFor s (next HZ s (.leave i)) j :=
    fun j hj => same_of_ne hj rfl rfl rfl rfl rfl
  refine inv_timer h others rfl rfl rfl rfl rfl ?_ busy TimerPc.noConfusion
    (fun keeps => by cases keeps) (fun keeps => by cases keeps) (fun runs => by cases runs)
    (h.ntimers_stay (by rw [pc]; rfl)) (h.printed_go others (fun _ => rfl) (fun _ => ?_) rfl) rfl
    fun _ => rfl
  · rw [timer_slots others rfl rfl rfl (by rw [pc]; rfl) (by rw [pc]; rfl)]
    exact h.owned
  · rw [show (next HZ s (.leave i)).place i = _ from Function.update_self ..]
    exact filled

omit [DecidableEq ι] in
/-- `my_exit` finds 0 in `ntimers` only when no call is counted in it. -/
theorem Inv.none_counted (few : Fintype.card ι < 2 ^ 31) (h : Inv s) (zero : s.ntimers = 0) (i : ι) :
    counted (s.place i) = false := by
  by_contra counts
  have some_counted : 0 < occupancy counted s.place := Finset.card_pos.mpr
    ⟨i, Finset.mem_filter.mpr ⟨Finset.mem_univ i, by simpa using counts⟩⟩
  have le : occupancy counted s.place ≤ Fintype.card ι := Finset.card_le_univ _
  have value := congrArg Int32.toInt h.ntimers
  rw [zero, Int32.toInt_ofNat_of_lt (by omega)] at value
  change (0 : Int) = _ at value
  omega

theorem inv_next {HZ : Nat} (few : Fintype.card ι < 2 ^ 31) {a : Act ι ω} (h : Inv s)
    (enabled : Enabled s a) : Inv (next HZ s a) := by
  cases a with
  | atomic_inc i => exact inv_atomic_inc h enabled
  | kmalloc_tl i o junk => exact inv_kmalloc_tl h enabled
  | init_timer i => exact inv_init_timer h enabled
  | kmalloc_data i o junk => exact inv_kmalloc_data h enabled
  | fill i => exact inv_fill h enabled
  | add_timer i => exact inv_add_timer h enabled
  | load_len i => exact inv_load_len h enabled
  | store_len i => exact inv_store_len h enabled
  | tick => exact ⟨h.owned, fun i => ⟨(h.known i).1, (h.known i).2, (h.known i).3, (h.known i).4,
      (h.known i).5, (h.known i).6⟩, h.ntimers, h.printed, h.entered, h.drained⟩
  | expire i => exact inv_expire h enabled
  | print i => exact inv_print h enabled
  | kfree_tl i => exact inv_kfree_tl h enabled
  | kfree_data i => exact inv_kfree_data h enabled
  | atomic_dec i => exact inv_atomic_dec h enabled
  | leave i => exact inv_leave h enabled
  | exit_begin => exact ⟨h.owned, fun i => ⟨(h.known i).1, (h.known i).2, (h.known i).3,
      (h.known i).4, (h.known i).5, (h.known i).6⟩, h.ntimers, h.printed, fun _ => enabled.2,
      fun left => by cases left⟩
  | exit_test =>
    have left : s.phase ≠ .loaded := by rw [enabled.1]; exact Phase.noConfusion
    have out := h.none_counted few enabled.2
    exact ⟨h.owned, fun i => ⟨(h.known i).1, (h.known i).2, (h.known i).3,
      (h.known i).4, (h.known i).5, (h.known i).6⟩, h.ntimers, h.printed, fun _ => h.entered left,
      fun _ => out⟩

omit [DecidableEq ι] in
theorem inv_init (jiffies : Nat) (heap : ω → Cell ω) : Inv (init jiffies heap : State ι ω) := by
  have empty : slot (init jiffies heap : State ι ω) = fun _ => none := by
    funext x
    simp [slot, init, tlHeld, dataHeld, WritePc.hasTl, WritePc.hasData]
  have early : ∀ i, Known (init jiffies heap : State ι ω) i := fun i =>
    known_early rfl rfl (fun held => Bool.noConfusion held) (fun held => Bool.noConfusion held)
  refine ⟨empty ▸ owned_nil, early, ?_, (fun e he => by cases he), fun left => absurd rfl left,
    (fun left => by cases left)⟩
  rw [occupancy_eq_zero fun _ => rfl]
  rfl

omit [DecidableEq ι] in
/-- A call that is not counted in `ntimers` after `my_exit` has begun has nothing left to free. -/
theorem Inv.uncounted (h : Inv s) (left : s.phase ≠ .loaded) {i : ι}
    (out : counted (s.place i) = false) : (s.place i = (.atomic_inc, .idle) ∨
      (s.place i).1 = .returned ∧ ((s.place i).2 = .leave ∨ (s.place i).2 = .finished)) ∧
        ∀ b, slot s (i, b) = none := by
  rcases h.entered left i with w | w
  · have idle : (s.place i).2 = .idle := (h.known i).idle.mpr (by rw [w]; rfl)
    refine ⟨Or.inl (Prod.ext w idle), fun b => ?_⟩
    cases b <;> simp [slot, tlHeld, dataHeld, w, WritePc.hasTl, WritePc.hasData]
  · rw [counted, w] at out
    have done : (s.place i).2 = .leave ∨ (s.place i).2 = .finished := by
      generalize (s.place i).2 = k at out
      cases k <;> first | exact Or.inl rfl | exact Or.inr rfl | cases out
    refine ⟨Or.inr ⟨w, done⟩, fun b => ?_⟩
    rcases done with k | k <;> cases b <;>
      simp [slot, tlHeld, dataHeld, k, TimerPc.keepsTl, TimerPc.keepsData]

/-- In every interleaving of the writes, of the timer functions and of the unloading: each object is
freed once, by the timer function of the write that allocated it, and not touched after that;
`ntimers` counts the writes whose timer functions have still to count themselves out; and a timer
function prints what its own write gave it. When `my_exit` gets past its loop, no object is left,
no timer is pending, and what can still run of the module is the end of timer functions that have
counted themselves out. -/
theorem frees_its_own {HZ jiffies : Nat} {heap : ω → Cell ω} (few : Fintype.card ι < 2 ^ 31)
    {as : List (Act ι ω)} {s : State ι ω} (h : Run (machine HZ) (init jiffies heap) as s) :
    Disciplined s.log ∧ s.ntimers.toInt = occupancy counted s.place ∧
      (∀ e ∈ s.printed, e.2 = s.said e.1) ∧
      (∀ i, (s.place i).2 = .kfree_tl → (s.arg i).bind (fun d => (s.heap d).tl) = s.tl i) ∧
      (∀ i, (s.place i).2 = .kfree_data → s.arg i = s.mdata i) ∧
      (s.phase = .returned → (∀ o, live s.log o = false) ∧
        ∀ i, s.place i = (.atomic_inc, .idle) ∨ (s.place i).1 = .returned ∧
          ((s.place i).2 = .leave ∨ (s.place i).2 = .finished)) := by
  have inv : Inv s := run_invariant (inv_init jiffies heap)
    (fun _ _ inv enabled => inv_next few inv enabled) h
  refine ⟨inv.owned.disciplined, ?_, fun e he => (inv.printed e he).1, fun i pc => ?_,
    fun i pc => (inv.known i).given (by rw [pc]; rfl), fun left => ?_⟩
  · have le : occupancy counted s.place ≤ Fintype.card ι := Finset.card_le_univ _
    rw [inv.ntimers, Int32.toInt_ofNat_of_lt (by omega)]
  · have late := (inv.known i).scheduled (by rw [pc]; exact TimerPc.noConfusion)
    obtain ⟨d, own, stands⟩ := ((inv.known i).stands late).2 (by rw [pc]; rfl)
    rw [(inv.known i).given (by rw [pc]; rfl), own, Option.bind_some]
    exact ((inv.known i).back (WritePc.of_scheduled late).2.2.2 (slot_mdata.mp stands).1 d own).1
  · have leaving : s.phase ≠ .loaded := by rw [left]; exact Phase.noConfusion
    refine ⟨inv.owned.none_live fun x => ?_, fun i => ?_⟩
    · exact (inv.uncounted leaving (inv.drained left x.1)).2 x.2
    · exact (inv.uncounted leaving (inv.drained left i)).1

end

end

/-- Two writes whose timer functions overlap; the module is removed while that of the second has yet
to return. -/
theorem frees_its_own_overlapping :
    let junk : Cell (Fin 4) := ⟨none, 0, 0, none⟩
    let as : List (Act (Fin 2) (Fin 4)) := [.atomic_inc 0, .kmalloc_tl 0 0 junk, .init_timer 0,
      .kmalloc_data 0 1 junk, .fill 0, .add_timer 0, .load_len 0, .store_len 0, .tick,
      .atomic_inc 1, .kmalloc_tl 1 2 junk, .init_timer 1, .kmalloc_data 1 3 junk, .fill 1,
      .add_timer 1, .load_len 1, .store_len 1, .tick, .tick, .tick, .tick, .exit_begin, .expire 0,
      .expire 1, .print 1, .kfree_tl 1, .print 0, .kfree_tl 0, .kfree_data 0, .atomic_dec 0,
      .leave 0, .kfree_data 1, .atomic_dec 1, .exit_test]
    let s := (machine 1).replay (init 0 fun _ => junk) as
    Disciplined s.log ∧ (∀ e ∈ s.printed, e.2 = s.said e.1) ∧ s.printed = [(1, 200), (0, 100)] ∧
      (∀ o, live s.log o = false) ∧ (s.place 1).2 = .leave := by
  intro junk as s
  have run : Run (machine 1) (init 0 fun _ => junk) as s :=
    run_of_admits ⟨⟨rfl, rfl⟩, ⟨rfl, rfl⟩, rfl, ⟨rfl, rfl⟩, rfl, rfl, rfl, ⟨100, rfl⟩, trivial,
      ⟨rfl, rfl⟩, ⟨rfl, rfl⟩, rfl, ⟨rfl, rfl⟩, rfl, rfl, rfl, ⟨200, rfl⟩, trivial, trivial,
      trivial, trivial, ⟨rfl, fun | 0 => Or.inr rfl | 1 => Or.inr rfl⟩,
      ⟨rfl, fun o ho => by cases ho; decide⟩, ⟨rfl, fun o ho => by cases ho; decide⟩, rfl, rfl,
      rfl, rfl, rfl, rfl, rfl, rfl, rfl, ⟨rfl, by decide⟩, trivial⟩
  obtain ⟨log, _, printed, _, _, after⟩ := frees_its_own (by decide) run
  exact ⟨log, printed, rfl, (after rfl).1, rfl⟩

end DeviceDriverEx.Multitimer
