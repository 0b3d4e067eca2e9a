import DeviceDriverEx.Machine
import DeviceDriverEx.TimerQueue
import Mathlib.Logic.Function.Basic

namespace DeviceDriverEx.MKtimer

/-- What a call of `MKtimer_write` executes next. -/
inductive Pc
  | kzalloc
  | list_add_tail
  | add_timer
  | returned
  deriving DecidableEq

/-- The driver of 11_LAB2 and the kernel's timers. A `struct timer` is known by the call of
`MKtimer_write` that allocates it; `head` is the driver's list and `queue` the timers that are
pending. The log pairs each timer that ran with the entry its function freed, newest first. -/
structure State (ι : Type) where
  jiffies : Nat
  pc : ι → Pc
  expires : ι → Nat
  head : List ι
  queue : List ι
  running : Option ι
  log : List (ι × Option ι)

inductive Act (ι : Type)
  | kzalloc (i : ι)
  | list_add_tail (i : ι)
  | add_timer (i : ι)
  | tick
  | expire
  | timer_func

section
variable {ι : Type} [DecidableEq ι]

omit [DecidableEq ι] in
def init (jiffies : Nat) : State ι :=
  ⟨jiffies, fun _ => .kzalloc, fun _ => 0, [], [], none, []⟩

omit [DecidableEq ι] in
/-- Whichever timer fired, the first entry of the list is unlinked and freed. -/
def timer_func (s : State ι) (t : ι) : State ι :=
  { s with head := s.head.tail, running := none, log := (t, s.head.head?) :: s.log }

/-- A timer runs when it heads the queue and is due, one at a time. -/
def Enabled (s : State ι) : Act ι → Prop
  | .kzalloc i => s.pc i = .kzalloc
  | .list_add_tail i => s.pc i = .list_add_tail
  | .add_timer i => s.pc i = .add_timer
  | .tick => True
  | .expire => s.running = none ∧ ∃ t ∈ s.queue.head?, s.expires t ≤ s.jiffies
  | .timer_func => s.running ≠ none

def next (HZ : Nat) (s : State ι) : Act ι → State ι
  | .kzalloc i => { s with
      pc := Function.update s.pc i .list_add_tail
      expires := Function.update s.expires i (s.jiffies + 10 * HZ) }
  | .list_add_tail i => { s with
      pc := Function.update s.pc i .add_timer
      head := s.head ++ [i] }
  | .add_timer i => { s with
      pc := Function.update s.pc i .returned
      queue := enqueue s.expires i s.queue }
  | .tick => { s with jiffies := s.jiffies + 1 }
  | .expire => { s with queue := s.queue.tail, running := s.queue.head? }
  | .timer_func =>
    match s.running with
    | none => s
    | some t => timer_func s t

def machine (HZ : Nat) : Machine (State ι) (Act ι) := ⟨Enabled, next HZ⟩

instance (s : State ι) : ∀ a : Act ι, Decidable (Enabled s a)
  | .kzalloc i => inferInstanceAs (Decidable (s.pc i = .kzalloc))
  | .list_add_tail i => inferInstanceAs (Decidable (s.pc i = .list_add_tail))
  | .add_timer i => inferInstanceAs (Decidable (s.pc i = .add_timer))
  | .tick => inferInstanceAs (Decidable True)
  | .expire => inferInstanceAs
      (Decidable (s.running = none ∧ ∃ t ∈ s.queue.head?, s.expires t ≤ s.jiffies))
  | .timer_func => inferInstanceAs (Decidable (s.running ≠ none))

instance (HZ : Nat) (s : State ι) (a : Act ι) : Decidable ((machine HZ).Enabled s a) :=
  inferInstanceAs (Decidable (Enabled s a))

theorem returned_kept {s : State ι} {i j : ι} {pc new : Pc} (hi : s.pc i = pc)
    (waits : pc ≠ .returned) (hj : s.pc j = .returned) :
    Function.update s.pc i new j = .returned := by
  have differs : j ≠ i := by
    intro hji
    rw [hji, hi] at hj
    exact waits hj
  exact (Function.update_of_ne differs ..).trans hj

def clock (HZ : Nat) : Clock (machine HZ : Machine (State ι) (Act ι)) :=
  ⟨.tick, fun s n => { s with jiffies := s.jiffies + n }, fun _ => rfl, fun _ _ => ⟨trivial, rfl⟩⟩

/-- The entries whose timer function has run. -/
def State.fired (s : State ι) : List ι := s.log.map Prod.fst

/-- The entry has been put on the list. -/
def Pc.listed : Pc → Bool
  | kzalloc => false
  | list_add_tail => false
  | add_timer => true
  | returned => true

/-- Each firing takes its own entry from the list. -/
structure OwnEntries (s : State ι) : Prop where
  own : ∀ e ∈ s.log, e.2 = some e.1
  safe : ∀ e ∈ s.log, ∀ i, e.2 = some i →
    i ∉ s.queue ∧ s.running ≠ some i ∧ s.pc i = .returned
  once : (s.log.map Prod.snd).Nodup
  nonempty : s.running ≠ none → s.head ≠ []
  listed : ∀ i, i ∈ s.head ↔ (s.pc i).listed = true ∧ i ∉ s.fired

/-- The writers keep the order of the list, of the expiries and of the `add_timer` calls together:
an entry goes behind none that expires later, the timer of an entry is not added before that of one
in front with the same expiry, and it does not run while one in front waits for its `add_timer`. -/
def InOrder (s : State ι) : Act ι → Prop
  | .list_add_tail i => ∀ u ∈ s.head, s.running ≠ some u → s.expires u ≤ s.expires i
  | .add_timer i => ∀ u ∈ aheadOf i s.head, s.pc u = .add_timer → s.expires u < s.expires i
  | .expire => ∀ t ∈ s.queue.head?, ∀ u ∈ aheadOf t s.head, s.pc u ≠ .add_timer
  | _ => True

instance (s : State ι) : ∀ a : Act ι, Decidable (InOrder s a)
  | .list_add_tail i => inferInstanceAs
      (Decidable (∀ u ∈ s.head, s.running ≠ some u → s.expires u ≤ s.expires i))
  | .add_timer i => inferInstanceAs
      (Decidable (∀ u ∈ aheadOf i s.head, s.pc u = .add_timer → s.expires u < s.expires i))
  | .expire => inferInstanceAs
      (Decidable (∀ t ∈ s.queue.head?, ∀ u ∈ aheadOf t s.head, s.pc u ≠ .add_timer))
  | .kzalloc _ | .tick | .timer_func => isTrue trivial

end

end DeviceDriverEx.MKtimer
