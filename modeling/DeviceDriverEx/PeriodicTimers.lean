import DeviceDriverEx.Jiffies
import DeviceDriverEx.Machine
import Mathlib.Data.List.TakeWhile

namespace DeviceDriverEx.PeriodicTimers

/-- lab3_periodic_timer with its single timer, and the two solutions of lab4 with two. -/
inductive Lab
  | periodic_timer
  | periodic_timers
  | periodic_timers_alt
  deriving DecidableEq

def Lab.timers : Lab → Nat
  | periodic_timer => 1
  | _ => 2

abbrev Timer (lab : Lab) : Type := Fin lab.timers

/-- `del_timer_sync`, which waits for a timer function that runs; the alternative solution calls
`del_timer`. -/
def Lab.sync : Lab → Bool
  | periodic_timers_alt => false
  | _ => true

/-- lab3 computes `expires` before it stores `start_time`, lab4 the other way round. -/
def Lab.expires_first : Lab → Bool
  | periodic_timer => true
  | _ => false

/-- The timer functions of lab4 store `start_time` afresh. -/
def Lab.stamps : Lab → Bool
  | periodic_timer => false
  | _ => true

/-- `HZ`, ticks in a second. -/
structure Hz where
  val : UInt64
  small : 10 * val.toNat ≤ 2 ^ 63

def period (HZ : Hz) (lab : Lab) (i : Timer lab) : UInt64 :=
  if lab = .periodic_timer then 2 * HZ.val else if i.val = 0 then 1 * HZ.val else 10 * HZ.val

/-- Where a timer stands: `my_init` has not come to it, has made one of its two stores, or both; it
is queued; its function is about to print, to store `start_time`, to compute the time for
`mod_timer` or to call it; or it has been deleted while queued. -/
inductive Place
  | fresh
  | half
  | ready
  | queued
  | print
  | stamp
  | reckon
  | rearm (expires : UInt64)
  | deleted
  deriving DecidableEq

/-- `my_init` is through with the timer. -/
def Place.added : Place → Bool
  | fresh => false
  | half => false
  | ready => false
  | _ => true

/-- `start_time` has been stored. -/
def Place.started (lab : Lab) : Place → Bool
  | fresh => false
  | half => !lab.expires_first
  | _ => true

/-- The timer's function is running. -/
def Place.running : Place → Bool
  | print => true
  | stamp => true
  | reckon => true
  | rearm _ => true
  | _ => false

/-- `elapsed` is what the timers' functions have printed, newest first, `rc` what `my_exit` prints
for a timer and `gone` how many it has come past. With `freed` the data and the module are gone;
`dangling` tells of a timer that was gone back to after that. -/
structure State (lab : Lab) where
  now : Nat
  start_time : Timer lab → UInt64
  expires : Timer lab → UInt64
  place : Timer lab → Place
  elapsed : Timer lab → List UInt64
  rc : Timer lab → Option Int32
  gone : Nat
  freed : Bool
  dangling : Bool

inductive Act (lab : Lab)
  | tick
  | start (i : Timer lab)
  | set (i : Timer lab)
  | add (i : Timer lab)
  | expire (i : Timer lab)
  | print (i : Timer lab)
  | stamp (i : Timer lab)
  | reckon (i : Timer lab)
  | rearm (i : Timer lab)
  | del (i : Timer lab)
  | free
  deriving DecidableEq

def Act.isTick {lab : Lab} : Act lab → Bool
  | tick => true
  | _ => false

section
variable (HZ : Hz) {lab : Lab}

/-- `memory` and `timers` are what `start_time` and `expires` held before. -/
def init (now : Nat) (memory timers : Timer lab → UInt64) : State lab :=
  ⟨now, memory, timers, fun _ => .fresh, fun _ => [], fun _ => none, 0, false, false⟩

def State.go (s : State lab) (i : Timer lab) (k : Place) : State lab :=
  { s with place := Function.update s.place i k }

def Enabled (s : State lab) : Act lab → Prop
  | .tick => True
  | .start i => s.place i = if lab.expires_first then .half else .fresh
  | .set i => s.place i = if lab.expires_first then .fresh else .half
  | .add i => s.place i = .ready
  | .expire i => s.place i = .queued ∧ time_after_eq (jiffies s.now) (s.expires i)
  | .print i => s.place i = .print
  | .stamp i => s.place i = .stamp
  | .reckon i => s.place i = .reckon
  | .rearm i => ∃ expires, s.place i = .rearm expires
  | .del i => (∀ j, (s.place j).added = true) ∧ s.gone = i.val ∧
      (lab.sync = true → (s.place i).running = false)
  | .free => s.gone = lab.timers ∧ s.freed = false

/-- What a timer and its function do while the data is there. -/
def work (s : State lab) : Act lab → State lab
  | .expire i => s.go i .print
  | .print i => { s.go i (if lab.stamps then .stamp else .reckon) with
      elapsed := Function.update s.elapsed i
        ((jiffies s.now - s.start_time i) :: s.elapsed i) }
  | .stamp i => { s.go i .reckon with
      start_time := Function.update s.start_time i (jiffies s.now) }
  | .reckon i => s.go i (.rearm (period HZ lab i + jiffies s.now))
  | .rearm i => match s.place i with
    | .rearm expires => { s.go i .queued with expires := Function.update s.expires i expires }
    | _ => s
  | _ => s

def next (s : State lab) : Act lab → State lab
  | .tick => { s with now := s.now + 1 }
  | .start i => { s.go i (if lab.expires_first then .ready else .half) with
      start_time := Function.update s.start_time i (jiffies s.now) }
  | .set i => { s.go i (if lab.expires_first then .half else .ready) with
      expires := Function.update s.expires i (jiffies s.now + period HZ lab i) }
  | .add i => s.go i .queued
  | .del i => if s.place i = .queued
    then { s.go i .deleted with rc := Function.update s.rc i (some 1), gone := s.gone + 1 }
    else { s with rc := Function.update s.rc i (some 0), gone := s.gone + 1 }
  | .free => { s with freed := true }
  | a => if s.freed then { s with dangling := true } else work HZ s a

def machine : Machine (State lab) (Act lab) := ⟨Enabled, next HZ⟩

def clock : Clock (machine HZ : Machine (State lab) (Act lab)) :=
  ⟨.tick, fun s n => { s with now := s.now + n }, fun _ => rfl, fun _ _ => ⟨trivial, rfl⟩⟩

/-- The ticks of the run between the stores of `expires` and of `start_time`, in this order. -/
def lag (i : Timer lab) (as : List (Act lab)) : Nat :=
  ((as.takeWhile (· ≠ .start i)).dropWhile (· ≠ .set i)).countP Act.isTick

/-- What a report of lab3 may lack of whole periods; lab4 stores `start_time` first. -/
def slack (i : Timer lab) (as : List (Act lab)) : Nat := if lab.expires_first then lag i as else 0

variable (lab) in
/-- The periods that have gone by for certain since the last `start_time`, after these reports. -/
def owed (older : List UInt64) : Nat := if lab.stamps then 0 else older.length

/-- Each report, oldest last, is of a time no shorter than the period; where `start_time` is never
stored again, than as many periods as there have been reports. It may be `slack` shorter. -/
def Spaced (i : Timer lab) (slack : Nat) : List UInt64 → Prop
  | [] => True
  | e :: older => Spaced i slack older ∧
      (owed lab older + 1) * (period HZ lab i).toNat ≤ e.toNat + slack

instance (i : Timer lab) (slack : Nat) : ∀ es, Decidable (Spaced HZ i slack es)
  | [] => isTrue trivial
  | _ :: older =>
    have := instDecidableSpaced i slack older
    inferInstanceAs (Decidable (_ ∧ _))

/-- `expires` was computed when the periods of the earlier reports had gone by. -/
def Ahead (i : Timer lab) (now slack since : Nat) (older : List UInt64) (expires : UInt64) : Prop :=
  ∃ t, t ≤ now ∧ expires = period HZ lab i + jiffies t ∧
    since + owed lab older * (period HZ lab i).toNat ≤ t + slack

/-- What is known of a timer whose `start_time` is of the moment `since`. -/
def Standing (i : Timer lab) (now slack since : Nat) (older : List UInt64) (expires : UInt64) :
    Place → Prop
  | .fresh => older = []
  | .half => older = [] ∧ (lab.expires_first = true → Ahead HZ i now slack now older expires)
  | .ready => Ahead HZ i now slack since older expires
  | .queued => Ahead HZ i now slack since older expires
  | .print => since + (owed lab older + 1) * (period HZ lab i).toNat ≤ now + slack
  | .stamp => lab.stamps = true
  | .reckon => since + owed lab older * (period HZ lab i).toNat ≤ now + slack
  | .rearm expires => Ahead HZ i now slack since older expires
  | .deleted => True

/-- What is known of a timer after a run that has started at `loaded`. -/
structure Timed (loaded : Nat) (as : List (Act lab)) (s : State lab) (i : Timer lab) : Prop where
  spaced : Spaced HZ i (slack i as) (s.elapsed i)
  unstarted : (s.place i).started lab = false → .start i ∉ as
  halfway : s.place i = .half → lab.expires_first = true → .set i ∈ as
  standing : ∃ since, loaded ≤ since ∧ since ≤ s.now ∧
    ((s.place i).started lab = true → s.start_time i = jiffies since) ∧
    Standing HZ i s.now (slack i as) since (s.elapsed i) (s.expires i) (s.place i)

variable {HZ} {loaded : Nat} {as : List (Act lab)} {s t : State lab} {i : Timer lab} {a : Act lab}

theorem period_near (HZ : Hz) (i : Timer lab) : (period HZ lab i).toNat ≤ 2 ^ 63 := by
  have small := HZ.small
  have times : ∀ k : UInt64, k.toNat ≤ 10 → (k * HZ.val).toNat ≤ 2 ^ 63 := by
    intro k hk
    have le : k.toNat * HZ.val.toNat ≤ 10 * HZ.val.toNat := Nat.mul_le_mul_right _ hk
    rw [UInt64.toNat_mul]
    exact Nat.le_trans (Nat.mod_le _ _) (by omega)
  unfold period
  split_ifs
  · exact times 2 (by decide)
  · exact times 1 (by decide)
  · exact times 10 (by decide)

theorem dropWhile_grows {α : Type} (p q : α → Bool) (as bs : List α) :
    (as.dropWhile p).countP q ≤ ((as ++ bs).dropWhile p).countP q := by
  rw [List.dropWhile_append]
  split
  next none => simp [List.isEmpty_iff.mp none]
  next =>
    rw [List.countP_append]
    omega

theorem lag_grows (i : Timer lab) (as : List (Act lab)) (a : Act lab) :
    lag i as ≤ lag i (as ++ [a]) := by
  unfold lag
  rw [List.takeWhile_append]
  split
  next whole =>
    rw [(List.takeWhile_prefix _).eq_of_length whole]
    exact dropWhile_grows _ _ _ _
  next => exact Nat.le_refl _

/-- A tick between the two stores. -/
theorem lag_tick (set : .set i ∈ as) (unstarted : .start i ∉ as) :
    lag i (as ++ [.tick]) = lag i as + 1 := by
  have before : ∀ b ∈ as, decide (b ≠ .start i) = true := by
    intro b hb
    refine decide_eq_true ?_
    rintro rfl
    exact unstarted hb
  have behind : ((as.dropWhile (· ≠ .set i)).isEmpty) ≠ true := by
    intro none
    have all := List.dropWhile_eq_nil_iff.mp (List.isEmpty_iff.mp none) _ set
    simp at all
  unfold lag
  rw [List.takeWhile_append_of_pos before, List.takeWhile_eq_self_iff.mpr before,
    show [Act.tick].takeWhile (· ≠ .start i) = [.tick] from rfl, List.dropWhile_append,
    if_neg behind, count_one rfl]

theorem slack_grows (i : Timer lab) (as : List (Act lab)) (a : Act lab) :
    slack i as ≤ slack i (as ++ [a]) := by
  unfold slack
  split_ifs
  · exact lag_grows i as a
  · exact Nat.le_refl 0

theorem spaced_grows {older : List UInt64} {slack slack' : Nat} (h : Spaced HZ i slack older)
    (more : slack ≤ slack') : Spaced HZ i slack' older := by
  induction older with
  | nil => trivial
  | cons e older ih => exact ⟨ih h.1, Nat.le_trans h.2 (Nat.add_le_add_left more _)⟩

theorem ahead_grows {older : List UInt64} {now now' slack slack' since : Nat} {expires : UInt64}
    (h : Ahead HZ i now slack since older expires) (later : now ≤ now') (more : slack ≤ slack') :
    Ahead HZ i now' slack' since older expires := by
  obtain ⟨t, le, set, past⟩ := h
  exact ⟨t, by omega, set, by omega⟩

/-- Time goes by, and between the stores of lab3 the slack grows with it. -/
theorem standing_grows {older : List UInt64} {now slack slack' since : Nat} {expires : UInt64}
    {k : Place} (ticks : Nat) (h : Standing HZ i now slack since older expires k)
    (more : slack ≤ slack')
    (half : k = .half → lab.expires_first = true → slack + ticks ≤ slack') :
    Standing HZ i (now + ticks) slack' since older expires k := by
  cases k with
  | fresh => exact h
  | half =>
    refine ⟨h.1, fun first => ?_⟩
    obtain ⟨t, le, set, past⟩ := h.2 first
    have grown := half rfl first
    exact ⟨t, by omega, set, by omega⟩
  | ready => exact ahead_grows h (Nat.le_add_right _ _) more
  | queued => exact ahead_grows h (Nat.le_add_right _ _) more
  | print =>
    change _ ≤ _ at h
    change _ ≤ now + ticks + slack'
    omega
  | stamp => exact h
  | reckon =>
    change _ ≤ _ at h
    change _ ≤ now + ticks + slack'
    omega
  | rearm _ => exact ahead_grows h (Nat.le_add_right _ _) more
  | deleted => trivial

theorem timed_later (h : Timed HZ loaded as s i) :
    Timed HZ loaded (as ++ [.tick]) { s with now := s.now + 1 } i := by
  have more := slack_grows i as .tick
  obtain ⟨since, after, le, start, standing⟩ := h.standing
  refine ⟨spaced_grows h.spaced more, fun pending => ?_, fun half first => ?_,
    since, after, Nat.le_succ_of_le le, start, standing_grows 1 standing more fun half first => ?_⟩
  · simpa using h.unstarted pending
  · simpa using h.halfway half first
  · have tick := lag_tick (h.halfway half first)
      (h.unstarted (by rw [half]; simp [Place.started, first]))
    rw [slack, slack, if_pos first, if_pos first, tick]

/-- A step that takes no time and prints nothing. -/
theorem timed_moved (h : Timed HZ loaded as s i) (now : t.now = s.now)
    (elapsed : t.elapsed i = s.elapsed i)
    (unstarted : (t.place i).started lab = false → .start i ∉ as ++ [a])
    (halfway : t.place i = .half → lab.expires_first = true → .set i ∈ as ++ [a])
    (standing : ∃ since, loaded ≤ since ∧ since ≤ s.now ∧
      ((t.place i).started lab = true → t.start_time i = jiffies since) ∧
      Standing HZ i s.now (slack i as) since (s.elapsed i) (t.expires i) (t.place i)) :
    Timed HZ loaded (as ++ [a]) t i := by
  have more := slack_grows i as a
  obtain ⟨since, after, le, start, stands⟩ := standing
  refine ⟨?_, unstarted, halfway, since, after, now ▸ le, start, ?_⟩
  · rw [elapsed]
    exact spaced_grows h.spaced more
  · rw [now, elapsed]
    exact standing_grows 0 stands more fun _ _ => more

/-- A timer is not touched by what another one does. -/
theorem timed_frame (h : Timed HZ loaded as s i) (other : .start i ≠ a) (now : t.now = s.now)
    (place : t.place i = s.place i) (start : t.start_time i = s.start_time i)
    (expires : t.expires i = s.expires i) (elapsed : t.elapsed i = s.elapsed i) :
    Timed HZ loaded (as ++ [a]) t i := by
  refine timed_moved h now elapsed (fun pending => ?_) (fun half first => ?_) ?_
  · rw [place] at pending
    simpa [other] using h.unstarted pending
  · rw [place] at half
    exact List.mem_append_left _ (h.halfway half first)
  · rw [place, start, expires]
    exact h.standing

theorem timed_init (HZ : Hz) (now : Nat) (memory timers : Timer lab → UInt64) (i : Timer lab) :
    Timed HZ now [] (init now memory timers : State lab) i :=
  ⟨trivial, fun _ => List.not_mem_nil, nofun, now, Nat.le_refl now, Nat.le_refl now, nofun, rfl⟩

/-- A step of a timer whose `start_time` stays. -/
theorem timed_go {k : Place} (h : Timed HZ loaded as s i) (on : (s.place i).started lab = true)
    (going : k.started lab = true) (whole : k ≠ .half) (now : t.now = s.now)
    (place : t.place = Function.update s.place i k) (start : t.start_time = s.start_time)
    (elapsed : t.elapsed = s.elapsed)
    (standing : ∀ since, since ≤ s.now →
      Standing HZ i s.now (slack i as) since (s.elapsed i) (s.expires i) (s.place i) →
      Standing HZ i s.now (slack i as) since (s.elapsed i) (t.expires i) k) :
    Timed HZ loaded (as ++ [a]) t i := by
  have here : t.place i = k := by
    rw [place]
    exact Function.update_self ..
  obtain ⟨since, after, le, started, stood⟩ := h.standing
  refine timed_moved h now (by rw [elapsed]) (fun pending => ?_) (fun half => ?_)
    ⟨since, after, le, fun _ => ?_, ?_⟩
  · rw [here, going] at pending
    cases pending
  · exact absurd (here ▸ half) whole
  · rw [start]
    exact started on
  · rw [here]
    exact standing since le stood

/-- `start_time` is stored, by `my_init` or by the timer's function. -/
theorem timed_start {k : Place} (h : Timed HZ loaded as s i) (going : k.started lab = true)
    (half : k = .half → lab.expires_first = false) (now : t.now = s.now)
    (place : t.place = Function.update s.place i k)
    (start : t.start_time = Function.update s.start_time i (jiffies s.now))
    (elapsed : t.elapsed = s.elapsed)
    (standing : Standing HZ i s.now (slack i as) s.now (s.elapsed i) (t.expires i) k) :
    Timed HZ loaded (as ++ [a]) t i := by
  have here : t.place i = k := by
    rw [place]
    exact Function.update_self ..
  obtain ⟨since, after, le, _⟩ := h.standing
  refine timed_moved h now (by rw [elapsed]) (fun pending => ?_) (fun at_half first => ?_)
    ⟨s.now, Nat.le_trans after le, Nat.le_refl _, fun _ => ?_, here ▸ standing⟩
  · rw [here, going] at pending
    cases pending
  · rw [half (here ▸ at_half)] at first
    cases first
  · rw [start]
    exact Function.update_self ..

theorem timed_print (h : Timed HZ loaded as s i) (few : s.now < loaded + 2 ^ 64)
    (here : s.place i = .print) :
    Timed HZ loaded (as ++ [a]) { s.go i (if lab.stamps then .stamp else .reckon) with
      elapsed := Function.update s.elapsed i
        ((jiffies s.now - s.start_time i) :: s.elapsed i) } i := by
  have more := slack_grows i as a
  obtain ⟨since, after, le, start, stood⟩ := h.standing
  have started := start (by rw [here]; rfl)
  rw [here] at stood
  have past : since + (owed lab (s.elapsed i) + 1) * (period HZ lab i).toNat ≤
    s.now + slack i as := stood
  have place : (s.go i (if lab.stamps then .stamp else .reckon)).place i =
    if lab.stamps then .stamp else .reckon := Function.update_self ..
  refine ⟨?_, ?_, ?_, since, after, le, fun _ => started, ?_⟩
  · change Spaced HZ i _ (Function.update s.elapsed i _ i)
    rw [Function.update_self]
    refine ⟨spaced_grows h.spaced more, ?_⟩
    rw [started, jiffies_sub le, UInt64.toNat_ofNat_of_lt' (by change _ < 2 ^ 64; omega)]
    omega
  · dsimp only
    rw [place]
    split_ifs <;> nofun
  · dsimp only
    rw [place]
    split_ifs <;> nofun
  · dsimp only
    rw [show Function.update s.elapsed i _ i = _ from Function.update_self .., place]
    by_cases stamps : lab.stamps = true
    · rw [if_pos stamps]
      exact stamps
    · rw [if_neg stamps]
      unfold owed at past
      rw [if_neg stamps] at past
      change since + owed lab (_ :: s.elapsed i) * _ ≤ s.now + slack i (as ++ [a])
      rw [owed, if_neg stamps]
      exact Nat.le_trans past (Nat.add_le_add_left more _)

theorem owed_none (lab : Lab) : owed lab [] = 0 := by
  rw [owed, List.length_nil, ite_self]

/-- `expires` is computed for the first time. -/
theorem ahead_set {now slack since : Nat} (le : since ≤ now) :
    Ahead HZ i now slack since [] (jiffies now + period HZ lab i) := by
  refine ⟨now, Nat.le_refl _, UInt64.add_comm _ _, ?_⟩
  rw [owed_none]
  omega

theorem timed_set (h : Timed HZ loaded as s i) (enabled : Enabled s (.set i)) :
    Timed HZ loaded (as ++ [.set i]) (next HZ s (.set i)) i := by
  have here : s.place i = if lab.expires_first then .fresh else .half := enabled
  obtain ⟨since, after, le, started, stood⟩ := h.standing
  have place : (next HZ s (.set i)).place i = if lab.expires_first then .half else .ready :=
    Function.update_self ..
  have expires : (next HZ s (.set i)).expires i = jiffies s.now + period HZ lab i :=
    Function.update_self ..
  cases first : lab.expires_first with
  | true =>
    rw [first, if_pos rfl] at here place
    rw [here] at stood
    have none : s.elapsed i = [] := stood
    have unstarted := h.unstarted (by rw [here]; rfl)
    refine timed_moved h rfl rfl (fun _ => by simpa using unstarted) (fun _ _ => by simp)
      ⟨since, after, le, fun begun => ?_, ?_⟩
    · rw [place, Place.started, first] at begun
      cases begun
    · rw [place, expires, none]
      exact ⟨rfl, fun _ => ahead_set (Nat.le_refl _)⟩
  | false =>
    rw [first, if_neg (by decide)] at here place
    rw [here] at stood started
    have none : s.elapsed i = [] := stood.1
    refine timed_moved h rfl rfl (fun pending => ?_) (fun half => ?_)
      ⟨since, after, le, fun _ => started (by rw [Place.started, first]; rfl), ?_⟩
    · rw [place] at pending
      cases pending
    · rw [place] at half
      cases half
    · rw [place, expires, none]
      exact ahead_set le

theorem timed_first (h : Timed HZ loaded as s i) (enabled : Enabled s (.start i)) :
    Timed HZ loaded (as ++ [.start i]) (next HZ s (.start i)) i := by
  have here : s.place i = if lab.expires_first then .half else .fresh := enabled
  obtain ⟨since, _, le, _, stood⟩ := h.standing
  cases first : lab.expires_first with
  | true =>
    rw [first, if_pos rfl] at here
    rw [here] at stood
    refine timed_start (k := .ready) h rfl nofun rfl ?_ rfl rfl (stood.2 first)
    simp only [next, first, if_true, State.go]
  | false =>
    rw [first, if_neg (by decide)] at here
    rw [here] at stood
    refine timed_start (k := .half) h (by rw [Place.started, first]; rfl) (fun _ => first) rfl ?_
      rfl rfl ⟨stood, fun second => ?_⟩
    · simp only [next, first, State.go, Bool.false_eq_true, if_false]
    · rw [first] at second
      cases second

theorem timed_own (h : Timed HZ loaded as s i) (few : s.now < loaded + 2 ^ 64)
    (enabled : Enabled s a)
    (own : a = .add i ∨ a = .expire i ∨ a = .print i ∨ a = .stamp i ∨ a = .reckon i ∨ a = .rearm i)
    : Timed HZ loaded (as ++ [a]) (next HZ s a) i := by
  rcases own with rfl | rfl | rfl | rfl | rfl | rfl
  · have here : s.place i = .ready := enabled
    refine timed_go (k := .queued) h (by rw [here]; rfl) rfl nofun rfl rfl rfl rfl
      fun since le stood => ?_
    rw [here] at stood
    exact stood
  · obtain ⟨here, due⟩ := enabled
    simp only [next]
    split_ifs
    · exact timed_frame h nofun rfl rfl rfl rfl rfl
    refine timed_go (k := .print) h (by rw [here]; rfl) rfl nofun rfl rfl rfl rfl
      fun since le stood => ?_
    rw [here] at stood
    obtain ⟨t, set, expires, past⟩ := stood
    rw [expires] at due
    have waited := elapsed_of_after_eq set (period_near HZ i) due
    change since + (owed lab (s.elapsed i) + 1) * (period HZ lab i).toNat ≤ s.now + _
    rw [Nat.add_one_mul]
    omega
  · simp only [next]
    split_ifs
    · exact timed_frame h nofun rfl rfl rfl rfl rfl
    · exact timed_print h few enabled
  · have here : s.place i = .stamp := enabled
    simp only [next]
    split_ifs
    · exact timed_frame h nofun rfl rfl rfl rfl rfl
    obtain ⟨_, _, _, _, stood⟩ := h.standing
    rw [here] at stood
    have stamps : lab.stamps = true := stood
    refine timed_start (k := .reckon) h rfl nofun rfl rfl rfl rfl ?_
    change s.now + owed lab (s.elapsed i) * _ ≤ s.now + _
    rw [owed, if_pos stamps]
    omega
  · have here : s.place i = .reckon := enabled
    simp only [next]
    split_ifs
    · exact timed_frame h nofun rfl rfl rfl rfl rfl
    refine timed_go (k := .rearm _) h (by rw [here]; rfl) rfl nofun rfl rfl rfl rfl
      fun since le stood => ?_
    rw [here] at stood
    exact ⟨s.now, Nat.le_refl _, rfl, stood⟩
  · obtain ⟨expires, here⟩ := enabled
    simp only [next, work, here]
    split_ifs
    · exact timed_frame h nofun rfl rfl rfl rfl rfl
    refine timed_go (k := .queued) h (by rw [here]; rfl) rfl nofun rfl rfl rfl rfl
      fun since le stood => ?_
    rw [here] at stood
    dsimp only
    rw [Function.update_self]
    exact stood

theorem timed_del (h : Timed HZ loaded as s i) (j : Timer lab) :
    Timed HZ loaded (as ++ [.del j]) (next HZ s (.del j)) i := by
  simp only [next]
  split_ifs with queued
  · by_cases hi : i = j
    · subst hi
      exact timed_go (k := .deleted) h (by rw [queued]; rfl) rfl nofun rfl rfl rfl rfl
        fun _ _ _ => trivial
    · exact timed_frame h nofun rfl (Function.update_of_ne hi ..) rfl rfl rfl
  · exact timed_frame h nofun rfl rfl rfl rfl rfl

/-- The timer that an action is about, except for `del_timer`. -/
def Act.timer : Act lab → Option (Timer lab)
  | .start i => some i
  | .set i => some i
  | .add i => some i
  | .expire i => some i
  | .print i => some i
  | .stamp i => some i
  | .reckon i => some i
  | .rearm i => some i
  | _ => none

/-- What another timer's action leaves alone. -/
theorem next_other (HZ : Hz) (s : State lab) {j : Timer lab} (about : a.timer = some j)
    (hi : i ≠ j) :
    (next HZ s a).now = s.now ∧ (next HZ s a).place i = s.place i ∧
      (next HZ s a).start_time i = s.start_time i ∧ (next HZ s a).expires i = s.expires i ∧
      (next HZ s a).elapsed i = s.elapsed i := by
  cases a <;> cases about <;> simp only [next, work, State.go] <;> repeat' split
  all_goals simp [hi]

theorem timed_next (h : ∀ i, Timed HZ loaded as s i) (few : s.now < loaded + 2 ^ 64)
    (enabled : Enabled s a) (i : Timer lab) :
    Timed HZ loaded (as ++ [a]) (next HZ s a) i := by
  cases about : a.timer with
  | some j =>
    by_cases hi : i = j
    · subst hi
      cases a with
      | start j =>
        cases about
        exact timed_first (h i) enabled
      | set j =>
        cases about
        exact timed_set (h i) enabled
      | _ => exact timed_own (h i) few enabled (by cases about <;> simp)
    · obtain ⟨now, place, start, expires, elapsed⟩ := next_other HZ s about hi
      refine timed_frame (h i) ?_ now place start expires elapsed
      rintro rfl
      exact hi (Option.some.inj about)
  | none =>
    cases a with
    | tick => exact timed_later (h i)
    | del j => exact timed_del (h i) j
    | free => exact timed_frame (h i) nofun rfl rfl rfl rfl rfl
    | _ => cases about

theorem next_now (HZ : Hz) (s : State lab) (a : Act lab) :
    (next HZ s a).now = s.now + a.isTick.toNat := by
  cases a <;> simp only [next, work, State.go] <;> repeat' split
  all_goals rfl

theorem run_now {now : Nat} {memory timers : Timer lab → UInt64}
    (h : Run (machine HZ) (init now memory timers) as s) : s.now = now + as.countP Act.isTick := by
  induction h with
  | start => rfl
  | @next as s a _ _ ih =>
    rw [show ((machine HZ).next s a).now = _ from next_now HZ s a, ih, List.countP_append,
      List.countP_singleton, Nat.add_assoc]
    cases a.isTick <;> rfl

/-- A timer that `my_exit` has come past: deleted while it was queued, or missed because its
function ran, and then still there. -/
def Passed (s : State lab) (i : Timer lab) : Prop :=
  s.rc i = some 1 ∧ s.place i = .deleted ∨
    s.rc i = some 0 ∧ lab.sync = false ∧ s.place i ≠ .deleted

structure Leaving (s : State lab) : Prop where
  passed : ∀ i, i.val < s.gone → Passed s i
  ahead : ∀ i, s.gone ≤ i.val → s.place i ≠ .deleted
  added : 0 < s.gone → ∀ i, (s.place i).added = true
  freed : s.freed = true → s.gone = lab.timers
  dangling : s.dangling = true → s.freed = true ∧ ∃ i, s.place i ≠ .deleted

theorem leaving_init (now : Nat) (memory timers : Timer lab → UInt64) :
    Leaving (init now memory timers : State lab) :=
  ⟨nofun, nofun, nofun, nofun, nofun⟩

/-- Nothing is freed before `my_exit` has come past every timer. -/
theorem Leaving.live (h : Leaving s) (ahead : s.gone ≤ i.val) : s.freed = false := by
  by_contra freed
  have past := h.freed (Bool.not_eq_false _ ▸ freed)
  have last := i.isLt
  omega

theorem Leaving.live_adding (h : Leaving s) (pending : (s.place i).added = false) :
    s.freed = false := by
  refine h.live (i := i) ?_
  by_contra past
  have added := h.added (by omega) i
  rw [pending] at added
  cases added

/-- What is left of a timer while its function runs or it is put on the queue again. -/
theorem leaving_go {k : Place} (h : Leaving s) (live : s.freed = false) (on : s.place i ≠ .deleted)
    (left : k ≠ .deleted) (added : (s.place i).added = true → k.added = true)
    (place : t.place = Function.update s.place i k) (rc : t.rc = s.rc) (gone : t.gone = s.gone)
    (freed : t.freed = s.freed) (dangling : t.dangling = s.dangling) : Leaving t := by
  have there : ∀ j, t.place j = .deleted ↔ s.place j = .deleted := by
    intro j
    rw [place]
    by_cases hj : j = i
    · subst hj
      rw [Function.update_self]
      exact iff_of_false left on
    · rw [Function.update_of_ne hj]
  refine ⟨fun j past => ?_, fun j ahead => ?_, fun some j => ?_, ?_, ?_⟩
  · have passed := h.passed j (gone ▸ past)
    simp only [Passed, rc, ne_eq, there] at passed ⊢
    exact passed
  · exact mt (there j).mp (h.ahead j (gone ▸ ahead))
  · rw [place]
    by_cases hj : j = i
    · subst hj
      rw [Function.update_self]
      exact added (h.added (gone ▸ some) j)
    · rw [Function.update_of_ne hj]
      exact h.added (gone ▸ some) j
  · rw [freed, gone]
    exact h.freed
  · rw [dangling, freed]
    intro touched
    exact absurd (h.dangling touched).1 (by rw [live]; nofun)

/-- A step of `my_init`. -/
theorem leaving_adding {k : Place} (h : Leaving s) (pending : (s.place i).added = false)
    (left : k ≠ .deleted) (place : t.place = Function.update s.place i k) (rc : t.rc = s.rc)
    (gone : t.gone = s.gone) (freed : t.freed = s.freed) (dangling : t.dangling = s.dangling) :
    Leaving t := by
  refine leaving_go h (h.live_adding pending) ?_ left (fun added => ?_) place rc gone freed dangling
  · intro deleted
    rw [deleted] at pending
    cases pending
  · rw [pending] at added
    cases added

/-- Whatever a timer does after the data is gone, it is one that is still there. -/
theorem leaving_dangling (h : Leaving s) (freed : s.freed = true) (on : s.place i ≠ .deleted) :
    Leaving { s with dangling := true } :=
  ⟨h.passed, h.ahead, h.added, h.freed, fun _ => ⟨freed, i, on⟩⟩

/-- `my_exit` comes past the next timer. -/
theorem leaving_del {k : Place} {rc : Int32} (h : Leaving s) (turn : s.gone = i.val)
    (all : ∀ j, (s.place j).added = true)
    (passed : rc = 1 ∧ k = .deleted ∨ rc = 0 ∧ lab.sync = false ∧ k ≠ .deleted)
    (added : k.added = true) (place : t.place = Function.update s.place i k)
    (rcs : t.rc = Function.update s.rc i (some rc)) (gone : t.gone = s.gone + 1)
    (freed : t.freed = s.freed) (dangling : t.dangling = s.dangling) : Leaving t := by
  have live := h.live (i := i) (by omega)
  refine ⟨fun j past => ?_, fun j ahead => ?_, fun _ j => ?_, ?_, ?_⟩
  · unfold Passed
    by_cases hj : j = i
    · subst hj
      rw [place, rcs, Function.update_self, Function.update_self]
      rcases passed with ⟨rfl, rfl⟩ | ⟨rfl, rest⟩
      · exact Or.inl ⟨rfl, rfl⟩
      · exact Or.inr ⟨rfl, rest⟩
    · have other : j.val ≠ i.val := fun same => hj (Fin.ext same)
      rw [place, rcs, Function.update_of_ne hj, Function.update_of_ne hj]
      exact h.passed j (by omega)
  · have hj : j ≠ i := by
      rintro rfl
      omega
    rw [place, Function.update_of_ne hj]
    exact h.ahead j (by omega)
  · rw [place]
    by_cases hj : j = i
    · subst hj
      rw [Function.update_self]
      exact added
    · rw [Function.update_of_ne hj]
      exact all j
  · rw [freed, live]
    nofun
  · rw [dangling]
    intro touched
    exact absurd (h.dangling touched).1 (by rw [live]; nofun)

/-- `del_timer_sync` finds the timer on the queue. -/
theorem sync_queued (h : Leaving s) (enabled : Enabled s (.del i))
    (other : s.place i ≠ .queued) : lab.sync = false := by
  obtain ⟨all, turn, waits⟩ := enabled
  have on := h.ahead i (by omega)
  have added := all i
  by_contra sync
  have idle := waits (Bool.not_eq_false _ ▸ sync)
  cases here : s.place i with
  | queued => exact other here
  | deleted => exact on here
  | fresh => rw [here] at added; cases added
  | half => rw [here] at added; cases added
  | ready => rw [here] at added; cases added
  | print => rw [here] at idle; cases idle
  | stamp => rw [here] at idle; cases idle
  | reckon => rw [here] at idle; cases idle
  | rearm _ => rw [here] at idle; cases idle

theorem leaving_next (HZ : Hz) (h : Leaving s) (enabled : Enabled s a) :
    Leaving (next HZ s a) := by
  have busy : ∀ {i k}, s.place i = k → k ≠ .deleted → s.place i ≠ .deleted := by
    rintro i k rfl on
    exact on
  have there : s.freed ≠ true → s.freed = false := fun live => Bool.not_eq_true _ ▸ live
  cases a with
  | tick => exact ⟨h.passed, h.ahead, h.added, h.freed, h.dangling⟩
  | start i =>
    have here : s.place i = if lab.expires_first then .half else .fresh := enabled
    refine leaving_adding (i := i) h ?_ ?_ rfl rfl rfl rfl rfl
    · rw [here]
      split_ifs <;> rfl
    · split_ifs <;> nofun
  | set i =>
    have here : s.place i = if lab.expires_first then .fresh else .half := enabled
    refine leaving_adding (i := i) h ?_ ?_ rfl rfl rfl rfl rfl
    · rw [here]
      split_ifs <;> rfl
    · split_ifs <;> nofun
  | add i =>
    have ready : s.place i = .ready := enabled
    exact leaving_adding (k := .queued) h (by rw [ready]; rfl) nofun rfl rfl rfl rfl rfl
  | expire i =>
    obtain ⟨queued, _⟩ := enabled
    simp only [next]
    split_ifs with gone
    · exact leaving_dangling h gone (busy queued nofun)
    · exact leaving_go (k := .print) h (there gone) (busy queued nofun) nofun (fun _ => rfl)
        rfl rfl rfl rfl rfl
  | print i =>
    simp only [next]
    split_ifs with gone
    · exact leaving_dangling h gone (busy enabled nofun)
    · refine leaving_go h (there gone) (busy enabled nofun) ?_ (fun _ => ?_) rfl rfl rfl rfl rfl
      · split_ifs <;> nofun
      · split_ifs <;> rfl
  | stamp i =>
    simp only [next]
    split_ifs with gone
    · exact leaving_dangling h gone (busy enabled nofun)
    · exact leaving_go (k := .reckon) h (there gone) (busy enabled nofun) nofun (fun _ => rfl)
        rfl rfl rfl rfl rfl
  | reckon i =>
    simp only [next]
    split_ifs with gone
    · exact leaving_dangling h gone (busy enabled nofun)
    · exact leaving_go (k := .rearm _) h (there gone) (busy enabled nofun) nofun (fun _ => rfl)
        rfl rfl rfl rfl rfl
  | rearm i =>
    obtain ⟨expires, here⟩ := enabled
    simp only [next, work, here]
    split_ifs with gone
    · exact leaving_dangling h gone (busy here nofun)
    · exact leaving_go (k := .queued) h (there gone) (busy here nofun) nofun (fun _ => rfl)
        rfl rfl rfl rfl rfl
  | del i =>
    have ⟨all, turn, _⟩ := enabled
    simp only [next]
    split_ifs with queued
    · exact leaving_del h turn all (Or.inl ⟨rfl, rfl⟩) rfl rfl rfl rfl rfl rfl
    · have missed := sync_queued h enabled queued
      exact leaving_del h turn all (Or.inr ⟨rfl, missed, h.ahead i (by omega)⟩) (all i)
        (Function.update_eq_self i s.place).symm rfl rfl rfl rfl
  | free =>
    refine ⟨h.passed, h.ahead, h.added, fun _ => enabled.1, fun touched => ?_⟩
    exact absurd (h.dangling touched).1 (by rw [enabled.2]; nofun)

/-- The data is gone, and so is every timer. -/
structure Quiet (s : State lab) : Prop where
  freed : s.freed = true
  past : s.gone = lab.timers
  deleted : ∀ i, s.place i = .deleted
  untouched : s.dangling = false

/-- Only the clock goes on. -/
theorem quiet_next (HZ : Hz) (h : Quiet s) (enabled : Enabled s a) : Quiet (next HZ s a) := by
  have none : ∀ {i k}, s.place i = k → k = .deleted := by
    rintro i k rfl
    exact h.deleted i
  cases a with
  | tick => exact ⟨h.freed, h.past, h.deleted, h.untouched⟩
  | start i =>
    have deleted := none enabled
    split_ifs at deleted
  | set i =>
    have deleted := none enabled
    split_ifs at deleted
  | add i => cases none enabled
  | expire i => cases none enabled.1
  | print i => cases none enabled
  | stamp i => cases none enabled
  | reckon i => cases none enabled
  | rearm i =>
    obtain ⟨expires, here⟩ := enabled
    cases none here
  | del i =>
    have turn := enabled.2.1
    have past := h.past
    have last := i.isLt
    omega
  | free => exact absurd h.freed (by rw [enabled.2]; nofun)

/-- A timer that outlives the data comes back to it: at once if its function runs, else when the
clock has come round to where it is due. -/
theorem comes_back (freed : s.freed = true) (added : (s.place i).added = true)
    (on : s.place i ≠ .deleted) : ∃ as t, Run (machine HZ) s as t ∧ t.dangling = true := by
  have at_once : ∀ {a}, Enabled s a → next HZ s a = { s with dangling := true } →
      ∃ as t, Run (machine HZ) s as t ∧ t.dangling = true := by
    intro a enabled touches
    refine ⟨[a], next HZ s a, Run.next Run.start enabled, ?_⟩
    rw [touches]
  cases here : s.place i with
  | fresh => rw [here] at added; cases added
  | half => rw [here] at added; cases added
  | ready => rw [here] at added; cases added
  | deleted => exact absurd here on
  | print => exact at_once (a := .print i) here (if_pos freed)
  | stamp => exact at_once (a := .stamp i) here (if_pos freed)
  | reckon => exact at_once (a := .reckon i) here (if_pos freed)
  | rearm expires => exact at_once (a := .rearm i) ⟨expires, here⟩ (if_pos freed)
  | queued =>
    let n := (s.expires i - jiffies s.now).toNat
    have reached : jiffies (s.now + n) = s.expires i := by
      rw [jiffies, UInt64.ofNat_add, UInt64.ofNat_toNat, jiffies]
      grind
    have due : Enabled { s with now := s.now + n } (.expire i) := by
      refine ⟨here, ?_⟩
      change time_after_eq (jiffies (s.now + n)) (s.expires i)
      rw [reached, time_after_eq, UInt64.sub_self]
      decide
    have expired : Run (machine HZ) s (_ ++ [.expire i]) _ :=
      Run.next ((clock HZ).run_ticks s n) due
    refine ⟨_, _, expired, ?_⟩
    change (if s.freed = true then _ else _ : State lab).dangling = true
    rw [if_pos freed]

/-- What `my_exit` has printed for a timer stays. -/
theorem rc_next {rc : Option Int32} (enabled : Enabled s a) (h : i.val < s.gone ∧ s.rc i = rc) :
    i.val < (next HZ s a).gone ∧ (next HZ s a).rc i = rc := by
  obtain ⟨past, printed⟩ := h
  cases a with
  | del j =>
    have turn := enabled.2.1
    have other : i ≠ j := by
      rintro rfl
      omega
    simp only [next]
    split_ifs
    · exact ⟨Nat.lt_succ_of_lt past, (Function.update_of_ne other ..).trans printed⟩
    · exact ⟨Nat.lt_succ_of_lt past, (Function.update_of_ne other ..).trans printed⟩
  | _ =>
    simp only [next, work]
    repeat' split
    all_goals exact ⟨past, printed⟩

/-- `del_timer` of a timer that is not on the queue. -/
theorem rc_missed {now : Nat} {memory timers : Timer lab → UInt64} {pre post : List (Act lab)}
    {u : State lab} (h : Run (machine HZ) (init now memory timers) (pre ++ .del i :: post) s)
    (before : Run (machine HZ) (init now memory timers) pre u) (missed : u.place i ≠ .queued) :
    s.rc i = some 0 := by
  obtain ⟨u', before', enabled⟩ := run_before h
  cases run_unique before before'
  have deleted := Run.next before enabled
  rw [← List.singleton_append, ← List.append_assoc] at h
  obtain ⟨v, here, rest⟩ := run_split h
  cases run_unique deleted here
  have turn : u.gone = i.val := enabled.2.1
  have start : i.val < (next HZ u (.del i)).gone ∧ (next HZ u (.del i)).rc i = some 0 := by
    simp only [next, if_neg missed]
    exact ⟨by omega, Function.update_self ..⟩
  exact (run_invariant (I := fun t => i.val < t.gone ∧ t.rc i = some 0) start
    (fun _ _ inv enabled => rc_next enabled inv) rest).2

end

end DeviceDriverEx.PeriodicTimers
