import DeviceDriverEx.GlobalmemRwsem

namespace DeviceDriverEx.Rwsem

/-- Between taking `rwsem` and returning. -/
def Pc.held : Pc → Bool
  | check => true
  | copy => true
  | up => true
  | _ => false

/-- The call has taken `rwsem` and not yet returned. -/
def Inside {δ : Type} (op : Op δ) (fr : Frame) : Prop := op.mode ≠ none ∧ fr.pc.held = true

/-- A bound on the steps that a call still has before it. -/
def left {δ : Type} (op : Op δ) (fr : Frame) : Nat :=
  match fr.pc with
  | .down => op.length + 4
  | .check => op.length + 3
  | .copy => op.length - fr.moved + 2
  | .up => 1
  | .returned => 0

section
variable {ι δ : Type} [DecidableEq ι] [DecidableEq δ]

/-- A call that is running, has a step to take, and with every step comes closer to its return. -/
def Running (call : ι → Op δ) (s : State ι δ) (j : ι) : Prop :=
  (s.frame j).pc ≠ .returned ∧ (∃ a : Act ι, a.caller = j ∧ Enabled call s a) ∧
    ∀ a : Act ι, a.caller = j → Enabled call s a →
      left (call j) ((next call s a).frame j) < left (call j) (s.frame j)

structure LockBalance (call : ι → Op δ) (s : State ι δ) : Prop where
  holders : ∀ i, i ∈ s.rwsem.holders ↔ Inside (call i) (s.frame i)
  idle : (∀ i, ¬ Inside (call i) (s.frame i)) → s.rwsem = .free
  waiting : ∀ i, (s.frame i).pc = .down → ¬ Enabled call s (.down i) →
    ∃ j ∈ s.rwsem.holders, Running call s j

/-- A call that has taken `rwsem` finds its position inside the device. -/
def PosInside (call : ι → Op δ) (_ : State ι δ) : Act ι → Prop
  | .check i => (call i).ppos.toUInt64 < GLOBALMEM_SIZE
  | _ => True

omit [DecidableEq ι] [DecidableEq δ] in
instance (call : ι → Op δ) (s : State ι δ) : ∀ a : Act ι, Decidable (PosInside call s a)
  | .check i => inferInstanceAs (Decidable ((call i).ppos.toUInt64 < GLOBALMEM_SIZE))
  | .down _ | .byte _ | .fault _ _ | .finish _ | .up _ => isTrue trivial

/-- A call in step with `rwsem`: it holds what it has taken and nothing else. -/
structure InStep (op : Op δ) (l : RwLock ι) (i : ι) (fr : Frame) : Prop where
  held : ∀ m, op.mode = some m → fr.pc.held = true → l.Held m i
  holder : i ∈ l.holders → Inside op fr
  bounded : fr.moved ≤ op.length
  unlocked : op.mode = none → fr.pc = .copy ∨ fr.pc = .returned

omit [DecidableEq ι] [DecidableEq δ] in
theorem inStep_enter (op : Op δ) (i : ι) : InStep op .free i op.enter := by
  refine ⟨?_, fun hi => absurd hi (Finset.notMem_empty i), ?_, ?_⟩
  · intro m hm hp
    cases op <;> simp [Op.enter, Op.mode, Pc.held] at hm hp
  · cases op <;> exact Nat.zero_le _
  · intro hm
    cases op with
    | clear dev => exact Or.inl rfl
    | read dev buf count ppos => cases hm
    | write dev buf count ppos => cases hm

omit [DecidableEq ι] [DecidableEq δ] in
theorem InStep.locks {op : Op δ} {l : RwLock ι} {i : ι} {fr : Frame} (h : InStep op l i fr)
    (away : fr.pc ≠ .copy) (going : fr.pc ≠ .returned) : ∃ m, op.mode = some m := by
  cases hm : op.mode with
  | some m => exact ⟨m, rfl⟩
  | none =>
    rcases h.unlocked hm with hp | hp
    · exact absurd hp away
    · exact absurd hp going

omit [DecidableEq ι] [DecidableEq δ] in
/-- The steps that leave `rwsem` alone and keep the call on its side of it. -/
theorem inStep_moved {op : Op δ} {l : RwLock ι} {i : ι} {fr fr' : Frame} (h : InStep op l i fr)
    (side : op.mode ≠ none → fr'.pc.held = fr.pc.held) (bounded : fr'.moved ≤ op.length)
    (unlocked : op.mode = none → fr'.pc = .copy ∨ fr'.pc = .returned) : InStep op l i fr' := by
  refine ⟨?_, ?_, bounded, unlocked⟩
  · intro m hm hp
    rw [side (by rw [hm]; exact Option.some_ne_none m)] at hp
    exact h.held m hm hp
  · intro hi
    obtain ⟨locks, hp⟩ := h.holder hi
    exact ⟨locks, by rw [side locks]; exact hp⟩

theorem inStep_next {call : ι → Op δ} {s : State ι δ} {a : Act ι}
    (h : ∀ i, InStep (call i) s.rwsem i (s.frame i)) (enabled : Enabled call s a)
    (ok : PosInside call s a) :
    InStep (call a.caller) (next call s a).rwsem a.caller ((next call s a).frame a.caller) := by
  have own := h a.caller
  cases a with
  | down i =>
    obtain ⟨hi, can⟩ := enabled
    obtain ⟨m, hm⟩ := (h i).locks (by rw [hi]; decide) (by rw [hi]; decide)
    simp only [next, Act.caller, setFrame_self, hm] at own ⊢
    refine ⟨?_, fun _ => ⟨?_, rfl⟩, own.bounded, ?_⟩
    · intro k hk _
      rw [hm, Option.some.injEq] at hk
      subst hk
      exact RwLock.held_down (can m hm) i
    · rw [hm]
      exact Option.some_ne_none m
    · intro hk
      rw [hm] at hk
      cases hk
  | check i =>
    have hi : (s.frame i).pc = .check := enabled
    have inside : ¬ (call i).ppos.toUInt64 ≥ GLOBALMEM_SIZE := UInt64.not_le.mpr ok
    simp only [next, if_neg inside, Act.caller, setFrame_self]
    exact inStep_moved own (fun _ => by rw [show (s.frame (Act.check i).caller).pc = _ from hi]; rfl)
      own.bounded fun _ => Or.inl rfl
  | byte i =>
    obtain ⟨hi, room⟩ := enabled
    simp only [next, Act.caller, setFrame_self]
    exact inStep_moved own (fun _ => rfl) room fun _ => Or.inl hi
  | fault i pads =>
    obtain ⟨hi, _, locks⟩ := enabled
    simp only [next, Act.caller, setFrame_self]
    exact inStep_moved own
      (fun _ => by rw [show (s.frame (Act.fault i pads).caller).pc = _ from hi]; rfl)
      own.bounded fun hm => absurd hm locks
  | finish i =>
    obtain ⟨hi, done⟩ := enabled
    have pc : (s.frame (Act.finish i).caller).pc = .copy := hi
    simp only [next, Act.caller, setFrame_self]
    cases hc : call i <;> rw [show call (Act.finish i).caller = _ from hc] at own
    · exact inStep_moved own (fun _ => by rw [pc]; rfl) own.bounded (by intro hm; cases hm)
    · exact inStep_moved own (fun _ => by rw [pc]; rfl) own.bounded (by intro hm; cases hm)
    · exact inStep_moved own (fun locks => absurd rfl locks) own.bounded fun _ => Or.inr rfl
  | up i =>
    have hi : (s.frame i).pc = .up := enabled
    obtain ⟨m, hm⟩ := (h i).locks (by rw [hi]; decide) (by rw [hi]; decide)
    simp only [next, Act.caller, setFrame_self, hm] at own ⊢
    refine ⟨?_, ?_, own.bounded, fun _ => Or.inr rfl⟩
    · intro k _ hp
      cases hp
    · intro held
      exact absurd rfl ((RwLock.mem_up (own.held m hm (by rw [hi]; rfl)) i).mp held).1

/-- What one call does to `rwsem` leaves the others in step. -/
theorem inStep_other {call : ι → Op δ} {s : State ι δ} {a : Act ι}
    (h : ∀ i, InStep (call i) s.rwsem i (s.frame i)) (enabled : Enabled call s a) {j : ι}
    (hj : j ≠ a.caller) :
    InStep (call j) (next call s a).rwsem j ((next call s a).frame j) := by
  rw [next_frame_other call s a hj]
  have own := h j
  cases a with
  | down i =>
    have hi : (s.frame i).pc = .down := enabled.1
    obtain ⟨m, hm⟩ := (h i).locks (by rw [hi]; decide) (by rw [hi]; decide)
    have can := enabled.2 m hm
    simp only [next, hm]
    refine ⟨fun k hk hp => RwLock.held_down_other can (own.held k hk hp), fun held => ?_,
      own.bounded, own.unlocked⟩
    rcases (RwLock.mem_down can i j).mp held with he | held
    · exact absurd he hj
    · exact own.holder held
  | up i =>
    have hi : (s.frame i).pc = .up := enabled
    obtain ⟨m, hm⟩ := (h i).locks (by rw [hi]; decide) (by rw [hi]; decide)
    have mine := (h i).held m hm (by rw [hi]; rfl)
    simp only [next, hm]
    exact ⟨fun k hk hp => RwLock.held_up_other mine (own.held k hk hp) hj,
      fun held => own.holder ((RwLock.mem_up mine j).mp held).2, own.bounded, own.unlocked⟩
  | check i =>
    simp only [next]
    split <;> exact own
  | _ => exact own

def LockInv (call : ι → Op δ) (s : State ι δ) : Prop :=
  ∀ i, InStep (call i) s.rwsem i (s.frame i)

theorem lockInv_next {call : ι → Op δ} {s : State ι δ} {a : Act ι} (h : LockInv call s)
    (enabled : Enabled call s a) (ok : PosInside call s a) : LockInv call (next call s a) := by
  intro j
  by_cases hj : j = a.caller
  · rw [hj]
    exact inStep_next h enabled ok
  · exact inStep_other h enabled hj

theorem left_next {call : ι → Op δ} {s : State ι δ} {a : Act ι} (enabled : Enabled call s a) :
    left (call a.caller) ((next call s a).frame a.caller) <
      left (call a.caller) (s.frame a.caller) := by
  cases a with
  | down i =>
    simp only [next, Act.caller, setFrame_self, left,
      show (s.frame i).pc = .down from enabled.1]
    omega
  | check i =>
    simp only [next]
    split <;> simp only [Act.caller, setFrame_self, left,
      show (s.frame i).pc = .check from enabled] <;> omega
  | byte i =>
    have room := enabled.2
    simp only [next, Act.caller, setFrame_self, left,
      show (s.frame i).pc = .copy from enabled.1]
    omega
  | fault i pads =>
    simp only [next, Act.caller, setFrame_self, left,
      show (s.frame i).pc = .copy from enabled.1]
    omega
  | finish i =>
    cases hc : call i <;> simp only [next, Act.caller, setFrame_self,
      left, hc, Op.finish, show (s.frame i).pc = .copy from enabled.1] <;> omega
  | up i =>
    simp only [next, Act.caller, setFrame_self, left,
      show (s.frame i).pc = .up from enabled]
    omega

theorem running_of_holder {call : ι → Op δ} {s : State ι δ} (h : LockInv call s) {j : ι}
    (hj : j ∈ s.rwsem.holders) : Running call s j := by
  obtain ⟨_, hp⟩ := (h j).holder hj
  have bounded := (h j).bounded
  refine ⟨?_, ?_, ?_⟩
  · intro hr
    rw [hr] at hp
    cases hp
  · cases hpc : (s.frame j).pc with
    | down => rw [hpc] at hp; cases hp
    | returned => rw [hpc] at hp; cases hp
    | check => exact ⟨.check j, rfl, hpc⟩
    | up => exact ⟨.up j, rfl, hpc⟩
    | copy =>
      by_cases room : (s.frame j).moved < (call j).length
      · exact ⟨.byte j, rfl, hpc, room⟩
      · exact ⟨.finish j, rfl, hpc, by omega⟩
  · rintro a rfl enabled
    exact left_next enabled

theorem LockInv.balance {call : ι → Op δ} {s : State ι δ} (h : LockInv call s) :
    LockBalance call s := by
  have taken : ∀ i, Inside (call i) (s.frame i) → i ∈ s.rwsem.holders := by
    intro i inside
    obtain ⟨m, hm⟩ := Option.ne_none_iff_exists'.mp inside.1
    exact RwLock.mem_of_held ((h i).held m hm inside.2)
  refine ⟨fun i => ⟨(h i).holder, taken i⟩, ?_, ?_⟩
  · intro idle
    exact RwLock.free_of_no_holder fun i hi => idle i ((h i).holder hi)
  · intro i hi blocked
    obtain ⟨m, hm⟩ := (h i).locks (by rw [hi]; decide) (by rw [hi]; decide)
    have busy : ¬ s.rwsem.Can m := by
      intro can
      refine blocked ⟨hi, fun k hk => ?_⟩
      rw [hm] at hk
      cases hk
      exact can
    obtain ⟨j, hj⟩ := RwLock.holder_of_not_can busy
    exact ⟨j, hj, running_of_holder h hj⟩

/-- The early return leaves with `rwsem` held. -/
theorem balance_broken {call : ι → Op δ} {s : State ι δ} {a : Act ι} (h : LockInv call s)
    (enabled : Enabled call s a) (bad : ¬ PosInside call s a) :
    ¬ LockBalance call (next call s a) := by
  intro balance
  cases a with
  | check i =>
    have hi : (s.frame i).pc = .check := enabled
    have past : (call i).ppos.toUInt64 ≥ GLOBALMEM_SIZE := UInt64.not_lt.mp bad
    obtain ⟨m, hm⟩ := (h i).locks (by rw [hi]; decide) (by rw [hi]; decide)
    have holds := RwLock.mem_of_held ((h i).held m hm (by rw [hi]; rfl))
    have hnext : next call s (.check i) =
        s.setFrame i { s.frame i with pc := .returned, rval := 0 } := if_pos past
    rw [hnext] at balance
    have inside := ((balance.holders i).mp holds).2
    rw [setFrame_self] at inside
    cases inside
  | _ => exact bad trivial

/-- For any calls, positions, counts and faults, interleaved in any way: `rwsem` stays balanced
throughout the run exactly if every call that takes it finds its position inside the device. -/
theorem rwsem_balanced {call : ι → Op δ} {mem : δ → Bytes} {as : List (Act ι)} {s : State ι δ}
    (h : Run (machine call) (init call mem) as s) :
    Always (machine call) (fun _ => LockBalance call) (init call mem) as ↔
      Meets (machine call) (PosInside call) (init call mem) as :=
  always_iff_meets (I := fun _ => LockInv call) (fun i => inStep_enter (call i) i)
    (fun _ _ _ inv enabled ok => lockInv_next inv enabled ok) (fun _ _ inv => inv.balance)
    (fun _ _ _ inv enabled bad => balance_broken inv enabled bad) h

end

/-- A read and a faulting write take turns; the write waits for the read to give `rwsem` back. -/
theorem rwsem_balanced_fault :
    let call : Fin 2 → Op Unit := fun i =>
      if i = 0 then .read () (fun _ => 0) 1 1023 else .write () (fun _ => 7) 2 0
    let as : List (Act (Fin 2)) := [.down 0, .check 0, .byte 0, .finish 0, .up 0, .down 1,
      .check 1, .byte 1, .fault 1 true]
    LockBalance call ((machine call).replay (init call fun _ _ => 0) as) := by
  intro call as
  have run : Run (machine call) (init call fun _ _ => 0) as
      ((machine call).replay (init call fun _ _ => 0) as) := run_of_admits (by decide)
  exact (rwsem_balanced run).2 (meets_of_replay (by decide)) as [] _ (by simp) run

/-- A read at the end of the device returns 0 with `rwsem` held for reading, and no call is left
that could give it back to the write that waits for it. -/
theorem rwsem_kept_at_end :
    let call : Fin 2 → Op Unit := fun i =>
      if i = 0 then .read () (fun _ => 0) 1 1024 else .write () (fun _ => 7) 1 0
    let as : List (Act (Fin 2)) := [.down 0, .check 0]
    ∃ s, Run (machine call) (init call fun _ _ => 0) as s ∧ (s.frame 0).pc = .returned ∧
      (s.frame 0).rval = 0 ∧ (0 : Fin 2) ∈ s.rwsem.holders ∧ (s.frame 1).pc = .down ∧
      (∀ a : Act (Fin 2), ¬ Enabled call s a) ∧ ¬ LockBalance call s := by
  intro call as
  have returned : ((machine call).replay (init call fun _ _ => 0) as |>.frame 0).pc = .returned := by
    decide
  refine ⟨(machine call).replay (init call fun _ _ => 0) as, run_of_admits (by decide), returned,
    by decide, by decide, by decide, ?_, fun balance => ?_⟩
  · intro a
    cases a with
    | down i => revert i; decide
    | check i => revert i; decide
    | byte i => revert i; decide
    | fault i pads => revert i pads; decide
    | finish i => revert i; decide
    | up i => revert i; decide
  · have inside := ((balance.holders 0).mp (by decide)).2
    rw [returned] at inside
    cases inside

end DeviceDriverEx.Rwsem
