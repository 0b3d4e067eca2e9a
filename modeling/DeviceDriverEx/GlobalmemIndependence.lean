import DeviceDriverEx.GlobalmemReadGate
import DeviceDriverEx.GlobalmemReleaseCount
import DeviceDriverEx.GlobalmemTouches

namespace DeviceDriverEx.Release

section
variable {ι δ : Type} [DecidableEq ι] [DecidableEq δ]

def clear (s : State ι δ) (dev : δ) : State ι δ :=
  { s with mem := Function.update s.mem dev (globalmem_ioctl (s.mem dev) MEM_CLEAR).2 }

def copies : Act ι → Option (ι × Option Fault)
  | .copy i fault => some (i, fault)
  | _ => none

def view (s : State ι δ) : ι → View :=
  fun i => ⟨(s.frame i).pc = .returned, (s.frame i).waited,
    ⟨(s.frame i).rval, (s.frame i).ppos, (s.frame i).buf⟩⟩

/-- The read sleeps in `down` or in `wait_for_completion`. -/
def Blocked (s : State ι δ) (i : ι) : Prop := (s.frame i).pc = .down ∧ s.count = 0

omit [DecidableEq ι] [DecidableEq δ] in
theorem enabled_going {g : Gate} {s : State ι δ} {a : Act ι} (enabled : Enabled g s a) :
    (s.frame a.caller).pc ≠ .returned := by
  have going : (s.frame a.caller).pc = .down ∨ (s.frame a.caller).pc = .check ∨
      (s.frame a.caller).pc = .copy ∨ (s.frame a.caller).pc = .post := by
    cases a with
    | down i => exact Or.inl enabled.1
    | signal i => exact Or.inl enabled.1
    | check i => exact Or.inr (Or.inl enabled)
    | copy i fault => exact Or.inr (Or.inr (Or.inl enabled))
    | post i => exact Or.inr (Or.inr (Or.inr enabled))
  intro returned
  rw [returned] at going
  simp at going

theorem view_elsewhere (call : ι → Request δ) (s : State ι δ) (a : Act ι) {j : ι}
    (h : j ≠ a.caller) : view (next call s a) j = view s j := by
  simp only [view, next_frame_other call s a h]

/-- The copy of a read gives what `globalmem_read` computes from the bytes it finds. -/
theorem view_read {g : Gate} {call : ι → Request δ} {s : State ι δ} {i : ι} {dev : δ} {buf : Bytes}
    {count : UInt64} {ppos : Int64} (fault : Option Fault) (hi : (s.frame i).pc = .copy)
    (hc : call i = .read dev buf count ppos) (h : Reading g buf count ppos (s.frame i)) :
    (view (next call s (.copy i fault)) i).done ∧
      (view (next call s (.copy i fault)) i).result =
        globalmem_read g.driver (view (next call s (.copy i fault)) i).waited fault (s.mem dev) buf
          count ppos := by
  obtain ⟨_, _, hw⟩ := h.before (by rw [hi]; decide)
  have inside := h.inside hi
  have got : ¬ (g.driver = .sem ∧ (s.frame i).waited ≠ 0) := fun h => h.2 hw
  simp only [view, next, copyStep, hc, setFrame_self, true_and]
  rw [globalmem_read, if_neg got, if_neg (UInt64.not_le.mpr inside)]

theorem view_uncopied {g : Gate} {call : ι → Request δ} {s : State ι δ} {a : Act ι} {dev : δ}
    {buf : Bytes} {count : UInt64} {ppos : Int64} (enabled : Enabled g s a)
    (quiet : copies a = none) (hc : call a.caller = .read dev buf count ppos)
    (h : Reading g buf count ppos (s.frame a.caller))
    (done : (view (next call s a) a.caller).done) (fault : Option Fault) (seen : Bytes) :
    (view (next call s a) a.caller).result =
      globalmem_read g.driver (view (next call s a) a.caller).waited fault seen buf count ppos := by
  obtain ⟨hp, hb, hw⟩ := h.before (enabled_going enabled)
  cases a with
  | down i =>
    simp only [view, next, Act.caller, setFrame_self] at done
    cases done
  | signal i =>
    have interrupted : g.driver = .sem ∧ -EINTR ≠ (0 : Int32) := by
      rw [enabled.2]
      exact ⟨rfl, by decide⟩
    simp only [view, next, Act.caller, setFrame_self]
    rw [globalmem_read, if_pos interrupted]
    exact congrArg₂ (CallResult.mk _) hp hb
  | check i =>
    have pos : (call i).ppos = ppos := by rw [show call i = _ from hc]; rfl
    simp only [next, pos] at done ⊢
    split at done
    next past =>
      have got : ¬ (g.driver = .sem ∧ (s.frame i).waited ≠ 0) := fun h => h.2 hw
      rw [if_pos past]
      simp only [view, Act.caller, setFrame_self]
      rw [globalmem_read, if_neg got, if_pos past]
      exact congrArg₂ (CallResult.mk _) hp hb
    next inside =>
      simp only [view, Act.caller, setFrame_self] at done
      cases done
  | copy i fault' => cases quiet
  | post i => exact absurd enabled h.posts

omit [DecidableEq ι] in
theorem copies_eq {a : Act ι} {i : ι} {fault : Option Fault} (h : copies a = some (i, fault)) :
    a = .copy i fault := by
  cases a with
  | copy j fault' =>
    obtain ⟨rfl, rfl⟩ := Prod.mk.inj (Option.some.inj h)
    rfl
  | _ => cases h

def observed (g : Gate) (call : ι → Request δ) [Fintype ι] :
    Observed g.driver call (State ι δ) (Act ι) where
  machine := machine g call
  copies := copies
  mem := State.mem
  clear := clear
  view := view
  Inv := Conserved g call
  inv_next inv enabled := conserved_next inv enabled
  inv_clear _ inv := ⟨inv.faithful, inv.balance⟩
  mem_clear _ _ := rfl
  view_clear _ _ := rfl
  mem_quiet := by
    intro s a quiet
    cases a with
    | check i =>
      simp only [machine, next]
      split <;> rfl
    | copy i fault => cases quiet
    | _ => rfl
  mem_copy := by
    intro s a i fault copy
    cases copies_eq copy
    simp only [machine, next, copyStep, touch]
    cases call i <;> rfl
  view_done := by
    intro s a i enabled done
    refine view_elsewhere call s a fun same => ?_
    subst same
    exact enabled_going enabled done
  view_other := by
    intro s a i fault copy j hj
    cases copies_eq copy
    exact view_elsewhere call s _ hj
  copy_fresh := by
    intro s a i fault enabled copy
    cases copies_eq copy
    have going : Enabled g s (.copy i fault) := enabled
    exact enabled_going going
  view_copy := by
    intro s a i fault dev buf count ppos inv enabled copy hc
    cases copies_eq copy
    have own := inv.faithful i
    rw [hc] at own
    exact view_read fault enabled hc own
  view_ended := by
    intro s a i dev buf count ppos inv enabled quiet hc before done
    have hi : i = a.caller := by
      by_contra hi
      exact before (by rwa [← show view (next call s a) i = view s i from view_elsewhere call s a hi])
    subst hi
    have own := inv.faithful a.caller
    rw [hc] at own
    exact view_uncopied enabled quiet hc own done

theorem told_init (g : Gate) (call : ι → Request δ) [Fintype ι] (mem : δ → Bytes) :
    (observed g call).Told mem [] (init call mem) := by
  refine ⟨conserved_init g call mem, rfl, shown_init fun i => ?_⟩
  cases hc : call i <;> simp [observed, view, init, enter, hc]

omit [DecidableEq ι] [DecidableEq δ] in
/-- Whether a read that has come to its wait sleeps is a matter of the releases of all devices. -/
theorem blocked_iff [Fintype ι] {g : Gate} {call : ι → Request δ} {s : State ι δ} {i : ι}
    (h : Conserved g call s) (hi : (s.frame i).pc = .down) :
    Blocked s i ↔ occupancy posted (scene call s) = occupancy passed (scene call s) := by
  have balance := h.balance
  unfold Blocked
  constructor
  · intro blocked
    omega
  · intro spent
    exact ⟨hi, by omega⟩

end

end DeviceDriverEx.Release

namespace DeviceDriverEx.WaitGate

section
variable {ι δ : Type} [DecidableEq ι] [DecidableEq δ]

def clear (s : State ι δ) (dev : δ) : State ι δ :=
  { s with mem := Function.update s.mem dev (globalmem_ioctl (s.mem dev) MEM_CLEAR).2 }

def copies : Act ι → Option (ι × Option Fault)
  | .copy i fault => some (i, fault)
  | _ => none

def view (s : State ι δ) : ι → View :=
  fun i => ⟨(s.frame i).pc = .returned, (s.frame i).waited,
    ⟨(s.frame i).rval, (s.frame i).ppos, (s.frame i).buf⟩⟩

/-- The read has come to its wait and no signal has. -/
def Waiting (s : State ι δ) (i : ι) : Prop :=
  (s.frame i).pc.waiting = true ∧ (s.frame i).signalled = false

/-- Each time round the loop of the wait it goes to sleep. -/
def Blocked (s : State ι δ) (i : ι) : Prop := Waiting s i ∧ s.atom = 0

omit [DecidableEq ι] [DecidableEq δ] in
theorem enabled_going {s : State ι δ} {a : Act ι} (enabled : Enabled s a)
    (awake : ∀ i, a ≠ .spurious i) : (s.frame a.caller).pc ≠ .returned := by
  intro returned
  cases a with
  | spurious i => exact awake i rfl
  | wakened i => cases enabled.1.symm.trans returned
  | signal i =>
    have waiting : (s.frame i).pc.waiting = true := enabled
    rw [show (s.frame i).pc = .returned from returned] at waiting
    cases waiting
  | enqueue i | test i | check i | copy i fault | set i | wake i =>
    cases (show (s.frame i).pc = _ from enabled).symm.trans returned

theorem view_elsewhere (g : Gate) (call : ι → Request δ) (s : State ι δ) (a : Act ι) {j : ι}
    (h : j ≠ a.caller) : view (next g call s a) j = view s j := by
  simp only [view, next_frame_other g call s a h]

/-- None of these drivers looks at what the wait came to. -/
theorem ungated (g : Gate) (w : Int32) : ¬ (g.driver = .sem ∧ w ≠ 0) := by
  intro h
  cases g <;> cases h.1

theorem view_read {g : Gate} {call : ι → Request δ} {s : State ι δ} {i : ι} {dev : δ} {buf : Bytes}
    {count : UInt64} {ppos : Int64} (fault : Option Fault) (hi : (s.frame i).pc = .copy)
    (hc : call i = .read dev buf count ppos) (h : Reading g buf count ppos (s.frame i)) :
    (view (next g call s (.copy i fault)) i).done ∧
      (view (next g call s (.copy i fault)) i).result =
        globalmem_read g.driver (view (next g call s (.copy i fault)) i).waited fault (s.mem dev)
          buf count ppos := by
  have inside := h.inside hi
  simp only [view, next, copyStep, hc, setFrame_self, true_and]
  rw [globalmem_read, if_neg (ungated g _), if_neg (UInt64.not_le.mpr inside)]

theorem view_uncopied {g : Gate} {call : ι → Request δ} {s : State ι δ} {a : Act ι} {dev : δ}
    {buf : Bytes} {count : UInt64} {ppos : Int64} (quiet : copies a = none)
    (hc : call a.caller = .read dev buf count ppos)
    (h : Reading g buf count ppos (s.frame a.caller)) (before : ¬ (view s a.caller).done)
    (done : (view (next g call s a) a.caller).done) (fault : Option Fault) (seen : Bytes)
    (enabled : Enabled s a) : (view (next g call s a) a.caller).result =
      globalmem_read g.driver (view (next g call s a) a.caller).waited fault seen buf count ppos := by
  obtain ⟨hp, hb⟩ := h.before before
  cases a with
  | check i =>
    have pos : (call i).ppos = ppos := by rw [show call i = _ from hc]; rfl
    simp only [next, pos] at done ⊢
    split at done
    next past =>
      rw [if_pos past]
      simp only [view, Act.caller, setFrame_self]
      rw [globalmem_read, if_neg (ungated g _), if_pos past]
      exact congrArg₂ (CallResult.mk _) hp hb
    next inside =>
      simp only [view, Act.caller, setFrame_self] at done
      cases done
  | test i =>
    simp only [next] at done
    split_ifs at done <;> simp only [view, Act.caller, setFrame_self] at done <;> cases done
  | spurious i => exact absurd done before
  | signal i =>
    have going := enabled_going enabled (by intro j hj; cases hj)
    simp only [view, next, Act.caller, setFrame_self] at done
    exact absurd done going
  | enqueue i | wakened i =>
    simp only [view, next, Act.caller, setFrame_self] at done
    cases done
  | copy i fault' => cases quiet
  | set i => exact absurd enabled h.releases.1
  | wake i => exact absurd enabled h.releases.2

omit [DecidableEq ι] in
theorem copies_eq {a : Act ι} {i : ι} {fault : Option Fault} (h : copies a = some (i, fault)) :
    a = .copy i fault := by
  cases a with
  | copy j fault' =>
    obtain ⟨rfl, rfl⟩ := Prod.mk.inj (Option.some.inj h)
    rfl
  | _ => cases h

def observed (g : Gate) (call : ι → Request δ) :
    Observed g.driver call (State ι δ) (Act ι) where
  machine := machine g call
  copies := copies
  mem := State.mem
  clear := clear
  view := view
  Inv := fun s => ∀ i, Faithful g (call i) (s.frame i)
  inv_next inv enabled := faithful_next inv enabled
  inv_clear _ inv := inv
  mem_clear _ _ := rfl
  view_clear _ _ := rfl
  mem_quiet := by
    intro s a quiet
    cases a with
    | test i =>
      simp only [machine, next]
      split_ifs <;> rfl
    | check i =>
      simp only [machine, next]
      split <;> rfl
    | copy i fault => cases quiet
    | _ => rfl
  mem_copy := by
    intro s a i fault copy
    cases copies_eq copy
    simp only [machine, next, copyStep, touch]
    cases call i <;> rfl
  view_done := by
    intro s a i enabled done
    by_cases same : i = a.caller
    · subst same
      by_cases awake : ∀ i, a ≠ .spurious i
      · exact absurd done (enabled_going enabled awake)
      · obtain ⟨j, hj⟩ := not_forall.mp awake
        cases not_not.mp hj
        rfl
    · exact view_elsewhere g call s a same
  view_other := by
    intro s a i fault copy j hj
    cases copies_eq copy
    exact view_elsewhere g call s _ hj
  copy_fresh := by
    intro s a i fault enabled copy
    cases copies_eq copy
    have going : Enabled s (.copy i fault) := enabled
    exact enabled_going going (by intro j hj; cases hj)
  view_copy := by
    intro s a i fault dev buf count ppos inv enabled copy hc
    cases copies_eq copy
    have own := inv i
    rw [hc] at own
    exact view_read fault enabled hc own
  view_ended := by
    intro s a i dev buf count ppos inv enabled quiet hc before done
    have hi : i = a.caller := by
      by_contra hi
      have same : view (next g call s a) i = view s i := view_elsewhere g call s a hi
      exact before (by rwa [← same])
    subst hi
    have own := inv a.caller
    rw [hc] at own
    exact fun fault seen => view_uncopied quiet hc own before done fault seen enabled

theorem told_init (g : Gate) (call : ι → Request δ) (mem : δ → Bytes) :
    (observed g call).Told mem [] (init call mem) := by
  refine ⟨fun i => faithful_enter g (call i), rfl, shown_init fun i => ?_⟩
  cases hc : call i <;> simp [observed, view, init, Request.enter, hc]

/-- Some write, on whatever device, has set the flag. -/
def OpenedBy (ops : List (Op (Act ι) δ)) : Prop := ∃ w, Op.step (Act.set w) ∈ ops

theorem flag_run {g : Gate} {call : ι → Request δ} {mem : δ → Bytes} {ops : List (Op (Act ι) δ)}
    {s : State ι δ} (h : Run ((machine g call).withClear clear) (init call mem) ops s) :
    s.atom ≠ 0 ↔ OpenedBy ops := by
  induction h with
  | start =>
    refine ⟨fun h => absurd rfl h, fun opened => ?_⟩
    obtain ⟨w, hw⟩ := opened
    cases hw
  | @next ops s op _ enabled ih =>
    by_cases hset : ∃ i, op = .step (.set i)
    · obtain ⟨i, rfl⟩ := hset
      exact ⟨fun _ => ⟨i, by simp⟩, fun _ => show (1 : Int32) ≠ 0 by decide⟩
    · have before : OpenedBy (ops ++ [op]) ↔ OpenedBy ops := by
        constructor
        · intro opened
          obtain ⟨w, hw⟩ := opened
          obtain hm | hm := List.mem_append.mp hw
          · exact ⟨w, hm⟩
          · exact absurd ⟨w, (List.mem_singleton.mp hm).symm⟩ hset
        · intro opened
          obtain ⟨w, hw⟩ := opened
          exact ⟨w, List.mem_append_left _ hw⟩
      rw [before, ← ih]
      cases op with
      | clear dev => exact Iff.rfl
      | step a =>
        have kept : (next g call s a).atom = s.atom :=
          next_atom g call s fun i hi => hset ⟨i, by rw [hi]⟩
        exact iff_of_eq (congrArg (· ≠ 0) kept)

theorem blocked_iff {g : Gate} {call : ι → Request δ} {mem : δ → Bytes}
    {ops : List (Op (Act ι) δ)} {s : State ι δ} {i : ι}
    (h : Run ((machine g call).withClear clear) (init call mem) ops s) (hi : Waiting s i) :
    Blocked s i ↔ ¬ OpenedBy ops := by
  rw [← flag_run h, not_not]
  exact ⟨fun blocked => blocked.2, fun shut => ⟨hi, shut⟩⟩

end

end DeviceDriverEx.WaitGate

namespace DeviceDriverEx

/-- What two runs show of the device `d` on which they make the same calls: its bytes, and the
outcome of each read of `d` that has returned in both. -/
structure AgreeOn {ι δ : Type} [DecidableEq δ] (drv : Driver) (d : δ) (call call' : ι → Request δ)
    (ts ts' : List (Touch ι δ)) (mem mem' : δ → Bytes) (view view' : ι → View) : Prop where
  bytes : ts.filter (storesTo call d) = ts'.filter (storesTo call' d) → mem d = mem' d
  reads : ∀ i buf count ppos, call i = .read d buf count ppos → SamePlace call call' d i ts ts' →
    (view i).done → (view' i).done → (drv = .sem → (view i).waited = (view' i).waited) →
    (view i).result = (view' i).result

theorem agreeOn_of_told {ι δ σ α : Type} [DecidableEq δ] {drv : Driver} {d : δ}
    {call call' : ι → Request δ} {o : Observed drv call σ α} {o' : Observed drv call' σ α}
    {mem : δ → Bytes} {ops ops' : List (Op α δ)} {s s' : σ} (same : SameOn d call call')
    (h : o.Told mem ops s) (h' : o'.Told mem ops' s') :
    AgreeOn drv d call call' (touches o.copies ops) (touches o'.copies ops') (o.mem s) (o'.mem s')
      (o.view s) (o'.view s') := by
  refine ⟨fun order => ?_, fun i buf count ppos hc place done done' waits => ?_⟩
  · rw [h.bytes, h'.bytes]
    exact touchAll_independent same order mem
  · exact shown_same h.shown h'.shown same place hc done done' waits

/-- Calls on the other devices change neither the bytes nor the results of `d`. They do take part
in who sleeps: a read that waits in both runs blocks in one exactly when it does in the other if
the one gate of the module stands alike, with releases left over in both or in neither. -/
theorem reads_independent_but_for_gate {ι δ : Type} [DecidableEq ι] [DecidableEq δ] [Fintype ι]
    {call call' : ι → Request δ} {d : δ} (same : SameOn d call call') (mem : δ → Bytes) :
    (∀ g ops ops' s s',
      Run ((Release.machine g call).withClear Release.clear) (Release.init call mem) ops s →
      Run ((Release.machine g call').withClear Release.clear) (Release.init call' mem) ops' s' →
      AgreeOn g.driver d call call' (touches Release.copies ops) (touches Release.copies ops')
        s.mem s'.mem (Release.view s) (Release.view s') ∧
      ∀ i, (s.frame i).pc = .down → (s'.frame i).pc = .down →
        ((Release.Blocked s i ↔ Release.Blocked s' i) ↔
          (occupancy Release.posted (Release.scene call s) =
              occupancy Release.passed (Release.scene call s) ↔
            occupancy Release.posted (Release.scene call' s') =
              occupancy Release.passed (Release.scene call' s')))) ∧
    (∀ g ops ops' s s',
      Run ((WaitGate.machine g call).withClear WaitGate.clear) (WaitGate.init call mem) ops s →
      Run ((WaitGate.machine g call').withClear WaitGate.clear) (WaitGate.init call' mem) ops' s' →
      AgreeOn g.driver d call call' (touches WaitGate.copies ops) (touches WaitGate.copies ops')
        s.mem s'.mem (WaitGate.view s) (WaitGate.view s') ∧
      ∀ i, WaitGate.Waiting s i → WaitGate.Waiting s' i →
        ((WaitGate.Blocked s i ↔ WaitGate.Blocked s' i) ↔
          (WaitGate.OpenedBy ops ↔ WaitGate.OpenedBy ops'))) := by
  constructor
  · intro g ops ops' s s' h h'
    have told := Observed.told_run (Release.told_init g call mem) h
    have told' := Observed.told_run (Release.told_init g call' mem) h'
    refine ⟨agreeOn_of_told same told told', fun i hi hi' => ?_⟩
    rw [Release.blocked_iff told.inv hi, Release.blocked_iff told'.inv hi']
  · intro g ops ops' s s' h h'
    have told := Observed.told_run (WaitGate.told_init g call mem) h
    have told' := Observed.told_run (WaitGate.told_init g call' mem) h'
    refine ⟨agreeOn_of_told same told told', fun i hi hi' => ?_⟩
    rw [WaitGate.blocked_iff h hi, WaitGate.blocked_iff h' hi', not_iff_not]

/-- In 19_LAB1_sem another device is written in one run, and cleared and written up to a fault in
the other; the read that both writes release returns the same. -/
theorem reads_independent_but_for_gate_sem :
    let read : Request Bool := .read false (fun _ => 1) 4 0
    let call : Fin 2 → Request Bool := fun i => if i = 0 then read else .write true (fun _ => 7) 4 0
    let call' : Fin 2 → Request Bool := fun i =>
      if i = 0 then read else .write true (fun _ => 9) 8 16
    let calls : List (Op (Release.Act (Fin 2)) Bool) :=
      [.step (.post 1), .step (.down 0), .step (.check 0), .step (.copy 0 none)]
    let ops := [.step (.check 1), .step (.copy 1 none)] ++ calls
    let ops' := [.clear true, .step (.check 1), .step (.copy 1 (some ⟨3, true⟩))] ++ calls
    let s := ((Release.machine .sem call).withClear Release.clear).replay
      (Release.init call fun _ _ => 0) ops
    let s' := ((Release.machine .sem call').withClear Release.clear).replay
      (Release.init call' fun _ _ => 0) ops'
    (Release.view s 0).result = (Release.view s' 0).result := by
  intro read call call' calls ops ops' s s'
  have same : SameOn false call call' := by
    intro i hi
    match i with
    | 0 => rfl
    | 1 => rcases hi with hi | hi <;> cases hi
  have run : Run ((Release.machine .sem call).withClear Release.clear)
      (Release.init call fun _ _ => 0) ops s := run_of_admits (by decide)
  have run' : Run ((Release.machine .sem call').withClear Release.clear)
      (Release.init call' fun _ _ => 0) ops' s' := run_of_admits (by decide)
  have place : SamePlace call call' false 0 (touches Release.copies ops)
      (touches Release.copies ops') := by
    intro pre fault post split
    match pre, split with
    | [], split => cases split
    | [a], split => cases split; exact ⟨[.clear true, .copy 1 (some ⟨3, true⟩)], [], rfl, rfl⟩
    | a :: b :: rest, split =>
      have length : 2 = (a :: b :: rest ++ Touch.copy 0 fault :: post).length :=
        congrArg List.length split
      simp only [List.length_append, List.length_cons] at length
      omega
  obtain ⟨agree, _⟩ := (reads_independent_but_for_gate same fun _ _ => 0).1 .sem ops ops' s s' run run'
  have done : (s.frame 0).pc = .returned := by decide
  have done' : (s'.frame 0).pc = .returned := by decide
  have waits : (s.frame 0).waited = (s'.frame 0).waited := by decide
  exact agree.reads 0 (fun _ => 1) 4 0 rfl place done done' fun _ => waits

/-- The only call on the first device is the same read. While the second device is merely read it
blocks whenever it comes to its wait; a write to the second device lets it through. -/
theorem read_released_by_other_device :
    let read : Request Bool := .read false (fun _ => 1) 4 0
    let call : Fin 2 → Request Bool := fun i => if i = 0 then read else .read true (fun _ => 1) 4 0
    let call' : Fin 2 → Request Bool := fun i =>
      if i = 0 then read else .write true (fun _ => 7) 4 0
    SameOn false call call' ∧
    (∀ g, (∀ ops s, Run ((Release.machine g call).withClear Release.clear)
        (Release.init call fun _ _ => 0) ops s → (s.frame 0).pc = .down → Release.Blocked s 0) ∧
      ∃ ops s, Run ((Release.machine g call').withClear Release.clear)
        (Release.init call' fun _ _ => 0) ops s ∧
        (s.frame 0).pc = .returned ∧ (s.frame 0).waited = 0 ∧ (s.frame 0).rval = 4) ∧
    (∀ ops s, Run ((WaitGate.machine .wait call).withClear WaitGate.clear)
        (WaitGate.init call fun _ _ => 0) ops s → WaitGate.Waiting s 0 → WaitGate.Blocked s 0) ∧
      ∃ ops s, Run ((WaitGate.machine .wait call').withClear WaitGate.clear)
        (WaitGate.init call' fun _ _ => 0) ops s ∧
        (s.frame 0).pc = .returned ∧ (s.frame 0).waited = 0 ∧ (s.frame 0).rval = 4 := by
  intro read call call'
  have reads : ∀ i, ∃ dev buf count ppos, call i = .read dev buf count ppos := by
    intro i
    match i with
    | 0 => exact ⟨_, _, _, _, rfl⟩
    | 1 => exact ⟨_, _, _, _, rfl⟩
  refine ⟨?_, fun g => ⟨?_, ?_⟩, ?_, ?_⟩
  · intro i hi
    match i with
    | 0 => rfl
    | 1 => rcases hi with hi | hi <;> cases hi
  · intro ops s run hi
    have told := Observed.told_run (Release.told_init g call fun _ _ => 0) run
    refine (Release.blocked_iff told.inv hi).mpr ?_
    have balance := told.inv.balance
    have none_posted : occupancy Release.posted (Release.scene call s) = 0 := by
      refine occupancy_eq_zero fun i => ?_
      obtain ⟨dev, buf, count, ppos, hc⟩ := reads i
      simp only [Release.scene, hc, Release.posted]
    omega
  · let ops : List (Op (Release.Act (Fin 2)) Bool) := [.step (.check 1), .step (.copy 1 none),
      .step (.post 1), .step (.down 0), .step (.check 0), .step (.copy 0 none)]
    refine ⟨ops, ((Release.machine g call').withClear Release.clear).replay _ ops,
      run_of_admits ?_, ?_, ?_, ?_⟩ <;> cases g <;> decide
  · intro ops s run hi
    refine (WaitGate.blocked_iff run hi).mpr fun opened => ?_
    obtain ⟨w, hw⟩ := opened
    obtain ⟨pre, post, split⟩ := List.append_of_mem hw
    obtain ⟨before, run_before, enabled⟩ := run_before (split ▸ run)
    have told := Observed.told_run (WaitGate.told_init .wait call fun _ _ => 0) run_before
    obtain ⟨dev, buf, count, ppos, hc⟩ := reads w
    have own := told.inv w
    rw [hc] at own
    exact own.releases.1 enabled
  · let ops : List (Op (WaitGate.Act (Fin 2)) Bool) := [.step (.check 1), .step (.copy 1 none),
      .step (.set 1), .step (.wake 1), .step (.enqueue 0), .step (.test 0), .step (.check 0),
      .step (.copy 0 none)]
    exact ⟨ops, ((WaitGate.machine .wait call').withClear WaitGate.clear).replay _ ops,
      run_of_admits (by decide), by decide, by decide, by decide⟩

end DeviceDriverEx
