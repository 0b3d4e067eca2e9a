import DeviceDriverEx.GlobalmemWait

namespace DeviceDriverEx.WaitGate

section
variable {ι δ : Type} [DecidableEq ι] [DecidableEq δ]

/-- Some write has executed `atomic_set(&atom, 1)`. -/
def Opened (as : List (Act ι)) : Prop := ∃ w, Act.set w ∈ as

/-- What the gate promises for a read with these arguments. `waited` is not 0 where a signal has
ended the wait. -/
structure GateKept (as : List (Act ι)) (buf : Bytes) (ppos : Int64) (fr : Frame) : Prop where
  copying : fr.pc = .copy → Opened as
  moved : fr.ppos ≠ ppos → Opened as
  success : fr.pc = .returned → 0 ≤ fr.rval → Opened as
  interrupted : fr.waited ≠ 0 →
    fr.ppos = ppos ∧ fr.buf = buf ∧ (fr.pc = .returned → fr.rval < 0)

def GateLaw (call : ι → Request δ) (as : List (Act ι)) (s : State ι δ) : Prop :=
  ∀ i dev buf count ppos, call i = .read dev buf count ppos → GateKept as buf ppos (s.frame i)

/-- A read that goes on after a signal has ended its wait finds itself inside the device and the
flag set, and its `copy_to_user` faults before it has changed a byte of the buffer. -/
def SignalHarmless (call : ι → Request δ) (s : State ι δ) : Act ι → Prop
  | .check i =>
    match call i with
    | .read _ _ _ ppos => (s.frame i).waited ≠ 0 → ppos.toUInt64 < GLOBALMEM_SIZE ∧ s.atom ≠ 0
    | .write _ _ _ _ => True
  | .copy i fault =>
    match call i with
    | .read dev buf count ppos =>
      let n := (clampCount ppos.toUInt64 count).toNat
      (s.frame i).waited ≠ 0 → copied fault n < n ∧
        ∀ k < copied fault n, s.mem dev (ppos.toUInt64.toNat + k) = buf k
    | .write _ _ _ _ => True
  | _ => True

instance (call : ι → Request δ) (s : State ι δ) : ∀ a : Act ι, Decidable (SignalHarmless call s a)
  | .check i => by
    dsimp only [SignalHarmless]
    exact match call i with
      | .read .. => inferInstance
      | .write .. => inferInstance
  | .copy i fault => by
    dsimp only [SignalHarmless]
    exact match call i with
      | .read .. => inferInstance
      | .write .. => inferInstance
  | .enqueue _ | .test _ | .wakened _ | .spurious _ | .signal _ | .set _ | .wake _ => isTrue trivial

/-- Where a read with these arguments may stand, given the flag. -/
structure Gated (atom : Int32) (buf : Bytes) (ppos : Int64) (fr : Frame) : Prop where
  fresh : fr.pc.waiting = true → fr.waited = 0
  through : fr.pc = .check → fr.waited = 0 → atom ≠ 0
  opened : fr.pc = .copy ∨ fr.pc = .returned → atom ≠ 0
  harmless : fr.pc = .returned → fr.waited ≠ 0 → fr.ppos = ppos ∧ fr.buf = buf ∧ fr.rval < 0

structure GateInv (g : Gate) (call : ι → Request δ) (as : List (Act ι)) (s : State ι δ) :
    Prop where
  flag : s.atom ≠ 0 ↔ Opened as
  faithful : ∀ i, Faithful g (call i) (s.frame i)
  gated : ∀ i dev buf count ppos, call i = .read dev buf count ppos →
    Gated s.atom buf ppos (s.frame i)

omit [DecidableEq ι] [DecidableEq δ] in
theorem gateInv_init (g : Gate) (call : ι → Request δ) (mem : δ → Bytes) :
    GateInv g call [] (init call mem) := by
  refine ⟨⟨fun h => absurd rfl h, ?_⟩, fun i => faithful_enter g (call i), ?_⟩
  · intro opened
    obtain ⟨w, hw⟩ := opened
    cases hw
  · intro i dev buf count ppos hc
    have hfr : (init call mem).frame i = ⟨.enqueue, false, 0, 0, ppos, buf⟩ := by
      simp only [init, hc, Request.enter]
    rw [hfr]
    refine ⟨fun _ => rfl, ?_, ?_, ?_⟩
    · intro hp
      cases hp
    · rintro (hp | hp) <;> cases hp
    · intro hp
      cases hp

theorem next_atom (g : Gate) (call : ι → Request δ) (s : State ι δ) {a : Act ι}
    (h : ∀ i, a ≠ .set i) : (next g call s a).atom = s.atom := by
  cases a with
  | test i =>
    simp only [next]
    split_ifs <;> rfl
  | check i =>
    simp only [next]
    split <;> rfl
  | copy i fault =>
    simp only [next, copyStep]
    split <;> rfl
  | set i => exact absurd rfl (h i)
  | _ => rfl

omit [DecidableEq ι] in
theorem opened_append {as : List (Act ι)} {a : Act ι} (h : ∀ i, a ≠ .set i) :
    Opened (as ++ [a]) ↔ Opened as := by
  constructor
  · intro opened
    obtain ⟨w, hw⟩ := opened
    obtain hm | hm := List.mem_append.mp hw
    · exact ⟨w, hm⟩
    · exact absurd (List.mem_singleton.mp hm).symm (h w)
  · intro opened
    obtain ⟨w, hw⟩ := opened
    exact ⟨w, List.mem_append_left _ hw⟩

theorem flag_next (g : Gate) (call : ι → Request δ) {as : List (Act ι)} {s : State ι δ}
    (a : Act ι) (h : s.atom ≠ 0 ↔ Opened as) :
    ((next g call s a).atom ≠ 0 ↔ Opened (as ++ [a])) ∧
      (s.atom ≠ 0 → (next g call s a).atom ≠ 0) := by
  by_cases hset : ∃ i, a = .set i
  · obtain ⟨i, rfl⟩ := hset
    have one : (next g call s (.set i)).atom ≠ 0 := by
      change (1 : Int32) ≠ 0
      decide
    exact ⟨⟨fun _ => ⟨i, by simp⟩, fun _ => one⟩, fun _ => one⟩
  · have hne : ∀ i, a ≠ .set i := fun i hi => hset ⟨i, hi⟩
    rw [next_atom g call s hne, opened_append hne]
    exact ⟨h, id⟩

/-- The step of a read keeps it gated, if a signal that ended its wait is harmless. -/
theorem gated_next {g : Gate} {call : ι → Request δ} {s : State ι δ} {a : Act ι} {dev : δ}
    {buf : Bytes} {count : UInt64} {ppos : Int64} (enabled : Enabled s a)
    (ok : SignalHarmless call s a) (hc : call a.caller = .read dev buf count ppos)
    (reading : Reading g buf count ppos (s.frame a.caller))
    (h : Gated s.atom buf ppos (s.frame a.caller)) :
    Gated (next g call s a).atom buf ppos ((next g call s a).frame a.caller) := by
  have queued : ∀ {atom : Int32} {fr : Frame}, fr.pc.waiting = true → fr.waited = 0 →
      Gated atom buf ppos fr := by
    intro atom fr waiting hw
    refine ⟨fun _ => hw, fun hp => ?_, ?_, fun hp => ?_⟩
    · rw [hp] at waiting
      cases waiting
    · rintro (hp | hp) <;> rw [hp] at waiting <;> cases waiting
    · rw [hp] at waiting
      cases waiting
  have unwaited : ∀ pc, pc.waiting = true → (s.frame a.caller).pc = pc →
      (s.frame a.caller).waited = 0 := by
    intro pc waiting hpc
    exact h.fresh (by rw [hpc]; exact waiting)
  cases a with
  | spurious i => exact h
  | enqueue i =>
    have hw := unwaited .enqueue rfl enabled
    simp only [next, Act.caller, setFrame_self]
    exact queued rfl hw
  | test i =>
    have hw := unwaited .test rfl enabled
    simp only [next]
    split_ifs with hz hs <;> simp only [Act.caller, setFrame_self]
    · exact ⟨fun hp => (by cases hp), fun _ _ => hz,
        fun hp => (by rcases hp with hp | hp <;> cases hp), fun hp => (by cases hp)⟩
    · refine ⟨fun hp => (by cases hp), fun _ hzero => ?_,
        fun hp => (by rcases hp with hp | hp <;> cases hp), fun hp => (by cases hp)⟩
      exact absurd hzero (show -ERESTARTSYS ≠ 0 by decide)
    · exact queued rfl hw
  | wakened i =>
    have hw := unwaited .sleep rfl enabled.1
    simp only [next, Act.caller, setFrame_self]
    exact queued rfl hw
  | signal i =>
    have hw := unwaited _ enabled rfl
    simp only [next, Act.caller, setFrame_self]
    exact queued enabled hw
  | check i =>
    have hi : (s.frame i).pc = .check := enabled
    have pos : (call i).ppos = ppos := by rw [show call i = _ from hc]; rfl
    have safe : (s.frame i).waited ≠ 0 → ppos.toUInt64 < GLOBALMEM_SIZE ∧ s.atom ≠ 0 := by
      simpa only [SignalHarmless, show call i = _ from hc] using ok
    have open_ : s.atom ≠ 0 := by
      by_cases hw : (s.frame i).waited = 0
      · exact h.through hi hw
      · exact (safe hw).2
    simp only [next, pos]
    split
    next past =>
      simp only [Act.caller, setFrame_self]
      refine ⟨fun hp => (by cases hp), fun hp => (by cases hp), fun _ => open_, fun _ hw => ?_⟩
      exact absurd past (UInt64.not_le.mpr (safe hw).1)
    next inside =>
      simp only [Act.caller, setFrame_self]
      exact ⟨fun hp => (by cases hp), fun hp => (by cases hp), fun _ => open_,
        fun hp => (by cases hp)⟩
  | copy i fault =>
    have open_ := h.opened (Or.inl enabled)
    have safe : (s.frame i).waited ≠ 0 →
        copied fault (clampCount ppos.toUInt64 count).toNat <
            (clampCount ppos.toUInt64 count).toNat ∧
          ∀ k < copied fault (clampCount ppos.toUInt64 count).toNat,
            s.mem dev (ppos.toUInt64.toNat + k) = buf k := by
      simpa only [SignalHarmless, show call i = _ from hc] using ok
    simp only [next, copyStep, show call i = _ from hc, Act.caller, setFrame_self]
    refine ⟨fun hp => (by cases hp), fun hp => (by cases hp), fun _ => open_, fun _ hw => ?_⟩
    obtain ⟨short, same⟩ := safe hw
    rw [copyOut, afterCopy_fault (by omega)]
    refine ⟨rfl, ?_, show (-EFAULT).toInt64 < 0 by decide⟩
    funext k
    by_cases hk : k < copied fault (clampCount ppos.toUInt64 count).toNat
    · exact (copyBytes_front hk).trans (same k hk)
    · exact copyBytes_outside (by omega)
  | set i => exact absurd enabled reading.releases.1
  | wake i => exact absurd enabled reading.releases.2

theorem gateInv_next {g : Gate} {call : ι → Request δ} {as : List (Act ι)} {s : State ι δ}
    {a : Act ι} (h : GateInv g call as s) (enabled : Enabled s a)
    (ok : SignalHarmless call s a) : GateInv g call (as ++ [a]) (next g call s a) := by
  obtain ⟨flag, stays⟩ := flag_next g call a h.flag
  refine ⟨flag, faithful_next h.faithful enabled, ?_⟩
  intro i dev buf count ppos hc
  have old := h.gated i dev buf count ppos hc
  by_cases hi : i = a.caller
  · subst hi
    have reading := h.faithful a.caller
    rw [hc] at reading
    exact gated_next enabled ok hc reading old
  · rw [next_frame_other g call s a hi]
    exact ⟨old.fresh, fun hp hw => stays (old.through hp hw), fun hp => stays (old.opened hp),
      old.harmless⟩

omit [DecidableEq ι] [DecidableEq δ] in
theorem GateInv.law {g : Gate} {call : ι → Request δ} {as : List (Act ι)} {s : State ι δ}
    (h : GateInv g call as s) : GateLaw call as s := by
  intro i dev buf count ppos hc
  have gated := h.gated i dev buf count ppos hc
  have reading := h.faithful i
  rw [hc] at reading
  refine ⟨fun hp => h.flag.mp (gated.opened (Or.inl hp)), fun hm => ?_,
    fun hp _ => h.flag.mp (gated.opened (Or.inr hp)), fun hw => ?_⟩
  · by_cases done : (s.frame i).pc = .returned
    · exact h.flag.mp (gated.opened (Or.inr done))
    · exact absurd (reading.before done).1 hm
  · by_cases done : (s.frame i).pc = .returned
    · obtain ⟨hp, hb, hr⟩ := gated.harmless done hw
      exact ⟨hp, hb, fun _ => hr⟩
    · obtain ⟨hp, hb⟩ := reading.before done
      exact ⟨hp, hb, fun hr => absurd hr done⟩

/-- A read that ignores the signal and is not harmless breaks the law with that very step. -/
theorem law_broken {g : Gate} {call : ι → Request δ} {as : List (Act ι)} {s : State ι δ}
    {a : Act ι} (h : GateInv g call as s) (enabled : Enabled s a)
    (bad : ¬ SignalHarmless call s a) : ¬ GateLaw call (as ++ [a]) (next g call s a) := by
  intro law
  cases a with
  | check i =>
    cases hc : call i with
    | write dev buf count ppos => simp [SignalHarmless, hc] at bad
    | read dev buf count ppos =>
      simp only [SignalHarmless, hc, Classical.not_imp] at bad
      obtain ⟨hw, unsafe_⟩ := bad
      have kept := law i dev buf count ppos hc
      by_cases past : ppos.toUInt64 ≥ GLOBALMEM_SIZE
      · have hfr : (next g call s (.check i)).frame i =
            { s.frame i with pc := .returned, rval := 0 } := by
          simp [next, Request.ppos, hc, past]
        rw [hfr] at kept
        have error : (0 : Int64) < 0 := (kept.interrupted hw).2.2 rfl
        exact absurd error (by decide)
      · have hfr : (next g call s (.check i)).frame i = { s.frame i with pc := .copy } := by
          simp [next, Request.ppos, hc, past]
        rw [hfr] at kept
        have opened := (opened_append (by intro j hj; cases hj)).mp (kept.copying rfl)
        exact unsafe_ ⟨UInt64.not_le.mp past, h.flag.mpr opened⟩
  | copy i fault =>
    cases hc : call i with
    | write dev buf count ppos => simp [SignalHarmless, hc] at bad
    | read dev buf count ppos =>
      simp only [SignalHarmless, hc, Classical.not_imp] at bad
      obtain ⟨hw, unsafe_⟩ := bad
      have reading := h.faithful i
      rw [hc] at reading
      have inside := reading.inside enabled
      have kept := law i dev buf count ppos hc
      have hfr : (next g call s (.copy i fault)).frame i =
          let r := copyOut fault (s.mem dev) buf (clampCount ppos.toUInt64 count) ppos
          { s.frame i with pc := .returned, rval := r.rval, ppos := r.ppos, buf := r.bytes } := by
        simp only [next, copyStep, hc, setFrame_self]
      rw [hfr] at kept
      obtain ⟨_, hbuf, hrval⟩ := kept.interrupted hw
      have error := hrval rfl
      have short : copied fault (clampCount ppos.toUInt64 count).toNat <
          (clampCount ppos.toUInt64 count).toNat := by
        by_contra full
        have success := afterCopy_count inside count ppos (copyBytes buf 0 (s.mem dev)
          ppos.toUInt64.toNat (copied fault (clampCount ppos.toUInt64 count).toNat))
        have negative : (copyOut fault (s.mem dev) buf (clampCount ppos.toUInt64 count)
          ppos).rval.toInt < 0 := Int64.lt_iff_toInt_lt.mp error
        rw [copyOut, Nat.sub_eq_zero_of_le (by omega), success] at negative
        omega
      refine unsafe_ ⟨short, fun k hk => ?_⟩
      simp only [copyOut, afterCopy_fault (Nat.sub_ne_zero_of_lt short)] at hbuf
      exact (copyBytes_front hk).symm.trans (congrFun hbuf k)
  | _ => exact bad trivial

/-- Throughout a run, in all three drivers, no read gets past the gate before a write has opened
it and no interrupted read succeeds, exactly if the signals whose outcome the reads throw away
are harmless. -/
theorem read_gate_kept {g : Gate} {call : ι → Request δ} {mem : δ → Bytes} {as : List (Act ι)}
    {s : State ι δ} (h : Run (machine g call) (init call mem) as s) :
    Always (machine g call) (GateLaw call) (init call mem) as ↔
      Meets (machine g call) (SignalHarmless call) (init call mem) as :=
  always_iff_meets (I := GateInv g call) (gateInv_init g call mem)
    (fun _ _ _ inv enabled ok => gateInv_next inv enabled ok) (fun _ _ inv => inv.law)
    (fun _ _ _ inv enabled bad => law_broken inv enabled bad) h

end

/-- A signal ends the wait of the first reader of 19_LAB1_wait after a write has set the flag, so
its wait succeeds all the same; a second reader never reaches the gate's test. -/
theorem read_gate_kept_signalled :
    let call : Fin 3 → Request Unit := fun i =>
      if i = 2 then .write () (fun _ => 7) 4 0 else .read () (fun _ => 0) 4 0
    let as : List (Act (Fin 3)) := [.enqueue 0, .test 0, .enqueue 1, .check 2, .copy 2 none,
      .signal 0, .set 2, .wake 2, .wakened 0, .enqueue 0, .test 0, .check 0, .copy 0 none]
    GateLaw call as ((machine .wait call).replay (init call fun _ _ => 0) as) := by
  intro call as
  have run : Run (machine .wait call) (init call fun _ _ => 0) as
      ((machine .wait call).replay (init call fun _ _ => 0) as) := run_of_admits (by decide)
  exact (read_gate_kept run).2 (meets_of_replay (by decide)) as [] _ (by simp) run

/-- In each of the three drivers a lone reader that a signal wakes returns four bytes, with no
write anywhere. -/
theorem read_gate_passed_by_signal :
    let call : Fin 1 → Request Unit := fun _ => .read () (fun _ => 1) 4 0
    let as : List (Act (Fin 1)) := [.enqueue 0, .test 0, .signal 0, .wakened 0, .enqueue 0,
      .test 0, .check 0, .copy 0 none]
    let passed : Gate → Prop := fun g =>
      ∃ s, Run (machine g call) (init call fun _ _ => 0) as s ∧ ¬ Opened as ∧
        (s.frame 0).waited = -ERESTARTSYS ∧ (s.frame 0).pc = .returned ∧ (s.frame 0).rval = 4 ∧
        (s.frame 0).ppos = 4 ∧ (s.frame 0).buf 0 = 0 ∧ ¬ GateLaw call as s
    passed .wait ∧ passed .exwait ∧ passed .lab2 := by
  intro call as passed
  have closed : ¬ Opened as := by
    intro opened
    obtain ⟨w, hw⟩ := opened
    simp [as] at hw
  have each : ∀ g, passed g := by
    intro g
    refine ⟨(machine g call).replay (init call fun _ _ => 0) as, ?_, closed, ?_, ?_, ?_, ?_, ?_, ?_⟩
    · cases g <;> exact run_of_admits (by decide)
    · cases g <;> decide
    · cases g <;> decide
    · cases g <;> decide
    · cases g <;> decide
    · cases g <;> decide
    · intro law
      have kept := law 0 () (fun _ => 1) 4 0 rfl
      refine closed (kept.success ?_ ?_)
      · cases g <;> decide
      · cases g <;> decide
  exact ⟨each .wait, each .exwait, each .lab2⟩

end DeviceDriverEx.WaitGate
