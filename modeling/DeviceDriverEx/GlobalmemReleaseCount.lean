import DeviceDriverEx.GlobalmemRelease
import DeviceDriverEx.Occupancy

namespace DeviceDriverEx.Release

section
variable {ι δ : Type} [DecidableEq ι] [DecidableEq δ]

/-- A read that got its release. -/
def passed : Request δ × Frame → Bool
  | (.read _ _ _ _, fr) => decide (fr.pc ≠ .down ∧ fr.waited = 0)
  | (.write _ _ _ _, _) => false

/-- A write that has given out its release. -/
def posted : Request δ × Frame → Bool
  | (.write _ _ _ ppos, fr) => decide (fr.pc = .returned ∧ ppos.toUInt64 < GLOBALMEM_SIZE)
  | (.read _ _ _ _, _) => false

/-- A write that has copied something into the device and returns its length. -/
def productive : Request δ × Frame → Bool
  | (.write _ _ _ _, fr) => decide ((fr.pc = .post ∨ fr.pc = .returned) ∧ 0 < fr.rval)
  | (.read _ _ _ _, _) => false

def scene (call : ι → Request δ) (s : State ι δ) : ι → Request δ × Frame :=
  fun i => (call i, s.frame i)

omit [DecidableEq δ] in
theorem scene_setFrame (call : ι → Request δ) (s : State ι δ) (i : ι) (fr : Frame) :
    scene call (s.setFrame i fr) = Function.update (scene call s) i (call i, fr) := by
  funext j
  by_cases hj : j = i
  · subst hj
    simp [scene]
  · simp [scene, hj]

/-- The releases are conserved: what the writes have posted and the reads have not taken is in
the counter. -/
structure Conserved [Fintype ι] (g : Gate) (call : ι → Request δ) (s : State ι δ) : Prop where
  faithful : ∀ i, Faithful g (call i) (s.frame i)
  balance : occupancy passed (scene call s) + s.count = occupancy posted (scene call s)

section
variable [Fintype ι]

omit [DecidableEq ι] [DecidableEq δ] in
theorem conserved_init (g : Gate) (call : ι → Request δ) (mem : δ → Bytes) :
    Conserved g call (init call mem) := by
  refine ⟨fun i => faithful_enter g (call i), ?_⟩
  have none_passed : ∀ i, passed (scene call (init call mem) i) = false := by
    intro i
    cases hc : call i <;> simp [scene, init, enter, passed, hc]
  have none_posted : ∀ i, posted (scene call (init call mem) i) = false := by
    intro i
    cases hc : call i <;> simp [scene, init, enter, posted, hc]
  rw [occupancy_eq_zero none_passed, occupancy_eq_zero none_posted]
  rfl

omit [DecidableEq δ] in
/-- A step that neither takes nor gives a release. -/
theorem balance_moved {call : ι → Request δ} {s : State ι δ} {i : ι} {fr : Frame}
    (h : occupancy passed (scene call s) + s.count = occupancy posted (scene call s))
    (hpassed : passed (call i, fr) = passed (scene call s i))
    (hposted : posted (call i, fr) = posted (scene call s i)) :
    occupancy passed (scene call (s.setFrame i fr)) + s.count =
      occupancy posted (scene call (s.setFrame i fr)) := by
  rw [scene_setFrame, occupancy_stay hpassed, occupancy_stay hposted]
  exact h

theorem balance_down {g : Gate} {call : ι → Request δ} {s : State ι δ} {i : ι}
    (h : Conserved g call s) (hi : (s.frame i).pc = .down) (hcount : 0 < s.count) :
    occupancy passed (scene call (next call s (.down i))) + (next call s (.down i)).count =
      occupancy posted (scene call (next call s (.down i))) := by
  have own := h.faithful i
  have balance := h.balance
  cases hc : call i with
  | write dev buf count ppos =>
    rw [hc] at own
    exact absurd hi own.waits
  | read dev buf count ppos =>
    rw [hc] at own
    obtain ⟨_, _, hw⟩ := own.before (by rw [hi]; decide)
    have out : passed (scene call s i) = false := by simp [scene, hc, passed, hi]
    have into : passed (call i, { s.frame i with pc := .check }) = true := by
      simp [hc, passed, hw]
    have same : posted (call i, { s.frame i with pc := .check }) = posted (scene call s i) := by
      simp [scene, hc, posted]
    change occupancy passed (scene call (s.setFrame i { s.frame i with pc := .check })) +
      (s.count - 1) = occupancy posted (scene call (s.setFrame i { s.frame i with pc := .check }))
    rw [scene_setFrame, occupancy_enter out into, occupancy_stay same]
    omega

theorem balance_post {g : Gate} {call : ι → Request δ} {s : State ι δ} {i : ι}
    (h : Conserved g call s) (hi : (s.frame i).pc = .post) :
    occupancy passed (scene call (next call s (.post i))) + (next call s (.post i)).count =
      occupancy posted (scene call (next call s (.post i))) := by
  have own := h.faithful i
  have balance := h.balance
  cases hc : call i with
  | read dev buf count ppos =>
    rw [hc] at own
    exact absurd hi own.posts
  | write dev buf count ppos =>
    rw [hc] at own
    have inside := own.inside (Or.inr hi)
    have out : posted (scene call s i) = false := by simp [scene, hc, posted, hi]
    have into : posted (call i, { s.frame i with pc := .returned }) = true := by
      simp [hc, posted, inside]
    have same : passed (call i, { s.frame i with pc := .returned }) = passed (scene call s i) := by
      simp [scene, hc, passed]
    change occupancy passed (scene call (s.setFrame i { s.frame i with pc := .returned })) +
      (s.count + 1) = occupancy posted (scene call (s.setFrame i { s.frame i with pc := .returned }))
    rw [scene_setFrame, occupancy_enter out into, occupancy_stay same]
    omega

theorem conserved_next {g : Gate} {call : ι → Request δ} {s : State ι δ} {a : Act ι}
    (h : Conserved g call s) (enabled : Enabled g s a) : Conserved g call (next call s a) := by
  refine ⟨faithful_next h.faithful enabled, ?_⟩
  cases a with
  | down i => exact balance_down h enabled.1 enabled.2
  | post i => exact balance_post h enabled
  | signal i =>
    have hi : (s.frame i).pc = .down := enabled.1
    have own := h.faithful i
    refine balance_moved h.balance ?_ ?_
    · cases hc : call i <;> simp [scene, hc, passed, hi, EINTR]
    · cases hc : call i with
      | read dev buf count ppos => simp [scene, hc, posted]
      | write dev buf count ppos =>
        rw [hc] at own
        exact absurd hi own.waits
  | check i =>
    have hi : (s.frame i).pc = .check := enabled
    simp only [next]
    split
    next past =>
      refine balance_moved h.balance ?_ ?_
      · cases hc : call i <;> simp [scene, hc, passed, hi]
      · cases hc : call i with
        | read dev buf count ppos => simp [scene, hc, posted]
        | write dev buf count ppos =>
          rw [hc] at past
          simpa [scene, hc, posted, hi, Request.ppos] using past
    next inside =>
      refine balance_moved h.balance ?_ ?_
      · cases hc : call i <;> simp [scene, hc, passed, hi]
      · cases hc : call i <;> simp [scene, hc, posted, hi]
  | copy i fault =>
    have hi : (s.frame i).pc = .copy := enabled
    cases hc : call i with
    | read dev buf count ppos =>
      simp only [next, copyStep, hc]
      refine balance_moved h.balance ?_ ?_
      · simp [scene, hc, passed, hi]
      · simp [scene, hc, posted]
    | write dev buf count ppos =>
      simp only [next, copyStep, hc]
      refine balance_moved (i := i) h.balance ?_ ?_
      · simp [scene, hc, passed]
      · simp [scene, hc, posted, hi]

theorem conserved_run {g : Gate} {call : ι → Request δ} {mem : δ → Bytes} {as : List (Act ι)}
    {s : State ι δ} (h : Run (machine g call) (init call mem) as s) : Conserved g call s :=
  run_invariant (conserved_init g call mem) (fun _ _ inv enabled => conserved_next inv enabled) h

end

/-- A write that gets into the device has bytes to copy and copies them all. -/
def WriteDelivers (call : ι → Request δ) (_ : State ι δ) : Act ι → Prop
  | .copy i fault =>
    match call i with
    | .write _ _ count ppos =>
      let n := (clampCount ppos.toUInt64 count).toNat
      0 < n ∧ copied fault n = n
    | .read _ _ _ _ => True
  | _ => True

instance (call : ι → Request δ) (s : State ι δ) : ∀ a : Act ι, Decidable (WriteDelivers call s a)
  | .copy i fault => by
    dsimp only [WriteDelivers]
    exact match call i with
      | .read .. => inferInstance
      | .write .. => inferInstance
  | .down _ | .signal _ | .check _ | .post _ => isTrue trivial

/-- The writes that release a reader have something for it. -/
def Delivered (call : ι → Request δ) (s : State ι δ) : Prop :=
  ∀ i dev buf count ppos, call i = .write dev buf count ppos →
    (s.frame i).pc = .post ∨ (s.frame i).pc = .returned ∧ ppos.toUInt64 < GLOBALMEM_SIZE →
    0 < (s.frame i).rval

omit [DecidableEq ι] [DecidableEq δ] in
theorem delivered_init (call : ι → Request δ) (mem : δ → Bytes) :
    Delivered call (init call mem) := by
  intro i dev buf count ppos hc hp
  simp [init, enter, hc] at hp

theorem delivered_next {g : Gate} {call : ι → Request δ} {s : State ι δ} {a : Act ι}
    (faithful : ∀ i, Faithful g (call i) (s.frame i)) (h : Delivered call s)
    (enabled : Enabled g s a) (ok : WriteDelivers call s a) : Delivered call (next call s a) := by
  intro j dev buf count ppos hc hp
  by_cases hj : j = a.caller
  · subst hj
    have own := faithful a.caller
    rw [hc] at own
    cases a with
    | down i => exact absurd enabled.1 own.waits
    | signal i => exact absurd enabled.1 own.waits
    | check i =>
      have pos : (call i).ppos = ppos := by rw [show call i = _ from hc]; rfl
      simp only [next, pos] at hp
      split at hp
      next past =>
        simp only [Act.caller, setFrame_self] at hp
        rcases hp with hp | hp
        · cases hp
        · exact absurd past (UInt64.not_le.mpr hp.2)
      next inside =>
        simp only [Act.caller, setFrame_self] at hp
        rcases hp with hp | hp
        · cases hp
        · cases hp.1
    | copy i fault =>
      have inside := own.inside (Or.inl enabled)
      simp only [WriteDelivers, show call i = _ from hc] at ok
      obtain ⟨some_, all⟩ := ok
      simp only [next, copyStep, show call i = _ from hc, Act.caller, setFrame_self,
        copyIn, all, Nat.sub_self]
      have rval := afterCopy_count inside count ppos (copy_from_user fault (s.mem dev)
        ppos.toUInt64.toNat buf (clampCount ppos.toUInt64 count).toNat)
      rw [Int64.lt_iff_toInt_lt, rval]
      exact Int.natCast_pos.mpr some_
    | post i =>
      have rval := h i dev buf count ppos hc (Or.inl enabled)
      simp only [next, Act.caller, setFrame_self]
      exact rval
  · rw [next_frame_other call s a hj] at hp ⊢
    exact h j dev buf count ppos hc hp

/-- No release gets lost, and none goes to a read that a signal has ended; the reads that pass do
not outnumber the writes that brought data, if every write that gets into the device does. -/
theorem readers_released_by_data [Fintype ι] {g : Gate} {call : ι → Request δ}
    {mem : δ → Bytes} {as : List (Act ι)} {s : State ι δ}
    (h : Run (machine g call) (init call mem) as s) :
    (Meets (machine g call) (WriteDelivers call) (init call mem) as →
      occupancy passed (scene call s) ≤ occupancy productive (scene call s)) ∧
    occupancy passed (scene call s) + s.count = occupancy posted (scene call s) ∧
    ∀ i dev buf count ppos, call i = .read dev buf count ppos → (s.frame i).waited ≠ 0 →
      passed (scene call s i) = false ∧ (s.frame i).pc = .returned ∧
      (s.frame i).rval = (-ERESTARTSYS).toInt64 ∧ (s.frame i).ppos = ppos ∧
      (s.frame i).buf = buf := by
  have inv := conserved_run h
  refine ⟨fun meets => ?_, inv.balance, fun i dev buf count ppos hc hw => ?_⟩
  · have both : Conserved g call s ∧ Delivered call s :=
      run_invariant_of_meets (I := fun t => Conserved g call t ∧ Delivered call t)
        ⟨conserved_init g call mem, delivered_init call mem⟩
        (fun t a inv enabled ok => ⟨conserved_next inv.1 enabled,
          delivered_next inv.1.faithful inv.2 enabled ok⟩) h meets
    have fed : occupancy posted (scene call s) ≤ occupancy productive (scene call s) := by
      refine occupancy_mono fun i hi => ?_
      cases hc : call i with
      | read dev buf count ppos => simp [scene, hc, posted] at hi
      | write dev buf count ppos =>
        simp only [scene, hc, posted, decide_eq_true_eq] at hi
        simp only [scene, hc, productive, decide_eq_true_eq]
        exact ⟨Or.inr hi.1, both.2 i dev buf count ppos hc (Or.inr hi)⟩
    have balance := inv.balance
    omega
  · have own := inv.faithful i
    rw [hc] at own
    have done : (s.frame i).pc = .returned := by
      by_contra going
      exact hw (own.before going).2.2
    obtain ⟨fault, mem', result⟩ := own.after done
    rw [own.interrupted hw, Gate.driver, globalmem_read, if_pos ⟨rfl, hw⟩] at result
    obtain ⟨hr, hp, hb⟩ := CallResult.mk.inj result
    exact ⟨by simp [scene, hc, passed, hw], done, hr, hp, hb⟩

end

/-- Two reads wait, a signal ends one of them before the write has posted, and the release is
left for the other. -/
theorem readers_released_by_data_signalled :
    let call : Fin 3 → Request Unit := fun i =>
      if i = 2 then .write () (fun _ => 7) 4 0 else .read () (fun _ => 0) 4 0
    let as : List (Act (Fin 3)) := [.check 2, .copy 2 none, .signal 0, .post 2, .down 1, .check 1,
      .copy 1 none]
    let s := (machine .sem call).replay (init call fun _ _ => 0) as
    occupancy passed (scene call s) ≤ occupancy productive (scene call s) ∧
      passed (scene call s 0) = false := by
  intro call as s
  have run : Run (machine .sem call) (init call fun _ _ => 0) as s := run_of_admits (by decide)
  obtain ⟨released, _, interrupted⟩ := readers_released_by_data run
  exact ⟨released (meets_of_replay (by decide)),
    (interrupted 0 () (fun _ => 0) 4 0 rfl (by decide)).1⟩

/-- In both drivers a write that faults on its first byte returns `-EFAULT` and yet releases a
read. -/
theorem reader_released_by_fault :
    let call : Fin 2 → Request Unit := fun i =>
      if i = 0 then .write () (fun _ => 7) 4 0 else .read () (fun _ => 0) 4 0
    let as : List (Act (Fin 2)) := [.check 0, .copy 0 (some ⟨0, true⟩), .post 0, .down 1]
    let released : Gate → Prop := fun g =>
      ∃ s, Run (machine g call) (init call fun _ _ => 0) as s ∧
        (s.frame 0).rval = (-EFAULT).toInt64 ∧ (s.frame 1).pc = .check ∧
        occupancy passed (scene call s) = 1 ∧ occupancy productive (scene call s) = 0
    released .sem ∧ released .complete := by
  intro call as released
  have each : ∀ g, released g := by
    intro g
    refine ⟨(machine g call).replay (init call fun _ _ => 0) as, ?_, ?_, ?_, ?_, ?_⟩
    · cases g <;> exact run_of_admits (by decide)
    · cases g <;> decide
    · cases g <;> decide
    · cases g <;> decide
    · cases g <;> decide
  exact ⟨each .sem, each .complete⟩

end DeviceDriverEx.Release
