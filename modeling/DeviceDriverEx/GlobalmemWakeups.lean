import DeviceDriverEx.GlobalmemWait

namespace DeviceDriverEx.WaitGate

section
variable {ι δ : Type} [DecidableEq ι] [DecidableEq δ]

/-- A reader asleep on `wq` that nobody has woken. -/
def Asleep (s : State ι δ) (i : ι) : Prop := (s.frame i).pc = .sleep ∧ s.wq.state i ≠ .running

structure WakeInv (g : Gate) (s : State ι δ) : Prop where
  flag : s.atom = 0 ∨ s.atom = 1
  shared : s.wq.Shared
  covered : ∀ i, s.wq.state i ≠ .running → s.wq.state i = g.sleepState
  roused : ∀ i, Asleep s i → s.atom ≠ 0 → ∃ w, (s.frame w).pc = .wake

omit [DecidableEq ι] [DecidableEq δ] in
theorem wakeInv_init (g : Gate) (call : ι → Request δ) (mem : δ → Bytes) :
    WakeInv g (init call mem) := by
  refine ⟨Or.inl rfl, WaitQueue.shared_empty, ?_, ?_⟩
  · intro i awake
    exact absurd rfl awake
  · intro i asleep _
    exact absurd rfl asleep.2

omit [DecidableEq δ] in
/-- A step of a call that is not about to wake, and that goes to sleep only while `atom` is 0. -/
theorem wakeInv_moved {g : Gate} {s : State ι δ} {i : ι} {fr : Frame} {q : WaitQueue ι}
    {mem : δ → Bytes} (h : WakeInv g s) (calm : (s.frame i).pc ≠ .wake) (shared : q.Shared)
    (others : ∀ j ≠ i, q.state j = s.wq.state j)
    (own : q.state i ≠ .running → q.state i = g.sleepState ∧ (fr.pc = .sleep → s.atom = 0)) :
    WakeInv g { s.setFrame i fr with wq := q, mem := mem } := by
  refine ⟨h.flag, shared, ?_, ?_⟩
  · intro j asleep
    by_cases hj : j = i
    · subst hj
      exact (own asleep).1
    · change q.state j ≠ .running at asleep
      change q.state j = g.sleepState
      rw [others j hj] at asleep ⊢
      exact h.covered j asleep
  · intro j asleep flag
    obtain ⟨pc, state⟩ := asleep
    by_cases hj : j = i
    · subst hj
      have hpc : fr.pc = .sleep := by simpa using pc
      exact absurd ((own state).2 hpc) flag
    · have pc' : (s.frame j).pc = .sleep := by simpa [hj] using pc
      have state' : s.wq.state j ≠ .running := by
        rw [← others j hj]
        exact state
      obtain ⟨w, hw⟩ := h.roused j ⟨pc', state'⟩ flag
      have hne : w ≠ i := by
        rintro rfl
        exact calm hw
      exact ⟨w, by simpa [hne] using hw⟩

omit [DecidableEq δ] in
/-- A step of a call that leaves the queue alone and does not go to sleep. -/
theorem wakeInv_going {g : Gate} {s : State ι δ} {i : ι} {fr : Frame} {mem : δ → Bytes}
    (h : WakeInv g s) (calm : (s.frame i).pc ≠ .wake) (awake : fr.pc ≠ .sleep) :
    WakeInv g { s.setFrame i fr with mem := mem } :=
  wakeInv_moved h calm h.shared (fun _ _ => rfl)
    fun asleep => ⟨h.covered i asleep, fun hp => absurd hp awake⟩

theorem wakeInv_next {g : Gate} {call : ι → Request δ} {s : State ι δ} {a : Act ι}
    (h : WakeInv g s) (enabled : Enabled s a) : WakeInv g (next g call s a) := by
  have finished : ∀ i, (s.wq.finish i).state i ≠ .running →
      (s.wq.finish i).state i = g.sleepState ∧ (Pc.check = .sleep → s.atom = 0) := by
    intro i awake
    simp [WaitQueue.finish] at awake
  have finish_others : ∀ i, ∀ j ≠ i, (s.wq.finish i).state j = s.wq.state j := by
    intro i j hj
    exact Function.update_of_ne hj ..
  cases a with
  | enqueue i =>
    have hi : (s.frame i).pc = .enqueue := enabled
    refine wakeInv_moved h (by rw [hi]; decide) (WaitQueue.shared_prepare h.shared i _) ?_ ?_
    · intro j hj
      exact Function.update_of_ne hj ..
    · intro _
      exact ⟨Function.update_self .., by intro hp; cases hp⟩
  | test i =>
    have hi : (s.frame i).pc = .test := enabled
    have calm : (s.frame i).pc ≠ .wake := by rw [hi]; decide
    have shared := WaitQueue.shared_finish h.shared i
    by_cases hz : s.atom = 0
    · by_cases hs : (s.frame i).signalled = true
      · have hnext : next g call s (.test i) =
            { s.setFrame i { s.frame i with pc := .check, waited := -ERESTARTSYS } with
              wq := s.wq.finish i } := by simp [next, hz, hs]
        rw [hnext]
        exact wakeInv_moved h calm shared (finish_others i) (finished i)
      · have hnext : next g call s (.test i) = s.setFrame i { s.frame i with pc := .sleep } := by
          simp [next, hz, hs]
        rw [hnext]
        exact wakeInv_moved h calm h.shared (fun _ _ => rfl)
          fun asleep => ⟨h.covered i asleep, fun _ => hz⟩
    · have hnext : next g call s (.test i) =
          { s.setFrame i { s.frame i with pc := .check, waited := 0 } with
            wq := s.wq.finish i } := by simp [next, hz]
      rw [hnext]
      exact wakeInv_moved h calm shared (finish_others i) (finished i)
  | wakened i =>
    have hi : (s.frame i).pc = .sleep := enabled.1
    exact wakeInv_moved h (by rw [hi]; decide) h.shared (fun _ _ => rfl)
      fun asleep => absurd enabled.2 asleep
  | spurious i =>
    refine ⟨h.flag, h.shared, ?_, ?_⟩
    · intro j asleep
      by_cases hj : j = i
      · subst hj
        simp [next, WaitQueue.rouse] at asleep
      · have same : (s.wq.rouse i).state j = s.wq.state j := Function.update_of_ne hj ..
        change (s.wq.rouse i).state j ≠ .running at asleep
        change (s.wq.rouse i).state j = g.sleepState
        rw [same] at asleep ⊢
        exact h.covered j asleep
    · intro j asleep flag
      have hj : j ≠ i := by
        rintro rfl
        exact asleep.2 (Function.update_self ..)
      refine h.roused j ⟨asleep.1, ?_⟩ flag
      have same : (s.wq.rouse i).state j = s.wq.state j := Function.update_of_ne hj ..
      rw [← same]
      exact asleep.2
  | signal i =>
    have hi : (s.frame i).pc.waiting = true := enabled
    have calm : (s.frame i).pc ≠ .wake := by
      intro hw
      rw [hw] at hi
      cases hi
    refine wakeInv_moved h calm h.shared (fun j hj => Function.update_of_ne hj ..) ?_
    intro asleep
    exact absurd (Function.update_self ..) asleep
  | check i =>
    have hi : (s.frame i).pc = .check := enabled
    have calm : (s.frame i).pc ≠ .wake := by rw [hi]; decide
    simp only [next]
    split
    · exact wakeInv_going h calm (by intro hp; cases hp)
    · exact wakeInv_going h calm (by intro hp; cases hp)
  | copy i fault =>
    have hi : (s.frame i).pc = .copy := enabled
    have calm : (s.frame i).pc ≠ .wake := by rw [hi]; decide
    simp only [next, copyStep]
    split
    · exact wakeInv_going h calm (by intro hp; cases hp)
    · exact wakeInv_going h calm (by intro hp; cases hp)
  | set i =>
    refine ⟨Or.inr rfl, h.shared, h.covered, ?_⟩
    intro j _ _
    -- the writer that has just set the flag owes the wake call
    exact ⟨i, by simp [next]⟩
  | wake i =>
    have running : ∀ j, (s.wq.wake g.wakeMask 1).state j = .running := by
      intro j
      refine WaitQueue.wake_running h.shared (fun asleep => ?_) 1
      rw [h.covered j asleep]
      exact g.wakeMask_sleepState
    refine ⟨h.flag, WaitQueue.shared_wake h.shared _ _, ?_, ?_⟩
    · intro j asleep
      exact absurd (running j) asleep
    · intro j asleep
      exact absurd (running j) asleep.2

theorem wakeInv_run {g : Gate} {call : ι → Request δ} {mem : δ → Bytes} {as : List (Act ι)}
    {s : State ι δ} (h : Run (machine g call) (init call mem) as s) : WakeInv g s :=
  run_invariant (wakeInv_init g call mem) (fun _ _ inv enabled => wakeInv_next inv enabled) h

theorem atom_stays {g : Gate} {call : ι → Request δ} {s t : State ι δ} {bs : List (Act ι)}
    (set : s.atom = 1) (h : Run (machine g call) s bs t) : t.atom = 1 := by
  refine run_invariant (I := fun u => u.atom = 1) set (fun u a hu _ => ?_) h
  change (next g call u a).atom = 1
  cases a with
  | test i =>
    simp only [next]
    split_ifs <;> exact hu
  | check i =>
    simp only [next]
    split <;> exact hu
  | copy i fault =>
    simp only [next, copyStep]
    split <;> exact hu
  | set i => rfl
  | _ => exact hu

/-- Wherever the wake call of a writer falls among the steps of the readers, none of them is left
asleep behind a flag that is set; and the flag is never taken back. -/
theorem no_reader_left_asleep {g : Gate} {call : ι → Request δ} {mem : δ → Bytes}
    {as : List (Act ι)} {s : State ι δ} (h : Run (machine g call) (init call mem) as s) :
    (s.atom = 1 → (∀ w, (s.frame w).pc ≠ .wake) → ∀ i, ¬ Asleep s i) ∧
      ∀ bs t, s.atom = 1 → Run (machine g call) s bs t → t.atom = 1 := by
  refine ⟨?_, fun bs t set rest => atom_stays set rest⟩
  intro set between i asleep
  have flag : s.atom ≠ 0 := by
    rw [set]
    decide
  obtain ⟨w, hw⟩ := (wakeInv_run h).roused i asleep flag
  exact between w hw

end

/-- In 19_LAB2 the flag is set after two readers have tested it: one sleeps already, the other
goes to sleep before the wake call, which reaches both. -/
theorem no_reader_left_asleep_race :
    let call : Fin 3 → Request Unit := fun i =>
      if i = 2 then .write () (fun _ => 7) 4 0 else .read () (fun _ => 0) 4 0
    let as : List (Act (Fin 3)) := [.enqueue 0, .test 0, .enqueue 1, .check 2, .copy 2 none,
      .test 1, .set 2, .wake 2]
    ∀ i, ¬ Asleep ((machine .lab2 call).replay (init call fun _ _ => 0) as) i := by
  intro call as
  have run : Run (machine .lab2 call) (init call fun _ _ => 0) as
      ((machine .lab2 call).replay (init call fun _ _ => 0) as) := run_of_admits (by decide)
  exact (no_reader_left_asleep run).1 (by decide) (by decide)

end DeviceDriverEx.WaitGate
