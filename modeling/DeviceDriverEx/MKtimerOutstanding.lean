import DeviceDriverEx.MKtimer

namespace DeviceDriverEx.MKtimer

section
variable {ι : Type} [DecidableEq ι]

/-- However the writers interleave, the list holds one entry for each that was put on it and whose
timer has not run, which are `waiting`. An entry that is off the list has been freed. -/
structure Outstanding (s : State ι) (waiting : List ι) : Prop where
  length : s.head.length = waiting.length
  nodup : waiting.Nodup
  waits : ∀ i, i ∈ waiting ↔ (s.pc i).listed = true ∧ i ∉ s.fired
  queued : ∀ i, i ∈ waiting ∧ s.pc i = .returned ↔ i ∈ s.queue ∨ s.running = some i
  once : (s.running.toList ++ s.queue).Nodup
  fired : ∀ i ∈ s.fired, s.pc i = .returned
  listed : ∀ i, i ∈ s.head ↔ (s.pc i).listed = true ∧ some i ∉ s.log.map Prod.snd
  distinct : s.head.Nodup
  freed : ∀ i, some i ∈ s.log.map Prod.snd → (s.pc i).listed = true

omit [DecidableEq ι] in
theorem outstanding_init (jiffies : Nat) : Outstanding (init jiffies : State ι) [] := by
  refine ⟨rfl, List.nodup_nil, ?_, ?_, List.nodup_nil, ?_, ?_, List.nodup_nil, ?_⟩ <;>
    simp [init, Pc.listed, State.fired]

theorem outstanding_kzalloc (HZ : Nat) {s : State ι} {waiting : List ι} {i : ι}
    (h : Outstanding s waiting) (hi : s.pc i = .kzalloc) :
    Outstanding (next HZ s (.kzalloc i)) waiting := by
  have listed : ∀ j, ((next HZ s (.kzalloc i)).pc j).listed = (s.pc j).listed :=
    update_tells Pc.listed (by rw [hi]; rfl)
  have returned (j : ι) : (next HZ s (.kzalloc i)).pc j = .returned ↔ s.pc j = .returned := by
    have neither : (Pc.list_add_tail = .returned) = (s.pc i = .returned) := by simp [hi]
    exact iff_of_eq (update_tells (fun pc => pc = Pc.returned) neither j)
  refine ⟨h.length, h.nodup, fun j => ?_, fun j => ?_, h.once, fun j hj => ?_, fun j => ?_,
    h.distinct, fun j hj => ?_⟩
  · rw [listed]
    exact h.waits j
  · rw [returned]
    exact h.queued j
  · exact (returned j).mpr (h.fired j hj)
  · rw [listed]
    exact h.listed j
  · rw [listed]
    exact h.freed j hj

theorem outstanding_list_add_tail (HZ : Nat) {s : State ι} {waiting : List ι} {i : ι}
    (h : Outstanding s waiting) (hi : s.pc i = .list_add_tail) :
    Outstanding (next HZ s (.list_add_tail i)) (waiting ++ [i]) := by
  have now : (next HZ s (.list_add_tail i)).pc i = .add_timer := Function.update_self ..
  have same : ∀ j, j ≠ i → (next HZ s (.list_add_tail i)).pc j = s.pc j :=
    fun j hj => Function.update_of_ne hj ..
  have unlisted : (s.pc i).listed = false := by
    rw [hi]
    rfl
  have notListed : (s.pc i).listed ≠ true := by
    rw [unlisted]
    decide
  have outWaiting : i ∉ waiting := fun hm => notListed ((h.waits i).mp hm).1
  have outHead : i ∉ s.head := fun hm => notListed ((h.listed i).mp hm).1
  have unfired : i ∉ s.fired := by
    intro fired
    have returned := h.fired i fired
    rw [hi] at returned
    cases returned
  have append : ∀ {us : List ι}, i ∉ us → us.Nodup → (us ++ [i]).Nodup := by
    intro us out nodup
    rw [← List.concat_eq_append]
    exact List.Nodup.concat out nodup
  refine ⟨?_, append outWaiting h.nodup, fun j => ?_, fun j => ?_, h.once, fun j hj => ?_,
    fun j => ?_, append outHead h.distinct, fun j hj => ?_⟩
  · change (s.head ++ [i]).length = (waiting ++ [i]).length
    rw [List.length_append, List.length_append, h.length]
  · by_cases hj : j = i
    · subst hj
      rw [now]
      exact ⟨fun _ => ⟨rfl, unfired⟩, fun _ => by simp⟩
    · rw [same j hj, List.mem_append, List.mem_singleton, or_iff_left hj]
      exact h.waits j
  · by_cases hj : j = i
    · subst hj
      rw [now]
      have queued := h.queued j
      rw [hi] at queued
      exact ⟨fun hr => (by cases hr.2), fun hr => (by cases (queued.mpr hr).2)⟩
    · rw [same j hj, List.mem_append, List.mem_singleton, or_iff_left hj]
      exact h.queued j
  · have hji : j ≠ i := fun hji => unfired (hji ▸ hj)
    rw [same j hji]
    exact h.fired j hj
  · change j ∈ s.head ++ [i] ↔ _
    by_cases hj : j = i
    · subst hj
      rw [now]
      exact ⟨fun _ => ⟨rfl, fun freed => notListed (h.freed j freed)⟩, fun _ => by simp⟩
    · rw [same j hj, List.mem_append, List.mem_singleton, or_iff_left hj]
      exact h.listed j
  · by_cases hji : j = i
    · rw [hji, now]
      rfl
    · rw [same j hji]
      exact h.freed j hj

theorem outstanding_add_timer (HZ : Nat) {s : State ι} {waiting : List ι} {i : ι}
    (h : Outstanding s waiting) (hi : s.pc i = .add_timer) :
    Outstanding (next HZ s (.add_timer i)) waiting := by
  have now : (next HZ s (.add_timer i)).pc i = .returned := Function.update_self ..
  have same : ∀ j, j ≠ i → (next HZ s (.add_timer i)).pc j = s.pc j :=
    fun j hj => Function.update_of_ne hj ..
  have listed : ∀ j, ((next HZ s (.add_timer i)).pc j).listed = (s.pc j).listed :=
    update_tells Pc.listed (by rw [hi]; rfl)
  have waits : s.pc i ≠ .returned := by
    rw [hi]
    decide
  have inWaiting : i ∈ waiting :=
    (h.waits i).mpr ⟨by rw [hi]; rfl, fun fired => waits (h.fired i fired)⟩
  have away : i ∉ s.running.toList ++ s.queue := by
    intro hm
    refine waits ((h.queued i).mpr ?_).2
    obtain running | queued := List.mem_append.mp hm
    · exact Or.inr (Option.mem_toList.mp running)
    · exact Or.inl queued
  refine ⟨h.length, h.nodup, fun j => ?_, fun j => ?_, ?_, fun j hj => ?_, fun j => ?_, h.distinct,
    fun j hj => ?_⟩
  · rw [listed]
    exact h.waits j
  · change _ ↔ j ∈ enqueue s.expires i s.queue ∨ s.running = some j
    rw [mem_enqueue]
    by_cases hj : j = i
    · subst hj
      exact ⟨fun _ => Or.inl (Or.inl rfl), fun _ => ⟨inWaiting, now⟩⟩
    · rw [same j hj, or_iff_right hj]
      exact h.queued j
  · change (s.running.toList ++ enqueue s.expires i s.queue).Nodup
    have moved : (s.running.toList ++ enqueue s.expires i s.queue).Perm
        (i :: (s.running.toList ++ s.queue)) :=
      ((enqueue_perm s.queue).append_left _).trans List.perm_middle
    exact moved.nodup_iff.mpr (List.nodup_cons.mpr ⟨away, h.once⟩)
  · by_cases hji : j = i
    · rw [hji]
      exact now
    · rw [same j hji]
      exact h.fired j hj
  · rw [listed]
    exact h.listed j
  · rw [listed]
    exact h.freed j hj

theorem outstanding_expire (HZ : Nat) {s : State ι} {waiting : List ι} (h : Outstanding s waiting)
    (enabled : Enabled s .expire) : Outstanding (next HZ s .expire) waiting := by
  obtain ⟨idle, t, first, _⟩ := enabled
  obtain ⟨others, pending⟩ := List.head?_eq_some_iff.mp first
  have once := h.once
  rw [idle, pending] at once
  refine ⟨h.length, h.nodup, h.waits, fun j => (h.queued j).trans ?_, ?_, h.fired, h.listed,
    h.distinct, h.freed⟩
  · change j ∈ s.queue ∨ s.running = some j ↔ j ∈ s.queue.tail ∨ s.queue.head? = some j
    rw [idle, pending, List.mem_cons, List.tail_cons, List.head?_cons, Option.some.injEq, eq_comm]
    simp [or_comm]
  · change (s.queue.head?.toList ++ s.queue.tail).Nodup
    rw [pending]
    exact once

omit [DecidableEq ι] in
/-- While a timer runs there is an entry on the list. -/
theorem Outstanding.head_cons {s : State ι} {waiting : List ι} {t : ι} (h : Outstanding s waiting)
    (running : s.running = some t) : ∃ u us, s.head = u :: us := by
  have inWaiting := ((h.queued t).mpr (Or.inr running)).1
  have length := h.length
  cases head : s.head with
  | nil =>
    rw [head] at length
    exact absurd inWaiting (List.length_eq_zero_iff.mp length.symm ▸ List.not_mem_nil)
  | cons u us => exact ⟨u, us, rfl⟩

/-- The entry that a timer frees need not be its own; there is one entry less either way. -/
theorem outstanding_timer_func {s : State ι} {waiting : List ι} {t : ι} (h : Outstanding s waiting)
    (running : s.running = some t) : Outstanding (timer_func s t) (waiting.erase t) := by
  obtain ⟨inWaiting, returned⟩ := (h.queued t).mpr (Or.inr running)
  have once := h.once
  rw [running] at once
  have away : t ∉ s.queue := (List.nodup_cons.mp once).1
  have length := h.length
  obtain ⟨u, us, head⟩ := h.head_cons running
  have distinct := h.distinct
  rw [head] at distinct
  obtain ⟨out, rest⟩ := List.nodup_cons.mp distinct
  have tail : (timer_func s t).head = us := by
    simp only [timer_func, head, List.tail_cons]
  have freed : (timer_func s t).log.map Prod.snd = some u :: s.log.map Prod.snd := by
    simp only [timer_func, head, List.head?_cons, List.map_cons]
  have fired : (timer_func s t).fired = t :: s.fired := rfl
  refine ⟨?_, h.nodup.erase t, fun j => ?_, fun j => ?_, (List.nodup_cons.mp once).2,
    fun j hj => ?_, fun j => ?_, ?_, fun j hj => ?_⟩
  · rw [tail, List.length_erase_of_mem inWaiting, ← length, head]
    rfl
  · rw [h.nodup.mem_erase_iff, h.waits, fired, List.mem_cons, not_or, and_left_comm]
    rfl
  · rw [h.nodup.mem_erase_iff, and_assoc]
    refine (and_congr_right fun _ => h.queued j).trans ?_
    change j ≠ t ∧ (j ∈ s.queue ∨ s.running = some j) ↔ j ∈ s.queue ∨ none = some j
    rw [running]
    constructor
    · rintro ⟨differs, queued | own⟩
      · exact Or.inl queued
      · exact absurd (Option.some.inj own).symm differs
    · rintro (queued | own)
      · exact ⟨fun same => away (same ▸ queued), Or.inl queued⟩
      · cases own
  · rw [fired] at hj
    rcases List.mem_cons.mp hj with rfl | hj
    · exact returned
    · exact h.fired j hj
  · have before := h.listed j
    rw [head, List.mem_cons] at before
    rw [tail, freed, List.mem_cons, not_or, Option.some.injEq]
    constructor
    · intro hj
      have listed := before.mp (Or.inr hj)
      exact ⟨listed.1, fun same => out (same ▸ hj), listed.2⟩
    · rintro ⟨listed, differs, unfreed⟩
      exact (before.mpr ⟨listed, unfreed⟩).resolve_left differs
  · rw [tail]
    exact rest
  · rw [freed] at hj
    rcases List.mem_cons.mp hj with same | hj
    · have inHead : j ∈ s.head := by
        rw [head, Option.some.inj same]
        exact List.mem_cons_self
      exact ((h.listed j).mp inHead).1
    · exact h.freed j hj

theorem outstanding_next {HZ : Nat} {s : State ι} {waiting : List ι} {a : Act ι}
    (h : Outstanding s waiting) (enabled : Enabled s a) :
    ∃ waiting', Outstanding (next HZ s a) waiting' := by
  cases a with
  | kzalloc i => exact ⟨_, outstanding_kzalloc HZ h enabled⟩
  | list_add_tail i => exact ⟨_, outstanding_list_add_tail HZ h enabled⟩
  | add_timer i => exact ⟨_, outstanding_add_timer HZ h enabled⟩
  | tick => exact ⟨waiting, { h with }⟩
  | expire => exact ⟨_, outstanding_expire HZ h enabled⟩
  | timer_func =>
    obtain ⟨t, running⟩ := Option.ne_none_iff_exists'.mp enabled
    refine ⟨waiting.erase t, ?_⟩
    simp only [next, running]
    exact outstanding_timer_func h running

theorem outstanding_run {HZ jiffies : Nat} {as : List (Act ι)} {s : State ι}
    (h : Run (machine HZ) (init jiffies) as s) : ∃ waiting, Outstanding s waiting :=
  run_invariant (I := fun t => ∃ waiting, Outstanding t waiting) ⟨[], outstanding_init jiffies⟩
    (fun _ _ inv enabled => outstanding_next inv.choose_spec enabled) h

end

end DeviceDriverEx.MKtimer
